import Proofreader.Proofs.Respelling.Inside

/-! Steps that two readings take side by side: over spaces, arguments, strings and marks. They pass to places where they are
abreast again, or the first reading passes over the beginning of the slice. -/

namespace Proofreader.Markup

theorem Cursor.arguments_eq (s : Cursor) : s.arguments =
    if s.rest.head? = some '(' then
      (s.rest.tail.take (balancedLength '(' ')' 0 0 s.rest - 2), s.advance (balancedLength '(' ')' 0 0 s.rest))
    else ([], s) := by
  unfold arguments
  split
  · next heq => simp [heq]
  · next hne =>
    rw [if_neg fun hh => ?_]
    obtain ⟨r, hr⟩ := List.head?_eq_some_iff.1 hh
    exact hne r hr

theorem Cursor.skipContent_succ (s : Cursor) (fuel : Nat) : s.skipContent (fuel + 1) =
    if s.rest.head? = some '[' then (s.advance (balancedLength '[' ']' 0 0 s.rest)).skipContent fuel else s := by
  rw [skipContent]
  split
  · next heq => simp [heq]
  · next hne =>
    rw [if_neg fun hh => ?_]
    obtain ⟨r, hr⟩ := List.head?_eq_some_iff.1 hh
    exact hne r hr

namespace Respelling

variable {x : Respelling} {file : FileId} {s s' t t' u u' : Cursor} {m : Text} {n n' : Nat}

namespace Abreast

/-- Other fields than the place may change, in both readings alike. -/
theorem congr (hs : x.Abreast file s s') (hpast : t.past = s.past) (hrest : t.rest = s.rest) (hpos : t.pos = s.pos)
    (hpast' : t'.past = s'.past) (hrest' : t'.rest = s'.rest) (hpos' : t'.pos = s'.pos) (hscope : t'.scope = t.scope)
    (hdepth : t'.depth = t.depth) : x.Abreast file t t' := by
  refine ⟨hscope, hdepth, ?_⟩
  rcases hs.place with ⟨m, ha⟩ | hl
  · exact Or.inl ⟨m, ha.file, by rw [hpast, ha.before], by rw [hpos, hpast, ha.pos], by rw [hrest, ha.rest],
      by rw [hpast', hpast, ha.past'], by rw [hpos', hpos, ha.pos'], by rw [hrest', ha.rest']⟩
  · have hline := hl.line
    unfold Cursor.atLineStart at hline
    exact Or.inr ⟨fun hfile => hpos ▸ hl.behind hfile, by rw [hrest', hrest, hl.rest], by rw [hpos', hpos, hl.pos],
      by rw [hpast', hpast, hl.letter], by unfold Cursor.atLineStart; rw [hpast', hpast, hline]⟩

end Abreast

theorem Passes.congr (h : x.Passes file s t t') (hpast : u.past = t.past) (hrest : u.rest = t.rest) (hpos : u.pos = t.pos)
    (hasked : u.asked = t.asked) (hpast' : u'.past = t'.past) (hrest' : u'.rest = t'.rest) (hpos' : u'.pos = t'.pos)
    (hscope : u'.scope = u.scope) (hdepth : u'.depth = u.depth) : x.Passes file s u u' := by
  refine ⟨h.abreast.congr hpast hrest hpos hpast' hrest' hpos' hscope hdepth, ?_,
    h.reaches.trans (.same hpast hrest hpos (hasked ▸ List.prefix_rfl))⟩
  rw [← h.weight]
  unfold Respelling.weight
  rw [hpos, hasked]

namespace Abreast

variable (h : x.Neutral) (hs : x.Abreast file s s')
include h hs

theorem head?_iff {d : Char} (hd : isPlainLetter d = false) : s'.rest.head? = some d ↔ s.rest.head? = some d := by
  rcases hs.place with ⟨m, ha⟩ | hl
  · rw [ha.rest, ha.rest']
    cases m with
    | nil => exact iff_of_false (h.newStarts.head?_ne hd) (h.oldStarts.head?_ne hd)
    | cons c m => rfl
  · rw [hl.rest]

theorem nil_iff : s'.rest = [] ↔ s.rest = [] := by
  rcases hs.place with ⟨m, ha⟩ | hl
  · rw [ha.rest, ha.rest', List.append_eq_nil_iff, List.append_eq_nil_iff]
    exact iff_of_false (fun hn => h.newStarts.ne_nil hn.2) fun hn => h.oldStarts.ne_nil hn.2
  · rw [hl.rest]

/-- A stretch that ends in front of the slice is passed in both readings; one that ends later overruns it. -/
theorem step (hahead : ∀ m, x.Ahead file m s s' → (n ≤ m.length ∧ n' = n) ∨ m.length < n)
    (hlevel : s'.rest = s.rest → n' = n) :
    x.Overruns file s (s.advance n) ∨
      (n' = n ∧ s'.rest.take n = s.rest.take n ∧ x.Passes file s (s.advance n) (s'.advance n)) := by
  rcases hs.place with ⟨m, ha⟩ | hl
  · have hpos := ha.pos_add
    rcases hahead m ha with ⟨hle, heq⟩ | hlt
    · refine Or.inr ⟨heq, ?_, hs.passes_advance h fun _ => Or.inl (by omega)⟩
      rw [ha.rest, ha.rest', List.take_append_of_le_length hle, List.take_append_of_le_length hle]
    · refine Or.inl ⟨ha.file, by omega, ?_⟩
      have htail := List.length_pos_iff.2 h.oldStarts.ne_nil
      rw [Cursor.pos_advance, ha.rest, List.length_append]
      omega
  · exact Or.inr ⟨hlevel hl.rest, by rw [hl.rest], hs.passes_advance h fun hfile => Or.inr (hl.behind hfile)⟩

theorem passes_skipWhile {p : Char → Bool} (hp : ∀ c, isPlainLetter c = true → p c = false) :
    x.Passes file s (s.skipWhile p) (s'.skipWhile p) := by
  have hlength : (s'.rest.takeWhile p).length = (s.rest.takeWhile p).length := by
    rcases hs.place with ⟨m, ha⟩ | hl
    · rw [ha.rest, ha.rest', h.oldStarts.takeWhile hp, h.newStarts.takeWhile hp]
    · rw [hl.rest]
  rw [Cursor.skipWhile, Cursor.skipWhile, hlength]
  refine hs.passes_advance h fun hfile => ?_
  rcases hs.place with ⟨m, ha⟩ | hl
  · have hpos := ha.pos_add
    have hle := (List.takeWhile_prefix p (l := m)).length_le
    rw [ha.rest, h.oldStarts.takeWhile hp]
    exact Or.inl (by omega)
  · exact Or.inr (hl.behind hfile)

theorem step_skipLine : x.Overruns file s (s.skipWhile (· ≠ '\n')) ∨
    x.Passes file s (s.skipWhile (· ≠ '\n')) (s'.skipWhile (· ≠ '\n')) := by
  have hahead : ∀ m, x.Ahead file m s s' →
      ((s.rest.takeWhile (· ≠ '\n')).length ≤ m.length ∧
        (s'.rest.takeWhile (· ≠ '\n')).length = (s.rest.takeWhile (· ≠ '\n')).length) ∨
      m.length < (s.rest.takeWhile (· ≠ '\n')).length := fun m ha => by
    rw [ha.rest, ha.rest']
    cases hall : m.all (· ≠ '\n') with
    | false =>
      obtain ⟨hold, hlt⟩ := takeWhile_append_of_not_all hall x.oldTail
      rw [hold, (takeWhile_append_of_not_all hall x.newTail).1]
      exact Or.inl ⟨Nat.le_of_lt hlt, rfl⟩
    | true =>
      obtain ⟨c, r, hr, hc⟩ := h.oldStarts
      have hne := ne_of_isPlainLetter hc (d := '\n') (by decide)
      rw [takeWhile_append_of_all hall, hr, List.takeWhile_cons_of_pos (by simpa using hne), List.length_append, List.length_cons]
      exact Or.inr (by omega)
  unfold Cursor.skipWhile
  rcases hs.step h hahead fun hl => by rw [hl] with hover | ⟨heq, -, hpasses⟩
  · exact Or.inl hover
  · rw [heq]
    exact Or.inr hpasses

theorem step_balanced (opening closing : Char) :
    x.Overruns file s (s.advance (balancedLength opening closing 0 0 s.rest)) ∨
    (balancedLength opening closing 0 0 s'.rest = balancedLength opening closing 0 0 s.rest ∧
      s'.rest.take (balancedLength opening closing 0 0 s.rest) = s.rest.take (balancedLength opening closing 0 0 s.rest) ∧
      x.Passes file s (s.advance (balancedLength opening closing 0 0 s.rest))
        (s'.advance (balancedLength opening closing 0 0 s.rest))) := by
  refine hs.step h (fun m ha => ?_) fun hl => by rw [hl]
  rw [ha.rest, ha.rest']
  exact h.balancedLength_agree opening closing 0 0 m

theorem step_arguments : x.Overruns file s s.arguments.2 ∨
    (s'.arguments.1 = s.arguments.1 ∧ x.Passes file s s.arguments.2 s'.arguments.2) := by
  rw [Cursor.arguments_eq, Cursor.arguments_eq]
  simp only [hs.head?_iff h (d := '(') (by decide)]
  split
  · rcases hs.step_balanced h '(' ')' with hover | ⟨heq, htake, hpasses⟩
    · exact Or.inl hover
    · rw [heq]
      refine Or.inr ⟨?_, hpasses⟩
      generalize balancedLength '(' ')' 0 0 s.rest = n at htake ⊢
      have htail : ∀ r : Text, r.tail.take (n - 2) = ((r.take n).drop 1).take (n - 2) := fun r => by
        rw [List.drop_take, List.take_take, List.drop_one, Nat.min_eq_left (by omega)]
      rw [htail, htail, htake]
  · exact Or.inr ⟨rfl, .refl hs⟩

omit hs in
theorem step_skipContent {fuel fuel' : Nat} (hs : x.Abreast file s s') (hfuel : s.rest.length ≤ fuel)
    (hfuel' : s'.rest.length ≤ fuel') :
    x.Overruns file s (s.skipContent fuel) ∨ x.Passes file s (s.skipContent fuel) (s'.skipContent fuel') := by
  induction fuel generalizing s s' fuel' with
  | zero =>
    have hnil := List.length_eq_zero_iff.1 (Nat.le_zero.1 hfuel)
    have hstop : s'.skipContent fuel' = s' := by
      cases fuel' with
      | zero => rfl
      | succ fuel' => rw [Cursor.skipContent_succ, (hs.nil_iff h).2 hnil, if_neg (by simp)]
    rw [hstop]
    exact Or.inr (.refl hs)
  | succ fuel ih =>
    have hiff := hs.head?_iff h (d := '[') (by decide)
    by_cases hhead : s.rest.head? = some '['
    · have hne : s.rest ≠ [] := fun hnil => by simp [hnil] at hhead
      have hne' := mt (hs.nil_iff h).1 hne
      have hpos := balancedLength_pos '[' ']' 0 0 hne
      have hlength := List.length_pos_iff.2 hne
      have hlength' := List.length_pos_iff.2 hne'
      obtain ⟨fuel', rfl⟩ := Nat.exists_eq_add_of_lt (Nat.lt_of_lt_of_le hlength' hfuel')
      rw [Nat.zero_add] at hfuel' ⊢
      rw [Cursor.skipContent_succ, Cursor.skipContent_succ, if_pos hhead, if_pos (hiff.2 hhead)]
      rcases hs.step_balanced h '[' ']' with hover | ⟨heq, -, hpasses⟩
      · exact Or.inl (hover.after (Cursor.reaches_skipContent _ _))
      · rw [heq]
        have hrest : ∀ v : Cursor, (v.advance (balancedLength '[' ']' 0 0 s.rest)).rest.length =
            v.rest.length - balancedLength '[' ']' 0 0 s.rest := fun v => List.length_drop
        have hnext' : (s'.advance (balancedLength '[' ']' 0 0 s.rest)).rest.length ≤ fuel' := by rw [hrest]; omega
        rcases ih hpasses.abreast (by rw [hrest]; omega) hnext' with hover | hmore
        · exact Or.inl (hover.before hpasses.reaches)
        · exact Or.inr (hpasses.trans hmore)
    · have hstop : s'.skipContent fuel' = s' := by
        cases fuel' with
        | zero => rfl
        | succ fuel' => rw [Cursor.skipContent_succ, if_neg (mt hiff.1 hhead)]
      rw [hstop, Cursor.skipContent_succ, if_neg hhead]
      exact Or.inr (.refl hs)

/-- A word at the head that ends in front of the slice is the same in both readings. -/
theorem step_word {word? : Text → Option Text} {k : Nat}
    (hahead : ∀ m, x.Ahead file m s s' →
      (word? (m ++ x.newTail) = word? (m ++ x.oldTail) ∧ ∀ w ∈ word? (m ++ x.oldTail), w.length + k ≤ m.length) ∨
      ∃ w, word? (m ++ x.oldTail) = some w ∧ m.length < w.length + k) :
    (∃ w, word? s.rest = some w ∧ x.Overruns file s (s.advance (w.length + k))) ∨
    (word? s'.rest = word? s.rest ∧
      ∀ w ∈ word? s.rest, x.Passes file s (s.advance (w.length + k)) (s'.advance (w.length + k))) := by
  rcases hs.place with ⟨m, ha⟩ | hl
  · have hpos := ha.pos_add
    have hagree := hahead m ha
    rw [← ha.rest, ← ha.rest'] at hagree
    rcases hagree with ⟨heq, hle⟩ | ⟨w, hw, hlt⟩
    · exact Or.inr ⟨heq, fun w hw => hs.passes_advance h fun _ => Or.inl (by have := hle w hw; omega)⟩
    · refine Or.inl ⟨w, hw, ha.file, by omega, ?_⟩
      have htail := List.length_pos_iff.2 h.oldStarts.ne_nil
      rw [Cursor.pos_advance, ha.rest, List.length_append]
      omega
  · rw [hl.rest]
    exact Or.inr ⟨rfl, fun w _ => hs.passes_advance h fun hfile => Or.inr (hl.behind hfile)⟩

theorem step_string : (∃ w, string? s.rest = some w ∧ x.Overruns file s (s.advance (w.length + 2))) ∨
    (string? s'.rest = string? s.rest ∧
      ∀ w ∈ string? s.rest, x.Passes file s (s.advance (w.length + 2)) (s'.advance (w.length + 2))) :=
  hs.step_word h fun m _ => h.string_agree m

/-- Behind `#set` and blanks. -/
theorem step_target {tabs : Text} (htabs : tabs.all isTab = true) (hpast : ("#set".toList ++ tabs) <:+ s.past.reverse) :
    (∃ w, name? s.rest = some w ∧ x.Overruns file s (s.advance w.length)) ∨
    (name? s'.rest = name? s.rest ∧
      ∀ w ∈ name? s.rest, x.Passes file s (s.advance w.length) (s'.advance w.length)) := by
  refine hs.step_word h (k := 0) fun m ha => h.name_agree fun hall hnew => ?_
  obtain ⟨earlier, hearlier⟩ := hpast
  refine h.name ⟨earlier, "#set".toList ++ tabs, m, ?_, ?_, Or.inr (Or.inr ⟨tabs, htabs, rfl⟩)⟩ hnew
  · rw [ha.before, ← hearlier]
  · refine List.all_eq_true.2 fun c hc => ?_
    have := List.all_eq_true.1 hall c hc
    simp only [isNamePart, isKeyPart, Bool.or_eq_true] at this ⊢
    tauto

theorem step_setRule (hpast : "#set".toList <:+ s.past.reverse) :
    x.Overruns file s (setRule s) ∨ x.Passes file s (setRule s) (setRule s') := by
  have htabs := hs.passes_skipWhile h (p := isTab) fun c hc => isTab_of_isPlainLetter hc
  have hname : ("#set".toList ++ s.rest.takeWhile isTab) <:+ (s.skipWhile isTab).past.reverse := by
    have htake : s.rest.take (s.rest.takeWhile isTab).length = s.rest.takeWhile isTab :=
      (List.prefix_iff_eq_take.1 (List.takeWhile_prefix isTab)).symm
    obtain ⟨earlier, hearlier⟩ := hpast
    refine ⟨earlier, ?_⟩
    simp only [Cursor.skipWhile, Cursor.advance, htake, List.reverse_append, List.reverse_reverse, ← hearlier,
      List.append_assoc]
  have hscope : ∀ (v : Cursor) (w args : Text),
      v.Reaches (if w = "text".toList then { v with scope := Scope.withArguments v.scope args } else v) := fun v w args => by
    split
    · exact .same rfl rfl rfl List.prefix_rfl
    · exact .refl v
  unfold setRule
  dsimp only
  rcases htabs.abreast.step_target h (List.all_takeWhile) hname with ⟨w, hw, hover⟩ | ⟨heq, hpasses⟩
  · rw [hw]
    exact Or.inl ((hover.before htabs.reaches).after ((Cursor.reaches_arguments _).trans (hscope _ w _)))
  · rw [heq]
    cases hw : name? (s.skipWhile isTab).rest with
    | none => exact Or.inr htabs
    | some w =>
      have hword := htabs.trans (hpasses w hw)
      rcases hword.abreast.step_arguments h with hover | ⟨hargs, hdone⟩
      · exact Or.inl ((hover.before hword.reaches).after (hscope _ w _))
      · have hend := hword.trans hdone
        dsimp only
        rw [hargs]
        split
        · exact Or.inr (hend.congr rfl rfl rfl rfl rfl rfl rfl (by rw [hend.abreast.scope]) hend.abreast.depth)
        · exact Or.inr hend

end Abreast

/-- The marks that both readings come to. -/
inductive MarkStep (x : Respelling) (file : FileId) (s s' : Cursor) : Option Mark → Option Mark → Prop
  | pass {mark : Mark} : mark.extent s'.rest = mark.extent s.rest →
      s'.rest.take (mark.extent s.rest) = s.rest.take (mark.extent s.rest) →
      x.Passes file s (s.advance (mark.extent s.rest)) (s'.advance (mark.extent s.rest)) → MarkStep x file s s' (some mark) (some mark)
  /-- The mark takes the beginning of the slice. -/
  | fail {mark : Mark} {o : Option Mark} : x.Overruns file s (s.advance (mark.extent s.rest)) → MarkStep x file s s' (some mark) o
  | none : MarkStep x file s s' none none

theorem Abreast.step_mark (h : x.Neutral) (hs : x.Abreast file s s') : MarkStep x file s s' s.mark? s'.mark? := by
  unfold Cursor.mark?
  rcases hs.place with ⟨m, ha⟩ | hl
  · have hpos := ha.pos_add
    cases m with
    | nil =>
      obtain ⟨c, r, hr, hc⟩ := h.oldStarts
      obtain ⟨d, v, hv, hd⟩ := h.newStarts
      rw [ha.rest, ha.rest', List.nil_append, List.nil_append, hr, hv, mark?_of_isPlainLetter hc, mark?_of_isPlainLetter hd]
      exact .none
    | cons c m =>
      have hagree := h.mark_agree ha.suffix s.past.head?
      rw [← List.cons_append, ← List.cons_append, ← ha.rest, ← ha.rest', ← List.length_cons (a := c), ← ha.past'] at hagree
      rw [← ha.past']
      generalize Markup.mark? s'.past.head? s.rest = o at hagree ⊢
      generalize Markup.mark? s'.past.head? s'.rest = o' at hagree ⊢
      cases hagree with
      | front hle heq =>
        refine .pass heq ?_ (hs.passes_advance h fun _ => Or.inl (by omega))
        rw [ha.rest, ha.rest'] at *
        rw [List.take_append_of_le_length hle, List.take_append_of_le_length hle]
      | behind hlt =>
        refine .fail ⟨ha.file, by omega, ?_⟩
        have htail := List.length_pos_iff.2 h.oldStarts.ne_nil
        have hlength : s.rest.length = (c :: m).length + x.oldTail.length := by rw [ha.rest, List.length_append]
        rw [Cursor.pos_advance]
        omega
      | nowhere => exact .none
  · rw [hl.rest, mark?_congr hl.letter]
    cases Markup.mark? s.past.head? s.rest with
    | none => exact .none
    | some mark =>
      refine .pass (by rw [hl.rest]) (by rw [hl.rest]) (hs.passes_advance h fun hfile => Or.inr (hl.behind hfile))

end Respelling

end Proofreader.Markup
