import Mathlib.Data.List.TakeWhile
import Proofreader.Proofs.Respelling.Slice

/-! The marks in front of a slice that is respelled. A mark that ends before the slice is the same after, and a mark that
is new after would have to reach into the letters, which complete none. -/

namespace Proofreader.Markup

/-- The length of raw text with its backticks. -/
def rawLength (t : Text) : Nat :=
  if fence.isPrefixOf t then (Text.find fence (t.drop 3)).getD (t.drop 3).length + 6
  else (t.tail.takeWhile (· ≠ '`')).length + 2

/-- How much of the text a mark takes before any content is read. -/
def Mark.extent (t : Text) : Mark → Nat
  | .escape none => 1
  | .escape (some _) => 2
  | .comment n => n
  | .math inside => inside + 2
  | .raw => rawLength t
  | .delimiter _ => 1
  | .citation key => key.length + 1
  | .label n => n
  | .call name => name.length + 1

/-- A mark that ends within the first `k` characters of one text begins the other one too, and there is none in the
other if there is none in the first. -/
inductive MarkAgree (k : Nat) (t t' : Text) : Option Mark → Option Mark → Prop
  | front {mark : Mark} : mark.extent t ≤ k → mark.extent t' = mark.extent t → MarkAgree k t t' (some mark) (some mark)
  | behind {mark : Mark} {o : Option Mark} : k < mark.extent t → MarkAgree k t t' (some mark) o
  | nowhere : MarkAgree k t t' none none

section TakeWhile

variable {p : Char → Bool} {m : Text}

theorem takeWhile_append_of_all (h : m.all p = true) (u : Text) : (m ++ u).takeWhile p = m ++ u.takeWhile p :=
  List.takeWhile_append_of_pos fun c hc => List.all_eq_true.1 h c hc

theorem dropWhile_append_of_all (h : m.all p = true) (u : Text) : (m ++ u).dropWhile p = u.dropWhile p :=
  List.dropWhile_append_of_pos fun c hc => List.all_eq_true.1 h c hc

theorem exists_dropWhile (h : m.all p = false) : ∃ c r, c ∈ m ∧ m.dropWhile p = c :: r := by
  cases hdrop : m.dropWhile p with
  | nil =>
    rw [List.all_eq_true.2 (List.dropWhile_eq_nil_iff.1 hdrop)] at h
    cases h
  | cons c r => exact ⟨c, r, (List.dropWhile_suffix p).subset (by simp [hdrop]), rfl⟩

/-- Leaving out the end of a text leaves what stands before a character that stays. -/
theorem lt_length_dropTailWhile {c : Char} (hc : p c = false) (m u : Text) :
    m.length < (Text.dropTailWhile p (m ++ c :: u)).length := by
  have hmem : c ∈ (u.reverse ++ c :: m.reverse) := by simp
  have hdrop : (u.reverse ++ c :: m.reverse).dropWhile p = u.reverse.dropWhile p ++ c :: m.reverse := by
    rw [List.dropWhile_append]
    split
    · next h => rw [List.isEmpty_iff.1 h, List.dropWhile_cons_of_neg (by simp [hc]), List.nil_append]
    · rfl
  simp only [Text.dropTailWhile, List.reverse_append, List.reverse_cons, List.append_assoc, List.singleton_append, hdrop,
    List.length_append, List.length_reverse, List.length_cons]
  omega

theorem length_dropTailWhile_le (t : Text) : (Text.dropTailWhile p t).length ≤ t.length := by
  have := (List.dropWhile_suffix p (l := t.reverse)).length_le
  rw [Text.dropTailWhile, List.length_reverse]
  rwa [List.length_reverse] at this

theorem drop_length_takeWhile (t : Text) : t.drop (t.takeWhile p).length = t.dropWhile p := by
  calc t.drop (t.takeWhile p).length
      = (t.takeWhile p ++ t.dropWhile p).drop (t.takeWhile p).length := by rw [List.takeWhile_append_dropWhile]
    _ = t.dropWhile p := List.drop_left

end TakeWhile

theorem mark?_of_ne {c : Char} (hc : ∀ d ∈ ['\\', '/', '$', '`', '*', '_', '@', '<', '#'], c ≠ d) (before : Option Char)
    (r : Text) : mark? before (c :: r) = none := by
  unfold mark?
  split <;> simp_all

theorem mark?_of_isPlainLetter {c : Char} (hc : isPlainLetter c = true) (before : Option Char) (r : Text) :
    mark? before (c :: r) = none :=
  mark?_of_ne (fun _ hd => ne_of_isPlainLetter hc
    (forall_not_isPlainLetter (by decide) _ hd)) before r

namespace Respelling.Neutral

variable {x : Respelling} (h : x.Neutral)
include h

theorem escape_agree (m : Text) (before : Option Char) : MarkAgree (m.length + 1) ('\\' :: (m ++ x.oldTail)) ('\\' :: (m ++ x.newTail))
    (mark? before ('\\' :: (m ++ x.oldTail))) (mark? before ('\\' :: (m ++ x.newTail))) := by
  cases m with
  | nil =>
    obtain ⟨c, r, hr, hc⟩ := h.oldStarts
    simp only [List.nil_append, mark?, hr, List.head?_cons]
    rw [Option.filter_some, isSpace_of_isPlainLetter hc]
    exact .behind (Nat.lt_succ_self 1)
  | cons e m =>
    simp only [List.cons_append, mark?, List.head?_cons]
    generalize Option.filter (fun c => !isSpace c) (some e) = o
    cases o with
    | none => exact .front (Nat.succ_le_succ (Nat.zero_le _)) rfl
    | some e => exact .front (Nat.succ_le_succ (Nat.succ_le_succ (Nat.zero_le _))) rfl

theorem commentLength_agree {e : Char} (he : e = '/' ∨ e = '*') (m : Text) :
    (commentLength ('/' :: e :: (m ++ x.oldTail)) ≤ m.length + 2 ∧
      commentLength ('/' :: e :: (m ++ x.newTail)) = commentLength ('/' :: e :: (m ++ x.oldTail))) ∨
    m.length + 2 < commentLength ('/' :: e :: (m ++ x.oldTail)) := by
  have hpos := List.length_pos_iff.2 h.oldStarts.ne_nil
  rcases he with rfl | rfl
  · have hline : ∀ t, commentLength ('/' :: '/' :: t) = (t.takeWhile (· ≠ '\n')).length + 2 := fun t => rfl
    rw [hline, hline]
    cases hall : m.all (· ≠ '\n') with
    | false =>
      obtain ⟨hold, hlt⟩ := takeWhile_append_of_not_all hall x.oldTail
      rw [hold, (takeWhile_append_of_not_all hall x.newTail).1]
      exact Or.inl ⟨by omega, rfl⟩
    | true =>
      obtain ⟨c, r, hr, hc⟩ := h.oldStarts
      have hne := ne_of_isPlainLetter hc (d := '\n') (by decide)
      rw [takeWhile_append_of_all hall, hr, List.takeWhile_cons_of_pos (by simpa using hne), List.length_append, List.length_cons]
      omega
  · simp only [commentLength]
    rcases h.find_agree (forall_not_isPlainLetter (t := ['*', '/']) (by decide)) m with ⟨n, hn, hold, hnew⟩ | hbehind
    · rw [hold, hnew]
      exact Or.inl ⟨by simpa using hn, rfl⟩
    · cases hfind : Text.find ['*', '/'] (m ++ x.oldTail) with
      | none =>
        simp only [List.length_cons, List.length_append]
        omega
      | some n =>
        have := hbehind n hfind
        dsimp only
        omega

theorem comment_agree (m : Text) (before : Option Char) : MarkAgree (m.length + 1) ('/' :: (m ++ x.oldTail)) ('/' :: (m ++ x.newTail))
    (mark? before ('/' :: (m ++ x.oldTail))) (mark? before ('/' :: (m ++ x.newTail))) := by
  cases m with
  | nil =>
    have hnone : ∀ u, Starts u → mark? before ('/' :: u) = none := fun u hu => by
      simp only [mark?]
      rw [if_neg (not_or.2 ⟨hu.head?_ne (by decide), hu.head?_ne (by decide)⟩)]
    rw [List.nil_append, List.nil_append, hnone _ h.oldStarts, hnone _ h.newStarts]
    exact .nowhere
  | cons e m =>
    simp only [List.cons_append, mark?, List.head?_cons, Option.some.injEq]
    split
    · next he =>
      rcases h.commentLength_agree he m with ⟨hle, heq⟩ | hlt
      · rw [heq]
        exact .front hle rfl
      · exact .behind hlt
    · exact .nowhere

theorem math_agree (m : Text) (before : Option Char) : MarkAgree (m.length + 1) ('$' :: (m ++ x.oldTail)) ('$' :: (m ++ x.newTail))
    (mark? before ('$' :: (m ++ x.oldTail))) (mark? before ('$' :: (m ++ x.newTail))) := by
  have hagree := h.findCloser_agree (show isPlainLetter '$' = false by decide) m
  simp only [mark?]
  generalize findCloser '$' (m ++ x.oldTail) = o at hagree ⊢
  generalize findCloser '$' (m ++ x.newTail) = o' at hagree ⊢
  cases hagree with
  | front hn => exact .front (Nat.succ_le_succ hn) rfl
  | behind hn _ => exact .behind (Nat.succ_lt_succ (Nat.lt_succ_of_le hn))
  | nowhere => exact .nowhere

theorem delimiter_agree {c : Char} (hletter : isPlainLetter c = false) (hc : c ∉ x.old) (m : Text) :
    (findCloser c (m ++ x.oldTail)).isSome = (findCloser c (m ++ x.newTail)).isSome := by
  have hagree := h.findCloser_agree hletter m
  generalize findCloser c (m ++ x.oldTail) = o at hagree ⊢
  generalize findCloser c (m ++ x.newTail) = o' at hagree ⊢
  cases hagree with
  | front hn => rfl
  | behind hn halso =>
    obtain ⟨n', -, rfl⟩ := halso hc
    rfl
  | nowhere => rfl

theorem strong_agree (m : Text) (before : Option Char) : MarkAgree (m.length + 1) ('*' :: (m ++ x.oldTail)) ('*' :: (m ++ x.newTail))
    (mark? before ('*' :: (m ++ x.oldTail))) (mark? before ('*' :: (m ++ x.newTail))) := by
  simp only [mark?, h.delimiter_agree (c := '*') (by decide) (h.plain '*' (by simp)) m]
  split
  · exact .front (Nat.succ_le_succ (Nat.zero_le _)) rfl
  · exact .nowhere

theorem emph_agree (m : Text) (before : Option Char) : MarkAgree (m.length + 1) ('_' :: (m ++ x.oldTail)) ('_' :: (m ++ x.newTail))
    (mark? before ('_' :: (m ++ x.oldTail))) (mark? before ('_' :: (m ++ x.newTail))) := by
  simp only [mark?, h.delimiter_agree (c := '_') (by decide) (h.plain '_' (by simp)) m]
  split
  · exact .nowhere
  · split
    · exact .front (Nat.succ_le_succ (Nat.zero_le _)) rfl
    · exact .nowhere

theorem rawLength_agree {m : Text} (hm : '`' ∈ m) :
    (rawLength ('`' :: (m ++ x.oldTail)) ≤ m.length + 1 ∧
      rawLength ('`' :: (m ++ x.newTail)) = rawLength ('`' :: (m ++ x.oldTail))) ∨
    m.length + 1 < rawLength ('`' :: (m ++ x.oldTail)) := by
  have hfence : ∀ c ∈ fence, isPlainLetter c = false := forall_not_isPlainLetter (by decide)
  have hold := h.oldStarts.isPrefixOf (m := '`' :: m) hfence
  have hnew := h.newStarts.isPrefixOf (m := '`' :: m) hfence
  rw [List.cons_append] at hold hnew
  simp only [rawLength, hold, hnew, List.tail_cons]
  split
  · next hprefix =>
    have hlength : 3 ≤ ('`' :: m).length := (List.isPrefixOf_iff_prefix.1 hprefix).length_le
    have hdrop : ∀ u, ('`' :: (m ++ u)).drop 3 = ('`' :: m).drop 3 ++ u := fun u => by
      rw [← List.cons_append, List.drop_append_of_le_length hlength]
    have hrest : (('`' :: m).drop 3).length = m.length + 1 - 3 := by rw [List.length_drop, List.length_cons]
    rw [List.length_cons] at hlength
    rw [hdrop, hdrop]
    rcases h.find_agree hfence (('`' :: m).drop 3) with ⟨n, hn, ho, hw⟩ | hbehind
    · have hthree : fence.length = 3 := rfl
      rw [ho, hw]
      exact Or.inl ⟨by rw [Option.getD_some]; omega, rfl⟩
    · have hpos := List.length_pos_iff.2 h.oldStarts.ne_nil
      refine Or.inr ?_
      cases hfind : Text.find fence (('`' :: m).drop 3 ++ x.oldTail) with
      | none =>
        rw [Option.getD_none, List.length_append]
        omega
      | some n =>
        have := hbehind n hfind
        rw [Option.getD_some]
        omega
  · have hall : m.all (· ≠ '`') = false := by simpa using hm
    obtain ⟨ho, hlt⟩ := takeWhile_append_of_not_all hall x.oldTail
    rw [ho, (takeWhile_append_of_not_all hall x.newTail).1]
    exact Or.inl ⟨by omega, rfl⟩

theorem raw_agree (m : Text) (before : Option Char) : MarkAgree (m.length + 1) ('`' :: (m ++ x.oldTail)) ('`' :: (m ++ x.newTail))
    (mark? before ('`' :: (m ++ x.oldTail))) (mark? before ('`' :: (m ++ x.newTail))) := by
  by_cases hm : '`' ∈ m
  · have hcontains : ∀ u : Text, (m ++ u).contains '`' = true := fun u => by simp [hm]
    simp only [mark?, hcontains, if_true]
    rcases h.rawLength_agree hm with ⟨hle, heq⟩ | hlt
    · exact .front hle heq
    · exact .behind hlt
  · by_cases hold : '`' ∈ x.oldTail
    · have hcontains : (m ++ x.oldTail).contains '`' = true := by simp [hold]
      have hnofence : ¬ fence.isPrefixOf ('`' :: (m ++ x.oldTail)) = true := by
        rw [← List.cons_append, h.oldStarts.isPrefixOf (forall_not_isPlainLetter (by decide))]
        cases m with
        | nil => decide
        | cons e m =>
          have hne : '`' ≠ e := fun he => hm (List.mem_cons.2 (Or.inl he))
          simp [fence, List.isPrefixOf, hne]
      obtain ⟨c, r, hr, hc⟩ := h.oldStarts
      have hne := ne_of_isPlainLetter hc (d := '`') (by decide)
      have hall : m.all (· ≠ '`') = true := List.all_eq_true.2 fun c hc => decide_eq_true fun he => hm (he ▸ hc)
      simp only [mark?, hcontains, if_true]
      refine .behind ?_
      rw [Mark.extent, rawLength, if_neg hnofence, List.tail_cons, takeWhile_append_of_all hall, hr,
        List.takeWhile_cons_of_pos (by simpa using hne), List.length_append, List.length_cons]
      omega
    · have hnew : '`' ∉ x.newTail := by
        have hletters := h.notMem_new (c := '`') (by decide)
        simp only [Respelling.oldTail, Respelling.newTail, List.mem_append, not_or] at hold ⊢
        exact ⟨hletters, hold.2⟩
      have hcontains : ∀ u : Text, '`' ∉ u → (m ++ u).contains '`' = false := fun u hu => by simp [hm, hu]
      simp only [mark?, hcontains _ hold, hcontains _ hnew]
      exact .nowhere

/-- Where a key or name goes on into the slice it does so in the first text, as the letters complete none. -/
theorem word_agree {p : Char → Bool} (hp : ∀ c, isPlainLetter c = true → p c = isKeyPart c) {m : Text}
    (hname : m.all p = true → x.new.head?.any isKeyPart = true → x.old.head?.any isKeyPart = true) :
    ((m ++ x.newTail).takeWhile p = (m ++ x.oldTail).takeWhile p ∧ ((m ++ x.oldTail).takeWhile p).length ≤ m.length) ∨
    ∃ c u, isPlainLetter c = true ∧ (m ++ x.oldTail).takeWhile p = m ++ c :: u := by
  cases hall : m.all p with
  | false =>
    obtain ⟨hold, hlt⟩ := takeWhile_append_of_not_all hall x.oldTail
    rw [hold, (takeWhile_append_of_not_all hall x.newTail).1]
    exact Or.inl ⟨rfl, Nat.le_of_lt hlt⟩
  | true =>
    obtain ⟨c, r, hr, hc⟩ := h.starts
    obtain ⟨d, v, hv⟩ := List.exists_cons_of_ne_nil h.ne
    have hd := h.letters d (by simp [hv])
    have hname' := hname hall
    simp only [hr, hv, List.head?_cons, Option.any_some] at hname'
    simp only [takeWhile_append_of_all hall, oldTail, newTail, hr, hv, List.cons_append, List.takeWhile_cons, hp c hc, hp d hd]
    cases hkey : isKeyPart c with
    | true => exact Or.inr ⟨c, _, hc, rfl⟩
    | false =>
      have hkey' : isKeyPart d = false := by
        by_contra hne
        rw [hname' (by simpa using hne)] at hkey
        cases hkey
      simp [hkey']

theorem name_of_open {m : Text} {p : Char → Bool} (hp : ∀ c, p c = true → isKeyPart c = true) {mark : Char}
    (hmark : mark = '@' ∨ mark = '#') (hbefore : (mark :: m) <:+ x.before) (hall : m.all p = true)
    (hnew : x.new.head?.any isKeyPart = true) : x.old.head?.any isKeyPart = true := by
  obtain ⟨earlier, hearlier⟩ := hbefore
  refine h.name ⟨earlier, [mark], m, by simp [← hearlier], ?_, ?_⟩ hnew
  · exact List.all_eq_true.2 fun c hc => hp c (List.all_eq_true.1 hall c hc)
  · rcases hmark with rfl | rfl
    · exact Or.inl rfl
    · exact Or.inr (Or.inl rfl)

theorem citation_agree {m : Text} (hbefore : ('@' :: m) <:+ x.before) (before : Option Char) :
    MarkAgree (m.length + 1) ('@' :: (m ++ x.oldTail)) ('@' :: (m ++ x.newTail))
      (mark? before ('@' :: (m ++ x.oldTail))) (mark? before ('@' :: (m ++ x.newTail))) := by
  have hopen := h.name_of_open (p := isKeyPart) (fun _ hc => hc) (Or.inl rfl) hbefore
  simp only [mark?]
  split
  · exact .nowhere
  · cases m with
    | nil =>
      obtain ⟨c, r, hr, hc⟩ := h.starts
      obtain ⟨d, v, hv⟩ := List.exists_cons_of_ne_nil h.ne
      have hd := h.letters d (by simp [hv])
      have hname := hopen rfl
      have hlast : ∀ e, isPlainLetter e = true → ¬ e = '_' := fun e he => ne_of_isPlainLetter he (by decide)
      simp only [hr, hv, List.head?_cons, Option.any_some, isKeyPart_of_isPlainLetter hc, isKeyPart_of_isPlainLetter hd] at hname
      simp only [oldTail, newTail, hr, hv, List.nil_append, List.cons_append, citationKey?, isAlphanum_of_isPlainLetter hc,
        isAlphanum_of_isPlainLetter hd, hlast c hc, hlast d hd, decide_false, Bool.or_false]
      cases halpha : c.isAlpha with
      | true =>
        have hpos := lt_length_dropTailWhile (p := fun d => d = '.' || d = ':') (c := c)
          (by simp [ne_of_isPlainLetter hc (d := '.') (by decide), ne_of_isPlainLetter hc (d := ':') (by decide)])
          [] ((r ++ x.after).takeWhile isKeyPart)
        exact .behind (Nat.succ_lt_succ hpos)
      | false =>
        have halpha' : d.isAlpha = false := by
          by_contra hne
          rw [hname (by simpa using hne)] at halpha
          cases halpha
        rw [halpha']
        exact .nowhere
    | cons e m =>
      simp only [List.cons_append, citationKey?]
      split
      · next he =>
        have hkey : isKeyPart e = true := by
          simp only [isKeyPart, Bool.or_eq_true] at he ⊢
          tauto
        rcases h.word_agree (p := isKeyPart) (fun _ _ => rfl) (m := m) fun hall =>
          hopen (by rw [List.all_cons, hkey, hall, Bool.and_true]) with ⟨heq, hle⟩ | ⟨c, u, hc, heq⟩
        · rw [heq]
          refine .front ?_ rfl
          have := length_dropTailWhile_le (p := fun d => d = '.' || d = ':') (e :: (m ++ x.oldTail).takeWhile isKeyPart)
          rw [List.length_cons] at this
          simp only [Mark.extent, List.length_cons]
          omega
        · rw [heq]
          have := lt_length_dropTailWhile (p := fun d => d = '.' || d = ':') (c := c)
            (by simp [ne_of_isPlainLetter hc (d := '.') (by decide), ne_of_isPlainLetter hc (d := ':') (by decide)])
            (e :: m) u
          exact .behind (Nat.succ_lt_succ this)
      · exact .nowhere

theorem label_agree {m : Text} (hbefore : ('<' :: m) <:+ x.before) (before : Option Char) :
    MarkAgree (m.length + 1) ('<' :: (m ++ x.oldTail)) ('<' :: (m ++ x.newTail))
      (mark? before ('<' :: (m ++ x.oldTail))) (mark? before ('<' :: (m ++ x.newTail))) := by
  simp only [mark?, labelLength?]
  cases hall : m.all isKeyPart with
  | false =>
    obtain ⟨hold, hlt⟩ := takeWhile_append_of_not_all hall x.oldTail
    obtain ⟨c, r, -, hcr⟩ := exists_dropWhile hall
    have hdrop : ∀ u, ((m ++ u).drop (m.takeWhile isKeyPart).length).head? = some c := fun u => by
      rw [List.drop_append_of_le_length (Nat.le_of_lt hlt), drop_length_takeWhile, hcr, List.cons_append, List.head?_cons]
    rw [hold, (takeWhile_append_of_not_all hall x.newTail).1, hdrop, hdrop]
    split
    · exact .front (Nat.succ_le_succ (Nat.succ_le_of_lt hlt)) rfl
    · exact .nowhere
  | true =>
    obtain ⟨earlier, hearlier⟩ := hbefore
    have hopen := h.label ⟨earlier, m, hearlier.symm, hall⟩
    have hnew : ((m ++ x.newTail).drop ((m ++ x.newTail).takeWhile isKeyPart).length).head? ≠ some '>' := by
      rw [drop_length_takeWhile, dropWhile_append_of_all hall, newTail]
      cases hkeys : x.new.all isKeyPart with
      | true =>
        rw [dropWhile_append_of_all hkeys]
        exact hopen hkeys
      | false =>
        obtain ⟨c, v, hc, hdrop⟩ := exists_dropWhile hkeys
        rw [List.dropWhile_append, hdrop, if_neg (by simp), List.cons_append, List.head?_cons]
        exact fun he => ne_of_isPlainLetter (h.letters c hc) (by decide) (Option.some.inj he)
    rw [if_neg fun hn : 0 < ((m ++ x.newTail).takeWhile isKeyPart).length ∧ _ => hnew hn.2]
    split
    · refine .behind ?_
      rw [takeWhile_append_of_all hall, List.length_append]
      simp only [Mark.extent]
      omega
    · exact .nowhere

/-- A name that ends in front of the slice is the same in both texts. -/
theorem name_agree {m : Text}
    (hopen : m.all isNamePart = true → x.new.head?.any isKeyPart = true → x.old.head?.any isKeyPart = true) :
    (name? (m ++ x.newTail) = name? (m ++ x.oldTail) ∧ ∀ w ∈ name? (m ++ x.oldTail), w.length ≤ m.length) ∨
    ∃ w, name? (m ++ x.oldTail) = some w ∧ m.length < w.length := by
  cases m with
  | nil =>
    obtain ⟨c, r, hr, hc⟩ := h.starts
    obtain ⟨d, v, hv⟩ := List.exists_cons_of_ne_nil h.ne
    have hd := h.letters d (by simp [hv])
    have hname := hopen rfl
    simp only [hr, hv, List.head?_cons, Option.any_some, isKeyPart_of_isPlainLetter hc, isKeyPart_of_isPlainLetter hd] at hname
    simp only [oldTail, newTail, hr, hv, List.nil_append, List.cons_append, name?, isNameStart_of_isPlainLetter hc,
      isNameStart_of_isPlainLetter hd]
    cases halpha : c.isAlpha with
    | true => exact Or.inr ⟨_, rfl, Nat.succ_pos _⟩
    | false =>
      have halpha' : d.isAlpha = false := by
        by_contra hne
        rw [hname (by simpa using hne)] at halpha
        cases halpha
      simp [halpha']
  | cons e m =>
    simp only [List.cons_append, name?]
    split
    · next he =>
      have hpart : isNamePart e = true := by
        simp only [isNameStart, isNamePart, Char.isAlphanum, Bool.or_eq_true] at he ⊢
        tauto
      rcases h.word_agree (p := isNamePart)
        (fun c hc => (isNamePart_of_isPlainLetter hc).trans (isKeyPart_of_isPlainLetter hc).symm) (m := m) fun hall =>
        hopen (by rw [List.all_cons, hpart, hall, Bool.and_true]) with ⟨heq, hle⟩ | ⟨c, u, hc, heq⟩
      · rw [heq]
        exact Or.inl ⟨rfl, by simpa using hle⟩
      · rw [heq]
        exact Or.inr ⟨_, rfl, by simp⟩
    · exact Or.inl ⟨rfl, by simp⟩

theorem call_agree {m : Text} (hbefore : ('#' :: m) <:+ x.before) (before : Option Char) :
    MarkAgree (m.length + 1) ('#' :: (m ++ x.oldTail)) ('#' :: (m ++ x.newTail))
      (mark? before ('#' :: (m ++ x.oldTail))) (mark? before ('#' :: (m ++ x.newTail))) := by
  have hpart : ∀ c, isNamePart c = true → isKeyPart c = true := by
    intro c hc
    simp only [isNamePart, isKeyPart, Bool.or_eq_true] at hc ⊢
    tauto
  simp only [mark?]
  rcases h.name_agree (h.name_of_open hpart (Or.inr rfl) hbefore) with ⟨heq, hle⟩ | ⟨w, hw, hlt⟩
  · rw [heq]
    cases hname : name? (m ++ x.oldTail) with
    | none => exact .nowhere
    | some w => exact .front (Nat.succ_le_succ (hle w hname)) rfl
  · rw [hw]
    exact .behind (Nat.succ_lt_succ hlt)

/-- A string that ends in front of the slice is the same in both texts. -/
theorem string_agree (m : Text) :
    (string? (m ++ x.newTail) = string? (m ++ x.oldTail) ∧ ∀ w ∈ string? (m ++ x.oldTail), w.length + 2 ≤ m.length) ∨
    ∃ w, string? (m ++ x.oldTail) = some w ∧ m.length < w.length + 2 := by
  have hother : ∀ {c : Char} {r : Text}, c ≠ '"' → string? (c :: r) = none := fun {c r} hc => by
    unfold string?
    split
    · next heq => exact absurd (List.cons.inj heq).1 hc
    · rfl
  cases m with
  | nil =>
    have hnone : ∀ u, Starts u → string? u = none := fun u hu => by
      obtain ⟨c, r, rfl, hc⟩ := hu
      exact hother (ne_of_isPlainLetter hc (by decide))
    rw [List.nil_append, List.nil_append, hnone _ h.oldStarts, hnone _ h.newStarts]
    exact Or.inl ⟨rfl, fun w hw => by cases hw⟩
  | cons c m =>
    by_cases hc : c = '"'
    · subst hc
      have hagree := h.untilQuote?_agree m
      simp only [List.cons_append, string?]
      generalize untilQuote? (m ++ x.oldTail) = o at hagree ⊢
      generalize untilQuote? (m ++ x.newTail) = o' at hagree ⊢
      cases hagree with
      | @front n hn =>
        have htake : ∀ u : Text, (m ++ u).take n = m.take n := fun u => List.take_append_of_le_length (Nat.le_of_lt hn)
        rw [Option.map_some, Option.map_some, htake, htake]
        refine Or.inl ⟨rfl, fun w hw => ?_⟩
        cases hw
        rw [List.length_take, List.length_cons]
        omega
      | behind hn =>
        refine Or.inr ⟨_, rfl, ?_⟩
        rw [List.length_take, List.length_append, List.length_cons]
        omega
      | nowhere => exact Or.inl ⟨rfl, fun w hw => by cases hw⟩
    · rw [List.cons_append, List.cons_append, hother hc, hother hc]
      exact Or.inl ⟨rfl, fun w hw => by cases hw⟩

/-- The marks in front of the slice. -/
theorem mark_agree {d : Char} {m : Text} (hbefore : (d :: m) <:+ x.before) (before : Option Char) :
    MarkAgree (m.length + 1) (d :: (m ++ x.oldTail)) (d :: (m ++ x.newTail))
      (mark? before (d :: (m ++ x.oldTail))) (mark? before (d :: (m ++ x.newTail))) := by
  by_cases hd : d ∈ ['\\', '/', '$', '`', '*', '_', '@', '<', '#']
  · simp only [List.mem_cons, List.not_mem_nil, or_false] at hd
    rcases hd with rfl | rfl | rfl | rfl | rfl | rfl | rfl | rfl | rfl
    · exact h.escape_agree m before
    · exact h.comment_agree m before
    · exact h.math_agree m before
    · exact h.raw_agree m before
    · exact h.strong_agree m before
    · exact h.emph_agree m before
    · exact h.citation_agree hbefore before
    · exact h.label_agree hbefore before
    · exact h.call_agree hbefore before
  · have hne : ∀ e ∈ ['\\', '/', '$', '`', '*', '_', '@', '<', '#'], d ≠ e := fun e he hde => hd (hde ▸ he)
    rw [mark?_of_ne hne, mark?_of_ne hne]
    exact .nowhere

end Respelling.Neutral

end Proofreader.Markup
