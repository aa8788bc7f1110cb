import Proofreader.Proofs.Respelling.Beside

/-! Across the slice. Text that passes over the beginning of the slice goes on to its end, or part of the slice is not
shown. Before it is a run of text and spaces, after it is one text node, and behind it the readings are level. -/

namespace Proofreader.Markup.Respelling

variable {x : Respelling} {lib : Library} {chain : List FileId} {page page' : Page} {text : Text} {fuel fuel' : Nat}
variable {deeper deeper' : Deeper} {s s' t t' : Cursor} {file : FileId} {mode : Mode} {closer : Option Char} {m : Text}

/-- Whether inline content ends here. -/
def ends (mode : Mode) (closer : Option Char) (s : Cursor) : Bool :=
  match s.rest with
  | [] => true
  | c :: _ => stopsAt closer s.depth c || (isSpace c && endsAtSpace mode s.rest)

theorem inlineStep_end (h : ends mode closer s = true) : inlineStep page deeper mode closer s = ([], s) := by
  unfold inlineStep ends at *
  split
  · rfl
  · next c r hrest =>
    rw [hrest] at h
    dsimp only at h
    rw [← hrest] at h
    rw [if_pos h]

theorem exists_of_not_ends (h : ends mode closer s = false) : ∃ c r, s.rest = c :: r ∧ stopsAt closer s.depth c = false ∧
    (isSpace c && endsAtSpace mode s.rest) = false := by
  unfold ends at h
  split at h
  · cases h
  · next c r hrest =>
    rw [Bool.or_eq_false_iff] at h
    exact ⟨c, r, hrest, h⟩

theorem Closes.ne_letter (hcloses : Closes closer) {c : Char} (hc : isPlainLetter c = true) : closer ≠ some c := fun he =>
  ne_of_isPlainLetter hc (forall_not_isPlainLetter (by decide) c (hcloses c he)) rfl

theorem Closes.not_letter (hcloses : Closes closer) : closer.any isPlainLetter = false := by
  cases closer with
  | none => rfl
  | some c => exact forall_not_isPlainLetter (by decide) c (hcloses c rfl)

theorem Closes.stopsAt_letter (hcloses : Closes closer) {c : Char} (hc : isPlainLetter c = true) (depth : Nat) :
    stopsAt closer depth c = false := by
  simp [stopsAt, hcloses.ne_letter hc]

section Readings

variable (h : x.Neutral)
include h

theorem Abreast.ends_eq (hs : x.Abreast file s s') (hcloses : Closes closer) : ends mode closer s' = ends mode closer s := by
  have hdepth := hs.depth
  rcases hs.place with ⟨m, ha⟩ | hl
  · cases m with
    | nil =>
      obtain ⟨c, r, hr, hc⟩ := h.oldStarts
      obtain ⟨d, v, hv, hd⟩ := h.newStarts
      unfold ends
      rw [ha.rest, ha.rest', List.nil_append, List.nil_append, hr, hv]
      simp [hcloses.stopsAt_letter hc, hcloses.stopsAt_letter hd, isSpace_of_isPlainLetter hc, isSpace_of_isPlainLetter hd]
    | cons c m =>
      unfold ends
      rw [ha.rest, ha.rest', hdepth]
      dsimp only [List.cons_append]
      rw [← List.cons_append, ← List.cons_append, h.oldStarts.endsAtSpace h.newStarts]
  · unfold ends
    rw [hl.rest, hdepth]

theorem Abreast.any_isSpace (hs : x.Abreast file s s') : s'.rest.head?.any isSpace = s.rest.head?.any isSpace := by
  rcases hs.place with ⟨m, ha⟩ | hl
  · rw [ha.rest, ha.rest']
    cases m with
    | nil =>
      have hspaces := fun c (hc : isPlainLetter c = true) => isSpace_of_isPlainLetter hc
      rw [List.nil_append, List.nil_append, h.newStarts.head? hspaces, h.oldStarts.head? hspaces]
    | cons c m => rfl
  · rw [hl.rest]

/-- What both readings read, and what follows. -/
theorem meets_next (hd : x.Beside lib chain page text fuel fuel' deeper deeper') (hcloses : Closes closer)
    (hs : x.Abreast page.file s s') (hat : s.At text) (hfuel : 2 * s.rest.length ≤ fuel) (hfuel' : 2 * s'.rest.length ≤ fuel')
    {r r' : List Node × Cursor} (hmeets : x.Meets page.file s r r') (hlays : Lays lib chain page text s r)
    (hlt : s.pos < r.2.pos) : x.Meets page.file s
      (r.1 ++ (deeper.inline mode closer r.2).1, (deeper.inline mode closer r.2).2)
      (r'.1 ++ (deeper'.inline mode closer r'.2).1, (deeper'.inline mode closer r'.2).2) := by
  have hat' := hlays.reaches.at hat
  refine Meets.append hmeets hlays (hd.lays.inline mode closer _ hat') fun ht => ?_
  obtain ⟨hlength, hlength'⟩ := hs.length_lt h ht hlays.reaches hlt
  exact hd.inline mode closer _ _ hcloses hat' ht (by omega) (by omega)

/-- A mark that takes the beginning of the slice. -/
theorem fails_at_mark (hp : page.Includes lib chain) (hat : t.At text) {c : Char} {r : Text} (hrest : t.rest = c :: r)
    (hspace : isSpace c = false) (hstop : closer ≠ some c) {mark : Mark} (hmark : t.mark? = some mark)
    (hoverruns : x.Overruns page.file t (t.advance (mark.extent t.rest))) :
    x.Fails page.file t (inline page (fuel + 1) mode closer t).1 (inline page (fuel + 1) mode closer t).2 := by
  have hdeeper : Deeper.Lays lib chain page text ⟨blocks page fuel, inline page fuel⟩ := deeper_lays hp fuel
  change x.Fails page.file t (inlineStep page ⟨blocks page fuel, inline page fuel⟩ mode closer t).1
    (inlineStep page ⟨blocks page fuel, inline page fuel⟩ mode closer t).2
  have hpiece : piece page ⟨blocks page fuel, inline page fuel⟩ mode closer c t =
      marked page ⟨blocks page fuel, inline page fuel⟩ mode mark t := by
    simp only [piece, hspace, hmark, Bool.false_eq_true, if_false]
  rw [inlineStep_piece page _ hrest (by simp [stopsAt, hstop]) (by rw [hspace, Bool.false_and]), hpiece]
  have hbeyond : Beyond page.file (t.advance (mark.extent t.rest))
      (marked page ⟨blocks page fuel, inline page fuel⟩ mode mark t) := beyond_marked hp hdeeper mode hat
  exact (hoverruns.fails h hbeyond).append (hdeeper.inline mode closer _ (((Cursor.reaches_advance t _).trans hbeyond.reaches).at hat))

omit h in
/-- Text takes at least one character. -/
theorem textRun_pos {before : Option Char} {depth : Nat} {c : Char} {r : Text} (hstop : stopsAt closer depth c = false)
    (hspace : isSpace c = false) : 0 < (textRun closer before true depth (c :: r)).1 := by
  rw [textRun_cons, hspace, if_neg (by simp)]
  split
  · exact Nat.succ_pos _
  · split
    · next hc =>
      subst hc
      rw [if_neg fun hend => ?_]
      · exact Nat.succ_pos _
      · simp [stopsAt, hend.1, hend.2] at hstop
    · exact Nat.succ_pos _

/-- Text that both readings end in front of the slice, or behind it. -/
theorem meets_text (hs : x.Abreast page.file s s') {n depth : Nat} (hn : 0 < n)
    (hrun : textRun closer s.past.head? true s.depth s.rest = (n, depth))
    (hrun' : textRun closer s'.past.head? true s'.depth s'.rest = (n, depth)) (htake : s'.rest.take n = s.rest.take n)
    (hclear : x.Clear page.file s n) : x.Meets page.file s
      ([(textNode page closer s).1], (textNode page closer s).2) ([(textNode page' closer s').1], (textNode page' closer s').2) := by
  have hpass := hs.passes_advance h hclear
  have hend : x.Passes page.file s { s.advance n with depth := depth } { s'.advance n with depth := depth } :=
    hpass.congr rfl rfl rfl rfl rfl rfl rfl hpass.abreast.scope rfl
  have hnode : textNode page' closer s' = (leaf page' .text s' { s'.advance n with depth := depth } (s.rest.take n) true,
      { s'.advance n with depth := depth }) := by
    rw [textNode_eq page' closer s' hn hrun', ← htake]
    rfl
  rw [textNode_eq page closer s hn hrun, hnode]
  exact hend.leaf .text (s.rest.take n) true true

end Readings

/-- Plain text that has passed over `w` and then the slice goes on behind it. -/
theorem exit_eq {v : Cursor} {w : Text} (hrest : v.rest = w ++ x.after) (closer : Option Char) :
    x.exit closer v w.length = { v with
      past := (x.after.take (x.exitRun closer v.depth).1).reverse ++ (w.reverse ++ v.past)
      rest := x.after.drop (x.exitRun closer v.depth).1
      pos := v.pos + (w.length + (x.after.take (x.exitRun closer v.depth).1).length)
      depth := (x.exitRun closer v.depth).2 } := by
  simp only [exit, Cursor.advance, hrest, List.take_length_add_append, List.drop_length_add_append, List.reverse_append,
    List.length_append, List.append_assoc]

theorem exit_after (closer : Option Char) (v : Cursor) (k n : Nat) :
    x.exit closer (v.advance k) n = x.exit closer v (k + n) := by
  have hadvance := v.advance_advance k (n + (x.exitRun closer v.depth).1)
  rw [← Nat.add_assoc] at hadvance
  unfold exit
  rw [← hadvance]
  rfl

theorem reaches_exit (x : Respelling) (closer : Option Char) (v : Cursor) (n : Nat) : v.Reaches (x.exit closer v n) :=
  (v.reaches_advance _).trans (.same rfl rfl rfl List.prefix_rfl)

theorem letter_of_plain {o : Option Char} (h : o.any isPlainLetter = true) : o.any isLetter = true := by
  obtain ⟨c, rfl, hc⟩ := (Option.any_eq_true _ _).1 h
  rw [isPlainLetter, Bool.and_eq_true] at hc
  exact hc.1

/-- Behind a letter. -/
theorem behind_letter {w : Text} (hw : w.getLast?.any isPlainLetter = true) (m past : Text) :
    ((m ++ w).reverse ++ past).head?.any isLetter = true ∧
      (((m ++ w).reverse ++ past).takeWhile (· ≠ '\n')).all isBlank = false := by
  obtain ⟨c, hc, hletter⟩ := (Option.any_eq_true _ _).1 hw
  obtain ⟨u, rfl⟩ := List.getLast?_eq_some_iff.1 hc
  have hline := ne_of_isPlainLetter hletter (d := '\n') (by decide)
  have hblank := isBlank_of_isPlainLetter hletter
  rw [isPlainLetter, Bool.and_eq_true] at hletter
  simp [hline, hblank, hletter.1]

theorem Neutral.new_ends (h : x.Neutral) : x.new.getLast?.any isPlainLetter = true := by
  rw [List.getLast?_eq_some_getLast h.ne]
  exact h.letters _ (List.getLast_mem h.ne)

section Crossing

variable (h : x.Neutral) (ha : x.Ahead file m s s')
include h ha

/-- Behind the slice the readings are level. -/
theorem level_exit (closer : Option Char) (depth : Nat) :
    x.Level file (x.exit closer { s with depth := depth } (m ++ x.old).length)
      (x.exit closer { s' with depth := depth } (m ++ x.new).length) := by
  have hpos := ha.pos_add
  have hpos' := ha.pos'
  have hrest : ({ s with depth := depth } : Cursor).rest = (m ++ x.old) ++ x.after := by
    rw [List.append_assoc]
    exact ha.rest
  have hrest' : ({ s' with depth := depth } : Cursor).rest = (m ++ x.new) ++ x.after := by
    rw [List.append_assoc]
    exact ha.rest'
  obtain ⟨hletter, hblank⟩ := behind_letter h.ends m s.past
  obtain ⟨hletter', hblank'⟩ := behind_letter h.new_ends m s'.past
  rw [exit_eq hrest, exit_eq hrest']
  refine ⟨fun _ => ?_, rfl, ?_, ?_, ?_⟩
  · simp only [stop, List.length_append]
    unfold Respelling.start at hpos
    omega
  · simp only [oldIn, newIn, ha.file, if_true, List.length_append]
    omega
  · dsimp only
    cases (x.after.take (x.exitRun closer depth).1).reverse with
    | nil => rw [List.nil_append, List.nil_append, hletter, hletter']
    | cons c r => rfl
  · exact all_isBlank_append (hblank'.trans hblank.symm) _

end Crossing

section Behind

variable {e e' : Cursor} {r r' : List Node} {q q' : List Node × Cursor}

/-- Behind the slice the readings never differ. -/
theorem Meets.behind (h : x.Neutral) (ha : x.Ahead file m s s') (he : x.stop ≤ e.pos) (hrun : x.Run r r')
    (hm : x.Meets file e q q') : x.Meets file s (r ++ q.1, q.2) (r' ++ q'.1, q'.2) := by
  have hstart := Abreast.start_lt_stop h
  have hpos := ha.pos_add
  have hbefore : x.weight file s = 0 := by rw [weight_of_eq ha.file, if_neg (by omega)]
  have hbehind : x.weight file e = 1 := by rw [weight_of_eq ha.file, if_pos he]
  cases hm with
  | fails hfails =>
    cases hfails with
    | lost _ _ hj hge => omega
    | missed hne => exact absurd ha.file hne
    | twice hne => exact absurd ha.file hne
  | abreast habreast hchanges =>
    cases hchanges with
    | same hweight hsame hblind =>
      exact .abreast habreast (.edited (by rw [hweight, hbehind, hbefore]) (.before (.run hrun) hsame hblind))
    | edited hweight =>
      rw [hbehind, weight_of_eq ha.file] at hweight
      split at hweight <;> omega

end Behind

/-- The first reading from a place in front of the slice where text begins that passes over the beginning of the slice. -/
inductive Crossing (x : Respelling) (page : Page) (mode : Mode) (closer : Option Char) (fuel : Nat) (m : Text) (depth : Nat)
    (s : Cursor) : List Node × Cursor → Prop
  | fails {r : List Node × Cursor} : x.Fails page.file s r.1 r.2 → Crossing x page mode closer fuel m depth s r
  | shown {ns : List Node} {g : Nat} : g ≤ fuel →
      2 * (x.exit closer { s with depth := depth } (m ++ x.old).length).rest.length + 1 ≤ g →
      (∀ location, x.Run ns [⟨.text, location, m ++ x.new ++ x.after.take (x.exitRun closer depth).1, s.scope, 0, true, []⟩]) →
      Crossing x page mode closer fuel m depth s
        (ns ++ (inline page g mode closer (x.exit closer { s with depth := depth } (m ++ x.old).length)).1,
          (inline page g mode closer (x.exit closer { s with depth := depth } (m ++ x.old).length)).2)

section Crossing

variable (h : x.Neutral) (ha : x.Ahead page.file m s s')
include h ha

omit h in
/-- Behind the text in front of the slice, the slice is left. -/
theorem within_old {n : Nat} (depth : Nat) (hn : n < x.old.length) :
    x.Within (x.old.drop n) ({ s with depth := depth }.advance (m.length + n)) := by
  have hpos := ha.pos_add
  have hlength : s.rest.length = m.length + (x.old.length + x.after.length) := by
    rw [ha.rest, oldTail, List.length_append, List.length_append]
  refine ⟨List.drop_suffix n x.old, fun hnil => ?_, ?_, ?_⟩
  · have := List.drop_eq_nil_iff.1 hnil
    omega
  · simp only [Cursor.advance, ha.rest, oldTail, List.drop_length_add_append,
      List.drop_append_of_le_length (Nat.le_of_lt hn)]
  · rw [Cursor.pos_advance, List.length_drop]
    unfold stop
    unfold Respelling.start at hpos
    dsimp only
    omega

omit h in
/-- Text from here on that passes over the slice or ends inside it, and what shows the rest of it. -/
theorem run_of_spells {w z tail : Text} {ns : List Node} (hw : w ++ z = x.old ++ tail) (hne : w ≠ [])
    (hleaves : Leaves page.file s.scope (s.pos + (m ++ w).length) ns z)
    (hlast : ∀ n ∈ ns.getLast?, n.kind = .text) (hmeets : ∀ n ∈ ns, x.start < n.location.stop ∧ n.location.start < x.stop)
    (hlt : x.start < x.stop) (location : Location) : x.Run
      (⟨.text, ⟨page.file, s.pos, s.pos + (m ++ w).length⟩, m ++ w, s.scope, 0, true, []⟩ :: ns)
      [⟨.text, location, m ++ x.new ++ tail, s.scope, 0, true, []⟩] := by
  have hpos := ha.pos_add
  have hlength := List.length_pos_iff.2 hne
  have hstart : x.start - m.length = s.pos := by omega
  refine ⟨⟨s.scope, m, tail, location, by omega, ?_, rfl⟩, ⟨_, rfl, rfl⟩, ?_, ?_⟩
  · have hcons := Leaves.cons (Or.inl rfl : Kind.text = .text ∨ _) (List.append_ne_nil_of_right_ne_nil m hne) hleaves
    rw [hstart, List.append_assoc, ← hw, ← ha.file, ← List.append_assoc]
    exact hcons
  · rw [List.getLast?_cons]
    cases hlast' : ns.getLast? with
    | none => exact ⟨_, rfl, rfl⟩
    | some n => exact ⟨n, rfl, hlast n hlast'⟩
  · intro n hn
    rcases List.mem_cons.1 hn with rfl | hn
    · rw [List.length_append]
      exact ⟨by dsimp only; omega, by dsimp only; omega⟩
    · exact hmeets n hn

/-- Text that ends inside the slice: the reading goes on there. -/
theorem crossing_inside {lib : Library} {chain : List FileId} {text : Text} (hp : page.Includes lib chain) (hat : s.At text)
    (hcloses : Closes closer) (hfuel : 2 * s.rest.length ≤ fuel) (mode : Mode) {depth k : Nat} (hpos : 0 < k)
    (hk : k < x.old.length) (hrun : textRun closer s.past.head? true s.depth s.rest = (m.length + k, depth))
    (hlays : Lays lib chain page text s ([(textNode page closer s).1], (textNode page closer s).2)) :
    Crossing x page mode closer fuel m depth s
      ((textNode page closer s).1 :: (inline page fuel mode closer (textNode page closer s).2).1,
        (inline page fuel mode closer (textNode page closer s).2).2) := by
  have hnode := textNode_eq page closer s (by omega) hrun
  have htake : s.rest.take (m.length + k) = m ++ x.old.take k := by
    rw [ha.rest, oldTail, List.take_length_add_append, List.take_append_of_le_length (Nat.le_of_lt hk)]
  rw [htake] at hnode
  have hwithin := within_old ha depth hk
  have hopen : s.Reaches { s with depth := depth } := .same rfl rfl rfl List.prefix_rfl
  have hreach := hopen.trans (Cursor.reaches_advance { s with depth := depth } (m.length + k))
  have hrest : ({ s with depth := depth }.advance (m.length + k)).rest.length = s.rest.length - (m.length + k) := List.length_drop
  have hmore : 0 < s.rest.length := by
    rw [ha.rest, oldTail, List.length_append, List.length_append]
    omega
  rw [hnode] at hlays ⊢
  have hfuel' : 2 * ({ s with depth := depth }.advance (m.length + k)).rest.length + 1 ≤ fuel := by omega
  have hleaving := leaving h hp ha.file hcloses mode hwithin (hreach.at hat) hfuel'
  have hexit : x.exit closer ({ s with depth := depth }.advance (m.length + k)) (x.old.drop k).length =
      x.exit closer { s with depth := depth } (m ++ x.old).length := by
    rw [exit_after, List.length_drop, List.length_append]
    congr 1
    omega
  generalize hr : inline page fuel mode closer ({ s with depth := depth }.advance (m.length + k)) = r at hleaving
  change Crossing x page mode closer fuel m depth s (_ :: (inline page fuel mode closer
    ({ s with depth := depth }.advance (m.length + k))).1, (inline page fuel mode closer
    ({ s with depth := depth }.advance (m.length + k))).2)
  rw [hr]
  cases hleaving with
  | fails hfails => exact .fails (hfails.prepend hlays)
  | @shown ns g hg hfuel hspells =>
    rw [hexit] at hfuel ⊢
    refine .shown hg hfuel (run_of_spells ha (z := x.old.drop k ++ x.after.take (x.exitRun closer depth).1) ?_ ?_ ?_
      ?_ hspells.meets (Abreast.start_lt_stop h))
    · rw [← List.append_assoc, List.take_append_drop]
    · refine List.length_pos_iff.1 ?_
      rw [List.length_take]
      omega
    · have hleaves := hspells.leaves
      have hat' : ({ s with depth := depth }.advance (m.length + k)).pos = s.pos + (m ++ x.old.take k).length := by
        rw [← htake]
        rfl
      rw [hat'] at hleaves
      exact hleaves
    · obtain ⟨l, hl, hkind⟩ := hspells.last
      intro n hn
      rw [Option.mem_def.1 hl] at hn
      cases hn
      exact hkind

/-- Text that goes on to the end of the slice shows all of it. -/
theorem crossing_past (hfuel : 2 * s.rest.length ≤ fuel) (mode : Mode) {depth : Nat}
    (hrun : textRun closer s.past.head? true s.depth s.rest =
      ((m ++ x.old).length + (x.exitRun closer depth).1, (x.exitRun closer depth).2)) :
    Crossing x page mode closer fuel m depth s
      ((textNode page closer s).1 :: (inline page fuel mode closer (textNode page closer s).2).1,
        (inline page fuel mode closer (textNode page closer s).2).2) := by
  have hrest : s.rest = (m ++ x.old) ++ x.after := by rw [List.append_assoc]; exact ha.rest
  have hne := h.starts.ne_nil
  have hpos := List.length_pos_iff.2 hne
  have hnode := textNode_eq page closer s (by rw [List.length_append]; omega) hrun
  have htake : s.rest.take ((m ++ x.old).length + (x.exitRun closer depth).1) =
      m ++ (x.old ++ x.after.take (x.exitRun closer depth).1) := by
    rw [hrest, List.take_length_add_append, List.append_assoc]
  rw [htake] at hnode
  rw [hnode]
  have hexit : (x.exit closer { s with depth := depth } (m ++ x.old).length).rest.length < s.rest.length := by
    have hdrop : (x.exit closer { s with depth := depth } (m ++ x.old).length).rest.length =
        s.rest.length - ((m ++ x.old).length + (x.exitRun closer depth).1) := List.length_drop
    rw [hdrop, hrest, List.length_append, List.length_append]
    omega
  exact .shown (Nat.le_refl fuel) (by omega) (run_of_spells ha (List.append_nil _)
    (List.append_ne_nil_of_left_ne_nil hne _) (.nil _) nofun nofun (Abreast.start_lt_stop h))

/-- Text that passes over the beginning of the slice shows all of it, or part of it is not shown. -/
theorem crossing {lib : Library} {chain : List FileId} {text : Text} (hp : page.Includes lib chain) (hat : s.At text)
    (hcloses : Closes closer) (hfuel : 2 * s.rest.length ≤ fuel) (mode : Mode) {last : Option Char} {first : Bool}
    {depth : Nat} (hrun : textRun closer s.past.head? true s.depth s.rest =
      (m.length + (textRun closer last first depth x.oldTail).1, (textRun closer last first depth x.oldTail).2))
    (hlays : Lays lib chain page text s ([(textNode page closer s).1], (textNode page closer s).2)) :
    Crossing x page mode closer fuel m depth s
      ((textNode page closer s).1 :: (inline page fuel mode closer (textNode page closer s).2).1,
        (inline page fuel mode closer (textNode page closer s).2).2) := by
  obtain ⟨c, z, hold, hc⟩ := h.starts
  have hz : ∀ d ∈ ['[', ']'], d ∉ z := fun d hd hmem =>
    h.plain d ((by simp : ['[', ']'] ⊆ ['*', '_', '[', ']', '\\', '\n']) hd) (hold ▸ List.mem_cons_of_mem c hmem)
  have htail : x.oldTail = c :: (z ++ x.after) := by rw [oldTail, hold, List.cons_append]
  rw [htail, textRun_letter hc hcloses.not_letter] at hrun
  rcases textRun_within hz closer depth c x.after with ⟨n, hn, hend⟩ | hpast
  · rw [hend] at hrun
    exact crossing_inside h ha hp hat hcloses hfuel mode (Nat.succ_pos n) (by rw [hold]; exact Nat.succ_lt_succ hn) hrun hlays
  · have hcount : z.length + 1 = x.old.length := by rw [hold]; rfl
    rw [hpast, ← hold] at hrun
    change textRun closer s.past.head? true s.depth s.rest =
      (m.length + (z.length + (x.exitRun closer depth).1 + 1), (x.exitRun closer depth).2) at hrun
    rw [Nat.add_right_comm, hcount, ← Nat.add_assoc, ← List.length_append] at hrun
    exact crossing_past h ha hfuel mode hrun

end Crossing

section Inline

variable (h : x.Neutral) (hp : x.Paired lib chain page page')
variable (ih : ∀ g ≤ fuel, x.Beside lib chain page text g fuel' ⟨blocks page g, inline page g⟩
  ⟨blocks page' fuel', inline page' fuel'⟩)
variable (hcloses : Closes closer) (hs : x.Abreast page.file s s') (hat : s.At text)
variable (hfuel : 2 * s.rest.length ≤ fuel) (hfuel' : 2 * s'.rest.length ≤ fuel')
include h hp ih hcloses hs hat hfuel hfuel'

theorem meets_crossing (ha : x.Ahead page.file m s s') {last : Option Char} {first : Bool} {depth : Nat}
    (hrun : textRun closer s.past.head? true s.depth s.rest =
      (m.length + (textRun closer last first depth x.oldTail).1, (textRun closer last first depth x.oldTail).2))
    (hrun' : textRun closer s'.past.head? true s'.depth s'.rest =
      (m.length + (textRun closer last first depth x.newTail).1, (textRun closer last first depth x.newTail).2))
    (hlays : Lays lib chain page text s ([(textNode page closer s).1], (textNode page closer s).2)) :
    x.Meets page.file s
      ((textNode page closer s).1 :: (inline page fuel mode closer (textNode page closer s).2).1,
        (inline page fuel mode closer (textNode page closer s).2).2)
      ((textNode page' closer s').1 :: (inline page' fuel' mode closer (textNode page' closer s').2).1,
        (inline page' fuel' mode closer (textNode page' closer s').2).2) := by
  have hletter : x.new.getLast?.any isLetter = x.old.getLast?.any isLetter := by
    rw [letter_of_plain h.new_ends, letter_of_plain h.ends]
  have hexit : textRun closer x.new.getLast? false depth x.after = x.exitRun closer depth :=
    textRun_congr hletter closer false depth x.after
  rw [newTail, textRun_letters h.ne h.letters hcloses.not_letter x.after, hexit, ← Nat.add_assoc, ← List.length_append] at hrun'
  have hrest' : s'.rest = (m ++ x.new) ++ x.after := by rw [List.append_assoc]; exact ha.rest'
  have hnew := List.length_pos_iff.2 h.ne
  have hnode' := textNode_eq page' closer s' (by rw [List.length_append]; omega) hrun'
  have htake' : s'.rest.take ((m ++ x.new).length + (x.exitRun closer depth).1) =
      m ++ x.new ++ x.after.take (x.exitRun closer depth).1 := by
    rw [hrest', List.take_length_add_append]
  rw [htake', hs.scope] at hnode'
  have hcross := crossing h ha hp.includes hat hcloses hfuel mode hrun hlays
  generalize ((textNode page closer s).1 :: (inline page fuel mode closer (textNode page closer s).2).1,
    (inline page fuel mode closer (textNode page closer s).2).2) = r at hcross ⊢
  cases hcross with
  | fails hfails => exact .fails hfails
  | @shown ns g hg hroom hrun =>
    have hlevel := level_exit h ha closer depth
    have hopen : s.Reaches { s with depth := depth } := .same rfl rfl rfl List.prefix_rfl
    have hreach := hopen.trans (x.reaches_exit closer { s with depth := depth } (m ++ x.old).length)
    have he : x.Abreast page.file (x.exit closer { s with depth := depth } (m ++ x.old).length)
        (x.exit closer { s' with depth := depth } (m ++ x.new).length) := ⟨hs.scope, rfl, Or.inr hlevel⟩
    have hroom' : 2 * (x.exit closer { s' with depth := depth } (m ++ x.new).length).rest.length + 1 ≤ fuel' := by
      have hdrop : (x.exit closer { s' with depth := depth } (m ++ x.new).length).rest.length =
          s'.rest.length - ((m ++ x.new).length + (x.exitRun closer depth).1) := List.length_drop
      have hlength : s'.rest.length = m.length + x.new.length + x.after.length := by
        rw [hrest', List.length_append, List.length_append]
      rw [hdrop, List.length_append]
      omega
    have hm := (ih g hg).inline mode closer _ _ hcloses (hreach.at hat) he hroom hroom'
    rw [hnode']
    exact Meets.behind h ha (hlevel.behind ha.file) (hrun _) hm

omit hp ih hcloses hs hfuel' in
/-- Text that ends at a mark that takes the beginning of the slice. -/
theorem doomed (hp : page.Includes lib chain) (ha : x.Ahead page.file m s s') {n depth : Nat}
    (hrun : textRun closer s.past.head? true s.depth s.rest = (n, depth)) (hpos : 0 < n) {c : Char} {r : Text} {mark : Mark}
    (hdrop : m.drop n = c :: r) (hn : n < m.length) (hspace : isSpace c = false) (hstop : closer ≠ some c)
    (hmark : mark? (s.past.head?.toList ++ m.take n).getLast? (c :: (r ++ x.oldTail)) = some mark)
    (hextent : r.length + 1 < mark.extent (c :: (r ++ x.oldTail)))
    (hlays : Lays lib chain page text s ([(textNode page closer s).1], (textNode page closer s).2)) :
    x.Fails page.file s ((textNode page closer s).1 :: (inline page fuel mode closer (textNode page closer s).2).1)
      (inline page fuel mode closer (textNode page closer s).2).2 := by
  have hstart := ha.pos_add
  have hcount : m.length = n + (r.length + 1) := by
    have := congrArg List.length hdrop
    rw [List.length_drop, List.length_cons] at this
    omega
  rw [textNode_eq page closer s hpos hrun] at hlays ⊢
  dsimp only at hlays ⊢
  have hrest : (s.advance n).rest = c :: (r ++ x.oldTail) := by
    simp only [Cursor.advance, ha.rest, List.drop_append_of_le_length (Nat.le_of_lt hn), hdrop, List.cons_append]
  have hlast : (s.advance n).past.head? = (s.past.head?.toList ++ m.take n).getLast? := by
    simp only [Cursor.advance, ha.rest, List.take_append_of_le_length (Nat.le_of_lt hn), List.head?_append,
      List.head?_reverse, List.getLast?_append]
    cases s.past.head? <;> rfl
  have hpos' : (s.advance n).pos = s.pos + n := by
    rw [Cursor.pos_advance, ha.rest, List.length_append]
    omega
  have hat' := hlays.reaches.at hat
  have hlength : (s.advance n).rest.length = s.rest.length - n := List.length_drop
  have hlong : n < s.rest.length := by
    rw [ha.rest, List.length_append]
    omega
  generalize hv : ({ s.advance n with depth := depth } : Cursor) = v at *
  have hvrest : v.rest = c :: (r ++ x.oldTail) := by rw [← hv]; exact hrest
  have hvpos : v.pos = s.pos + n := by rw [← hv]; exact hpos'
  have hvmark : v.mark? = some mark := by
    unfold Cursor.mark?
    rw [hvrest, ← hmark, ← hlast, ← hv]
  have hvlength : v.rest.length = s.rest.length - n := by rw [← hv]; exact hlength
  obtain ⟨fuel, rfl⟩ : ∃ g, fuel = g + 1 := ⟨fuel - 1, by omega⟩
  have hoverruns : x.Overruns page.file v (v.advance (mark.extent v.rest)) := by
    have htail := List.length_pos_iff.2 h.oldStarts.ne_nil
    refine ⟨ha.file, by omega, ?_⟩
    rw [Cursor.pos_advance, hvrest, List.length_cons, List.length_append]
    omega
  exact (fails_at_mark h hp hat' hvrest hspace hstop hvmark hoverruns).prepend hlays

theorem meets_textStep {c : Char} {r : Text} (hrest : s.rest = c :: r) (hstop : stopsAt closer s.depth c = false)
    (hspace : isSpace c = false)
    (hlays : Lays lib chain page text s ([(textNode page closer s).1], (textNode page closer s).2)) :
    x.Meets page.file s
      ((textNode page closer s).1 :: (inline page fuel mode closer (textNode page closer s).2).1,
        (inline page fuel mode closer (textNode page closer s).2).2)
      ((textNode page' closer s').1 :: (inline page' fuel' mode closer (textNode page' closer s').2).1,
        (inline page' fuel' mode closer (textNode page' closer s').2).2) := by
  have hpos : 0 < (textRun closer s.past.head? true s.depth s.rest).1 := by
    rw [hrest]
    exact textRun_pos hstop hspace
  have hnode : ∀ {n depth : Nat}, textRun closer s.past.head? true s.depth s.rest = (n, depth) →
      textRun closer s'.past.head? true s'.depth s'.rest = (n, depth) → s'.rest.take n = s.rest.take n →
      x.Clear page.file s n → x.Meets page.file s
        ((textNode page closer s).1 :: (inline page fuel mode closer (textNode page closer s).2).1,
          (inline page fuel mode closer (textNode page closer s).2).2)
        ((textNode page' closer s').1 :: (inline page' fuel' mode closer (textNode page' closer s').2).1,
          (inline page' fuel' mode closer (textNode page' closer s').2).2) := fun {n depth} hrun hrun' htake hclear => by
    rw [hrun] at hpos
    have hlt : s.pos < (textNode page closer s).2.pos := by
      rw [textNode_eq page closer s hpos hrun]
      exact Cursor.lt_advance (by simp [hrest]) hpos
    exact meets_next h (ih fuel (Nat.le_refl fuel)) hcloses hs hat hfuel hfuel'
      (meets_text h hs hpos hrun hrun' htake hclear) hlays hlt
  rcases hs.place with ⟨m, ha⟩ | hl
  · have hagree := h.textRun_agree ha.suffix closer s.past.head? true s.depth
    rw [← ha.rest, ← ha.rest'] at hagree
    generalize hrun : textRun closer s.past.head? true s.depth s.rest = run at hagree
    generalize hrun' : textRun closer s.past.head? true s.depth s'.rest = run' at hagree
    rw [← ha.past', ← hs.depth] at hrun'
    have hat' := ha.pos_add
    cases hagree with
    | @front n depth hn =>
      refine hnode hrun hrun' ?_ fun _ => Or.inl (by omega)
      rw [ha.rest, ha.rest', List.take_append_of_le_length (Nat.le_of_lt hn), List.take_append_of_le_length (Nat.le_of_lt hn)]
    | @doomed n depth run' d u mark hdrop hn hspace' hstop' hmark hextent =>
      exact .fails (doomed h hat hfuel hp.includes ha hrun (by rwa [hrun] at hpos) hdrop hn hspace' hstop' hmark hextent hlays)
    | into last first depth => exact meets_crossing h hp ih hcloses hs hat hfuel hfuel' ha hrun hrun' hlays
  · refine hnode rfl ?_ (by rw [hl.rest]) fun hfile => Or.inr (hl.behind hfile)
    rw [hl.rest, hs.depth]
    exact textRun_congr hl.letter closer true s.depth s.rest

theorem meets_inlineStep : x.Meets page.file s
    (inlineStep page ⟨blocks page fuel, inline page fuel⟩ mode closer s)
    (inlineStep page' ⟨blocks page' fuel', inline page' fuel'⟩ mode closer s') := by
  have hd := ih fuel (Nat.le_refl fuel)
  have hends : ends mode closer s' = ends mode closer s := hs.ends_eq h hcloses
  cases hend : ends mode closer s with
  | true =>
    rw [inlineStep_end hend, inlineStep_end (hends.trans hend)]
    exact (Passes.refl hs).meets
  | false =>
    obtain ⟨c, r, hrest, hstop, hspace⟩ := exists_of_not_ends hend
    obtain ⟨c', r', hrest', hstop', hspace'⟩ := exists_of_not_ends (hends.trans hend)
    have hlays := lays_piece hp.includes hd.lays mode closer hat hrest
    have hlt := lt_piece hp.includes hd.lays mode closer hat hrest
    have hne : s.rest ≠ [] := by simp [hrest]
    have hsame : isSpace c' = isSpace c := by
      have hhead := hs.any_isSpace h
      rwa [hrest, hrest', List.head?_cons, List.head?_cons] at hhead
    rw [inlineStep_piece page _ hrest hstop hspace, inlineStep_piece page' _ hrest' hstop' hspace']
    unfold piece at *
    rw [hsame]
    cases hc : isSpace c with
    | true =>
      rw [hc, if_pos rfl] at hlays hlt
      exact meets_next h hd hcloses hs hat hfuel hfuel' (meets_spaceNode h hs) hlays hlt
    | false =>
      rw [hc, if_neg (by simp)] at hlays hlt
      have hmarks := hs.step_mark h
      generalize hmark : s.mark? = o at hmarks hlays hlt ⊢
      generalize hmark' : s'.mark? = o' at hmarks ⊢
      cases hmarks with
      | pass hextent htake hpass =>
        exact meets_next h hd hcloses hs hat hfuel hfuel'
          (meets_marked h hp hd hs hat hfuel hfuel' mode hmark hne hextent htake hpass) hlays hlt
      | fail hoverruns =>
        exact .fails ((hoverruns.fails h (beyond_marked hp.includes hd.lays mode hat)).append
          (hd.lays.inline mode closer _ (hlays.reaches.at hat)))
      | none => exact meets_textStep h hp ih hcloses hs hat hfuel hfuel' hrest hstop hc hlays

end Inline

/-- Readers with fuel enough read side by side. -/
theorem beside (h : x.Neutral) (hp : x.Paired lib chain page page') (fuel fuel' : Nat) : x.Beside lib chain page text fuel fuel'
    ⟨blocks page fuel, inline page fuel⟩ ⟨blocks page' fuel', inline page' fuel'⟩ := by
  induction fuel using Nat.strong_induction_on generalizing fuel' with
  | _ fuel ih =>
    refine ⟨deeper_lays hp.includes fuel, fun closer s s' hcloses hat hs hfuel hfuel' => ?_,
      fun mode closer s s' hcloses hat hs hfuel hfuel' => ?_,
      fun mode closer s hcloses hat hfuel => not_letter_of_inline hp.includes hcloses.not_letter mode hat hfuel⟩
    · obtain ⟨g, rfl⟩ : ∃ g, fuel = g + 1 := ⟨fuel - 1, by omega⟩
      obtain ⟨g', rfl⟩ : ∃ g', fuel' = g' + 1 := ⟨fuel' - 1, by omega⟩
      exact meets_blocksStep h (ih g (Nat.lt_succ_self g) g') hcloses hs hat (by omega) (by omega)
    · obtain ⟨g, rfl⟩ : ∃ g, fuel = g + 1 := ⟨fuel - 1, by omega⟩
      obtain ⟨g', rfl⟩ : ∃ g', fuel' = g' + 1 := ⟨fuel' - 1, by omega⟩
      exact meets_inlineStep h hp (fun k hk => ih k (Nat.lt_succ_of_le hk) g') hcloses hs hat (by omega) (by omega)

end Proofreader.Markup.Respelling
