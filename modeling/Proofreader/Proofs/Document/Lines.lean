import Mathlib.Data.List.Induction
import Mathlib.Data.Prod.Lex
import Mathlib.Order.Monotone.Defs
import Proofreader.Document.Source
import Proofreader.Proofs.Search
import Proofreader.Proofs.Text.Basic
import Proofreader.Proofs.Text.Units

/-! Offsets of a text as lines and columns and back. An offset stands on a line, behind a part of it and before
the rest; the index of lines finds that line, and the two measures of the part before the offset are each other's
inverse. They stay so whatever is edited. -/

namespace Proofreader

namespace Text

/-- The units of the part before an offset lead to that offset, whatever stands behind it. -/
theorem coverUnits_append (before after : Text) : coverUnits (units before) (before ++ after) = before.length := by
  induction before with
  | nil =>
    cases after with
    | nil => rfl
    | cons c r => exact if_pos (Int.le_refl 0)
  | cons c r ih =>
    have hwidth := one_le_unitWidth c
    have hrest : ((units (c :: r) : Nat) : Int) - unitWidth c = units r := by
      rw [units_cons]
      omega
    rw [List.cons_append, coverUnits, if_neg (by rw [units_cons]; omega), hrest, ih, List.length_cons]

/-- The offset `o` of a text stands on a line behind `before` and before `after`. -/
structure OnLine (t : Text) (o : Nat) (earlier before after later : Text) : Prop where
  text : t = earlier ++ (before ++ after ++ later)
  offset : o = earlier.length + before.length
  earlier : earlier = [] ∨ ∃ e, earlier = e ++ ['\n']
  line : '\n' ∉ before ++ after
  later : later = [] ∨ ∃ l, later = '\n' :: l

theorem exists_lastLine (t : Text) :
    ∃ earlier before, t = earlier ++ before ∧ (earlier = [] ∨ ∃ e, earlier = e ++ ['\n']) ∧ '\n' ∉ before := by
  induction t using List.reverseRecOn with
  | nil => exact ⟨[], [], rfl, Or.inl rfl, by simp⟩
  | append_singleton t c ih =>
    by_cases hc : c = '\n'
    · exact ⟨t ++ [c], [], by simp, Or.inr ⟨t, by rw [hc]⟩, by simp⟩
    · obtain ⟨earlier, before, rfl, hearlier, hbefore⟩ := ih
      exact ⟨earlier, before ++ [c], by simp, hearlier, by simp [hbefore, Ne.symm hc]⟩

theorem exists_firstLine (t : Text) : ∃ after later, t = after ++ later ∧ '\n' ∉ after ∧ (later = [] ∨ ∃ l, later = '\n' :: l) := by
  induction t with
  | nil => exact ⟨[], [], rfl, by simp, Or.inl rfl⟩
  | cons c r ih =>
    by_cases hc : c = '\n'
    · exact ⟨[], c :: r, rfl, by simp, Or.inr ⟨r, by rw [hc]⟩⟩
    · obtain ⟨after, later, rfl, hafter, hlater⟩ := ih
      exact ⟨c :: after, later, rfl, by simp [hafter, Ne.symm hc], hlater⟩

theorem exists_lineStart {t : Text} {n : Nat} (h : n ≤ t.count '\n') :
    ∃ earlier rest, t = earlier ++ rest ∧ (earlier = [] ∨ ∃ e, earlier = e ++ ['\n']) ∧ earlier.count '\n' = n := by
  induction n with
  | zero => exact ⟨[], t, rfl, Or.inl rfl, rfl⟩
  | succ n ih =>
    obtain ⟨earlier, rest, rfl, -, rfl⟩ := ih (Nat.le_of_succ_le h)
    obtain ⟨line, later, rfl, hline, hlater⟩ := exists_firstLine rest
    have hnone : line.count '\n' = 0 := List.count_eq_zero.2 hline
    rw [List.count_append, List.count_append, hnone] at h
    obtain rfl | ⟨l, rfl⟩ := hlater
    · exact absurd h (by simp)
    · exact ⟨earlier ++ (line ++ ['\n']), l, by simp, Or.inr ⟨earlier ++ line, by simp⟩, by simp [hnone]⟩

theorem exists_onLine {t : Text} {o : Nat} (h : o ≤ t.length) : ∃ earlier before after later, OnLine t o earlier before after later := by
  obtain ⟨earlier, before, htake, hearlier, hbefore⟩ := exists_lastLine (t.take o)
  obtain ⟨after, later, hdrop, hafter, hlater⟩ := exists_firstLine (t.drop o)
  refine ⟨earlier, before, after, later, ?_, ?_, hearlier, by simp [hbefore, hafter], hlater⟩
  · rw [List.append_assoc, ← hdrop, ← List.append_assoc, ← htake, List.take_append_drop]
  · rw [← List.length_append, ← htake, List.length_take, Nat.min_eq_left h]

end Text

open Text (OnLine)

theorem laterLines_append (n : Nat) (t u : Text) : laterLines n (t ++ u) = laterLines n t ++ laterLines (n + t.length) u := by
  induction t generalizing n with
  | nil => simp [laterLines]
  | cons c r ih =>
    have hn : n + (c :: r).length = n + 1 + r.length := by rw [List.length_cons]; omega
    rw [List.cons_append, laterLines, laterLines, hn, ih]
    split <;> rfl

theorem laterLines_of_line {n : Nat} {t : Text} (h : '\n' ∉ t) : laterLines n t = [] := by
  induction t generalizing n with
  | nil => rfl
  | cons c r ih =>
    rw [List.mem_cons, not_or] at h
    rw [laterLines, if_neg (Ne.symm h.1), ih h.2]

theorem length_laterLines (n : Nat) (t : Text) : (laterLines n t).length = t.count '\n' := by
  induction t generalizing n with
  | nil => rfl
  | cons c r ih =>
    rw [laterLines, List.count_cons]
    split
    · next hc => rw [List.length_cons, ih, hc, beq_self_eq_true, if_pos rfl]
    · next hc => rw [ih, if_neg (by simpa using hc), Nat.add_zero]

theorem bounds_laterLines {n : Nat} {t : Text} {x : Nat} (h : x ∈ laterLines n t) : n < x ∧ x ≤ n + t.length := by
  induction t generalizing n with
  | nil => cases h
  | cons c r ih =>
    rw [laterLines] at h
    rw [List.length_cons]
    split at h
    · rcases List.mem_cons.1 h with rfl | h
      · omega
      · have := ih h
        omega
    · have := ih h
      omega

theorem mem_laterLines {n k : Nat} {t : Text} : k ∈ laterLines n t ↔ ∃ i, t[i]? = some '\n' ∧ k = n + i + 1 := by
  induction t generalizing n with
  | nil => simp [laterLines]
  | cons c r ih =>
    have hrest : k ∈ laterLines (n + 1) r ↔ ∃ i, (c :: r)[i + 1]? = some '\n' ∧ k = n + (i + 1) + 1 := by
      rw [ih]
      refine exists_congr fun i => and_congr_right fun _ => ?_
      omega
    rw [laterLines, ← Nat.or_exists_add_one, ← hrest, List.getElem?_cons_zero, Option.some.injEq]
    split
    · next hc => rw [List.mem_cons, and_iff_right hc, Nat.add_zero]
    · next hc => rw [or_iff_right fun h => hc h.1]

theorem pairwise_laterLines (n : Nat) (t : Text) : (laterLines n t).Pairwise (· < ·) := by
  induction t generalizing n with
  | nil => exact List.Pairwise.nil
  | cons c r ih =>
    rw [laterLines]
    split
    · exact List.pairwise_cons.2 ⟨fun x hx => (bounds_laterLines hx).1, ih _⟩
    · exact ih _

namespace Text.OnLine

variable {t earlier before after later : Text} {o : Nat}

/-- The lines up to the one of the offset, and those behind it. -/
theorem lineStarts_eq (h : OnLine t o earlier before after later) : lineStarts t =
    ((0 :: laterLines 0 earlier) ++ laterLines (earlier.length + (before ++ after).length) later).toArray := by
  rw [lineStarts, h.text, laterLines_append, laterLines_append, laterLines_of_line h.line, Nat.zero_add, List.nil_append,
    List.cons_append]

theorem lineOf_eq (h : OnLine t o earlier before after later) (file : FileId) :
    (Source.ofText file t).lineOf o = (laterLines 0 earlier).length := by
  have hbound : upperBound (lineStarts t) o = (0 :: laterLines 0 earlier).length := by
    have hstarts : (lineStarts t).toList =
        (0 :: laterLines 0 earlier) ++ laterLines (earlier.length + (before ++ after).length) later := by
      rw [h.lineStarts_eq]
    unfold upperBound
    refine firstFailure_toList (q := fun x => decide (x ≤ o)) hstarts ?_ ?_
    · intro x hx
      rw [decide_eq_true_eq, h.offset]
      rcases List.mem_cons.1 hx with rfl | hx
      · omega
      · have := bounds_laterLines hx
        omega
    · intro x hx
      have := bounds_laterLines hx
      rw [List.length_append] at this
      rw [decide_eq_false_iff_not, h.offset]
      omega
  simp [Source.lineOf, Source.ofText, hbound]

theorem lines_getElem? (h : OnLine t o earlier before after later) :
    (lineStarts t)[(laterLines 0 earlier).length]? = some earlier.length := by
  rw [h.lineStarts_eq, List.getElem?_toArray, List.getElem?_append_left (by simp)]
  rcases h.earlier with rfl | ⟨e, rfl⟩
  · rfl
  · rw [laterLines_append, ← List.cons_append, List.length_append]
    simp [laterLines]

/-- Where the line behind that of the offset begins. -/
theorem lines_getElem?_succ (h : OnLine t o earlier before after later) :
    (lineStarts t)[(laterLines 0 earlier).length + 1]? =
      if later = [] then none else some (earlier.length + (before ++ after).length + 1) := by
  rw [h.lineStarts_eq, List.getElem?_toArray, List.getElem?_append_right (by simp)]
  rcases h.later with rfl | ⟨l, rfl⟩
  · simp [laterLines]
  · simp [laterLines]

theorem position_eq (h : OnLine t o earlier before after later) (file : FileId) :
    (Source.ofText file t).position o = ⟨(laterLines 0 earlier).length, before.length⟩ := by
  have hclamp : (Source.ofText file t).clamp o = o := by
    have hlength : t.length = earlier.length + ((before.length + after.length) + later.length) := by simp [h.text, Nat.add_assoc]
    have := h.offset
    simp only [Source.clamp, Source.length, Source.ofText, Int.toNat_natCast]
    omega
  have hstart : (Source.ofText file t).startOf (laterLines 0 earlier).length = earlier.length := by
    rw [Source.startOf, Source.ofText, h.lines_getElem?, Option.getD_some]
  have hcolumn : o - earlier.length = before.length := by rw [h.offset, Nat.add_sub_cancel_left]
  simp only [Source.position, hclamp, h.lineOf_eq, hstart, hcolumn]

theorem unitPosition_eq (h : OnLine t o earlier before after later) (file : FileId) :
    (Source.ofText file t).unitPosition o = ⟨(laterLines 0 earlier).length, units before⟩ := by
  have hstart : (Source.ofText file t).startOf (laterLines 0 earlier).length = earlier.length := by
    rw [Source.startOf, Source.ofText, h.lines_getElem?, Option.getD_some]
  have hbefore : t.extract earlier.length (earlier.length + before.length) = before := by simp [h.text, Text.extract]
  simp only [Source.unitPosition, h.position_eq, hstart]
  rw [Source.ofText, hbefore]

/-- A column denotes an offset of the line, or the end of the line. -/
theorem offset?_column (h : OnLine t o earlier before after later) (file : FileId) (column : Int) :
    (Source.ofText file t).offset? (laterLines 0 earlier).length column =
      some (min (earlier.length + column) ((earlier.length + (before ++ after).length : Nat) : Int)) := by
  have hsize : ¬ ((Source.ofText file t).lines.size : Int) ≤ (laterLines 0 earlier).length := by
    have := (Array.getElem?_eq_some_iff.1 h.lines_getElem?).1
    change ¬ ((lineStarts t).size : Int) ≤ _
    omega
  have hline : (Source.ofText file t).lineStart? (laterLines 0 earlier).length = some earlier.length := by
    rw [Source.lineStart?, if_pos (by omega)]
    exact h.lines_getElem?
  have hnext : (Source.ofText file t).lineStart? ((laterLines 0 earlier).length + 1) =
      if later = [] then none else some (earlier.length + (before ++ after).length + 1) := by
    rw [Source.lineStart?, if_pos (by omega)]
    exact h.lines_getElem?_succ
  have hend : (Source.ofText file t).lineEnd (laterLines 0 earlier).length =
      ((earlier.length + (before ++ after).length : Nat) : Int) := by
    rw [Source.lineEnd, hnext]
    by_cases hlater : later = []
    · simp [hlater, h.text, Source.length, Source.ofText]
    · simp only [if_neg hlater]
      omega
  rw [Source.offset?, if_neg hsize, hline, hend]
  rfl

/-- The ends of the line of the offset. -/
theorem offset?_eq (h : OnLine t o earlier before after later) (file : FileId) :
    (Source.ofText file t).offset? (laterLines 0 earlier).length 0 = some (earlier.length : Int) ∧
    (Source.ofText file t).offset? (laterLines 0 earlier).length t.length =
      some ((earlier.length + (before ++ after).length : Nat) : Int) := by
  have hlength : t.length = earlier.length + ((before ++ after).length + later.length) := by simp [h.text, Nat.add_assoc]
  rw [h.offset?_column, h.offset?_column]
  exact ⟨congrArg some (by omega), congrArg some (by omega)⟩

/-- Units are counted from the beginning of the line, as far as it goes. -/
theorem unitOffset?_cover (h : OnLine t o earlier before after later) (file : FileId) (u : Int) :
    (Source.ofText file t).unitOffset? (laterLines 0 earlier).length u =
      some ((earlier.length + coverUnits u (before ++ after) : Nat) : Int) := by
  obtain ⟨hstart, hstop⟩ := h.offset?_eq file
  have hlength : (Source.ofText file t).length = t.length := rfl
  have hline : t.extract earlier.length (earlier.length + (before ++ after).length) = before ++ after := by
    rw [h.text, extract, Nat.add_sub_cancel_left, List.drop_left, List.take_left]
  rw [Source.unitOffset?, hstart, hlength, hstop]
  simp only [Option.bind_eq_bind, Option.bind_some, Int.toNat_natCast, Source.ofText, hline]
  rfl

theorem unitOffset?_eq (h : OnLine t o earlier before after later) (file : FileId) :
    (Source.ofText file t).unitOffset? (laterLines 0 earlier).length (units before) = some (o : Int) := by
  rw [h.unitOffset?_cover, coverUnits_append, ← h.offset]

end Text.OnLine

/-- Line and units of an offset lead back to it. -/
theorem Source.unitOffset?_unitPosition (file : FileId) {t : Text} {o : Nat} (h : o ≤ t.length) :
    (ofText file t).unitOffset? ((ofText file t).unitPosition o).line ((ofText file t).unitPosition o).column = some (o : Int) := by
  obtain ⟨earlier, before, after, later, hline⟩ := Text.exists_onLine h
  rw [hline.unitPosition_eq]
  exact hline.unitOffset?_eq file

/-! ### The lines of a text

What stands between the newlines. Each line is found under its number, with all its columns. -/

theorem length_lines (t : Text) : (t.splitOn '\n').length = t.count '\n' + 1 := by
  induction t with
  | nil => rfl
  | cons c r ih =>
    rw [List.splitOn_cons_eq_if_modifyHead, List.count_cons]
    split
    · rw [List.length_cons, ih]
    · rw [List.length_modifyHead, ih, Nat.add_zero]

variable {file : FileId} {t line : Text} {l c o o' : Nat}

/-- A line of a text stands between the ones before it and the ones after it. -/
theorem exists_line (h : (t.splitOn '\n')[l]? = some line) : ∃ earlier later, t = earlier ++ (line ++ later) ∧
    (earlier = [] ∨ ∃ e, earlier = e ++ ['\n']) ∧ earlier.count '\n' = l ∧ '\n' ∉ line ∧ (later = [] ∨ ∃ r, later = '\n' :: r) := by
  have hl : l ≤ t.count '\n' := by
    obtain ⟨hl, -⟩ := List.getElem?_eq_some_iff.1 h
    rw [length_lines] at hl
    omega
  obtain ⟨earlier, rest, rfl, hearlier, rfl⟩ := Text.exists_lineStart hl
  obtain ⟨body, later, rfl, hbody, hlater⟩ := Text.exists_firstLine rest
  have hhead : ((body ++ later).splitOn '\n')[0]? = some body := by
    rcases hlater with rfl | ⟨r, rfl⟩
    · rw [List.append_nil, List.splitOn_eq_singleton hbody]
      rfl
    · rw [List.splitOn_append_cons_self_of_not_mem hbody]
      rfl
  have hline : ((earlier ++ (body ++ later)).splitOn '\n')[earlier.count '\n']? = some body := by
    rcases hearlier with rfl | ⟨e, rfl⟩
    · exact hhead
    · have hsplit : e ++ ['\n'] ++ (body ++ later) = e ++ '\n' :: (body ++ later) := by simp
      have hcount : (e ++ ['\n']).count '\n' = (e.splitOn '\n').length := by simp [length_lines]
      rw [hsplit, List.splitOn_append_cons_self, hcount, List.getElem?_append_right (Nat.le_refl _), Nat.sub_self, hhead]
  obtain rfl : body = line := Option.some.inj (hline.symm.trans h)
  exact ⟨earlier, later, rfl, hearlier, rfl, hbody, hlater⟩

/-- Every column of a line is the place of an offset. -/
theorem exists_onLine_of_line (h : (t.splitOn '\n')[l]? = some line) : ∃ earlier later,
    earlier.count '\n' = l ∧ ∀ c ≤ line.length, OnLine t (earlier.length + c) earlier (line.take c) (line.drop c) later := by
  obtain ⟨earlier, later, htext, hearlier, hcount, hline, hlater⟩ := exists_line h
  refine ⟨earlier, later, hcount, fun c hc => ⟨?_, ?_, hearlier, ?_, hlater⟩⟩
  · rw [List.take_append_drop]
    exact htext
  · rw [List.length_take, Nat.min_eq_left hc]
  · rw [List.take_append_drop]
    exact hline

/-! ### Places in order -/

/-- Places are ordered by line, then by column. -/
def Position.key (p : Position) : ℕ ×ₗ ℕ := toLex (p.line, p.column)

namespace Text.OnLine

variable {earlier earlier' before before' after after' later later' : Text}

theorem take_eq (h : OnLine t o earlier before after later) : t.take o = earlier ++ before := by
  rw [h.text, h.offset, ← List.length_append, ← List.append_assoc, ← List.append_assoc, List.append_assoc,
    List.take_left]

theorem count_take (h : OnLine t o earlier before after later) : (t.take o).count '\n' = (laterLines 0 earlier).length := by
  have hbefore : before.count '\n' = 0 := List.count_eq_zero.2 fun hmem => h.line (List.mem_append_left _ hmem)
  rw [h.take_eq, List.count_append, hbefore, length_laterLines, Nat.add_zero]

/-- A later offset stands on a later line, or on the same line behind more characters. -/
theorem lt_or_exists (h : OnLine t o earlier before after later) (h' : OnLine t o' earlier' before' after' later')
    (hlt : o < o') : (laterLines 0 earlier).length < (laterLines 0 earlier').length ∨
      earlier' = earlier ∧ ∃ more, more ≠ [] ∧ before' = before ++ more := by
  obtain ⟨more, hmore⟩ : t.take o <+: t.take o' := List.take_prefix_take_left (Nat.le_of_lt hlt)
  have hlines : (t.take o).count '\n' + more.count '\n' = (t.take o').count '\n' := by rw [← hmore, List.count_append]
  rw [h.count_take, h'.count_take] at hlines
  rcases Nat.eq_zero_or_pos (more.count '\n') with hsame | hnext
  · -- lines of one number begin at one offset
    have hstart : earlier'.length = earlier.length := by
      have hbegin := h'.lines_getElem?
      rw [← hlines, hsame, Nat.add_zero, h.lines_getElem?] at hbegin
      exact (Option.some.inj hbegin).symm
    rw [h.take_eq, h'.take_eq, List.append_assoc] at hmore
    obtain ⟨hearlier, hbefore⟩ := List.append_inj hmore hstart.symm
    refine Or.inr ⟨hearlier.symm, more, ?_, hbefore.symm⟩
    rintro rfl
    have hoffset := h.offset
    rw [h'.offset, ← hbefore, ← hearlier, List.append_nil] at hlt
    omega
  · exact Or.inl (by omega)

end Text.OnLine

namespace Source

/-- A later offset has a later place. -/
theorem strictMonoOn_position (file : FileId) (t : Text) :
    StrictMonoOn (fun o : Nat => ((ofText file t).position o).key) (Set.Iic t.length) := by
  intro o ho o' ho' hlt
  obtain ⟨earlier, before, after, later, h⟩ := Text.exists_onLine ho
  obtain ⟨earlier', before', after', later', h'⟩ := Text.exists_onLine ho'
  dsimp only
  rw [h.position_eq, h'.position_eq, Position.key, Position.key, Prod.Lex.toLex_lt_toLex]
  rcases h.lt_or_exists h' hlt with hline | ⟨rfl, more, hmore, rfl⟩
  · exact Or.inl hline
  · have hlength := List.length_pos_iff.2 hmore
    exact Or.inr ⟨rfl, by simp only [List.length_append]; omega⟩

theorem strictMonoOn_unitPosition (file : FileId) (t : Text) :
    StrictMonoOn (fun o : Nat => ((ofText file t).unitPosition o).key) (Set.Iic t.length) := by
  intro o ho o' ho' hlt
  obtain ⟨earlier, before, after, later, h⟩ := Text.exists_onLine ho
  obtain ⟨earlier', before', after', later', h'⟩ := Text.exists_onLine ho'
  dsimp only
  rw [h.unitPosition_eq, h'.unitPosition_eq, Position.key, Position.key, Prod.Lex.toLex_lt_toLex]
  rcases h.lt_or_exists h' hlt with hline | ⟨rfl, more, hmore, rfl⟩
  · exact Or.inl hline
  · have hlength := List.length_pos_iff.2 hmore
    have hunits := Text.length_le_units more
    exact Or.inr ⟨rfl, by simp only [Text.units_append]; omega⟩

/-- Line and column of an offset lead back to it. -/
theorem offset?_position (file : FileId) (h : o ≤ t.length) :
    (ofText file t).offset? ((ofText file t).position o).line ((ofText file t).position o).column = some (o : Int) := by
  obtain ⟨earlier, before, after, later, hline⟩ := Text.exists_onLine h
  have hoffset := hline.offset
  rw [hline.position_eq, hline.offset?_column, List.length_append]
  dsimp only
  exact congrArg some (by omega)

/-- A place of the text leads to an offset that has this place. -/
theorem exists_offset_of_line (file : FileId) (h : (t.splitOn '\n')[l]? = some line) (hc : c ≤ line.length) :
    ∃ o ≤ t.length, (ofText file t).offset? l c = some (o : Int) ∧ (ofText file t).position o = ⟨l, c⟩ := by
  obtain ⟨earlier, later, rfl, hplace⟩ := exists_onLine_of_line h
  have hline := hplace c hc
  have hcolumn : (line.take c).length = c := by rw [List.length_take, Nat.min_eq_left hc]
  have hlength : earlier.length + c ≤ t.length := by
    rw [hline.text, List.take_append_drop]
    simp only [List.length_append]
    omega
  refine ⟨earlier.length + c, hlength, ?_, ?_⟩
  · rw [← length_laterLines 0, hline.offset?_column, List.take_append_drop]
    exact congrArg some (by omega)
  · rw [hline.position_eq, length_laterLines, hcolumn]

/-- A column behind the end of a line denotes its end. -/
theorem offset?_behind_line (file : FileId) (h : (t.splitOn '\n')[l]? = some line) (hc : line.length ≤ c) :
    (ofText file t).offset? l c = (ofText file t).offset? l line.length := by
  obtain ⟨earlier, later, rfl, hplace⟩ := exists_onLine_of_line h
  have hline := hplace 0 (Nat.zero_le _)
  rw [← length_laterLines 0, hline.offset?_column, hline.offset?_column, List.take_append_drop]
  exact congrArg some (by omega)

/-- A number of units denotes the first column of the line that has as many units before it, or the end of the line. -/
theorem exists_unitOffset_of_line (file : FileId) (h : (t.splitOn '\n')[l]? = some line) (u : Int) :
    ∃ c, IsLeast (line.boundariesFrom u) c ∧ (ofText file t).unitOffset? l u = (ofText file t).offset? l c := by
  obtain ⟨earlier, later, rfl, hplace⟩ := exists_onLine_of_line h
  have hline := hplace 0 (Nat.zero_le _)
  have hleast := Text.isLeast_coverUnits line u
  have hcover := hleast.1.1
  refine ⟨Text.coverUnits u line, hleast, ?_⟩
  rw [← length_laterLines 0, hline.unitOffset?_cover, hline.offset?_column, List.take_append_drop]
  exact congrArg some (by omega)

theorem unitOffset?_behind_line (file : FileId) (h : (t.splitOn '\n')[l]? = some line) {u : Int} (hu : Text.units line ≤ u) :
    (ofText file t).unitOffset? l u = (ofText file t).offset? l line.length := by
  obtain ⟨c, ⟨⟨hc, hreach⟩, -⟩, heq⟩ := exists_unitOffset_of_line file h u
  have hend : c = line.length := by
    by_contra hne
    have hlt : c < line.length := Nat.lt_of_le_of_ne hc hne
    have hless := Text.units_take_lt hlt (Nat.le_refl _)
    have hunits := hreach hlt
    rw [List.take_length] at hless
    omega
  rw [heq, hend]

/-- A line behind the last one stands for the end of the text. -/
theorem offset?_behind (file : FileId) (h : t.count '\n' < l) (column : Int) :
    (ofText file t).offset? l column = some (t.length : Int) := by
  refine if_pos ?_
  change ((lineStarts t).size : Int) ≤ l
  rw [lineStarts, List.size_toArray, List.length_cons, length_laterLines]
  omega

theorem unitOffset?_behind (file : FileId) (h : t.count '\n' < l) (u : Int) :
    (ofText file t).unitOffset? l u = some (t.length : Int) := by
  have hnothing : t.extract t.length t.length = [] := Text.extract_eq_nil t (Nat.le_refl _)
  rw [unitOffset?, offset?_behind file h, offset?_behind file h]
  simp only [Option.bind_eq_bind, Option.bind_some, Int.toNat_natCast, ofText, hnothing, Text.coverUnits]
  rfl

/-- An offset behind the text stands for its end. -/
theorem position_behind_text (file : FileId) {offset : Int} (h : t.length ≤ offset) :
    (ofText file t).position offset = (ofText file t).position t.length := by
  have hclamp : (ofText file t).clamp offset = (ofText file t).clamp (t.length : Int) := by
    change min offset.toNat t.length = min (t.length : Int).toNat t.length
    omega
  rw [position, position, hclamp]

/-! ### Editing -/

/-- What is done to a source. -/
inductive Command where
  | edit (start stop : Int) (text : Text)
  | replace (text : Text)

/-- The text that a command leaves behind. One that does not lie in the text leaves it as it is. -/
def Command.apply : Command → Text → Text
  | edit start stop text, t =>
    if 0 ≤ start ∧ start ≤ stop ∧ stop ≤ t.length then t.take start.toNat ++ text ++ t.drop stop.toNat else t
  | replace text, _ => text

/-- The source after a command. Where an edit is rejected nothing happens to it. -/
def perform (s : Source) : Command → Source
  | .edit start stop text => (s.edit start stop text).toOption.getD s
  | .replace text => s.replace text

theorem perform_ofText (file : FileId) (t : Text) (command : Command) :
    (ofText file t).perform command = ofText file (command.apply t) := by
  cases command with
  | edit start stop text =>
    rw [perform, edit, Command.apply]
    by_cases h : 0 ≤ start ∧ start ≤ stop ∧ stop ≤ t.length
    · rw [if_pos h, if_pos (show 0 ≤ start ∧ start ≤ stop ∧ stop ≤ (ofText file t).length from h)]
      rfl
    · rw [if_neg h, if_neg (show ¬ (0 ≤ start ∧ start ≤ stop ∧ stop ≤ (ofText file t).length) from h)]
      rfl
  | replace text => rfl

/-- After any commands a source is that of its text. -/
theorem foldl_perform (file : FileId) (t : Text) (commands : List Command) :
    commands.foldl perform (ofText file t) = ofText file (commands.foldl (fun t command => command.apply t) t) := by
  induction commands generalizing t with
  | nil => rfl
  | cons command commands ih => rw [List.foldl_cons, List.foldl_cons, perform_ofText, ih]

/-- The index of a source is that of a text, and what it says about offsets and places fits together. -/
structure Navigates (s : Source) (t : Text) : Prop where
  text : s.text = t
  index : ∀ k, k ∈ s.lines ↔ k = 0 ∨ ∃ i, t[i]? = some '\n' ∧ k = i + 1
  index_sorted : s.lines.toList.Pairwise (· < ·)
  offset_position : ∀ o ≤ t.length, s.offset? (s.position o).line (s.position o).column = some (o : Int)
  position_strictMono : StrictMonoOn (fun o : Nat => (s.position o).key) (Set.Iic t.length)
  position_offset : ∀ (l : Nat) (line : Text), (t.splitOn '\n')[l]? = some line → ∀ c ≤ line.length,
    ∃ o ≤ t.length, s.offset? l c = some (o : Int) ∧ s.position o = ⟨l, c⟩
  unitOffset_unitPosition : ∀ o ≤ t.length,
    s.unitOffset? (s.unitPosition o).line (s.unitPosition o).column = some (o : Int)
  unitPosition_strictMono : StrictMonoOn (fun o : Nat => (s.unitPosition o).key) (Set.Iic t.length)
  /-- What lies behind the text is its end. -/
  behind_text : ∀ offset : Int, t.length ≤ offset →
    s.position offset = s.position t.length ∧ s.unitPosition offset = s.unitPosition t.length
  behind_lines : ∀ l : Nat, (t.splitOn '\n').length ≤ l → ∀ c : Nat,
    s.offset? l c = some (t.length : Int) ∧ s.unitOffset? l c = some (t.length : Int)
  /-- What lies behind a line is the end of the line. -/
  behind_line : ∀ (l : Nat) (line : Text), (t.splitOn '\n')[l]? = some line → ∀ c : Nat, line.length ≤ c →
    s.offset? l c = s.offset? l line.length
  behind_units : ∀ (l : Nat) (line : Text), (t.splitOn '\n')[l]? = some line → ∀ u : Nat, Text.units line ≤ u →
    s.unitOffset? l u = s.offset? l line.length
  /-- What lies inside a character is the end of the character. -/
  inside_units : ∀ (l : Nat) (line : Text), (t.splitOn '\n')[l]? = some line → ∀ u : Nat,
    ∃ c, IsLeast (line.boundariesFrom u) c ∧ s.unitOffset? l u = s.offset? l c

end Source

end Proofreader
