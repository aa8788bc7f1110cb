import Proofreader.Markup.Cursor
import Proofreader.Proofs.Text.Basic

/-! A cursor stands at an offset of its file, and reading only moves it on. What lies between two cursors of one
reading is the part of the file between their offsets. -/

namespace Proofreader.Markup.Cursor

/-- What has been read and what is left make up the file. -/
structure At (text : Text) (s : Cursor) : Prop where
  whole : s.past.reverse ++ s.rest = text
  pos : s.pos = s.past.length

/-- Reading from `s` leads to `t`. -/
structure Reaches (s t : Cursor) : Prop where
  passed : ∃ u, s.rest = u ++ t.rest ∧ t.past = u.reverse ++ s.past ∧ t.pos = s.pos + u.length
  asked : s.asked <+: t.asked

variable {text : Text} {s t u : Cursor}

theorem at_start (text : Text) (scope : Scope) : (start text scope).At text := ⟨rfl, rfl⟩

theorem At.le (h : s.At text) : s.pos ≤ text.length := by
  rw [← h.whole, h.pos]
  simp

theorem At.rest (h : s.At text) : s.rest = text.drop s.pos := by
  rw [← h.whole, h.pos, ← List.length_reverse, List.drop_left]

/-- Other fields than the place may change. -/
theorem Reaches.same (hpast : t.past = s.past) (hrest : t.rest = s.rest) (hpos : t.pos = s.pos)
    (hasked : s.asked <+: t.asked) : Reaches s t :=
  ⟨⟨[], by simp [hrest], by simp [hpast], by simp [hpos]⟩, hasked⟩

theorem Reaches.refl (s : Cursor) : Reaches s s := .same rfl rfl rfl List.prefix_rfl

theorem Reaches.trans (h : Reaches s t) (k : Reaches t u) : Reaches s u := by
  obtain ⟨⟨x, hrest, hpast, hpos⟩, hasked⟩ := h
  obtain ⟨⟨y, krest, kpast, kpos⟩, kasked⟩ := k
  refine ⟨⟨x ++ y, ?_, ?_, ?_⟩, hasked.trans kasked⟩
  · rw [hrest, krest, List.append_assoc]
  · rw [kpast, hpast, List.reverse_append, List.append_assoc]
  · rw [kpos, hpos, List.length_append, Nat.add_assoc]

theorem Reaches.le (h : Reaches s t) : s.pos ≤ t.pos := by
  obtain ⟨u, -, -, hpos⟩ := h.passed
  omega

theorem Reaches.length_eq (h : Reaches s t) : s.rest.length + s.pos = t.rest.length + t.pos := by
  obtain ⟨u, hrest, -, hpos⟩ := h.passed
  rw [hrest, List.length_append, hpos]
  omega

theorem Reaches.length_le (h : Reaches s t) : t.rest.length ≤ s.rest.length := by
  have := h.length_eq
  have := h.le
  omega

theorem Reaches.at (h : Reaches s t) (hs : s.At text) : t.At text := by
  obtain ⟨u, hrest, hpast, hpos⟩ := h.passed
  refine ⟨?_, ?_⟩
  · rw [hpast, List.reverse_append, List.reverse_reverse, List.append_assoc, ← hrest, hs.whole]
  · rw [hpos, hpast, hs.pos, List.length_append, List.length_reverse, Nat.add_comm]

theorem At.since (h : s.At text) (t : Cursor) : t.since s = text.extract s.pos t.pos := by
  rw [Cursor.since, h.rest, Text.extract]

theorem reaches_advance (s : Cursor) (n : Nat) : Reaches s (s.advance n) :=
  ⟨⟨s.rest.take n, (List.take_append_drop n s.rest).symm, rfl, rfl⟩, List.prefix_rfl⟩

theorem advance_zero (s : Cursor) : s.advance 0 = s := rfl

theorem advance_advance (s : Cursor) (m n : Nat) : (s.advance m).advance n = s.advance (m + n) := by
  simp only [advance, List.drop_drop, List.take_add, List.reverse_append, List.append_assoc, List.length_append,
    Nat.add_assoc]

/-- Passing over the text at the head. -/
theorem since_advance {x r : Text} (h : s.rest = x ++ r) : (s.advance x.length).since s = x := by
  simp [since, advance, h]

theorem length_advance_lt (h : s.rest ≠ []) {n : Nat} (hn : 0 < n) : (s.advance n).rest.length < s.rest.length := by
  have := List.length_pos_iff.2 h
  simp only [advance, List.length_drop]
  omega

theorem lt_advance (h : s.rest ≠ []) {n : Nat} (hn : 0 < n) : s.pos < (s.advance n).pos := by
  have := List.length_pos_iff.2 h
  simp only [advance, List.length_take]
  omega

theorem reaches_skipWhile (s : Cursor) (p : Char → Bool) : Reaches s (s.skipWhile p) := reaches_advance s _

theorem rest_skipWhile (s : Cursor) (p : Char → Bool) : (s.skipWhile p).rest = s.rest.dropWhile p := by
  change s.rest.drop (s.rest.takeWhile p).length = s.rest.dropWhile p
  conv_lhs => arg 2; rw [← List.takeWhile_append_dropWhile (p := p) (l := s.rest)]
  exact List.drop_left

theorem head_skipWhile (s : Cursor) (p : Char → Bool) : ∀ c ∈ (s.skipWhile p).rest.head?, p c = false := by
  intro c hc
  rw [rest_skipWhile] at hc
  have := List.head?_dropWhile_not p s.rest
  rw [Option.mem_def.1 hc] at this
  simpa using this

theorem reaches_arguments (s : Cursor) : Reaches s s.arguments.2 := by
  unfold arguments
  split
  · exact reaches_advance s _
  · exact .refl s

theorem reaches_skipContent (s : Cursor) (fuel : Nat) : Reaches s (s.skipContent fuel) := by
  induction fuel generalizing s with
  | zero => exact .refl s
  | succ fuel ih =>
    unfold skipContent
    split
    · exact (reaches_advance s _).trans (ih _)
    · exact .refl s

theorem trimmedEnd_le (s start : Cursor) : s.trimmedEnd start ≤ s.pos := Nat.sub_le _ _

/-- What was read begins with no space, so it is not empty without the spaces at its end. -/
theorem lt_trimmedEnd (h : s.Reaches t) (hlt : s.pos < t.pos) (hhead : ∀ c ∈ s.rest.head?, isSpace c = false) :
    s.pos < t.trimmedEnd s := by
  obtain ⟨u, hrest, hpast, hpos⟩ := h.passed
  cases u with
  | nil => exact absurd hpos (Nat.ne_of_gt hlt)
  | cons c r =>
    have hc : isSpace c = false := hhead c (by rw [hrest]; rfl)
    have htake : t.past.take (t.pos - s.pos) = (c :: r).reverse := by
      rw [hpast, hpos, Nat.add_sub_cancel_left, ← List.length_reverse, List.take_left]
    have hspaces : ((c :: r).reverse.takeWhile isSpace).length < (c :: r).length := by
      rw [List.reverse_cons, List.takeWhile_append]
      split
      · simp [hc]
      · have := (List.takeWhile_prefix isSpace (l := r.reverse)).length_le
        rw [List.length_reverse] at this
        exact Nat.lt_succ_of_le this
    unfold trimmedEnd
    rw [htake]
    omega

end Proofreader.Markup.Cursor
