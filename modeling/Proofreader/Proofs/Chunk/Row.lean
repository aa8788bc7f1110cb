import Mathlib.Data.List.Chain
import Proofreader.Proofs.Chunk.Boundary

/-! Cuts and rows. A cut that is not forced lies behind a blank, and none lies beyond the limit of its chunk. Chunks
in a row follow each other without a gap, so they make up a part of the text and own each of its offsets once. -/

namespace Proofreader

/-- The character before offset `n` is a blank. -/
def Text.BlankBefore (t : Text) (n : Nat) : Prop := ∃ m c, n = m + 1 ∧ t[m]? = some c ∧ isBlank c = true

theorem Text.BlankBefore.of_extract {t : Text} {a b n : Nat} (h : (t.extract a b).BlankBefore n) :
    t.BlankBefore (a + n) := by
  obtain ⟨m, c, rfl, hc, hblank⟩ := h
  have hlt := (List.getElem?_eq_some_iff.1 hc).1
  simp only [extract, List.length_take, List.length_drop] at hlt
  rw [getElem?_extract t (by omega)] at hc
  exact ⟨a + m, c, by omega, hc, hblank⟩

/-! ### Cuts -/

theorem Text.EndsPassage.blankBefore {t : Text} {i n : Nat} (h : t.EndsPassage i n) : t.BlankBefore n := by
  rcases h with ⟨rfl, -, hbreak⟩ | h
  · exact ⟨i + 1, '\n', rfl, hbreak, by decide⟩
  · have hsize := h.size
    have hblank := h.blank
    cases hc : t[n - 1]? with
    | none => simp [hc] at hblank
    | some c =>
      rw [hc] at hblank
      exact ⟨n - 1, c, by omega, hc, hblank⟩

/-- A cut that is not forced lies behind a blank: a paragraph ends with one, a sentence does, and a word does. -/
theorem CutsBest.blankBefore {t : Text} {start low limit n : Nat} (h : CutsBest t start low limit n false) :
    t.BlankBefore n := by
  cases h with
  | passage h =>
    obtain ⟨-, -, i, -, h⟩ := h.1
    exact h.blankBefore
  | word _ h =>
    obtain ⟨-, -, i, -, rfl, hblank⟩ := h.1
    cases hc : t[i]? with
    | none => simp [hc] at hblank
    | some c =>
      rw [hc] at hblank
      exact ⟨i, c, rfl, hc, hblank⟩

theorem CutsBest.le {t : Text} {start low limit n : Nat} {forced : Bool} (h : CutsBest t start low limit n forced) :
    n ≤ limit := by
  cases h with
  | passage h => exact h.1.2.1
  | word _ h => exact h.1.2.1
  | forced => exact Nat.le_refl _

namespace Chunker

/-- Where a chunk ends: inside the page and not beyond the limit, and behind a blank unless the page ends there or the
cut is forced. -/
theorem stop_le (c : Chunker) (page : Text) (start : Nat) :
    (c.stop page start).1 ≤ page.length ∧ (c.stop page start).1 ≤ c.limit start ∧
      ((c.stop page start).2 = false → (c.stop page start).1 < page.length →
        page.BlankBefore (c.stop page start).1) := by
  by_cases hpage : page.length ≤ c.limit start
  · rw [stop, if_pos hpage]
    exact ⟨Nat.le_refl _, hpage, fun _ hlt => absurd hlt (Nat.lt_irrefl _)⟩
  · have hlimit : c.limit start < page.length := Nat.lt_of_not_le hpage
    have hcut := c.cutsBest_stop hlimit
    exact ⟨Nat.le_trans hcut.le (Nat.le_of_lt hlimit), hcut.le, fun hsoft _ => (hsoft ▸ hcut).blankBefore⟩

end Chunker

namespace Chunk

@[simp] theorem start_shift (n : Nat) (k : Chunk) : (k.shift n).start = n + k.start := Nat.add_assoc _ _ _

@[simp] theorem stop_shift (n : Nat) (k : Chunk) : (k.shift n).stop = n + k.stop := Nat.add_assoc _ _ _

end Chunk

/-! ### Rows -/

/-- Chunks that follow each other from `a` up to `b`, none of them empty, all of which satisfy `P`. -/
inductive Row (P : Chunk → Prop) : Nat → List Chunk → Nat → Prop
  | nil (a : Nat) : Row P a [] a
  | cons {a b : Nat} {k : Chunk} {ks : List Chunk} :
      k.start = a → P k → a < k.stop → Row P k.stop ks b → Row P a (k :: ks) b

namespace Row

variable {P Q : Chunk → Prop} {a b d o : Nat} {k : Chunk} {ks ls : List Chunk} {t : Text}

theorem append (h : Row P a ks b) (g : Row P b ls d) : Row P a (ks ++ ls) d := by
  induction h with
  | nil => exact g
  | cons hstart hk hlt _ ih => exact .cons hstart hk hlt (ih g)

theorem le (h : Row P a ks b) : a ≤ b := by
  induction h with
  | nil => exact Nat.le_refl _
  | cons _ _ hlt _ ih => omega

theorem bounds (h : Row P a ks b) (hk : k ∈ ks) : P k ∧ a ≤ k.start ∧ k.start < k.stop ∧ k.stop ≤ b := by
  induction h with
  | nil => cases hk
  | cons hstart hj hlt hr ih =>
    have hle := hr.le
    rcases List.mem_cons.1 hk with rfl | hk
    · exact ⟨hj, by omega, by omega, hle⟩
    · obtain ⟨hP, hbegin, hbody, hstop⟩ := ih hk
      exact ⟨hP, by omega, hbody, hstop⟩

/-- A row of chunks in a part is one in the whole. -/
theorem shift (h : Row P a ks b) (n : Nat) (himp : ∀ k, P k → k.stop ≤ b → Q (k.shift n)) :
    Row Q (n + a) (ks.map (·.shift n)) (n + b) := by
  induction h with
  | nil => exact .nil _
  | @cons a b k ks hstart hk hlt hr ih =>
    refine .cons ?_ (himp k hk hr.le) ?_ ?_
    · rw [Chunk.start_shift, hstart]
    · rw [Chunk.stop_shift]
      omega
    · rw [Chunk.stop_shift]
      exact ih himp

theorem first (h : Row P a ks b) : ∀ k ∈ ks.head?, k.start = a := by
  cases h with
  | nil => exact nofun
  | cons hstart => simpa using hstart

theorem eq_of_nil (h : Row P a [] b) : a = b := by
  cases h
  rfl

theorem last (h : Row P a ks b) : ∀ k ∈ ks.getLast?, k.stop = b := by
  induction h with
  | nil => exact nofun
  | @cons a b k ks _ _ _ hr ih =>
    cases ks with
    | nil => exact fun l hl => Option.some.inj hl ▸ hr.eq_of_nil
    | cons l ks => exact ih

theorem pairwise (h : Row P a ks b) : ks.Pairwise fun k l => k.start < l.start := by
  induction h with
  | nil => exact .nil
  | cons hstart _ hlt hr ih =>
    refine List.pairwise_cons.2 ⟨fun l hl => ?_, ih⟩
    have hbounds := hr.bounds hl
    omega

theorem chain (h : Row P a ks b) : ks.IsChain fun k l => l.start = k.stop := by
  induction h with
  | nil => exact .nil
  | cons _ _ _ hr ih => exact List.isChain_cons.2 ⟨hr.first, ih⟩

/-- The bodies make up the text from the beginning of a row to its end. -/
theorem flatMap_body (h : Row P a ks b) (htext : ∀ k, P k → t.extract k.base k.stop = k.text) :
    ks.flatMap Chunk.body = t.extract a b := by
  induction h with
  | nil a => exact (t.extract_eq_nil (Nat.le_refl a)).symm
  | @cons a b k ks hstart hk hlt hr ih =>
    have hbody : k.body = t.extract a k.stop := by
      rw [Chunk.body, ← htext k hk, Text.drop_extract, ← hstart]
      rfl
    rw [List.flatMap_cons, ih, hbody, t.extract_append_extract (Nat.le_of_lt hlt) hr.le]

/-- Every offset of a row belongs to one chunk. -/
theorem owned (h : Row P a ks b) (ha : a ≤ o) (hb : o < b) :
    ∃! i : Nat, ∃ k, ks[i]? = some k ∧ k.start ≤ o ∧ o < k.stop := by
  induction h with
  | nil => omega
  | @cons a b k ks hbegin hk hlt hr ih =>
    by_cases ho : o < k.stop
    · refine ⟨0, ⟨k, rfl, by omega, ho⟩, fun i ⟨l, hl, hstart, _⟩ => ?_⟩
      cases i with
      | zero => rfl
      | succ i =>
        have hbounds := hr.bounds (List.mem_of_getElem? hl)
        omega
    · obtain ⟨i, ⟨l, hl, hown⟩, hunique⟩ := ih (by omega) hb
      refine ⟨i + 1, ⟨l, hl, hown⟩, fun j ⟨m, hm, hmown⟩ => ?_⟩
      cases j with
      | zero =>
        rw [List.getElem?_cons_zero, Option.some.injEq] at hm
        subst hm
        omega
      | succ j => exact congrArg (· + 1) (hunique j ⟨m, hm, hmown⟩)

end Row

end Proofreader
