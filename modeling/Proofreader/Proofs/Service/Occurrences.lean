import Mathlib.Tactic.Common
import Proofreader.Service.Literal

/-! Occurrences of a word, from left to right and without overlap. Such a list is determined by the text: it holds
occurrences only, none reaches into another, and each occurrence that it leaves out reaches into one before it. -/

namespace Proofreader

/-- Offsets at which `w` occurs between `a` and `b`, as they are met from left to right. -/
structure Scans (w t : Text) (a b : Nat) (offsets : List Nat) : Prop where
  occurs : ∀ o ∈ offsets, w <+: t.drop o
  within : ∀ o ∈ offsets, a ≤ o ∧ o + w.length ≤ b
  apart : offsets.Pairwise fun o p => o + w.length ≤ p
  complete : ∀ i, a ≤ i → i + w.length ≤ b → w <+: t.drop i → ∃ o ∈ offsets, o ≤ i ∧ i < o + w.length

namespace Scans

variable {w t : Text} {a b m o : Nat} {xs ys : List Nat}

theorem cons (ho : w <+: t.drop o) (hle : o + w.length ≤ b) (h : Scans w t (o + w.length) b xs) :
    Scans w t o b (o :: xs) where
  occurs i hi := by
    rcases List.mem_cons.1 hi with rfl | hi
    · exact ho
    · exact h.occurs i hi
  within i hi := by
    rcases List.mem_cons.1 hi with rfl | hi
    · exact ⟨Nat.le_refl _, hle⟩
    · have := h.within i hi
      omega
  apart := List.pairwise_cons.2 ⟨fun i hi => (h.within i hi).1, h.apart⟩
  complete i hi hib hocc := by
    by_cases hlt : i < o + w.length
    · exact ⟨o, List.mem_cons_self, hi, hlt⟩
    · obtain ⟨p, hp, hcover⟩ := h.complete i (by omega) hib hocc
      exact ⟨p, List.mem_cons_of_mem _ hp, hcover⟩

/-- Behind its first offset a scan goes on. -/
theorem tail (h : Scans w t a b (o :: xs)) : Scans w t (o + w.length) b xs where
  occurs i hi := h.occurs i (List.mem_cons_of_mem _ hi)
  within i hi := ⟨(List.pairwise_cons.1 h.apart).1 i hi, (h.within i (List.mem_cons_of_mem _ hi)).2⟩
  apart := (List.pairwise_cons.1 h.apart).2
  complete i hi hib hocc := by
    have ho := (h.within o List.mem_cons_self).1
    obtain ⟨p, hp, hpi, hip⟩ := h.complete i (by omega) hib hocc
    rcases List.mem_cons.1 hp with rfl | hp
    · omega
    · exact ⟨p, hp, hpi, hip⟩

/-- No scan of the same part begins later. -/
theorem head_le (h : Scans w t a b (o :: xs)) (g : Scans w t a b ys) {p : Nat} (hp : p ∈ ys) : o ≤ p := by
  obtain ⟨hap, hpb⟩ := g.within p hp
  obtain ⟨q, hq, hqp, -⟩ := h.complete p hap hpb (g.occurs p hp)
  rcases List.mem_cons.1 hq with rfl | hq
  · exact hqp
  · have := (List.pairwise_cons.1 h.apart).1 q hq
    omega

theorem unique (h : Scans w t a b xs) (g : Scans w t a b ys) : xs = ys := by
  induction xs generalizing a ys with
  | nil =>
    refine (List.eq_nil_iff_forall_not_mem.2 fun p hp => ?_).symm
    obtain ⟨hap, hpb⟩ := g.within p hp
    obtain ⟨q, hq, -⟩ := h.complete p hap hpb (g.occurs p hp)
    cases hq
  | cons o xs ih =>
    cases ys with
    | nil =>
      obtain ⟨hao, hob⟩ := h.within o List.mem_cons_self
      obtain ⟨q, hq, -⟩ := g.complete o hao hob (h.occurs o List.mem_cons_self)
      cases hq
    | cons p ys =>
      have heq : o = p := Nat.le_antisymm (h.head_le g List.mem_cons_self) (g.head_le h List.mem_cons_self)
      subst heq
      rw [ih h.tail g.tail]

/-- Scans of two parts make up one if no occurrence runs across the place where they meet. -/
theorem append (h : Scans w t a m xs) (g : Scans w t m b ys) (ham : a ≤ m) (hmb : m ≤ b)
    (hacross : ∀ i, w <+: t.drop i → i < m → i + w.length ≤ m) : Scans w t a b (xs ++ ys) where
  occurs o ho := (List.mem_append.1 ho).elim (h.occurs o) (g.occurs o)
  within o ho := by
    rcases List.mem_append.1 ho with ho | ho
    · have := h.within o ho
      omega
    · have := g.within o ho
      omega
  apart := List.pairwise_append.2 ⟨h.apart, g.apart, fun o ho p hp =>
    Nat.le_trans (h.within o ho).2 (g.within p hp).1⟩
  complete i hi hib hocc := by
    by_cases hlt : i < m
    · obtain ⟨o, ho, hcover⟩ := h.complete i hi (hacross i hocc hlt) hocc
      exact ⟨o, List.mem_append_left _ ho, hcover⟩
    · obtain ⟨o, ho, hcover⟩ := g.complete i (by omega) hib hocc
      exact ⟨o, List.mem_append_right _ ho, hcover⟩

theorem nil (h : b ≤ a) (hw : w ≠ []) : Scans w t a b [] where
  occurs := nofun
  within := nofun
  apart := .nil
  complete i hi hib _ := by
    have := List.length_pos_iff.2 hw
    omega

/-- A place without an occurrence may be passed over. -/
theorem pass (h : Scans w t (a + 1) b xs) (hno : ¬ w <+: t.drop a) : Scans w t a b xs where
  occurs := h.occurs
  within o ho := by
    have := h.within o ho
    omega
  apart := h.apart
  complete i hi hib hocc := by
    by_cases hia : i = a
    · exact absurd (hia ▸ hocc) hno
    · exact h.complete i (by omega) hib hocc

end Scans

/-- What is found from left to right is a scan of what is left. -/
theorem scans_occurrences_from {w t r : Text} (hw : w ≠ []) (skip : Nat) {offset : Nat} (hr : t.drop offset = r) :
    Scans w t (offset + skip) t.length (occurrences w skip offset r) := by
  induction r generalizing skip offset with
  | nil =>
    rw [occurrences]
    exact .nil (Nat.le_trans (List.drop_eq_nil_iff.1 hr) (Nat.le_add_right _ _)) hw
  | cons c r ih =>
    have hnext : t.drop (offset + 1) = r := by
      rw [← List.drop_drop, hr]
      rfl
    have hpos := List.length_pos_iff.2 hw
    cases skip with
    | succ skip =>
      have hskip : offset + (skip + 1) = offset + 1 + skip := by omega
      rw [occurrences, hskip]
      exact ih skip hnext
    | zero =>
      rw [occurrences, Nat.add_zero]
      split
      · next hmatch =>
        simp only [Bool.and_eq_true, List.isPrefixOf_iff_prefix] at hmatch
        have hocc : w <+: t.drop offset := hr ▸ hmatch.2
        have hlength := hocc.length_le
        rw [List.length_drop] at hlength
        have hbehind : offset + 1 + (w.length - 1) = offset + w.length := by omega
        exact .cons hocc (by omega) (hbehind ▸ ih _ hnext)
      · next hmatch =>
        refine .pass (ih 0 hnext) fun hocc => hmatch ?_
        rw [hr] at hocc
        simp [hw, hocc]

theorem scans_occurrences {w : Text} (hw : w ≠ []) (t : Text) : Scans w t 0 t.length (occurrences w 0 0 t) :=
  scans_occurrences_from hw 0 List.drop_zero

end Proofreader
