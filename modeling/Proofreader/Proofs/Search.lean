import Mathlib.Tactic.Common
import Proofreader.Search

/-! Halving finds where a property ends that holds on a first stretch. In an array it counts that stretch. -/

namespace Proofreader

theorem firstFailure_eq {p : Nat → Bool} {lo hi k : Nat} (hlo : lo ≤ k) (hhi : k ≤ hi)
    (hbelow : ∀ i, i < k → p i = true) (habove : ∀ i, k ≤ i → i < hi → p i = false) : firstFailure p lo hi = k := by
  induction lo, hi using firstFailure.induct (p := p) with
  | case1 lo hi hlt mid hp ih =>
    have hmid : mid < k := by
      by_contra hge
      have hfalse := habove mid (by omega) (by omega)
      simp [hp] at hfalse
    rw [firstFailure, if_pos hlt]
    dsimp only
    rw [if_pos hp]
    exact ih (by omega) hhi habove
  | case2 lo hi hlt mid hp ih =>
    have hmid : k ≤ mid := by
      by_contra hlt'
      exact hp (hbelow mid (by omega))
    rw [firstFailure, if_pos hlt]
    dsimp only
    rw [if_neg hp]
    exact ih hlo hmid fun i hk hi => habove i hk (by omega)
  | case3 lo hi hlt =>
    rw [firstFailure, if_neg hlt]
    omega

variable {α : Type} {q : α → Bool} {xs : List α}

/-- A list splits where the property ends. -/
theorem exists_split (h : xs.Pairwise fun x y => q y = true → q x = true) :
    ∃ as bs, xs = as ++ bs ∧ (∀ x ∈ as, q x = true) ∧ ∀ x ∈ bs, q x = false := by
  induction xs with
  | nil => exact ⟨[], [], rfl, nofun, nofun⟩
  | cons x r ih =>
    rw [List.pairwise_cons] at h
    cases hx : q x with
    | true =>
      obtain ⟨as, bs, rfl, ha, hb⟩ := ih h.2
      refine ⟨x :: as, bs, rfl, fun y hy => ?_, hb⟩
      rcases List.mem_cons.1 hy with rfl | hy
      · exact hx
      · exact ha y hy
    | false =>
      refine ⟨[], x :: r, rfl, nofun, fun y hy => ?_⟩
      rcases List.mem_cons.1 hy with rfl | hy
      · exact hx
      · have himp := h.1 y hy
        rw [hx] at himp
        simpa using himp

/-- Halving an array finds the length of the stretch on which the property holds. -/
theorem firstFailure_toList {a : Array α} {as bs : List α} (h : a.toList = as ++ bs)
    (ha : ∀ x ∈ as, q x = true) (hb : ∀ x ∈ bs, q x = false) :
    firstFailure (fun i => a[i]?.any q) 0 a.size = as.length := by
  have hsize : a.size = as.length + bs.length := by rw [← Array.length_toList, h, List.length_append]
  refine firstFailure_eq (Nat.zero_le _) (by omega) (fun i hi => ?_) (fun i hi hlt => ?_)
  · rw [← Array.getElem?_toList, h, List.getElem?_append_left hi, List.getElem?_eq_getElem hi]
    exact ha _ (List.getElem_mem hi)
  · have hlt' : i - as.length < bs.length := by omega
    rw [← Array.getElem?_toList, h, List.getElem?_append_right hi, List.getElem?_eq_getElem hlt']
    exact hb _ (List.getElem_mem hlt')

/-- Taking while a property holds that ends for good is the same as filtering by it. -/
theorem takeWhile_eq_filter (h : xs.Pairwise fun x y => q y = true → q x = true) : xs.takeWhile q = xs.filter q := by
  obtain ⟨as, bs, rfl, ha, hb⟩ := exists_split h
  have hnone : bs.takeWhile q = [] := by
    cases bs with
    | nil => rfl
    | cons y r => rw [List.takeWhile_cons_of_neg (by simp [hb y])]
  rw [List.takeWhile_append_of_pos ha, hnone, List.filter_append, List.filter_eq_self.2 ha,
    List.filter_eq_nil_iff.2 fun x hx => by simp [hb x hx]]

end Proofreader
