import Mathlib.Tactic.Common
import Proofreader.Text.Basic

/-! Parts of texts: between two offsets, and between separators. -/

namespace Proofreader.Text

theorem length_extract (t : Text) {a b : Nat} (h : b ≤ t.length) : (t.extract a b).length = b - a := by
  simp only [extract, List.length_take, List.length_drop]
  omega

theorem extract_append_of_le {t : Text} (u : Text) {b : Nat} (a : Nat) (h : b ≤ t.length) :
    (t ++ u).extract a b = t.extract a b := by
  by_cases hab : a ≤ b
  · have hz : a - t.length = 0 := by omega
    simp only [extract, List.drop_append, hz, List.drop_zero]
    rw [List.take_append_of_le_length]
    simp only [List.length_drop]
    omega
  · have hz : b - a = 0 := by omega
    simp only [extract, hz, List.take_zero]

theorem extract_append_right (t u : Text) : (t ++ u).extract t.length (t.length + u.length) = u := by
  simp [extract]

theorem extract_eq_nil (t : Text) {a b : Nat} (h : b ≤ a) : t.extract a b = [] := by
  simp [extract, Nat.sub_eq_zero_of_le h]

/-- Two adjacent parts are one part. -/
theorem extract_append_extract (t : Text) {a b c : Nat} (hab : a ≤ b) (hbc : b ≤ c) :
    t.extract a b ++ t.extract b c = t.extract a c := by
  have hc : c - a = (b - a) + (c - b) := by omega
  have hb : b = a + (b - a) := by omega
  unfold extract
  rw [hc, List.take_add, List.drop_drop, ← hb]

theorem drop_extract (t : Text) (a b n : Nat) : (t.extract a b).drop n = t.extract (a + n) b := by
  unfold extract
  rw [List.drop_take, List.drop_drop, Nat.sub_sub]

theorem getElem?_extract (t : Text) {a b i : Nat} (h : a + i < b) : (t.extract a b)[i]? = t[a + i]? := by
  unfold extract
  rw [List.getElem?_take_of_lt (by omega), List.getElem?_drop]

/-- A part of a part is a part of the whole. -/
theorem extract_extract (t : Text) (a : Nat) {b c d : Nat} (h : a + d ≤ b) :
    (t.extract a b).extract c d = t.extract (a + c) (a + d) := by
  have hd : a + d - (a + c) = d - c := by omega
  unfold extract
  rw [List.drop_take, List.drop_drop, List.take_take, hd]
  congr 1
  omega

end Proofreader.Text

/-! ### Splitting and joining -/

namespace Proofreader.Text

variable {p : Char → Bool} {t r : Text} {c : Char}

theorem splitWhen_ne_nil (p : Char → Bool) (t : Text) : splitWhen p t ≠ [] := by
  cases t with
  | nil => simp [splitWhen]
  | cons c r =>
    rw [splitWhen]
    split
    · split <;> simp
    · simp

theorem splitWhen_cons_of_pos (hc : p c = true) : splitWhen p (c :: r) = [] :: splitWhen p r := by
  obtain ⟨part, parts, he⟩ := List.exists_cons_of_ne_nil (splitWhen_ne_nil p r)
  rw [splitWhen, he]
  exact if_pos hc

theorem splitWhen_of_forall_not (h : ∀ c ∈ t, p c = false) : splitWhen p t = [t] := by
  induction t with
  | nil => rfl
  | cons c r ih =>
    rw [splitWhen, ih fun d hd => h d (List.mem_cons_of_mem _ hd)]
    simp [h c List.mem_cons_self]

/-- A first part without separators is split off. -/
theorem splitWhen_append (h : ∀ c ∈ t, p c = false) (hc : p c = true) :
    splitWhen p (t ++ c :: r) = t :: splitWhen p r := by
  induction t with
  | nil => exact splitWhen_cons_of_pos hc
  | cons d t ih =>
    rw [List.cons_append, splitWhen, ih fun e he => h e (List.mem_cons_of_mem _ he)]
    simp [h d List.mem_cons_self]

theorem not_of_mem_splitWhen {part : Text} (h : part ∈ splitWhen p t) : ∀ c ∈ part, p c = false := by
  induction t generalizing part with
  | nil =>
    rw [splitWhen, List.mem_singleton] at h
    simp [h]
  | cons d t ih =>
    obtain ⟨first, parts, he⟩ := List.exists_cons_of_ne_nil (splitWhen_ne_nil p t)
    rw [he] at ih
    rw [splitWhen, he] at h
    dsimp only at h
    split at h
    · rcases List.mem_cons.1 h with rfl | h
      · nofun
      · exact ih h
    · next hd =>
      rcases List.mem_cons.1 h with rfl | h
      · intro c hc
        rcases List.mem_cons.1 hc with rfl | hc
        · simpa using hd
        · exact ih List.mem_cons_self c hc
      · exact ih (List.mem_cons_of_mem _ h)

/-! ### Trimming -/

theorem dropWhile_of_forall_not (h : ∀ c ∈ t, p c = false) : t.dropWhile p = t := by
  cases t with
  | nil => rfl
  | cons c t => rw [List.dropWhile_cons_of_neg (by simp [h c List.mem_cons_self])]

theorem trimWhile_of_forall_not (h : ∀ c ∈ t, p c = false) : trimWhile p t = t := by
  rw [trimWhile, dropTailWhile, dropWhile_of_forall_not h,
    dropWhile_of_forall_not fun c hc => h c (List.mem_reverse.1 hc), List.reverse_reverse]

/-- What is so of each of a few characters, by looking at them one by one. -/
theorem forall_mem_of_all {P : Char → Prop} [DecidablePred P] (h : (t.all fun c => decide (P c)) = true) : ∀ c ∈ t, P c :=
  fun c hc => of_decide_eq_true (List.all_eq_true.1 h c hc)

end Proofreader.Text
