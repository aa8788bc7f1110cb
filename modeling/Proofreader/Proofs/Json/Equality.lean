import Proofreader.Json.Value

/-! Whether two JSON values are the same can be decided. Floats are told apart by what they are, not by how they
compare. -/

namespace Proofreader.Json

mutual

def same : Json → Json → Bool
  | null, null => true
  | bool a, bool b => a = b
  | int a, int b => a = b
  | float a, float b => a = b
  | str a, str b => a = b
  | arr xs, arr ys => sameItems xs ys
  | obj ms, obj ns => sameMembers ms ns
  | _, _ => false

def sameItems : List Json → List Json → Bool
  | [], [] => true
  | x :: xs, y :: ys => x.same y && sameItems xs ys
  | _, _ => false

def sameMembers : List (String × Json) → List (String × Json) → Bool
  | [], [] => true
  | (k, x) :: ms, (l, y) :: ns => decide (k = l) && x.same y && sameMembers ms ns
  | _, _ => false

end

mutual

theorem same_iff (v w : Json) : v.same w = true ↔ v = w := by
  cases v with
  | arr xs => cases w <;> simp [same, sameItems_iff xs]
  | obj ms => cases w <;> simp [same, sameMembers_iff ms]
  | _ => cases w <;> simp [same]

theorem sameItems_iff (xs ys : List Json) : sameItems xs ys = true ↔ xs = ys := by
  cases xs with
  | nil => cases ys <;> simp [sameItems]
  | cons x xs => cases ys <;> simp [sameItems, same_iff x, sameItems_iff xs]

theorem sameMembers_iff (ms ns : List (String × Json)) : sameMembers ms ns = true ↔ ms = ns := by
  cases ms with
  | nil => cases ns <;> simp [sameMembers]
  | cons m ms =>
    obtain ⟨k, x⟩ := m
    cases ns with
    | nil => simp [sameMembers]
    | cons n ns => simp [sameMembers, same_iff x, sameMembers_iff ms, Prod.ext_iff]

end

instance : DecidableEq Json := fun v w => decidable_of_iff _ (same_iff v w)

end Proofreader.Json
