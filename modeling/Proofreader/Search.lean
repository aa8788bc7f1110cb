/-! Binary search. A property that holds on a first stretch and fails from there on is looked up
by halving; `upperBound` counts the elements of a sorted array that are at most a given one. -/

namespace Proofreader

/-- The least index in `[lo, hi)` where `p` fails, or `hi`, for a `p` that never holds again once
it has failed. -/
def firstFailure (p : Nat → Bool) (lo hi : Nat) : Nat :=
  if lo < hi then
    let mid := (lo + hi) / 2
    if p mid then firstFailure p (mid + 1) hi else firstFailure p lo mid
  else lo
termination_by hi - lo

/-- How many elements of the sorted `a` are at most `x`. -/
def upperBound (a : Array Nat) (x : Nat) : Nat :=
  firstFailure (fun i => a[i]?.any (· ≤ x)) 0 a.size

end Proofreader
