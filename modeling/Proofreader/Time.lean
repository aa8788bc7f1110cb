import Proofreader.Fault
import Proofreader.Number.Quantity

/-! Spans of time, in any number type that can add, compare and double them. Floats measure real
waiting; a type with exact arithmetic can take their place. -/

namespace Proofreader

class Time (τ : Type) where
  add : τ → τ → τ
  less : τ → τ → Bool
  /-- Less or equal. Where any two spans compare, it says that the second one is not less. -/
  atMost : τ → τ → Bool := fun x y => !less y x
  /-- So many quarters of a second. -/
  quarters : Nat → τ
  /-- A span times a power of two, unless that power is out of reach. -/
  scale : τ → Int → Except Mishap τ

namespace Time

variable {τ : Type} [Time τ]

def zero : τ := quarters 0

/-- The lesser of two, the first one if neither is. -/
def lesser (x y : τ) : τ := if less y x then y else x

/-- The greater of two, the first one if neither is. -/
def greater (x y : τ) : τ := if less x y then y else x

/-- A span that takes time. -/
def positive? (x : τ) : Option τ := if less zero x then some x else none

end Time

instance : Time Float where
  add x y := x + y
  less x y := decide (x < y)
  atMost x y := decide (x ≤ y)
  quarters n := n.toFloat * 0.25
  scale x n := if 1024 ≤ n || (floatOfInt? n).isNone then .error .tooLarge else .ok (x * powerOfTwo n)

/-- Powers of two from this exponent on are not computed. -/
def exponentLimit : Nat := 4294967296

/-- A whole number stays whole where it is doubled, and becomes a float where it is halved. -/
instance : Time Quantity where
  add := Quantity.add
  less := Quantity.less
  atMost := Quantity.atMost
  quarters n := .real (n.toFloat * 0.25)
  scale
    | .whole i, .ofNat n => if n < exponentLimit then .ok (.whole (i * Nat.pow 2 n)) else .error .tooLarge
    | .whole i, n => ((floatOfInt? i).elim (.error .tooLarge) (Time.scale · n)).map .real
    | .real x, n => (Time.scale x n).map .real

/-- Waiting longer and longer between attempts: the first span doubles each time, up to the longest. -/
structure Backoff (τ : Type) where
  /-- How many attempts may follow the first one. -/
  retries : Nat
  /-- The first span, if it is one; this shows when it is needed. -/
  first : Except Mishap τ
  longest : τ

namespace Backoff

variable {τ : Type} [Time τ]

/-- For a number of attempts in all; there is always one. -/
def ofAttempts (attempts : Int) (first : Except Mishap τ) (longest : τ) : Backoff τ := ⟨(attempts - 1).toNat, first, longest⟩

def longestWait : τ := Time.quarters 40

def attempts (b : Backoff τ) : Nat := b.retries + 1

/-- The span after an attempt, counted from one. -/
def delay (b : Backoff τ) (attempt : Int) : Except Mishap τ := do
  let d ← Time.scale (← b.first) (attempt - 1)
  return Time.lesser d b.longest

/-- The span to sleep after an attempt, if it is one. -/
def pause (b : Backoff τ) (attempt : Int) : Except Mishap (Option τ) :=
  (b.delay attempt).map Time.positive?

end Backoff

end Proofreader
