import Proofreader.Number.Parts

/-! Numbers as they were written: whole ones of any size, and floats. They compare by value, whatever they are. -/

namespace Proofreader

namespace FloatParts

/-- The value as a whole number, scaled up by `2 ^ shift`. -/
def scaled (p : FloatParts) : Int × Nat :=
  let s : Int := if p.negative then -(p.significand : Int) else p.significand
  (s * Nat.pow 2 p.exponent.toNat, (-p.exponent).toNat)

/-- Whether a whole number lies below the value. -/
def isAbove (p : FloatParts) (i : Int) : Bool :=
  let (value, shift) := p.scaled
  i * Nat.pow 2 shift < value

/-- Whether a whole number lies above the value. -/
def isBelow (p : FloatParts) (i : Int) : Bool :=
  let (value, shift) := p.scaled
  value < i * Nat.pow 2 shift

end FloatParts

inductive Quantity where
  | whole (i : Int)
  | real (x : Float)
deriving Inhabited

namespace Quantity

/-- What is no number is neither less nor greater than anything. -/
def less : Quantity → Quantity → Bool
  | whole i, whole j => i < j
  | real x, real y => x < y
  | whole i, real x =>
    match classify x with
    | .finite p => p.isAbove i
    | .infinite negative => !negative
    | .notNumber => false
  | real x, whole i =>
    match classify x with
    | .finite p => p.isBelow i
    | .infinite negative => negative
    | .notNumber => false

def isNumber : Quantity → Bool
  | whole _ => true
  | real x => !x.isNaN

/-- Less or equal; what is no number is neither. -/
def atMost (a b : Quantity) : Bool := a.isNumber && b.isNumber && !b.less a

def compare (a b : Quantity) : Ordering := if a.less b then .lt else if b.less a then .gt else .eq

/-- The nearest float, if the number is in range. -/
def toFloat? : Quantity → Option Float
  | whole i => floatOfInt? i
  | real x => some x

/-- The greatest whole number that is not greater; of infinity, a number beyond all floats. -/
def floor : Quantity → Int
  | whole i => i
  | real x =>
    match classify x with
    | .finite p =>
      let (value, shift) := p.scaled
      value / Nat.pow 2 shift
    | .infinite negative => if negative then -(floatLimit : Int) else floatLimit
    | .notNumber => 0

/-- The least whole number that is not less; of infinity, a number beyond all floats. -/
def ceil : Quantity → Int
  | whole i => i
  | real x =>
    match classify x with
    | .finite p =>
      let (value, shift) := p.scaled
      (value + Nat.pow 2 shift - 1) / Nat.pow 2 shift
    | .infinite negative => if negative then -(floatLimit : Int) else floatLimit
    | .notNumber => 0

/-- Two whole numbers give a whole one, exactly. -/
def add : Quantity → Quantity → Quantity
  | whole i, whole j => whole (i + j)
  | whole i, real y => real (Float.ofInt i + y)
  | real x, whole j => real (x + Float.ofInt j)
  | real x, real y => real (x + y)

end Quantity

end Proofreader
