/-! A finite float is `sign · significand · 2 ^ exponent`, read off its bits. What needs exact
arithmetic on floats works on these parts. -/

namespace Proofreader

/-- `significand · 2 ^ exponent`; `binade` tells the least significand of a normal binade, whose
lower neighbour is nearer than its upper one. -/
structure FloatParts where
  negative : Bool
  significand : Nat
  exponent : Int
  binade : Bool

inductive FloatClass where
  | finite (parts : FloatParts)
  | infinite (negative : Bool)
  | notNumber

def classifyBits (bits : Nat) : FloatClass :=
  let negative := decide (bits / Nat.pow 2 63 % 2 = 1)
  let power : Nat := bits / Nat.pow 2 52 % Nat.pow 2 11
  let fraction : Nat := bits % Nat.pow 2 52
  if power = Nat.pow 2 11 - 1 then
    if fraction = 0 then .infinite negative else .notNumber
  else if power = 0 then .finite ⟨negative, fraction, -1074, false⟩
  else .finite ⟨negative, Nat.pow 2 52 + fraction, (power : Int) - 1075, fraction = 0 && power > 1⟩

def classify (x : Float) : FloatClass := classifyBits x.toBits.toNat

/-- The whole number next to the value, toward zero. -/
def FloatParts.truncate (p : FloatParts) : Int :=
  let n : Nat :=
    if 0 ≤ p.exponent then p.significand * Nat.pow 2 p.exponent.toNat
    else p.significand / Nat.pow 2 (-p.exponent).toNat
  if p.negative then -n else n

/-- Whole numbers from here on round beyond the largest float. -/
def floatLimit : Nat := Nat.pow 2 1024 - Nat.pow 2 970

/-- The nearest float, if the number is in range. -/
def floatOfInt? (i : Int) : Option Float :=
  if i.natAbs < floatLimit then some (Float.ofInt i) else none

/-- The float `2 ^ n`, for an exponent below 1024; zero where it is too small for a float. -/
def powerOfTwo (n : Int) : Float :=
  if n < -1074 then 0.0
  else if n < -1022 then Float.ofBits (UInt64.ofNat (Nat.pow 2 (n + 1074).toNat))
  else Float.ofBits (UInt64.ofNat ((n + 1023).toNat * Nat.pow 2 52))

end Proofreader
