import Proofreader.Number.Parts

/-! Decimal text of a float: the fewest significant digits that read back as the same float, and of
those the nearest. Positional from `1e-4` up to below `1e16`, with at least one digit after the
point; with an exponent of two digits or more elsewhere. -/

namespace Proofreader

/-- `digits · 10 ^ power`. -/
structure Decimal where
  digits : Nat
  power : Int

namespace Shortest

/-- Four times the value and the ends of the interval of reals that round to it, over a common
denominator. -/
structure Interval where
  low : Nat
  value : Nat
  high : Nat
  denominator : Nat
  closed : Bool

def interval (p : FloatParts) : Interval :=
  let e := p.exponent - 2
  let scale := Nat.pow 2 e.toNat
  { low := (4 * p.significand - (if p.binade then 1 else 2)) * scale
    value := 4 * p.significand * scale
    high := (4 * p.significand + 2) * scale
    denominator := Nat.pow 2 (-e).toNat
    closed := p.significand % 2 = 0 }

/-- The interval in units of `10 ^ power`. -/
def Interval.inUnits (i : Interval) (power : Int) : Interval :=
  let up := Nat.pow 10 (-power).toNat
  { low := i.low * up
    value := i.value * up
    high := i.high * up
    denominator := i.denominator * Nat.pow 10 power.toNat
    closed := i.closed }

def Interval.holds (i : Interval) (n : Nat) : Bool :=
  let x := n * i.denominator
  if i.closed then i.low ≤ x && x ≤ i.high else i.low < x && x < i.high

/-- Of the value's two neighbours on the grid, the one inside the interval and nearer; an even one
where both are as near. -/
def Interval.neighbour? (i : Interval) : Option Nat :=
  let below := i.value / i.denominator
  let above := below + 1
  match i.holds below && below > 0, i.holds above with
  | true, true =>
    let left := i.value - below * i.denominator
    let right := above * i.denominator - i.value
    if left < right || (left = right && below % 2 = 0) then some below else some above
  | true, false => some below
  | false, true => some above
  | false, false => none

/-- The number of decimal digits of `n`. -/
def digitCount (n : Nat) : Nat := (Nat.toDigits 10 n).length

/-- The power of ten of the leading digit: the value lies in `[10 ^ k, 10 ^ (k + 1))`. -/
def leadingPower (i : Interval) : Int :=
  let whole := i.value / i.denominator
  if whole > 0 then (digitCount whole : Int) - 1
  else
    let inverse := (i.denominator + i.value - 1) / i.value
    let k := digitCount inverse
    if i.value * Nat.pow 10 (k - 1) ≥ i.denominator then 1 - (k : Int) else -(k : Int)

/-- Tries ever finer grids, from `count` digits on. -/
def search (i : Interval) (lead : Int) : (fuel count : Nat) → Decimal
  | 0, count => ⟨i.value / i.denominator, 1 - (count : Int)⟩
  | fuel + 1, count =>
    let power := lead - (count : Int) + 1
    match (i.inUnits power).neighbour? with
    | some n => ⟨n, power⟩
    | none => search i lead fuel (count + 1)

/-- Seventeen digits always suffice. -/
def decimal (p : FloatParts) : Decimal :=
  let i := interval p
  search i (leadingPower i) 17 1

end Shortest

/-- Zeros at the end of the digits go into the power. -/
def Decimal.normalize (d : Decimal) : (fuel : Nat) → Decimal
  | 0 => d
  | fuel + 1 =>
    if d.digits % 10 = 0 && d.digits > 0 then normalize ⟨d.digits / 10, d.power + 1⟩ fuel else d

/-- Digits with the point after the first `point` of them, zeros filled in on either side. -/
def positional (digits : List Char) (point : Int) : List Char :=
  if point ≤ 0 then '0' :: '.' :: (List.replicate (-point).toNat '0' ++ digits)
  else
    let n := point.toNat
    if digits.length ≤ n then digits ++ List.replicate (n - digits.length) '0' ++ ['.', '0']
    else digits.take n ++ '.' :: digits.drop n

def withExponent (digits : List Char) (exponent : Int) : List Char :=
  let mantissa :=
    match digits with
    | [] => []
    | [d] => [d]
    | d :: r => d :: '.' :: r
  let size := Nat.toDigits 10 exponent.natAbs
  mantissa ++ 'e' :: (if exponent < 0 then '-' else '+') ::
    (List.replicate (2 - size.length) '0' ++ size)

def Decimal.text (d : Decimal) : List Char :=
  let d := d.normalize 400
  let digits := Nat.toDigits 10 d.digits
  let point := (digits.length : Int) + d.power
  if -4 < point && point ≤ 16 then positional digits point else withExponent digits (point - 1)

def floatText (x : Float) : String :=
  match classify x with
  | .notNumber => "nan"
  | .infinite negative => if negative then "-inf" else "inf"
  | .finite p =>
    let body := if p.significand = 0 then ['0', '.', '0'] else (Shortest.decimal p).text
    String.ofList (if p.negative then '-' :: body else body)

end Proofreader
