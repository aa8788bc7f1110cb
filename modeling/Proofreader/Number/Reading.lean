import Proofreader.Number.Parts
import Proofreader.Text.Digit
import Proofreader.Text.Basic
import Proofreader.Text.Quoted

/-! Numbers as people write them in settings: blanks around them, a sign, digits of any script and
single underscores between digits. -/

namespace Proofreader

/-- The blanks that may stand around a number; the separators of records are none. -/
def isPadding (c : Char) : Bool := isBlank c && !('\x1c' ≤ c && c ≤ '\x1f')

/-- The digits at the head of a text, single underscores between them passed over, and the rest. -/
def readDigits : Text → List Nat × Text
  | [] => ([], [])
  | [c] =>
    match digitValue? c with
    | some d => ([d], [])
    | none => ([], [c])
  | c :: c' :: r =>
    match digitValue? c with
    | none => ([], c :: c' :: r)
    | some d =>
      if c' = '_' then
        match readDigits r with
        | ([], _) => ([d], c' :: r)
        | (ds, rest) => (d :: ds, rest)
      else
        let (ds, rest) := readDigits (c' :: r)
        (d :: ds, rest)

def ofDigits (ds : List Nat) : Nat := ds.foldl (fun n d => 10 * n + d) 0

/-- Whether a minus sign stands in front, and the text after the sign. -/
def readSign : Text → Bool × Text
  | '-' :: r => (true, r)
  | '+' :: r => (false, r)
  | r => (false, r)

/-- Why a text writes no whole number that is read. -/
inductive IntegerError where
  | malformed
  | tooLong (digits : Nat)
deriving DecidableEq

/-- Longer numbers are not read, so that reading them stays cheap. -/
def digitLimit : Nat := 4300

/-- What is wrong with a text; of a malformed one, its first characters are shown in quotes. -/
def IntegerError.message (s : String) : IntegerError → String
  | malformed => "invalid literal for int() with base 10: " ++ String.ofList ((Text.quoted s.toList).take 200)
  | tooLong digits =>
    "Exceeds the limit (" ++ toString digitLimit ++ " digits) for integer string conversion: value has "
      ++ toString digits ++ " digits; use sys.set_int_max_str_digits() to increase the limit"

/-- A whole number of so many digits at most. Leading zeros count as digits, and so do those in front of something
else; an underscore that stands between no digits comes first. -/
def readIntegerWithin (limit : Nat) (s : String) : Except IntegerError Int :=
  let (negative, t) := readSign (Text.trimWhile isPadding s.toList)
  match readDigits t with
  | ([], _) | (_, '_' :: _) => .error .malformed
  | (ds, rest) =>
    if limit < ds.length then .error (.tooLong ds.length)
    else if !rest.isEmpty then .error .malformed
    else .ok (if negative then -(ofDigits ds : Int) else ofDigits ds)

def readInteger (s : String) : Except IntegerError Int := readIntegerWithin digitLimit s

def readInteger? (s : String) : Option Int := (readInteger s).toOption

/-- The float nearest to `digits · 10 ^ power`; far outside the range it is zero or infinite. -/
def floatOfDecimal (digits : Nat) (power : Int) : Float :=
  if digits = 0 then 0.0
  else
    let magnitude := ((Nat.toDigits 10 digits).length : Int) + power
    if magnitude > 400 then 1.0 / 0.0
    else if magnitude < -400 then 0.0
    else if power < 0 then Float.ofScientific digits true power.natAbs
    else Float.ofScientific digits false power.natAbs

/-- The exponent after an `e`, if there is a well-formed one. -/
def readExponent : Text → Option (Int × Text)
  | c :: r =>
    if c = 'e' || c = 'E' then
      let (negative, t) := readSign r
      match readDigits t with
      | ([], _) => none
      | (ds, rest) => some (if negative then -(ofDigits ds : Int) else ofDigits ds, rest)
    else none
  | [] => none

/-- Digits, a point and digits, either side possibly empty but not both. -/
def readFraction (t : Text) : Option (Nat × Int × Text) :=
  let (whole, r) := readDigits t
  let (part, r) :=
    match r with
    | '.' :: r' => readDigits r'
    | r => ([], r)
  if whole.isEmpty && part.isEmpty then none
  else some (ofDigits (whole ++ part), -(part.length : Int), r)

def readFloat? (s : String) : Option Float :=
  let (negative, t) := readSign (Text.trimWhile isPadding s.toList)
  let signed (x : Float) : Float := if negative then -x else x
  let word := t.map Char.toLower
  if word = "inf".toList || word = "infinity".toList then some (signed (1.0 / 0.0))
  else if word = "nan".toList then some (signed (0.0 / 0.0))
  else
    match readFraction t with
    | none => none
    | some (digits, power, []) => some (signed (floatOfDecimal digits power))
    | some (digits, power, r) =>
      match readExponent r with
      | some (e, []) => some (signed (floatOfDecimal digits (power + e)))
      | _ => none

end Proofreader
