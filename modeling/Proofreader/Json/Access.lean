import Proofreader.Fault
import Proofreader.Number.Quantity
import Proofreader.Number.Reading
import Proofreader.Text.Case

/-! Taking values apart. Where the shape is not known, members, items and numbers come with the mishap
that names what was found instead; where it is known, what is not there reads as empty. -/

namespace Proofreader.Json

def notIterable (v : Json) : Mishap := .wrongType (quoted v.kindName ++ " object is not iterable")

def noMember (v : Json) (name : String) : Mishap :=
  .missingMember (quoted v.kindName ++ " object has no attribute " ++ quoted name)

/-- The items of a list, the characters of a text or the keys of an object. -/
def iterate : Json → Except Mishap (List Json)
  | arr items => .ok items
  | str s => .ok (s.toList.map fun c => .str (String.ofList [c]))
  | obj members => .ok (members.map fun m => .str m.1)
  | v => .error v.notIterable

/-- A member of an object, if it has it. -/
def member? (v : Json) (key : String) : Except Mishap (Option Json) :=
  match v with
  | obj members => .ok (members.lookup key)
  | v => .error (v.noMember "get")

/-- A member, or an empty object where there is none or an empty value. -/
def memberOrEmpty (v : Json) (key : String) : Except Mishap Json := do
  match ← v.member? key with
  | some w => pure (if w.isEmpty then .obj [] else w)
  | none => pure (.obj [])

/-- A whole number; a float loses its fraction. -/
def toInteger : Json → Except Mishap Int
  | int i => .ok i
  | bool b => .ok (if b then 1 else 0)
  | float x =>
    match classify x with
    | .finite parts => .ok parts.truncate
    | .infinite _ => .error .endless
    | .notNumber => .error (.badValue "cannot convert float NaN to integer")
  | str s => (readInteger s).mapError fun e => .badValue (e.message s)
  | v => .error (.wrongType
      ("int() argument must be a string, a bytes-like object or a real number, not " ++ quoted v.kindName))

def floatOfInteger (i : Int) : Except Mishap Float := (floatOfInt? i).elim (.error .tooLarge) .ok

def toFloat : Json → Except Mishap Float
  | float x => .ok x
  | int i => floatOfInteger i
  | bool b => .ok (if b then 1.0 else 0.0)
  | str s =>
    (readFloat? s).elim (.error (.badValue ("could not convert string to float: " ++ quoted s))) .ok
  | v => .error (.wrongType ("float() argument must be a string or a real number, not " ++ quoted v.kindName))

/-- A number as it was written; a truth value counts as one or zero. -/
def quantity? : Json → Option Quantity
  | int i => some (.whole i)
  | bool b => some (.whole (if b then 1 else 0))
  | float x => some (.real x)
  | _ => none

/-- A number as it was written, where one is needed. -/
def toQuantity (v : Json) : Except Mishap Quantity :=
  v.quantity?.elim (.error (.wrongType (quoted v.kindName ++ " object is no number"))) .ok

def ofQuantity : Quantity → Json
  | .whole i => int i
  | .real x => float x

/-- Truth as settings write it. -/
def toTruth : Json → Bool
  | bool b => b
  | v => ["true", "1", "yes", "on"].contains (lowerCase v.plain)

/-- A text, or nothing for an empty value. -/
def toText? (v : Json) : Option String := if v.isEmpty then none else some v.plain

/-! Values of a known shape -/

def items : Json → List Json
  | arr xs => xs
  | _ => []

def item (v : Json) (i : Nat) : Json := (v.items[i]?).getD null

def entries : Json → List (String × Json)
  | obj ms => ms
  | _ => []

def field (v : Json) (key : String) : Json := (v.get? key).getD null

def asText? : Json → Option String
  | str s => some s
  | _ => none

def asText (v : Json) (default : String) : String := v.asText?.getD default

def asInt? : Json → Option Int
  | int i => some i
  | bool b => some (if b then 1 else 0)
  | _ => none

def asInt (v : Json) (default : Int) : Int := v.asInt?.getD default

def asTruth (v : Json) (default : Bool) : Bool :=
  match v with
  | bool b => b
  | _ => default

def asFloat? : Json → Option Float
  | float x => some x
  | int i => floatOfInt? i
  | _ => none

def asFloat (v : Json) (default : Float) : Float := v.asFloat?.getD default

def texts (v : Json) : List String := v.items.map (·.asText "")

/-! ### Looking for values and putting them in order, which not every kind of value allows -/

/-- Whether a value is one of some texts; containers cannot be looked for. -/
def isAmong (v : Json) (texts : List String) : Except Mishap Bool :=
  match v with
  | str s => .ok (texts.contains s)
  | arr _ | obj _ => .error (.wrongType ("unhashable type: " ++ quoted v.kindName))
  | _ => .ok false

/-- The text that is searched for words. -/
def searched : Json → Except Mishap Text
  | str s => .ok s.toList
  | v => .error (.wrongType ("expected string or bytes-like object, got " ++ quoted v.kindName))

/-- Whether a text holds another one, a list has it as an item or an object as a key. -/
def holds (v : Json) (part : Text) : Except Mishap Bool :=
  match v with
  | str s => .ok (Text.find part s.toList).isSome
  | arr items => .ok (items.any fun item => item.asText? = some (String.ofList part))
  | obj members => .ok (members.any fun m => m.1 = String.ofList part)
  | v => .error (.wrongType ("argument of type " ++ quoted v.kindName ++ " is not iterable"))

/-- Two texts or two numbers are in order, as nothing is with nothing; other values are not. -/
def compare? : Json → Json → Option Ordering
  | null, null => some .eq
  | str s, str t => some (if s < t then .lt else if s = t then .eq else .gt)
  | v, w =>
    match v.quantity?, w.quantity? with
    | some a, some b => some (a.compare b)
    | _, _ => none

end Proofreader.Json
