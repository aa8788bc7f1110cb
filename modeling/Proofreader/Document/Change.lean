import Proofreader.Document.Source
import Proofreader.Json.Access

/-! The changes an editor reports: a new text for the whole file, or for a range given by lines and
UTF-16 units. -/

namespace Proofreader

structure Place where
  line : Int
  units : Int

inductive Change where
  | whole (text : Text)
  | range (start stop : Place) (text : Text)

def Source.placeOffset (s : Source) (p : Place) : Except Mishap Int :=
  match s.unitOffset? p.line p.units with
  | some offset => .ok offset
  | none => .error .outOfRange

/-- A range whose end lies before its start is empty. -/
def Source.apply (s : Source) : Change → Except Mishap Source
  | .whole text => .ok (s.replace text)
  | .range start stop text => do
    let a ← s.placeOffset start
    let b ← s.placeOffset stop
    match s.edit a (max a b) text with
    | .ok s => pure s
    | .error e => throw (.badValue e.message)

namespace Change

def member (j : Json) (key : String) : Except Mishap Json :=
  match j with
  | .obj members => (members.lookup key).elim (.error (.missingKey key)) .ok
  | _ => .error (.wrongType (j.kindName ++ " has no members"))

/-- A line, which is whole unless it lies behind the last one. -/
def line (s : Source) (j : Json) : Except Mishap Int :=
  match j.quantity? with
  | some (.whole i) => .ok i
  | some (.real x) =>
    if (Quantity.real x).less (.whole s.lines.size) || x.isNaN then .error (.wrongType "list indices must be integers")
    else .ok s.lines.size
  | none => .error (.wrongType (j.kindName ++ " is no number"))

/-- Units of a line; a fraction counts as one more. They are not looked at where the line has no characters. -/
def units (s : Source) (line : Int) (j : Json) : Except Mishap Int :=
  match s.offset? line 0, s.offset? line s.length with
  | some start, some stop =>
    if stop ≤ start then .ok 0
    else
      match j.quantity? with
      | some n => .ok (min n.ceil (2 * s.length))
      | none => .error (.wrongType (j.kindName ++ " is no number"))
  | _, _ => .error .outOfRange

/-- A place of the text: both its numbers must be there. -/
def place (s : Source) (j : Json) : Except Mishap Place := do
  let lineJson ← member j "line"
  let unitsJson ← member j "character"
  let line ← line s lineJson
  return ⟨line, ← units s line unitsJson⟩

/-- A new text for a range, where `newText` is one. What is wrong with the range comes first. -/
def range? (s : Source) (span newText : Json) : Except Mishap Change := do
  let start ← place s (← member span "start")
  let stop ← place s (← member span "end")
  match newText with
  | .str t => return .range start stop t.toList
  | v =>
    let _ ← s.apply (.range start stop [])
    throw (.wrongType (v.kindName ++ " is no text"))

end Change

/-- What an editor holds for a file. -/
inductive Shadow where
  | text (s : Source)
  /-- Something that is no text, though it was sent in place of one. -/
  | foreign (v : Json)

namespace Shadow

def text? : Shadow → Option Text
  | text s => some s.text
  | foreign _ => none

def toJson : Shadow → Json
  | text s => .str (String.ofList s.text)
  | foreign v => v

/-- A new text for the whole file, and what is wrong with it. -/
def ofJson (file : FileId) : Json → Shadow × Option Mishap
  | .str t => (text (.ofText file t.toList), none)
  | .arr items => (foreign (.arr items), none)
  | .obj members => (foreign (.obj members), none)
  | v => (foreign v, some v.notIterable)

/-- The shadow after a change that an editor reports, and why it failed. Without a new text there is none left. -/
def change (file : FileId) (s : Shadow) (j : Json) : Shadow × Option Mishap :=
  match j with
  | .obj members =>
    let newText := (members.lookup "text").getD (.str "")
    match members.lookup "range", s with
    | none, _ | some .null, _ => ofJson file newText
    | some span, text source =>
      match Change.range? source span newText >>= source.apply with
      | .ok source => (text source, none)
      | .error m => (s, some m)
    | some _, foreign v => (s, some (.wrongType (v.kindName ++ " is no text")))
  | v => (s, some (v.noMember "get"))

/-- Changes in order; those before the first that fails stay. -/
def changeAll (file : FileId) (s : Shadow) : List Json → Shadow × Option Mishap
  | [] => (s, none)
  | j :: r =>
    match s.change file j with
    | (s, none) => changeAll file s r
    | failed => failed

end Shadow

end Proofreader
