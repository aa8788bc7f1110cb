import Proofreader.Location
import Proofreader.Search
import Proofreader.Text.Utf16

/-! The text of one file with an index of its lines, so that offsets become lines and columns and
back. Editing renews the index; an edit outside the text changes nothing. -/

namespace Proofreader

structure Position where
  line : Nat
  column : Nat
deriving DecidableEq

/-- Where the lines after the first one begin, for a text that begins at `n`. -/
def laterLines (n : Nat) : Text → List Nat
  | [] => []
  | c :: r => if c = '\n' then (n + 1) :: laterLines (n + 1) r else laterLines (n + 1) r

def lineStarts (t : Text) : Array Nat := (0 :: laterLines 0 t).toArray

structure Source where
  file : FileId
  text : Text
  lines : Array Nat

/-- A range that does not lie in the text. -/
structure EditError where
  file : FileId
  start : Int
  stop : Int

def EditError.message (e : EditError) : String :=
  "Edit range " ++ toString e.start ++ ".." ++ toString e.stop ++ " outside file " ++ e.file

namespace Source

def ofText (file : FileId) (text : Text) : Source := ⟨file, text, lineStarts text⟩

def length (s : Source) : Nat := s.text.length

def clamp (s : Source) (offset : Int) : Nat := min offset.toNat s.length

/-- The line an offset of the text lies in. -/
def lineOf (s : Source) (offset : Nat) : Nat := upperBound s.lines offset - 1

def startOf (s : Source) (line : Nat) : Nat := s.lines[line]?.getD 0

/-- Line and column of an offset, which is moved into the text first. -/
def position (s : Source) (offset : Int) : Position :=
  let offset := s.clamp offset
  let line := s.lineOf offset
  ⟨line, offset - s.startOf line⟩

/-- As `position`, with the column in UTF-16 units. -/
def unitPosition (s : Source) (offset : Int) : Position :=
  let p := s.position offset
  ⟨p.line, Text.units (s.text.extract (s.startOf p.line) (s.startOf p.line + p.column))⟩

/-- Where a line begins; a negative line counts from behind the last one. -/
def lineStart? (s : Source) (line : Int) : Option Nat :=
  if 0 ≤ line then s.lines[line.toNat]?
  else if 0 ≤ line + s.lines.size then s.lines[(line + s.lines.size).toNat]?
  else none

/-- Where a line ends, before its newline. -/
def lineEnd (s : Source) (line : Int) : Int :=
  match s.lineStart? (line + 1) with
  | some next => (next : Int) - 1
  | none => s.length

/-- The offset of a column, no further than the end of the line; the end of the text for a line
behind the last one, and nothing for a line before the first. -/
def offset? (s : Source) (line column : Int) : Option Int :=
  if s.lines.size ≤ line then some s.length
  else (s.lineStart? line).map fun start => min (start + column) (s.lineEnd line)

/-- The first offset of the line that has at least `units` UTF-16 units of it before itself. -/
def unitOffset? (s : Source) (line units : Int) : Option Int := do
  let start ← s.offset? line 0
  let stop ← s.offset? line s.length
  pure (start + Text.coverUnits units (s.text.extract start.toNat stop.toNat))

def replace (s : Source) (text : Text) : Source := ofText s.file text

def edit (s : Source) (start stop : Int) (text : Text) : Except EditError Source :=
  if 0 ≤ start ∧ start ≤ stop ∧ stop ≤ s.length then
    .ok (s.replace (s.text.take start.toNat ++ text ++ s.text.drop stop.toNat))
  else .error ⟨s.file, start, stop⟩

end Source

end Proofreader
