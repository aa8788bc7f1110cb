import Proofreader.Document.Node
import Proofreader.Markup.Lexeme
import Proofreader.Warning

/-! Where reading stands in a file: what has been read, in reverse, and what is left, with the rule
and the bracket depth of the content block that is open. -/

namespace Proofreader.Markup

structure Cursor where
  past : Text
  rest : Text
  pos : Nat
  scope : Scope
  /-- Literal brackets open in the current content block. -/
  depth : Nat
  warnings : List Warning
  /-- Files looked up, in order, found or not. -/
  asked : List FileId

namespace Cursor

def start (text : Text) (scope : Scope) : Cursor := ⟨[], text, 0, scope, 0, [], []⟩

def advance (s : Cursor) (n : Nat) : Cursor :=
  let read := s.rest.take n
  { s with past := read.reverse ++ s.past, rest := s.rest.drop n, pos := s.pos + read.length }

def skipWhile (s : Cursor) (p : Char → Bool) : Cursor := s.advance (s.rest.takeWhile p).length

def mark? (s : Cursor) : Option Mark := Markup.mark? s.past.head? s.rest

/-- Whether only blanks stand before on the line. -/
def atLineStart (s : Cursor) : Bool := (s.past.takeWhile (· ≠ '\n')).all isBlank

/-- The end of what was read since `start`, spaces at its end left out. -/
def trimmedEnd (s start : Cursor) : Nat :=
  s.pos - ((s.past.take (s.pos - start.pos)).takeWhile isSpace).length

/-- What stands between `start` and here. -/
def since (s start : Cursor) : Text := start.rest.take (s.pos - start.pos)

/-- What stands in the parentheses at the head, if there are any, and the place after them. -/
def arguments (s : Cursor) : Text × Cursor :=
  match s.rest with
  | '(' :: r =>
    let n := balancedLength '(' ')' 0 0 s.rest
    (r.take (n - 2), s.advance n)
  | _ => ([], s)

/-- Passes over the content blocks that follow directly. -/
def skipContent (s : Cursor) : (fuel : Nat) → Cursor
  | 0 => s
  | fuel + 1 =>
    match s.rest with
    | '[' :: _ => skipContent (s.advance (balancedLength '[' ']' 0 0 s.rest)) fuel
    | _ => s

end Cursor

end Proofreader.Markup
