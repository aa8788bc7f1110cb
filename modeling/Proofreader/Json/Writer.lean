import Proofreader.Json.Value

/-! Writing JSON. Everything but printable ASCII is escaped, as UTF-16 units. `compact` writes one
line; `pretty` gives each item a line of its own, two more columns in than its container. -/

namespace Proofreader.Json

def unitEscape (n : Nat) : Text := '\\' :: 'u' :: hexDigits 4 n

def escape (c : Char) : Text :=
  if c = '"' || c = '\\' then ['\\', c]
  else if c = '\n' then ['\\', 'n']
  else if c = '\r' then ['\\', 'r']
  else if c = '\t' then ['\\', 't']
  else if c = '\x0c' then ['\\', 'f']
  else if c = '\x08' then ['\\', 'b']
  else if 0x20 ≤ c.toNat && c.toNat < 0x7F then [c]
  else if c.toNat < 0x10000 then unitEscape c.toNat
  else unitEscape (0xD800 + (c.toNat - 0x10000) / 1024) ++ unitEscape (0xDC00 + (c.toNat - 0x10000) % 1024)

def writeString (s : String) : String := String.ofList ('"' :: s.toList.flatMap escape ++ ['"'])

def writeFloat (x : Float) : String :=
  match classify x with
  | .notNumber => "NaN"
  | .infinite negative => if negative then "-Infinity" else "Infinity"
  | .finite _ => floatText x

mutual

def compact : Json → String
  | null => "null"
  | bool b => if b then "true" else "false"
  | int i => toString i
  | float x => writeFloat x
  | str s => writeString s
  | arr items => "[" ++ compactItems items ++ "]"
  | obj members => "\x7b" ++ compactMembers members ++ "\x7d"

def compactItems : List Json → String
  | [] => ""
  | [x] => x.compact
  | x :: r => x.compact ++ ", " ++ compactItems r

def compactMembers : List (String × Json) → String
  | [] => ""
  | [(k, x)] => writeString k ++ ": " ++ x.compact
  | (k, x) :: r => writeString k ++ ": " ++ x.compact ++ ", " ++ compactMembers r

end

def newLine (depth : Nat) : String := "\n" ++ String.ofList (List.replicate (2 * depth) ' ')

mutual

def prettyAt (depth : Nat) : Json → String
  | arr [] => "[]"
  | obj [] => "\x7b\x7d"
  | arr items => "[" ++ prettyItems (depth + 1) items ++ newLine depth ++ "]"
  | obj members => "\x7b" ++ prettyMembers (depth + 1) members ++ newLine depth ++ "\x7d"
  | null => "null"
  | bool b => if b then "true" else "false"
  | int i => toString i
  | float x => writeFloat x
  | str s => writeString s

def prettyItems (depth : Nat) : List Json → String
  | [] => ""
  | [x] => newLine depth ++ x.prettyAt depth
  | x :: r => newLine depth ++ x.prettyAt depth ++ "," ++ prettyItems depth r

def prettyMembers (depth : Nat) : List (String × Json) → String
  | [] => ""
  | [(k, x)] => newLine depth ++ writeString k ++ ": " ++ x.prettyAt depth
  | (k, x) :: r => newLine depth ++ writeString k ++ ": " ++ x.prettyAt depth ++ "," ++ prettyMembers depth r

end

def pretty (v : Json) : String := v.prettyAt 0

end Proofreader.Json
