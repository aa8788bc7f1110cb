import Proofreader.Json.Value
import Proofreader.Number.Reading

/-! Reading JSON. Besides the standard grammar the words `NaN`, `Infinity` and `-Infinity` are
numbers. Every failure has a cause and the offset where it was noticed. -/

namespace Proofreader.Json

inductive SyntaxCause where
  | byteOrderMark
  | expectingValue
  | expectingName
  | expectingColon
  | expectingComma
  | extraData
  | controlCharacter
  | unterminatedString
  | badEscape
  | badUnicodeEscape
deriving DecidableEq

def SyntaxCause.message : SyntaxCause → String
  | byteOrderMark => "Unexpected UTF-8 BOM (decode using utf-8-sig)"
  | expectingValue => "Expecting value"
  | expectingName => "Expecting property name enclosed in double quotes"
  | expectingColon => "Expecting ':' delimiter"
  | expectingComma => "Expecting ',' delimiter"
  | extraData => "Extra data"
  | controlCharacter => "Invalid control character at"
  | unterminatedString => "Unterminated string starting at"
  | badEscape => "Invalid \\escape"
  | badUnicodeEscape => "Invalid \\uXXXX escape"

structure SyntaxError where
  cause : SyntaxCause
  offset : Nat

/-- The cause, then the line and column counted from one and the offset. -/
def SyntaxError.message (e : SyntaxError) (source : Text) : String :=
  let before := source.take e.offset
  let line := before.count '\n' + 1
  let column := (before.reverse.takeWhile (· ≠ '\n')).length + 1
  e.cause.message ++ ": line " ++ toString line ++ " column " ++ toString column
    ++ " (char " ++ toString e.offset ++ ")"

/-- A value that holds others. -/
inductive Container where
  | array
  | object
deriving DecidableEq

def Container.name : Container → String
  | array => "array"
  | object => "object"

/-- Why a text is not read as a value. The grammar is kept so far where a limit is passed. -/
inductive ParseError where
  | malformed (e : SyntaxError)
  /-- A whole number has more digits than are read. -/
  | number (e : IntegerError)
  /-- A container lies deeper than is read. -/
  | nesting (c : Container)

def ParseError.message (source : Text) : ParseError → String
  | malformed e => e.message source
  | number e => e.message ""
  | nesting c => "maximum recursion depth exceeded while decoding a JSON " ++ c.name ++ " from a unicode string"

/-- What a reader has room for. -/
structure Limits where
  /-- How deep containers may lie in each other. -/
  levels : Nat
  /-- How many digits a whole number may have. -/
  digits : Nat

def Limits.standard : Limits := ⟨985, digitLimit⟩

/-- A place in the source: what is left of it, and its offset. -/
structure Place where
  rest : Text
  offset : Nat

def Place.skip (p : Place) (n : Nat) : Place := ⟨p.rest.drop n, p.offset + n⟩

def isSpace (c : Char) : Bool := c = ' ' || c = '\t' || c = '\n' || c = '\r'

def Place.skipSpace (p : Place) : Place := p.skip (p.rest.takeWhile isSpace).length

def Place.fail {α : Type} (p : Place) (cause : SyntaxCause) : Except ParseError α :=
  .error (.malformed ⟨cause, p.offset⟩)

def hexValue? (c : Char) : Option Nat :=
  if '0' ≤ c && c ≤ '9' then some (c.toNat - 48)
  else if 'a' ≤ c && c ≤ 'f' then some (c.toNat - 87)
  else if 'A' ≤ c && c ≤ 'F' then some (c.toNat - 55)
  else none

/-- The value of four hex digits at the head. -/
def hexUnit? : Text → Option Nat
  | a :: b :: c :: d :: _ => do
    let a ← hexValue? a
    let b ← hexValue? b
    let c ← hexValue? c
    let d ← hexValue? d
    return ((a * 16 + b) * 16 + c) * 16 + d
  | _ => none

def escapes : List (Char × Char) :=
  [('"', '"'), ('\\', '\\'), ('/', '/'), ('b', '\x08'), ('f', '\x0c'), ('n', '\n'), ('r', '\r'),
    ('t', '\t')]

def isHighUnit (n : Nat) : Bool := 0xD800 ≤ n && n ≤ 0xDBFF
def isLowUnit (n : Nat) : Bool := 0xDC00 ≤ n && n ≤ 0xDFFF

/-- A unit that is half of a pair without its other half stands for no character. -/
def charOfUnit (n : Nat) : Char :=
  if isHighUnit n || isLowUnit n then Char.ofNat 0xFFFD else Char.ofNat n

/-- The character written by the escape whose `u` is at the head of `t`, at `offset`, and how many
characters the escape takes from there. -/
def readUnicodeEscape (t : Text) (offset : Nat) : Except ParseError (Char × Nat) :=
  let place : Place := ⟨t, offset⟩
  if (t.drop 5).isEmpty then place.fail .badUnicodeEscape
  else
    match hexUnit? t.tail with
    | none => place.fail .badUnicodeEscape
    | some n =>
      let after := t.drop 5
      if isHighUnit n && !(after.drop 6).isEmpty && ['\\', 'u'].isPrefixOf after then
        match hexUnit? (after.drop 2) with
        | none => (place.skip 6).fail .badUnicodeEscape
        | some m =>
          if isLowUnit m then .ok (Char.ofNat (0x10000 + (n - 0xD800) * 1024 + (m - 0xDC00)), 11)
          else .ok (charOfUnit n, 5)
      else .ok (charOfUnit n, 5)

/-- The rest of a string whose opening quote is at `start`, with the characters read so far,
reversed. -/
def readString (start : Nat) : (fuel : Nat) → (read : Text) → Place → Except ParseError (String × Place)
  | 0, _, p => ({ p with offset := start }).fail .unterminatedString
  | fuel + 1, read, p =>
    match p.rest with
    | [] => ({ p with offset := start }).fail .unterminatedString
    | '"' :: _ => .ok (String.ofList read.reverse, p.skip 1)
    | '\\' :: [] => ({ p with offset := start }).fail .unterminatedString
    | '\\' :: 'u' :: r => do
      let (c, n) ← readUnicodeEscape ('u' :: r) (p.offset + 1)
      readString start fuel (c :: read) (p.skip (n + 1))
    | '\\' :: e :: _ =>
      match escapes.lookup e with
      | some c => readString start fuel (c :: read) (p.skip 2)
      | none => p.fail .badEscape
    | c :: _ =>
      if c.toNat ≤ 0x1F then p.fail .controlCharacter
      else readString start fuel (c :: read) (p.skip 1)

def isAsciiDigit (c : Char) : Bool := '0' ≤ c && c ≤ '9'

/-- The length of a minus sign at the head, if there is one. -/
def signLength : Text → Nat
  | '-' :: _ => 1
  | _ => 0

/-- The length of the digits of a whole number at the head: a zero stands alone. -/
def wholeLength : Text → Nat
  | '0' :: _ => 1
  | t => (t.takeWhile isAsciiDigit).length

/-- The length of a point and digits, if both are there. -/
def fractionLength : Text → Nat
  | '.' :: r =>
    let n := (r.takeWhile isAsciiDigit).length
    if n = 0 then 0 else n + 1
  | _ => 0

/-- The length of an exponent mark, a sign and digits, if there are digits. -/
def exponentLength : Text → Nat
  | c :: r =>
    if c = 'e' || c = 'E' then
      let sign := match r with
        | d :: _ => if d = '+' || d = '-' then 1 else 0
        | [] => 0
      let n := ((r.drop sign).takeWhile isAsciiDigit).length
      if n = 0 then 0 else 1 + sign + n
    else 0
  | [] => 0

/-- A number at the head and its length, if there is one. A whole one has so many digits at most. -/
def readNumber? (digits : Nat) (t : Text) : Option (Except IntegerError Json × Nat) :=
  let sign := signLength t
  let whole := wholeLength (t.drop sign)
  if whole = 0 then none
  else
    let fraction := fractionLength (t.drop (sign + whole))
    let exponent := exponentLength (t.drop (sign + whole + fraction))
    let n := sign + whole + fraction + exponent
    let s := String.ofList (t.take n)
    if fraction + exponent = 0 then some ((readIntegerWithin digits s).map int, n)
    else (readFloat? s).map fun x => (.ok (float x), n)

def words : List (String × Json) :=
  [("null", null), ("true", bool true), ("false", bool false), ("NaN", float (0.0 / 0.0)),
    ("Infinity", float (1.0 / 0.0)), ("-Infinity", float (-1.0 / 0.0))]

def readWord? (t : Text) : Option (Json × Nat) :=
  words.findSome? fun (w, v) => if w.toList.isPrefixOf t then some (v, w.length) else none

mutual

/-- The value at a place, with so many digits of whole numbers and levels of containers at most. Every call, of this
and of the next two functions, spends fuel; twice the number of characters left is always enough. -/
def readValue (digits : Nat) : (fuel levels : Nat) → Place → Except ParseError (Json × Place)
  | 0, _, p => p.fail .expectingValue
  | fuel + 1, levels, p =>
    match p.rest, levels with
    | '"' :: _, _ => do
      let (s, p) ← readString p.offset fuel [] (p.skip 1)
      return (str s, p)
    | '[' :: _, 0 => .error (.nesting .array)
    | '[' :: _, levels + 1 =>
      let p := (p.skip 1).skipSpace
      match p.rest with
      | ']' :: _ => .ok (arr [], p.skip 1)
      | _ => do
        let (items, p) ← readItems digits fuel levels p
        return (arr items, p)
    | '\x7b' :: _, 0 => .error (.nesting .object)
    | '\x7b' :: _, levels + 1 =>
      let p := (p.skip 1).skipSpace
      match p.rest with
      | '\x7d' :: _ => .ok (obj [], p.skip 1)
      | _ => do
        let (members, p) ← readMembers digits fuel levels p
        return (obj (ofMembers members), p)
    | t, _ =>
      match readWord? t with
      | some (v, n) => .ok (v, p.skip n)
      | none =>
        match readNumber? digits t with
        | some (.ok v, n) => .ok (v, p.skip n)
        | some (.error e, _) => .error (.number e)
        | none => p.fail .expectingValue

/-- The items of an array up to its closing bracket; at least one. -/
def readItems (digits : Nat) : (fuel levels : Nat) → Place → Except ParseError (List Json × Place)
  | 0, _, p => p.fail .expectingValue
  | fuel + 1, levels, p => do
    let (v, p) ← readValue digits fuel levels p
    let p := p.skipSpace
    match p.rest with
    | ']' :: _ => return ([v], p.skip 1)
    | ',' :: _ =>
      let (vs, p) ← readItems digits fuel levels (p.skip 1).skipSpace
      return (v :: vs, p)
    | _ => p.fail .expectingComma

/-- The members of an object up to its closing brace; at least one. -/
def readMembers (digits : Nat) : (fuel levels : Nat) → Place → Except ParseError (List (String × Json) × Place)
  | 0, _, p => p.fail .expectingName
  | fuel + 1, levels, p =>
    match p.rest with
    | '"' :: _ => do
      let (k, p) ← readString p.offset fuel [] (p.skip 1)
      let p := p.skipSpace
      match p.rest with
      | ':' :: _ =>
        let (v, p) ← readValue digits fuel levels (p.skip 1).skipSpace
        let p := p.skipSpace
        match p.rest with
        | '\x7d' :: _ => return ([(k, v)], p.skip 1)
        | ',' :: _ =>
          let (ms, p) ← readMembers digits fuel levels (p.skip 1).skipSpace
          return ((k, v) :: ms, p)
        | _ => p.fail .expectingComma
      | _ => p.fail .expectingColon
    | _ => p.fail .expectingName

end

/-- The value a whole text writes, if there is room for it. -/
def parseWithin (limits : Limits) (t : Text) : Except ParseError Json :=
  match t with
  | '\uFEFF' :: _ => (Place.mk t 0).fail .byteOrderMark
  | t => do
    let (v, p) ← readValue limits.digits (2 * t.length + 2) limits.levels (Place.skipSpace ⟨t, 0⟩)
    let p := p.skipSpace
    if p.rest.isEmpty then return v else p.fail .extraData

def parse (t : Text) : Except ParseError Json := parseWithin .standard t

end Proofreader.Json
