import Proofreader.Text.Identifier
import Proofreader.Text.Letter

/-! The words of the markup, each recognised at the head of the text that is left. What cannot be a
mark there is plain text: `mark?` finds none. -/

namespace Proofreader.Markup

def isSpace (c : Char) : Bool := c = ' ' || c = '\t' || c = '\r' || c = '\n'

def isTab (c : Char) : Bool := c = ' ' || c = '\t'

def isNameStart (c : Char) : Bool := c.isAlpha || c = '_'

def isNamePart (c : Char) : Bool := c.isAlphanum || c = '_' || c = '-'

/-- A function name: a letter or underscore, then letters, digits, underscores and hyphens. -/
def name? : Text → Option Text
  | [] => none
  | c :: r => if isNameStart c then some (c :: r.takeWhile isNamePart) else none

def isKeyPart (c : Char) : Bool :=
  c.isAlphanum || c = '_' || c = ':' || c = '.' || c = '-'

/-- The key of a citation, after the at sign. Points and colons at its end are punctuation. -/
def citationKey? : Text → Option Text
  | [] => none
  | c :: r =>
    if c.isAlphanum || c = '_' then
      some (Text.dropTailWhile (fun d => d = '.' || d = ':') (c :: r.takeWhile isKeyPart))
    else none

/-- The length of a label in angle brackets. -/
def labelLength? : Text → Option Nat
  | '<' :: r =>
    let n := (r.takeWhile isKeyPart).length
    if 0 < n ∧ (r.drop n).head? = some '>' then some (n + 2) else none
  | _ => none

/-- The length of what stands before the closing quote. A backslash takes the next character of the
line with it. -/
def untilQuote? : Text → Option Nat
  | [] => none
  | '"' :: _ => some 0
  | '\\' :: c :: r => if c = '\n' then none else (untilQuote? r).map (· + 2)
  | '\\' :: [] => none
  | _ :: r => (untilQuote? r).map (· + 1)

/-- What stands between the quotes of a string. -/
def string? : Text → Option Text
  | '"' :: r => (untilQuote? r).map r.take
  | _ => none

/-- The level and the length of the marker of a heading. -/
def headingMarker? (t : Text) : Option (Nat × Nat) :=
  let level := (t.takeWhile (· = '=')).length
  let blanks := ((t.drop level).takeWhile isTab).length
  if 0 < level ∧ 0 < blanks then some (level, level + blanks) else none

/-- The length of the marker of a list item. -/
def itemMarker? : Text → Option Nat
  | c :: r =>
    let blanks := (r.takeWhile isTab).length
    if (c = '-' ∨ c = '+') ∧ 0 < blanks then some (1 + blanks) else none
  | [] => none

def fence : Text := ['`', '`', '`']

/-- Whether the line just begun is empty. -/
def isBlankLine (t : Text) : Bool :=
  (t.dropWhile (fun c => c = ' ' || c = '\t' || c = '\r')).head? = some '\n'

/-- Where `closer` stands before the next blank line. A backslash takes the next character with it. -/
def findCloser (closer : Char) : Text → Option Nat
  | [] => none
  | '\\' :: _ :: r => (findCloser closer r).map (· + 2)
  | '\\' :: [] => none
  | c :: r =>
    if c = closer then some 0
    else if c = '\n' ∧ isBlankLine r then none
    else (findCloser closer r).map (· + 1)

/-- How much is left up to the bracket that closes the one `depth` levels up, that bracket included,
or up to the end. Strings and escaped characters are passed over; `skip` characters still are. -/
def balancedLength (opening closing : Char) : (skip depth : Nat) → Text → Nat
  | _, _, [] => 0
  | skip + 1, depth, _ :: r => balancedLength opening closing skip depth r + 1
  | 0, depth, c :: r =>
    if c = '"' then
      match untilQuote? r with
      | some n => balancedLength opening closing (n + 1) depth r + 1
      | none => balancedLength opening closing 0 depth r + 1
    else if c = '\\' then balancedLength opening closing 1 depth r + 1
    else if c = opening then balancedLength opening closing 0 (depth + 1) r + 1
    else if c = closing then
      if depth ≤ 1 then 1 else balancedLength opening closing 0 (depth - 1) r + 1
    else balancedLength opening closing 0 depth r + 1

inductive Mark where
  /-- A backslash and what it escapes: nothing before a space or the end. -/
  | escape (c : Option Char)
  | comment (length : Nat)
  /-- Math with so much between its dollar signs. -/
  | math (inside : Nat)
  | raw
  /-- The opening of strong or emphasised text, which the same character closes. -/
  | delimiter (c : Char)
  | citation (key : Text)
  | label (length : Nat)
  | call (name : Text)

def commentLength (t : Text) : Nat :=
  match t with
  | '/' :: '*' :: r =>
    match Text.find ['*', '/'] r with
    | some n => n + 4
    | none => t.length
  | t => (t.takeWhile (· ≠ '\n')).length

/-- The mark at the head of a text that `before` precedes. An underscore or at sign inside a word is
none, nor is a delimiter that nothing closes. -/
def mark? (before : Option Char) : Text → Option Mark
  | [] => none
  | c :: r =>
    match c with
    | '\\' => some (.escape (r.head?.filter (! isSpace ·)))
    | '/' => if r.head? = some '/' ∨ r.head? = some '*' then some (.comment (commentLength (c :: r))) else none
    | '$' => (findCloser '$' r).map .math
    | '`' => if r.contains '`' then some .raw else none
    | '*' => if (findCloser '*' r).isSome then some (.delimiter '*') else none
    | '_' => if before.any isLetter then none else if (findCloser '_' r).isSome then some (.delimiter '_') else none
    | '@' => if before.any isLetter then none else (citationKey? r).map .citation
    | '<' => (labelLength? (c :: r)).map .label
    | '#' => (name? r).map .call
    | _ => none

/-- The length of the plain text at the head and the bracket depth after it. Plain text ends at a
space, at a mark or at `stop`; a bracket that closes the content block ends it too. -/
def textRun (stop : Option Char) : (before : Option Char) → (first : Bool) → (depth : Nat) → Text → Nat × Nat
  | _, _, depth, [] => (0, depth)
  | before, first, depth, c :: r =>
    if isSpace c then (0, depth)
    else if c = '[' then
      let (n, d) := textRun stop (some c) false (depth + 1) r
      (n + 1, d)
    else if c = ']' then
      if depth = 0 ∧ stop = some ']' then (0, depth)
      else
        let (n, d) := textRun stop (some c) false (depth - 1) r
        (n + 1, d)
    else if !first && (stop = some c || (mark? before (c :: r)).isSome) then (0, depth)
    else
      let (n, d) := textRun stop (some c) false depth r
      (n + 1, d)

end Proofreader.Markup
