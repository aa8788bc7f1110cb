/-! Text as a list of code points: every offset in this library counts them. -/

namespace Proofreader

/-- Unicode white space and the four ASCII separators. -/
def isBlank (c : Char) : Bool :=
  let n := c.toNat
  (9 ≤ n && n ≤ 13) || (28 ≤ n && n ≤ 32) || n = 0x85 || n = 0xA0 || n = 0x1680 ||
    (0x2000 ≤ n && n ≤ 0x200A) || n = 0x2028 || n = 0x2029 || n = 0x202F || n = 0x205F || n = 0x3000

theorem isBlank_of_isWhitespace {c : Char} (h : c.isWhitespace) : isBlank c := by
  simp only [Char.isWhitespace, Bool.or_eq_true, decide_eq_true_eq] at h
  rcases h with ((rfl | rfl) | rfl) | rfl <;> decide

abbrev Text := List Char

namespace Text

/-- Only blanks, and at least one. -/
def isBlankRun (t : Text) : Bool := !t.isEmpty && t.all isBlank

def dropTailWhile (p : Char → Bool) (t : Text) : Text := (t.reverse.dropWhile p).reverse

def trimWhile (p : Char → Bool) (t : Text) : Text := dropTailWhile p (t.dropWhile p)

def trim (t : Text) : Text := trimWhile isBlank t

/-- Where `pattern` first occurs. -/
def find (pattern : Text) : Text → Option Nat
  | [] => if pattern.isEmpty then some 0 else none
  | c :: r => if pattern.isPrefixOf (c :: r) then some 0 else (find pattern r).map (· + 1)

/-- Where `pattern` last occurs. -/
def findLast (pattern : Text) : Text → Option Nat
  | [] => if pattern.isEmpty then some 0 else none
  | c :: r => ((findLast pattern r).map (· + 1)).or (if pattern.isPrefixOf (c :: r) then some 0 else none)

/-- The characters from offset `a` up to `b`. -/
def extract (t : Text) (a b : Nat) : Text := (t.drop a).take (b - a)

/-- A possibly negative offset counts from the end; what lies outside moves to the nearest end. -/
def clampOffset (t : Text) (i : Int) : Nat :=
  if i < 0 then (i + t.length).toNat else min i.toNat t.length

def slice (t : Text) (a b : Int) : Text := t.extract (t.clampOffset a) (t.clampOffset b)

/-- The parts between the characters that satisfy `p`. -/
def splitWhen (p : Char → Bool) : Text → List Text
  | [] => [[]]
  | c :: r =>
    match splitWhen p r with
    | part :: parts => if p c then [] :: part :: parts else (c :: part) :: parts
    | [] => [[c]]

/-- What stands before the first character that satisfies `p`, and what stands after it. -/
def splitFirst (p : Char → Bool) (t : Text) : Text × Option Text :=
  (t.takeWhile (! p ·), (t.dropWhile (! p ·)).tail?)

end Text

def trimBlank (s : String) : String := String.ofList (Text.trim s.toList)

/-- The string before the first `c`, and the one after it. -/
def splitAtFirst (c : Char) (s : String) : String × Option String :=
  let (a, b) := Text.splitFirst (· = c) s.toList
  (String.ofList a, b.map String.ofList)

def joinWith (separator : String) (parts : List String) : String := separator.intercalate parts

end Proofreader
