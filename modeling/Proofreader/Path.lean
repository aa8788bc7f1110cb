import Proofreader.Text.Basic

/-! Paths, as texts of parts between slashes. Normal paths have no empty or dot parts and go up only at
their start; nothing is looked up on a disk. -/

namespace Proofreader.Path

def parts (p : Text) : List Text := Text.splitWhen (· = '/') p

def isAbsolute (p : Text) : Bool := p.head? = some '/'

/-- How many slashes a path begins with as far as it matters: exactly two are kept. -/
def rootLength : Text → Nat
  | '/' :: '/' :: '/' :: _ => 1
  | '/' :: '/' :: _ => 2
  | '/' :: _ => 1
  | _ => 0

def dotdot : Text := ['.', '.']

/-- The parts of a normal path, reversed, after one more part. -/
def pushPart (rooted : Bool) (stack : List Text) (part : Text) : List Text :=
  if part = [] ∨ part = ['.'] then stack
  else if part = dotdot then
    match stack with
    | [] => if rooted then [] else [dotdot]
    | top :: below => if top = dotdot then dotdot :: stack else below
  else part :: stack

def joinParts (ps : List Text) : Text := List.intercalate ['/'] ps

def normalize (p : Text) : Text :=
  let root := rootLength p
  let ps := ((parts p).foldl (pushPart (0 < root)) []).reverse
  match List.replicate root '/' ++ joinParts ps with
  | [] => ['.']
  | q => q

/-- What stands before the last slash. -/
def directory (p : Text) : Text :=
  let head := Text.dropTailWhile (· ≠ '/') p
  if head.all (· = '/') then head else Text.dropTailWhile (· = '/') head

/-- An absolute second path stands for itself. -/
def join (base p : Text) : Text :=
  if isAbsolute p then p
  else if base = [] ∨ base.getLast? = some '/' then base ++ p
  else base ++ '/' :: p

/-- The absolute normal path that `p` means in the directory `working`. -/
def resolve (working p : Text) : Text :=
  '/' :: joinParts ((parts (join working p)).foldl (pushPart true) []).reverse

/-- The parts of a path that say something. -/
def plainParts (p : Text) : List Text := (parts p).filter fun part => part ≠ [] ∧ part ≠ ['.']

/-- The path without empty and dot parts. -/
def tidy (p : Text) : Text :=
  match List.replicate (rootLength p) '/' ++ joinParts (plainParts p) with
  | [] => ['.']
  | q => q

/-- The tidy path without its last part. -/
def parent (p : Text) : Text :=
  match List.replicate (rootLength p) '/' ++ joinParts (plainParts p).dropLast with
  | [] => ['.']
  | q => q

/-- The path below another one, if it lies there. -/
def relativeTo? (base p : Text) : Option Text :=
  if rootLength base = rootLength p ∧ (plainParts base).isPrefixOf (plainParts p) then
    match joinParts ((plainParts p).drop (plainParts base).length) with
    | [] => some ['.']
    | q => some q
  else none

/-- A path whose first part is a tilde, with the home directory in its place; `none` if the first part
asks for the home of someone else. -/
def expandHome (home p : Text) : Option Text :=
  match rootLength p, plainParts p with
  | 0, ('~' :: name) :: r => if name = [] then some (joinParts (home :: r)) else none
  | _, _ => some p

/-- A path seen from the directory of the file that names it. -/
def besideFile (file p : Text) : Text := normalize (join (directory file) p)

end Proofreader.Path
