import Proofreader.Disk
import Proofreader.Document.Change

/-! The files of a project as the checker sees them: a main file, a root that includes may start from,
and the texts that an editor holds in place of the files on disk. -/

namespace Proofreader

/-- Where relative paths and the tilde lead. -/
structure Surroundings where
  working : String
  home : String

/-- The one name of a file: its absolute normal path. -/
def fileIdFor (at_ : Surroundings) (path : String) : Except Mishap FileId :=
  match Path.expandHome at_.home.toList path.toList with
  | some p => .ok (String.ofList (Path.resolve at_.working.toList p))
  | none => .error .noHome

/-- Main file and root for a path: the path itself and the directory of the main file if there is
nothing else to go by. -/
def resolveProject (at_ : Surroundings) (path : String) (main root : Option String) : FileId × FileId :=
  let working := at_.working.toList
  let main := Path.join working (((main.filter (· ≠ "")).getD path).toList)
  let root :=
    match root.filter (· ≠ "") with
    | some root => Path.join working root.toList
    | none => Path.parent main
  (String.ofList (Path.resolve working main), String.ofList (Path.resolve working root))

structure Project where
  surroundings : Surroundings
  main : FileId
  root : FileId
  /-- The texts of an editor, by file. -/
  shadows : List (FileId × Shadow)

namespace Project

def create (at_ : Surroundings) (main : String) (root : Option String) : Project :=
  let (main, root) := resolveProject at_ main none root
  ⟨at_, main, root, []⟩

/-- Another main file or root. -/
def move (p : Project) (main : String) (root : Option String) : Project :=
  let (main, root) := resolveProject p.surroundings main none root
  { p with main := main, root := root }

def idFor (p : Project) (path : String) : Except Mishap FileId := fileIdFor p.surroundings path

def openFile (p : Project) (path : String) (text : Json) : Except Mishap Project := do
  let file ← p.idFor path
  match Shadow.ofJson file text with
  | (shadow, none) => return { p with shadows := putMember p.shadows file shadow }
  | (_, some m) => throw m

/-- The file on disk counts again. -/
def closeFile (p : Project) (path : String) : Except Mishap Project := do
  let file ← p.idFor path
  pure { p with shadows := p.shadows.filter (·.1 ≠ file) }

def shadow (p : Project) (path : String) : Except Mishap (Option Shadow) := do
  let file ← p.idFor path
  pure (p.shadows.lookup file)

/-- Changes to the text of an editor. A file that is not open is opened from disk first, and is empty if
it cannot be read. -/
def change (p : Project) (disk : Disk) (path : String) (changes : Json) : Project × Option Mishap :=
  match p.idFor path with
  | .error e => (p, some e)
  | .ok file =>
    let shadow := (p.shadows.lookup file).getD (.text (.ofText file ((disk.read? file).getD [])))
    let (shadow, failure) :=
      match changes.iterate with
      | .ok changes => shadow.changeAll file changes
      | .error m => (shadow, some m)
    ({ p with shadows := putMember p.shadows file shadow }, failure)

end Project

end Proofreader
