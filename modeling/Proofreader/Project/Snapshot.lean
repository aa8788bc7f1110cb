import Proofreader.Markup.Library
import Proofreader.Project.Basic

/-! One view of a project for a whole run: every file keeps the text it had when it was first looked at,
and open files the text they had when the view was taken. -/

namespace Proofreader

structure Snapshot where
  surroundings : Surroundings
  main : FileId
  root : FileId
  /-- What is known so far; a file that cannot be read has no text. -/
  texts : List (FileId × Option Text)
  /-- The files the document was read from, main file first. -/
  files : List FileId

def Project.snapshot (p : Project) : Snapshot :=
  ⟨p.surroundings, p.main, p.root, p.shadows.map fun (file, s) => (file, s.text?), []⟩

namespace Snapshot

/-- The text of a file on disk, which may also go by another name there. -/
def onDisk (s : Snapshot) (disk : Disk) (file : FileId) : Option Text :=
  disk.read? (Disk.nameOf s.surroundings.working file)

def peek (s : Snapshot) (disk : Disk) (file : FileId) : Option Text :=
  (s.texts.lookup file).getD (s.onDisk disk file)

/-- The text of a file, which the view keeps from then on. -/
def load (s : Snapshot) (disk : Disk) (file : FileId) : Option Text × Snapshot :=
  match s.texts.lookup file with
  | some text => (text, s)
  | none => (s.onDisk disk file, { s with texts := s.texts ++ [(file, s.onDisk disk file)] })

def source (s : Snapshot) (disk : Disk) (file : FileId) : Option Source × Snapshot :=
  let (text, s) := s.load disk file
  (text.map (.ofText file), s)

/-- Where an include leads: below the root for a leading slash, else beside the including file. -/
def includePath (s : Snapshot) (base : FileId) (path : Text) : Text :=
  match path with
  | '/' :: _ => Path.join s.root.toList (path.dropWhile (· = '/'))
  | _ => Path.join (Path.parent base.toList) path

/-- The file an include means. -/
def resolveInclude (s : Snapshot) (base : FileId) (path : Text) : Except Mishap FileId :=
  fileIdFor s.surroundings (String.ofList (s.includePath base path))

/-- Every text that can be read now. A file of the document has an absolute name, from where an include always leads
somewhere. -/
def library (s : Snapshot) (disk : Disk) : Markup.Library where
  files :=
    (s.texts.filterMap fun (file, text) => text.map fun t => (file, t))
      ++ (disk.files.filter fun f => (s.texts.lookup f.1).isNone).filterMap fun f =>
        (disk.read? f.1).map fun t => (f.1, t)
  resolve base path := (s.resolveInclude base path).toOption.getD base

/-- Reads the main file and everything it includes. -/
def compile (s : Snapshot) (disk : Disk) : Option Node × List Warning × Snapshot :=
  let got := (s.library disk).read s.main
  let s := got.asked.foldl (fun s file => (s.load disk file).2) s
  let read := got.asked.filter fun file => (s.peek disk file).isSome
  (got.document, got.warnings, { s with files := (s.files ++ read).eraseDups })

end Snapshot

end Proofreader
