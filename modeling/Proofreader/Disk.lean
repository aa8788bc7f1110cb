import Proofreader.Path
import Proofreader.Text.Quoted
import Proofreader.Text.Utf8

/-! Files under absolute paths. Each write gives a file a later stamp. Text is read as strict UTF-8, and
every way to end a line becomes a newline. -/

namespace Proofreader

structure StoredFile where
  octets : List Nat
  stamp : Nat

structure Disk where
  files : List (String × StoredFile)
  /-- The stamp of the last write. -/
  clock : Nat

inductive ReadError where
  | missing (path : String)
  | undecodable

def ReadError.message : ReadError → String
  | missing path => "[Errno 2] No such file or directory: " ++ quoted path
  | undecodable => "invalid UTF-8"

/-- Carriage returns, with a newline behind them or not, as newlines. -/
def unifyLines : Text → Text
  | '\r' :: '\n' :: r => '\n' :: unifyLines r
  | '\r' :: r => '\n' :: unifyLines r
  | c :: r => c :: unifyLines r
  | [] => []

namespace Disk

def empty : Disk := ⟨[], 0⟩

/-- The name that a file has on a disk, for a path from the directory `working`. -/
def nameOf (working path : String) : String :=
  String.ofList (Path.normalize (Path.join working.toList path.toList))

def find? (d : Disk) (path : String) : Option StoredFile := d.files.lookup path

def holds (d : Disk) (path : String) : Bool := (d.find? path).isSome

def stamp? (d : Disk) (path : String) : Option Nat := (d.find? path).map (·.stamp)

def write (d : Disk) (path : String) (octets : List Nat) : Disk :=
  let put := fun (files : List (String × StoredFile)) (file : StoredFile) =>
    if d.holds path then files.map fun f => if f.1 = path then (path, file) else f else files ++ [(path, file)]
  ⟨put d.files ⟨octets, d.clock + 1⟩, d.clock + 1⟩

def delete (d : Disk) (path : String) : Disk := { d with files := d.files.filter (·.1 ≠ path) }

def read (d : Disk) (path : String) : Except ReadError Text :=
  match d.find? path with
  | none => .error (.missing path)
  | some file =>
    match Utf8.decode? file.octets with
    | some t => .ok (unifyLines t)
    | none => .error .undecodable

def read? (d : Disk) (path : String) : Option Text := (d.read path).toOption

end Disk

end Proofreader
