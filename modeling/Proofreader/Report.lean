import Proofreader.Document.Source
import Proofreader.Fault
import Proofreader.Finding
import Proofreader.Language.Profile
import Proofreader.Warning

/-! What one run found, ready to be shown or published. -/

namespace Proofreader

inductive Status where
  | idle
  | checking
  | error
deriving DecidableEq, Inhabited

def Status.name : Status → String
  | idle => "idle"
  | checking => "checking"
  | error => "error"

structure LanguageResult where
  profile : Profile
  diagnostics : List Diagnostic
  chunks : Nat
  /-- How many chunks were sent. -/
  calls : Nat
  error : Option String
  /-- The diagnostics are those of an earlier run. -/
  stale : Bool

structure Report where
  run : Int
  status : Status
  /-- By file; files that have become clean are listed too. -/
  diagnostics : List (FileId × List Diagnostic)
  /-- By tag. -/
  languages : List (String × LanguageResult)
  warnings : List Warning
  /-- The members of each error. -/
  errors : List Json
  sources : List (FileId × Source)

/-! As JSON -/

def Location.toJson (l : Location) : Json :=
  .obj [("file_id", .str l.file), ("start", .int l.start), ("end", .int l.stop)]

def texts (xs : List String) : Json := .arr (xs.map .str)

def Warning.toJson (w : Warning) : Json :=
  .obj [("kind", .str w.kind.name), ("message", .str w.message), ("location", w.location.elim .null (·.toJson))]

def Diagnostic.toJson (d : Diagnostic) : Json :=
  .obj [("location", d.location.toJson), ("rule_id", d.rule), ("message", d.message),
    ("replacements", .arr d.replacements), ("severity", .str d.severity.name), ("language", .str d.language)]

def Profile.toJson (p : Profile) : Json :=
  .obj [("code", .str p.code), ("region", p.region.elim .null .str), ("tag", .str p.tag),
    ("resolved", .bool p.resolved), ("dictionary", texts (sortedSet p.dictionary)),
    ("disabled_rules", texts (sortedSet p.disabled))]

def LanguageResult.toJson (r : LanguageResult) : Json :=
  .obj [("language", .str r.profile.tag), ("diagnostics", .int r.diagnostics.length), ("chunks", .int r.chunks),
    ("backend_calls", .int r.calls), ("error", r.error.elim .null .str), ("stale", .bool r.stale)]

namespace Report

/-- Files in the order of their names. -/
def sortedFiles (r : Report) : List (FileId × List Diagnostic) :=
  r.diagnostics.mergeSort fun a b => !(b.1 < a.1)

def allDiagnostics (r : Report) : List Diagnostic := r.sortedFiles.flatMap (·.2)

def diagnosticsJson (r : Report) : Json :=
  .obj (r.diagnostics.map fun (file, ds) => (file, .arr (ds.map (·.toJson))))

/-- The whole report; runs are not timed. -/
def toJson (r : Report) : Json :=
  .obj [("run_id", .int r.run), ("status", .str r.status.name), ("diagnostics", r.diagnosticsJson),
    ("languages", .obj (r.languages.map fun (tag, l) => (tag, l.toJson))),
    ("warnings", .arr (r.warnings.map (·.toJson))), ("errors", .arr r.errors), ("duration_ms", .float 0.0)]

/-- Two for an error, one for anything found, else zero. -/
def exitCode (r : Report) : Nat :=
  if r.status = .error then 2 else if r.allDiagnostics.isEmpty then 0 else 1

end Report

end Proofreader
