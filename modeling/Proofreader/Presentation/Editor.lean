import Proofreader.Json.Access
import Proofreader.Presentation.Uri
import Proofreader.Report

/-! What editors are told: diagnostics by line and UTF-16 column, quick fixes and the state of the check. -/

namespace Proofreader.Editor

/-- The name under which diagnostics are published. -/
def sourceName : String := "prosecheck"

def severityCode : Severity → Int
  | .error => 1
  | .warning => 2
  | .information => 3
  | .hint => 4
  | .other _ => 3

def position (s : Source) (offset : Nat) : Json :=
  let p := s.unitPosition offset
  .obj [("line", .int p.line), ("character", .int p.column)]

def range (s : Source) (start stop : Nat) : Json := .obj [("start", position s start), ("end", position s stop)]

def diagnostic (s : Source) (d : Diagnostic) : Json :=
  .obj [("range", range s d.location.start d.location.stop), ("severity", .int (severityCode d.severity)),
    ("code", d.rule), ("source", .str sourceName), ("message", d.message), ("data", .arr d.replacements)]

def publish (uri : String) (s : Source) (ds : List Diagnostic) : Json :=
  .obj [("uri", .str uri), ("diagnostics", .arr (ds.map (diagnostic s)))]

/-- One message for each file whose text is known, clean files included. -/
def notifications (r : Report) : Except Uri.UriError (List Json) :=
  (r.sortedFiles.filterMap fun (file, ds) => (r.sources.lookup file).map fun s => (file, s, ds)).mapM
    fun (file, s, ds) => (Uri.ofPath file.toList).map fun uri => publish (String.ofList uri) s ds

/-- The fix that puts `value` in place of the range of a published diagnostic. -/
def quickFix (uri : String) (diagnostic range value : Json) (first : Bool) : Json :=
  .obj [("title", .str ("Replace with \"" ++ value.plain ++ "\"")), ("kind", .str "quickfix"),
    ("diagnostics", .arr [diagnostic]), ("isPreferred", .bool first),
    ("edit", .obj [("changes", .obj [(uri, .arr [.obj [("range", range), ("newText", value)]])])])]

/-- A fix for each suggestion of a diagnostic of this program. -/
def quickFixes (uri : String) (d : Json) : Except Mishap (List Json) := do
  match ← d.member? "source" with
  | none | some .null => pure ()
  | some (.str s) => if s ≠ sourceName then return []
  | some _ => return []
  let data := (← d.member? "data").getD .null
  let values ← if data.isEmpty then pure [] else data.iterate
  values.zipIdx.mapM fun (value, i) =>
    match d.get? "range" with
    | some range => pure (quickFix uri d range value (i = 0))
    | none => throw (.missingKey "range")

/-- The state of the check, with a message if there is one. -/
def statusMessage (status : Status) (message : Json) : Json :=
  .obj (("status", .str status.name) :: if message.isEmpty then [] else [("message", message)])

end Proofreader.Editor
