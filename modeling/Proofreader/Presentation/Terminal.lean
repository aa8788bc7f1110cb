import Proofreader.Json.Access
import Proofreader.Path
import Proofreader.Report

/-! A report as lines of text: each diagnostic with its place, then warnings and errors, then a summary. -/

namespace Proofreader.Terminal

/-- A file as seen from `base`, if it lies below it. -/
def display (base : Option String) (file : FileId) : String :=
  match base.bind fun b => Path.relativeTo? b.toList file.toList with
  | some p => String.ofList p
  | none => file

/-- The first items up to a bound, if there is one; a negative bound leaves so many out at the end. -/
def upTo {α : Type} (bound : Option Int) (xs : List α) : List α :=
  match bound with
  | none => xs
  | some n => if 0 ≤ n then xs.take n.toNat else xs.take (xs.length - (-n).toNat)

def place (base : Option String) (file : FileId) (source : Option Source) (offset : Nat) : String :=
  match source with
  | some s =>
    let p := s.position offset
    display base file ++ ":" ++ toString (p.line + 1) ++ ":" ++ toString (p.column + 1)
  | none => display base file ++ "@" ++ toString offset

/-- Suggestions in a row; each must be a text. -/
def suggestionText (xs : List Json) : Except Mishap String := do
  let texts ← xs.zipIdx.mapM fun
    | (.str s, _) => pure s
    | (v, i) =>
      throw (.wrongType ("sequence item " ++ toString i ++ ": expected str instance, " ++ v.kindName ++ " found"))
  return joinWith ", " texts

def diagnosticLine (base : Option String) (bound : Option Int) (file : FileId) (source : Option Source)
    (d : Diagnostic) : Except Mishap String := do
  let line := place base file source d.location.start ++ ": [" ++ d.rule.plain ++ "] " ++ d.message.plain
  if d.replacements.isEmpty then return line
  return line ++ " (suggestions: " ++ (← suggestionText (upTo bound d.replacements)) ++ ")"

def errorLine (e : Json) : Except Mishap String := do
  let language := (← e.member? "language").getD .null
  let message := (← e.member? "message").getD (.str "")
  return "error: " ++ (if language.isEmpty then "" else language.plain ++ ": ") ++ message.plain

def summary (r : Report) : String :=
  let total := r.allDiagnostics.length
  let stale := ((r.languages.filter (·.2.stale)).map (·.1)).mergeSort fun a b => !(b < a)
  toString total ++ " issue" ++ (if total = 1 then "" else "s") ++ " in " ++ toString r.languages.length
    ++ " language(s)" ++ (if stale.isEmpty then "" else "; stale results for " ++ joinWith ", " stale)

def format (r : Report) (base : Option String) (bound : Option Int) : Except Mishap String := do
  let diagnostics ← r.sortedFiles.mapM fun (file, ds) =>
    ds.mapM (diagnosticLine base bound file (r.sources.lookup file))
  let warnings := r.warnings.map fun w => "warning: " ++ w.message
  let errors ← r.errors.mapM errorLine
  return joinWith "\n" (diagnostics.flatten ++ warnings ++ errors ++ [summary r])

/-- How many suggestions are shown. -/
def suggestionBound : Option Int := some 3

end Proofreader.Terminal
