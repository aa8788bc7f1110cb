import Proofreader.Presentation.Uri
import Proofreader.Rehearsal.Measure
import Proofreader.Rehearsal.Script
import Proofreader.Report

/-! Locations, tables of rules, findings and reports written as JSON. A name that is none of those that are known is
refused, and so is a location that runs backwards. -/

namespace Proofreader.Rehearsal.Document

/-- One of several names. -/
def oneOf {α : Type} (group : String) (ofName? : String → Option α) (v : Json) : Except Mishap α :=
  match v.asText?.bind ofName? with
  | some x => .ok x
  | none => .error (.badValue (v.literal ++ " is not a valid " ++ group))

def kind : Json → Except Mishap Kind := oneOf "NodeKind" Kind.ofName?

def effect : Json → Except Mishap Effect := oneOf "Effect" Effect.ofName?

def status : Json → Except Mishap Status :=
  oneOf "CheckStatus" fun s => [Status.idle, .checking, .error].find? (·.name = s)

/-- A list of pairs, in which a later pair takes the place of an earlier one of its name, or the members of an
object. -/
def pairs (v : Json) : List (String × Json) :=
  v.entries ++ ofMembers (v.items.map fun p => ((p.item 0).asText "", p.item 1))

/-- A file, a start and a stop. -/
def location : Json → Except Mishap Location
  | .arr [file, start, stop] =>
    match start.asInt?, stop.asInt? with
    | some a, some b => (Location.ofInts (file.asText "") a b).mapError fun e => .badValue e.message
    | _, _ => .error (.wrongType "a place is counted in whole numbers")
  | .null => .error (Json.null.noMember "start")
  | _ => .error (.wrongType "a location has three parts")

/-- A location as it is told, with its length. Its file can be anything, its ends any numbers in order. -/
def describe : Json → Except Mishap Json
  | v@(.arr [.str _, .int _, .int _]) =>
    (location v).map fun l => .obj [("length", .int l.length), ("dict", l.toJson)]
  | .arr [file, start, stop] => do
    let a ← start.toQuantity
    if a.less (.whole 0) then throw (outside start stop)
    let b ← stop.toQuantity
    if b.less a then throw (outside start stop)
    let length ← match a, b with
      | .whole i, .whole j => pure (Json.int (j - i))
      | _, _ => pure (Json.float ((← stop.toFloat) - (← start.toFloat)))
    return .obj [("length", length), ("dict", .obj [("file_id", file), ("start", start), ("end", stop)])]
  | v => do
    let _ ← location v
    return .null
where
  outside (start stop : Json) : Mishap := .badValue ("Invalid source range " ++ start.plain ++ ".." ++ stop.plain)

/-- A path must be a text. -/
def path (v : Json) : Except Mishap String :=
  v.asText?.elim (.error (.wrongType ("expected str, bytes or os.PathLike object, not " ++ v.kindName))) .ok

/-- A path, or nothing for an empty value. -/
def path? (v : Json) : Except Mishap (Option String) := if v.isEmpty then .ok none else (path v).map some

/-- The path that a URI names. What is empty is no URI, and what else is no text cannot be read as one. -/
def uriPath : Json → Except Mishap Text
  | .str s => (Uri.toPath s.toList).mapError fun e => .badValue e.message
  | v => .error (if v.isEmpty then .badValue ("Not a file URI: " ++ v.plain) else v.noMember "decode")

/-- A kind, an effect, a token and a level. -/
def rule (v : Json) : Except Mishap (Kind × Rule) := do
  let effect ← effect (v.item 1)
  let kind ← kind (v.item 0)
  return (kind, ⟨effect, ((v.item 2).asText "").toList, (v.item 3).asInt 1⟩)

/-- Adds a stretch to a map: from the given item on a length, a location, and whether it is exact and a placeholder. -/
def addPart (m : SourceMap) (v : Json) (i : Nat) : Except Mishap SourceMap := do
  let place ← location (v.item (i + 1))
  let length ← Measure.whole (v.item i)
  (m.add length.toNat place (!(v.item (i + 2)).isEmpty) (!(v.item (i + 3)).isEmpty)).mapError fun e =>
    .badValue e.message

def sourceMap (parts : List Json) : Except Mishap SourceMap :=
  parts.foldlM (fun m part => do
    if (part.item 0).asText? = some "separator" then return m.addGap (← Measure.whole (part.item 1)).toNat
    addPart m part 1) .empty

/-- Lists of words by key; a text stands for the list of its characters. -/
def wordLists (v : Json) : Except Mishap (List (String × List String)) :=
  (pairs v).mapM fun (k, w) => do return (k, (← w.iterate).map (·.asText ""))

/-- Texts that are needed for a member that only texts have. -/
def textsWith (name : String) (vs : List Json) : Except Mishap (List String) :=
  vs.mapM fun v => v.asText?.elim (.error (v.noMember name)) .ok

/-- The languages of a question with their words and rules. Empty languages do not count. -/
def resolver (v : Json) : Except Mishap Resolver := do
  let told (key : String) : Except Mishap (List Json) := ((v.get? key).getD (.arr [])).iterate
  let languages ← textsWith "strip" ((← told "languages").filter (!·.isEmpty))
  let dictionary ← wordLists (v.field "dictionary")
  let disabled ← wordLists (v.field "disabled_checks")
  let supported ← if (v.get? "supported").isSome then textsWith "lower" (← told "supported") else pure supportedCodes
  return .ofSettings languages dictionary disabled supported

/-- One rule over another table, by its text; what is no text is refused after the kind is known. -/
def override (t : Table) (name : String) (v : Json) : Except Fault Table := do
  let source := v.asText "identity"
  let t ← (t.override [(name, source)]).mapError fun e => .problem e.problem
  if v.asText?.isSome then return t else throw (.mishap (v.noMember "strip"))

/-- The table of a question: single rules over the plain rendering, or what settings say. -/
def table (v : Json) : Except Fault Table :=
  match v.get? "raw_rules" with
  | some raw =>
    (raw.items.foldlM (fun (t : Table) j => (rule j).map fun (k, r) => t.set k r) .identity).mapError .mishap
  | none =>
    if ((v.get? "spellcheck").getD (.bool true)).isEmpty then .ok .identity
    else
      (pairs (v.field "rules")).foldlM (fun t (name, source) => override t name source)
        (.checking ((v.field "paginate_level").asInt 1))

/-- An offset, a length, a rule, a message, replacements, a category and an issue. The list may be cut short. -/
def finding (v : Json) : Except Mishap Finding := do
  let named (i : Nat) : Json := (v.items[i]?).getD (.str "")
  let replacements := (v.item 4).iterate.toOption.getD []
  return ⟨← Measure.whole (v.item 0), ← Measure.whole (v.item 1), v.item 2, named 3, replacements, named 5, named 6⟩

def ofFinding (f : Finding) : Json :=
  .arr [.int f.offset, .int f.length, f.rule, f.message, .arr f.replacements, f.category, f.issue]

def diagnostic (v : Json) : Except Mishap Diagnostic := do
  let place ← location (v.field "location")
  let given (key default : String) : Json := (v.get? key).getD (.str default)
  let replacements := (v.field "replacements").iterate.toOption.getD []
  return ⟨place, given "rule_id" "R", given "message" "m", replacements,
    Severity.ofName ((v.field "severity").asText "information"), (v.field "language").asText ""⟩

def warning (v : Json) : Except Mishap Warning := do
  let place ← if (v.item 2).isEmpty then pure none else (location (v.item 2)).map some
  return ⟨.other ((v.item 0).asText ""), (v.item 1).asText "", place⟩

/-- A tag and the result for its language. -/
def language (v : Json) : String × LanguageResult :=
  let fields := v.item 1
  ((v.item 0).asText "",
    ⟨Script.profile fields, [], 0, 0, (fields.field "error").asText?, (fields.field "stale").asTruth false⟩)

def report (v : Json) : Except Mishap Report := do
  let status ← status ((v.get? "status").getD (.str "idle"))
  let diagnostics ← (v.field "diagnostics").entries.mapM fun (file, ds) => do
    return (file, ← ds.items.mapM diagnostic)
  let warnings ← (v.field "warnings").items.mapM warning
  return ⟨(v.field "run_id").asInt 1, status, diagnostics,
    ofMembers ((v.field "languages").items.map language), warnings, (v.field "errors").items,
    (v.field "sources").entries.map fun (file, text) => (file, Source.ofText file (text.asText "").toList)⟩

/-- How many suggestions are to be shown of a report: all, or a number that must be whole where there are any. -/
def suggestionBound (r : Report) : Json → Except Mishap (Option Int)
  | .null => .ok none
  | v => if r.allDiagnostics.all (·.replacements.isEmpty) then .ok none else (Measure.whole v).map some

end Proofreader.Rehearsal.Document
