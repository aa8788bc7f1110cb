import Proofreader.Json.Access
import Proofreader.Location
import Proofreader.Text.Caseless

/-! What a checker finds in a text, and what is shown for it at its source. -/

namespace Proofreader

/-- A span of the text that was sent, as the checker counts it: it may lie outside. All else is as the checker
gives it, texts unless the checker is careless. -/
structure Finding where
  offset : Int
  length : Int
  rule : Json
  message : Json
  replacements : List Json
  category : Json
  issue : Json

namespace Finding

def stop (f : Finding) : Int := f.offset + f.length

def shift (f : Finding) (by_ : Int) : Finding := { f with offset := f.offset + by_ }

/-- Words in the names of rules that check spelling. -/
def spellingWords : List Text :=
  ["morfologik".toList, "hunspell".toList, "speller".toList, "spelling_rule".toList]

/-- Whether the issue, the category or else the name of the rule says that this is about spelling. -/
def isSpelling (f : Finding) : Except Mishap Bool := do
  if ← f.issue.isAmong ["misspelling"] then return true
  if ← f.category.isAmong ["TYPOS"] then return true
  let name ← f.rule.searched
  return spellingWords.any fun word => Text.holdsCaseless word name

end Finding

inductive Severity where
  | error
  | warning
  | information
  | hint
  | other (name : String)
deriving DecidableEq

namespace Severity

def name : Severity → String
  | error => "error"
  | warning => "warning"
  | information => "information"
  | hint => "hint"
  | other name => name

def ofName (s : String) : Severity :=
  ([error, warning, information, hint].find? (·.name = s)).getD (other s)

end Severity

/-- What a finding says about its source, in the checker's words. -/
structure Diagnostic where
  location : Location
  rule : Json
  message : Json
  replacements : List Json
  severity : Severity
  /-- The tag of the language the text was checked in. -/
  language : String

namespace Diagnostic

/-- By file, place and rule. -/
def le (d e : Diagnostic) : Bool :=
  let l := d.location
  let k := e.location
  if l.file ≠ k.file then l.file < k.file
  else if l.start ≠ k.start then l.start < k.start
  else if l.stop ≠ k.stop then l.stop < k.stop
  else e.rule.compare? d.rule ≠ some .lt

/-- The first diagnostic whose rule is in no order with that of an earlier one at its place, and that one. -/
def clash? : (earlier : List Diagnostic) → List Diagnostic → Option (Diagnostic × Diagnostic)
  | _, [] => none
  | earlier, d :: r =>
    match earlier.find? fun e => d.location = e.location && (d.rule.compare? e.rule).isNone with
    | some e => some (d, e)
    | none => clash? (d :: earlier) r

/-- In order, if there is one; rules that are named by texts always have one. -/
def sorted (ds : List Diagnostic) : Except Mishap (List Diagnostic) :=
  if ds.all (·.rule.asText?.isSome) then .ok (ds.mergeSort le)
  else
    match clash? [] ds with
    | none => .ok (ds.mergeSort le)
    | some (d, e) =>
      .error (.wrongType
        ("'<' not supported between instances of " ++ quoted d.rule.kindName ++ " and " ++ quoted e.rule.kindName))

end Diagnostic

end Proofreader
