import Proofreader.Json.Reader
import Proofreader.Rehearsal.World

/-! Rehearsals written as JSON: files, languages, the rules and troubles of a checker, replies and processes.
What is left out has a default. -/

namespace Proofreader.Rehearsal.Script

def octetsOfHex : Text → List Nat
  | a :: b :: r => ((Json.hexValue? a).getD 0 * 16 + (Json.hexValue? b).getD 0) :: octetsOfHex r
  | _ => []

/-- The content of a file: a text, or octets in hexadecimal. -/
def octets (v : Json) : List Nat :=
  v.asText?.elim (octetsOfHex ((v.field "hex").asText "").toList) fun s => Utf8.encode s.toList

/-- Files by path, written in order. -/
def disk (v : Json) : Disk := v.entries.foldl (fun d (path, content) => d.write path (octets content)) .empty

def profile (v : Json) : Profile :=
  { code := (v.field "code").asText "en"
    region := (v.field "region").asText?
    dictionary := (v.field "dictionary").texts
    disabled := (v.field "disabled_rules").texts
    resolved := (v.field "resolved").asTruth true }

def rule (v : Json) : LiteralRule :=
  let find := (v.field "find").asText ""
  let named (key default : String) : Json := (v.get? key).getD (.str default)
  { find := find.toList
    language := (v.field "language").asText?
    id := named "id" "TEST_RULE"
    message := named "message" ("Problem: " ++ find)
    replacements := (v.field "replacements").iterate.toOption.getD []
    category := named "category" "TYPOS"
    issue := named "issue" "misspelling"
    before := (v.field "before").asInt 0
    after := (v.field "after").asInt 0 }

def failures : List (String × FailureKind) :=
  [("connection", .connection), ("timeout", .timeout), ("connect_timeout", .timeout),
    ("read_timeout", .timeout), ("ssl", .connection), ("other", .other)]

def toolFailures : List (String × ToolFailure) :=
  [("java", .java), ("path", .path), ("library", .library), ("server", .server), ("rate", .rate),
    ("os", .system), ("runtime", .runtime), ("value", .value), ("key", .key), ("import", .missing)]

def raised (v : Json) : String := (v.field "raise").asText ""

def message (v : Json) : String := (v.field "message").asText "boom"

def toolError? (v : Json) : Option ToolError := (toolFailures.lookup (raised v)).map (⟨·, message v⟩)

def noMatches : Json := .obj [("matches", .arr [])]

def reply (v : Json) : Reply :=
  match failures.lookup (raised v) with
  | some kind => .failed kind (message v)
  | none =>
    .answered ((v.field "status").asInt 200)
      ((v.get? "body").elim ((v.get? "json").getD noMatches).compact (·.asText ""))

def replies (v : Json) : List Reply := v.items.map reply

def disturbance (v : Json) : Disturbance :=
  { language := (v.field "language").asText?
    first := (v.field "from").asInt 1
    last := (v.field "to").asInt?
    trouble := (toolError? v).elim (.reply (reply v)) .tool }

/-- New rules and troubles; the counts go on. -/
def checker (c : Checker) (v : Json) : Checker :=
  { c with
    rules := (v.field "rules").items.map rule
    disturbances := (v.field "faults").items.map disturbance }

def plan (v : Json) : Plan :=
  { refused := (v.get? "popen_error").isSome
    exited := (v.field "returncode").asInt?.isSome
    exitAfter := (v.field "exit_after").asInt?
    stubborn := (v.field "stubborn").asTruth false }

end Proofreader.Rehearsal.Script
