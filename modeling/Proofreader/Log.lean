import Proofreader.Fault
import Proofreader.Text.Case

/-! Log lines, as text or as JSON documents. A JSON line carries the fields of its call beside the message; a
line about something raised wraps the line of the call as its message. -/

namespace Proofreader.Log

inductive Level where
  | debug
  | info
  | warning
  | error
deriving DecidableEq, Inhabited

namespace Level

def name : Level → String
  | debug => "DEBUG"
  | info => "INFO"
  | warning => "WARNING"
  | error => "ERROR"

def rank : Level → Nat
  | debug => 10
  | info => 20
  | warning => 30
  | error => 40

end Level

/-- The least rank that is written, by the names of levels. A logger without a level of its own writes what
is written by default elsewhere: warnings and errors. -/
def thresholds : List (String × Nat) :=
  [("CRITICAL", 50), ("FATAL", 50), ("ERROR", 40), ("WARNING", 30), ("WARN", 30), ("INFO", 20), ("DEBUG", 10),
    ("NOTSET", 30)]

/-- How a line is laid out where nothing else is said. -/
def plainLayout : String := "%(levelname)s:%(name)s:%(message)s"

/-- An unknown name stands for the level of information, but the name of a layout or of the table of layouts is
refused. -/
def threshold (level : String) : Except Mishap Nat :=
  match upperCase level with
  | "BASIC_FORMAT" => .error (.badValue ("Unknown level: " ++ quoted plainLayout))
  | "_STYLES" => .error (.wrongType "Level not an integer or a valid string")
  | name => .ok ((thresholds.lookup name).getD Level.info.rank)

structure Logger where
  name : String
  threshold : Nat
  /-- Lines are JSON documents. -/
  structured : Bool
  /-- What binds the lines of one run together. -/
  correlation : String
  /-- The time of writing. -/
  stamp : String

structure Entry where
  level : Level
  message : Json
  fields : List (String × Json)
  /-- What was raised. -/
  raised : Option String

/-- How something raised is described. -/
def description (kind text : String) : String := if text = "" then kind else kind ++ ": " ++ text

/-- Names that a record has for itself. -/
def reserved : List String :=
  ["name", "msg", "args", "levelname", "levelno", "pathname", "filename", "module", "exc_info", "exc_text",
    "stack_info", "lineno", "funcName", "created", "msecs", "relativeCreated", "thread", "threadName",
    "processName", "process", "message", "asctime"]

/-- Names that every call has for itself. -/
def given : List String := ["self", "message", "level"]

def given? (names : List String) (fields : List (String × Json)) : Except Mishap Unit :=
  match names.find? fun name => fields.any (·.1 = name) with
  | some name => .error (.wrongType ("got multiple values for argument " ++ quoted name))
  | none => .ok ()

def putAll (base fields : List (String × Json)) : List (String × Json) :=
  fields.foldl (fun ms m => putMember ms m.1 m.2) base

namespace Logger

/-- The members of a JSON line; a field of the same name takes a member's place. -/
def document (l : Logger) (e : Entry) : Json :=
  .obj (putAll
    [("timestamp", .str l.stamp), ("level", .str e.level.name), ("logger", .str l.name),
      ("correlation_id", .str l.correlation), ("message", e.message)] e.fields)

/-- The message that is handed on. -/
def rendered (l : Logger) (e : Entry) : String := if l.structured then (l.document e).compact else e.message.plain

/-- The members of a JSON line around a message, with what was raised. -/
def wrapped (l : Logger) (e : Entry) (message : String) : Json :=
  .obj (putAll
    ([("timestamp", .str l.stamp), ("level", .str e.level.name), ("logger", .str l.name), ("message", .str message)]
      ++ e.raised.elim [] fun raised => [("traceback", .str raised)])
    (e.fields.filter fun f => f.1 ≠ "taskName"))

/-- A message that looks like a JSON document is a line already, unless something was raised. -/
def line (l : Logger) (e : Entry) : String :=
  let message := l.rendered e
  if l.structured then
    if ['\x7b'].isPrefixOf message.toList && e.raised.isNone then message else (l.wrapped e message).compact
  else l.stamp ++ " [" ++ e.level.name ++ "] " ++ l.name ++ " - " ++ message ++ e.raised.elim "" ("\n" ++ ·)

/-- The line of a call, if its level is written. -/
def write (l : Logger) (e : Entry) : Except Mishap (List String) := do
  given? given e.fields
  if e.level.rank < l.threshold then return []
  match e.fields.find? fun f => reserved.contains f.1 with
  | some f => throw (.missingKey ("Attempt to overwrite " ++ quoted f.1 ++ " in LogRecord"))
  | none => return [l.line e]

/-- The name of the field that asks for a description of what is being raised. -/
def raisedField : String := "exc_info"

/-- An error, while something may be being raised; it is described if a field asks for it. -/
def error (l : Logger) (message : Json) (fields : List (String × Json)) (current : Option String) :
    Except Mishap (List String) :=
  let asked := (fields.lookup raisedField).any (!·.isEmpty)
  l.write
    { level := .error
      message := message
      fields := fields.filter fun f => f.1 ≠ raisedField
      raised := if asked then some (current.getD "NoneType: None") else none }

/-- An error that is described. -/
def exception (l : Logger) (message : Json) (fields : List (String × Json)) (current : Option String) :
    Except Mishap (List String) := do
  given? [raisedField] fields
  l.error message ((raisedField, .bool true) :: fields) current

/-- The line at the start of an operation. -/
def started (l : Logger) (name : Json) (fields : List (String × Json)) : Except Mishap (List String) := do
  given? ["operation", "status"] fields
  l.write ⟨.debug, .str (name.plain ++ " started"), ("operation", name) :: ("status", .str "started") :: fields, none⟩

/-- The fields of a line at the end of an operation. -/
def ended (name : Json) (status : String) (elapsed : Float) (fields : List (String × Json)) :
    Except Mishap (List (String × Json)) := do
  given? ["duration_ms"] fields
  return ("operation", name) :: ("status", .str status) :: ("duration_ms", .float elapsed) :: fields

def completed (l : Logger) (name : Json) (fields : List (String × Json)) (elapsed : Float) :
    Except Mishap (List String) := do
  l.write ⟨.info, .str (name.plain ++ " completed"), ← ended name "completed" elapsed fields, none⟩

/-- The line of an operation that ended as something of a kind was raised with a text. -/
def failed (l : Logger) (name : Json) (fields : List (String × Json)) (kind text : String) (elapsed : Float) :
    Except Mishap (List String) := do
  l.error (.str (name.plain ++ " failed: " ++ text)) (← ended name "failed" elapsed fields)
    (some (description kind text))

/-- The lines of an operation, which may fail with a text of its own. If its end cannot be written as complete, it
failed as well; whatever cannot be written then is left out. -/
def operation (l : Logger) (name : Json) (fields : List (String × Json)) (failure : Option String)
    (elapsed : Float) : List String :=
  match l.started name fields with
  | .error _ => []
  | .ok first =>
    let last :=
      match failure, l.completed name fields elapsed with
      | some text, _ => l.failed name fields "RuntimeError" text elapsed
      | none, .ok lines => .ok lines
      | none, .error m => l.failed name fields "KeyError" m.message elapsed
    first ++ last.toOption.getD []

end Logger

end Proofreader.Log
