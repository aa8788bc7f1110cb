import Proofreader.Duration
import Proofreader.Settings.Key

/-! The settings of a check. Each one is read from a JSON value in its own way and read back under its
name; a dotted name reaches one list of words or one rule. -/

namespace Proofreader

structure Settings where
  dictionary : List (String × List String)
  disabledChecks : List (String × List String)
  languages : List String
  bundled : Bool
  jarLocation : Option String
  host : Option String
  port : Option Int
  chunkSize : Int
  lookback : Int
  boundaryWindow : Option Int
  /-- How long to wait after an edit, in seconds; edits start no check if there is none. -/
  onChange : Option Float
  root : Option String
  main : Option String
  spellcheck : Bool
  rules : List (String × String)
  paginateLevel : Int
  caseSensitive : Bool
  maxRetries : Int
  launchAttempts : Int
  requestTimeout : Float
  startupTimeout : Float
  logLevel : String
  logFormat : String

def defaultTimeout : Float := 30.0

def defaultStartup : Float := 60.0

namespace Settings

def standard : Settings where
  dictionary := []
  disabledChecks := []
  languages := []
  bundled := false
  jarLocation := none
  host := none
  port := none
  chunkSize := 1000
  lookback := 0
  boundaryWindow := none
  onChange := none
  root := none
  main := none
  spellcheck := true
  rules := []
  paginateLevel := 1
  caseSensitive := true
  maxRetries := 2
  launchAttempts := 3
  requestTimeout := defaultTimeout
  startupTimeout := defaultStartup
  logLevel := "INFO"
  logFormat := "text"

/-! Writing values -/

def optional {α : Type} (f : α → Json) (x : Option α) : Json := x.elim .null f

def words (xs : List String) : Json := .arr (xs.map .str)

def value (s : Settings) : Key → Json
  | .dictionary => .obj (s.dictionary.map fun (k, v) => (k, words v))
  | .disabledChecks => .obj (s.disabledChecks.map fun (k, v) => (k, words v))
  | .languages => words s.languages
  | .bundled => .bool s.bundled
  | .jarLocation => optional .str s.jarLocation
  | .host => optional .str s.host
  | .port => optional .int s.port
  | .chunkSize => .int s.chunkSize
  | .lookback => .int s.lookback
  | .boundaryWindow => optional .int s.boundaryWindow
  | .onChange => optional .float s.onChange
  | .root => optional .str s.root
  | .main => optional .str s.main
  | .spellcheck => .bool s.spellcheck
  | .rules => .obj (s.rules.map fun (k, v) => (k, .str v))
  | .paginateLevel => .int s.paginateLevel
  | .caseSensitive => .bool s.caseSensitive
  | .maxRetries => .int s.maxRetries
  | .launchAttempts => .int s.launchAttempts
  | .requestTimeout => .float s.requestTimeout
  | .startupTimeout => .float s.startupTimeout
  | .logLevel => .str s.logLevel
  | .logFormat => .str s.logFormat

/-! Reading values -/

/-- The parts of a text between commas, or the items of anything else. -/
def readList : Json → Except Mishap (List String)
  | .str s =>
    .ok (((Text.splitWhen (· = ',') s.toList).map Text.trim).filter (!·.isEmpty) |>.map String.ofList)
  | v => v.iterate.map fun items => items.map Json.plain

def readOptionalInteger (v : Json) : Except Mishap (Option Int) :=
  match v with
  | .null | .str "" => .ok none
  | v => v.toInteger.map some

def readWordLists : Json → Except Mishap (List (String × List String))
  | .obj members => members.mapM fun (k, v) => (readList v).map fun xs => (k, xs)
  | _ => .error (.badValue "expected an object of language -> list")

def readRules : Json → Except Mishap (List (String × String))
  | .obj members => .ok (members.map fun (k, v) => (k, v.plain))
  | _ => .error (.badValue "expected an object of node kind -> rule")

/-- The settings with one value read from JSON. -/
def take (s : Settings) (key : Key) (v : Json) : Except Fault Settings :=
  let read {α : Type} (got : Except Mishap α) (set : α → Settings) : Except Fault Settings :=
    (got.mapError Fault.mishap).map set
  match key with
  | .dictionary => read (readWordLists v) fun x => { s with dictionary := x }
  | .disabledChecks => read (readWordLists v) fun x => { s with disabledChecks := x }
  | .languages => read (readList v) fun x => { s with languages := x }
  | .bundled => .ok { s with bundled := v.toTruth }
  | .jarLocation => .ok { s with jarLocation := v.toText? }
  | .host => .ok { s with host := v.toText? }
  | .port => read (readOptionalInteger v) fun x => { s with port := x }
  | .chunkSize => read v.toInteger fun x => { s with chunkSize := x }
  | .lookback => read v.toInteger fun x => { s with lookback := x }
  | .boundaryWindow => read (readOptionalInteger v) fun x => { s with boundaryWindow := x }
  | .onChange => (Duration.ofJson v).map fun x => { s with onChange := x }
  | .root => .ok { s with root := v.toText? }
  | .main => .ok { s with main := v.toText? }
  | .spellcheck => .ok { s with spellcheck := v.toTruth }
  | .rules => read (readRules v) fun x => { s with rules := x }
  | .paginateLevel => read v.toInteger fun x => { s with paginateLevel := x }
  | .caseSensitive => .ok { s with caseSensitive := v.toTruth }
  | .maxRetries => read v.toInteger fun x => { s with maxRetries := x }
  | .launchAttempts => read v.toInteger fun x => { s with launchAttempts := x }
  | .requestTimeout => read v.toFloat fun x => { s with requestTimeout := x }
  | .startupTimeout => read v.toFloat fun x => { s with startupTimeout := x }
  | .logLevel => .ok { s with logLevel := upperCase v.plain }
  | .logFormat => .ok { s with logFormat := lowerCase v.plain }

/-- A value that cannot be read becomes a problem of its setting. -/
def refuse (key : Key) (v : Json) : Fault → Fault
  | .mishap (.badValue text) | .mishap (.wrongType text) =>
    .problem (.configuration
      ("Invalid value for " ++ key.name ++ ": " ++ v.literal ++ " (" ++ text ++ ")") (.str key.name) [])
  | e => e

def put (s : Settings) (key : Key) (v : Json) : Except Fault Settings := (s.take key v).mapError (refuse key v)

/-- What became of several values: those before the first refused one are in force. -/
structure Applied where
  settings : Settings
  /-- Names that are no settings. -/
  unknown : List String
  fault : Option Fault

/-- The settings, if no value was refused. -/
def Applied.complete (a : Applied) : Except Fault Settings := a.fault.elim (.ok a.settings) .error

def apply (s : Settings) : List (String × Json) → Applied
  | [] => ⟨s, [], none⟩
  | (name, v) :: r =>
    match Key.ofName? (Key.plainName name) with
    | none =>
      let a := s.apply r
      { a with unknown := name :: a.unknown }
    | some key =>
      match s.put key v with
      | .ok s => s.apply r
      | .error e => ⟨s, [], some e⟩

/-- A value under a dotted name. -/
def get? (s : Settings) (name : String) : Option Json :=
  let (head, sub) := splitAtFirst '.' name
  (Key.ofName? head).bind fun key =>
    match sub with
    | none | some "" => some (s.value key)
    | some sub =>
      let path := (Text.splitWhen (· = '.') sub.toList).map String.ofList
      path.foldlM (fun (v : Json) part => v.get? part) (s.value key)

def get (s : Settings) (name : String) (default : Json) : Json := (s.get? name).getD default

def unknownKey (name : String) : Fault :=
  .problem (.configuration ("Unknown config key: " ++ name) (.str name) [])

def noSubKeys (name : String) : Fault :=
  .problem (.configuration ("Config key " ++ name ++ " has no sub-keys") (.str name) [])

/-- One value under a dotted name; everything behind the first dot is one name. With such a name, the whole object
is read again. -/
def set (s : Settings) (name : String) (v : Json) : Applied :=
  let (head, sub) := splitAtFirst '.' name
  match Key.ofName? head with
  | none => ⟨s, [], some (unknownKey head)⟩
  | some key =>
    match sub with
    | none | some "" => s.apply [(head, v)]
    | some sub =>
      match s.value key with
      | .obj members => s.apply [(head, .obj (putMember members sub v))]
      | _ => ⟨s, [], some (noSubKeys head)⟩

/-! Checking -/

def invalid (message : String) (key : Key) : Except Problem Unit :=
  .error (.configuration message (.str key.name) [])

/-- Whether all settings are in range. -/
def validate (s : Settings) : Except Problem Unit :=
  if s.chunkSize ≤ 0 then invalid "chunk_size must be positive" .chunkSize
  else if s.lookback < 0 || s.chunkSize ≤ s.lookback then
    invalid "lookback must be between 0 and chunk_size" .lookback
  else if s.boundaryWindow.any (· ≤ 0) then invalid "boundary_window must be positive" .boundaryWindow
  else if s.paginateLevel < 1 then invalid "paginate_level must be at least 1" .paginateLevel
  else if s.logFormat ≠ "text" && s.logFormat ≠ "json" then
    invalid ("Unknown log format: " ++ s.logFormat) .logFormat
  else if s.maxRetries < 0 || s.launchAttempts < 1 then invalid "Retry bounds must not be negative" .maxRetries
  else .ok ()

/-- The tag of the first language to check in. -/
def defaultTag (s : Settings) : String := s.languages.head?.getD "en-US"

def toJson (s : Settings) : Json := .obj (Key.all.map fun k => (k.name, s.value k))

end Settings

end Proofreader
