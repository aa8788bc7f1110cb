import Proofreader.CommandLine.Option
import Proofreader.Json.Value
import Proofreader.Number.Reading

/-! A command with its arguments. Arguments are taken as soon as they stand there: a key that does not follow
the path at once is one argument too many. -/

namespace Proofreader.CommandLine

/-- Why no command is carried out. -/
inductive Leave where
  | help
  | version
  /-- The words make no command. -/
  | misuse
deriving DecidableEq

def Leave.status : Leave → Nat
  | help | version => 0
  | misuse => 2

inductive Command where
  | check
  | watch
  | config
deriving DecidableEq, Inhabited

namespace Command

def name : Command → String
  | check => "check"
  | watch => "watch"
  | config => "config"

def options : Command → List (Text × OptionName)
  | check => OptionName.common ++ [("--json".toList, .json)]
  | watch => OptionName.common ++ [("--on-change".toList, .onChange), ("--interval".toList, .interval)]
  | config => OptionName.common

end Command

structure Arguments where
  path : Option String
  key : Option String
  /-- Settings, the last value of each. -/
  settings : List (String × Json)
  languages : List Json
  assignments : List Json
  configFile : Option String
  json : Bool
  /-- How many seconds lie between two looks at the files. -/
  interval : Float

namespace Arguments

def standard : Arguments := ⟨none, none, [], [], [], none, false, 0.5⟩

def put (a : Arguments) (name : String) (v : Json) : Arguments :=
  { a with settings := putMember a.settings name v }

/-- Two dashes are no value: where they are attached to an option, it has an empty list of values. -/
def value? (t : Text) : Option String := if t = ['-', '-'] then none else some (String.ofList t)

/-- A text that `read` takes, or the empty list of values. -/
def readValue (read : String → Option Json) (t : Text) : Except Leave Json :=
  match value? t with
  | none => .ok (.arr [])
  | some s => (read s).elim (.error .misuse) .ok

def anyText (s : String) : Option Json := some (.str s)

def wholeNumber (s : String) : Option Json := (readInteger? s).map .int

def oneOf (choices : List String) (s : String) : Option Json := if choices.contains s then some (.str s) else none

/-- Takes an option with its value; an option without one has an empty value. -/
def takeOption (a : Arguments) (o : OptionName) (t : Text) : Except Leave Arguments :=
  let give (name : String) (read : String → Option Json) : Except Leave Arguments := (readValue read t).map (a.put name)
  match o with
  | .help => .error .help
  | .version => .error .version
  | .main => give "main" anyText
  | .root => give "root" anyText
  | .config => .ok { a with configFile := value? t }
  | .bundled => .ok (a.put "bundled" (.bool true))
  | .jar => give "jar_location" anyText
  | .host => give "host" anyText
  | .port => give "port" wholeNumber
  | .language => (readValue anyText t).map fun v => { a with languages := a.languages ++ [v] }
  | .chunkSize => give "chunk_size" wholeNumber
  | .noSpellcheck => .ok (a.put "spellcheck" (.bool false))
  | .logLevel => give "log_level" anyText
  | .logFormat => give "log_format" (oneOf ["text", "json"])
  | .assignment => (readValue anyText t).map fun v => { a with assignments := a.assignments ++ [v] }
  | .json => .ok { a with json := true }
  | .onChange => give "on_change" anyText
  | .interval =>
    match value? t with
    | none => .ok a
    | some s => (readFloat? s).elim (.error .misuse) fun x => .ok { a with interval := x }

/-- Letters behind an option of one letter are such options too; the only one there is asks for help. -/
def joinedHelp (t : Text) : Leave := if t.all (· = 'h') then .help else .misuse

def skipDivider : List Word → List Word
  | .divider :: r => r
  | ws => ws

/-- An argument at the front, with the divider around it. -/
def front? (ws : List Word) : Option (String × List Word) :=
  match skipDivider ws with
  | .argument t :: r => some (String.ofList t, skipDivider r)
  | _ => none

/-- The path, and the key right behind it where the command has one; two dashes in its place are none. -/
def takePlaces (c : Command) (a : Arguments) (path : String) (ws : List Word) : Arguments × List Word :=
  match c, front? ws with
  | .config, some (key, ws) => ({ a with path := some path, key := value? key.toList }, ws)
  | _, _ => ({ a with path := some path }, ws)

/-- Takes word after word; `clean` as long as each of them had a place. -/
def takeWords (c : Command) : (fuel : Nat) → (clean : Bool) → Arguments → List Word → Except Leave Arguments
  | 0, _, _, _ => .error .misuse
  | _, clean, a, [] => if clean && a.path.isSome then .ok a else .error .misuse
  | fuel + 1, clean, a, .option o value :: r =>
    match o.takesValue, value, r with
    | true, .equals v, r => (a.takeOption o v).bind fun a => takeWords c fuel clean a r
    | true, .joined v, r => (a.takeOption o v).bind fun a => takeWords c fuel clean a r
    | true, .separate, .argument v :: r => (a.takeOption o v).bind fun a => takeWords c fuel clean a r
    | true, .separate, _ => .error .misuse
    | false, .separate, r => (a.takeOption o []).bind fun a => takeWords c fuel clean a r
    | false, .equals _, _ => .error .misuse
    | false, .joined v, _ => .error (joinedHelp v)
  | fuel + 1, _, a, .unknown _ :: r => takeWords c fuel false a r
  | fuel + 1, clean, a, w :: r =>
    match a.path, front? (w :: r) with
    | none, some (path, ws) =>
      let (a, ws) := takePlaces c a path ws
      takeWords c fuel clean a ws
    | _, _ => takeWords c fuel false a r

end Arguments

/-- What a command line asks for. -/
inductive Request where
  /-- Nothing at all. -/
  | nothing
  | command (c : Command) (a : Arguments)

/-- The words up to the command are options of their own; it takes all words behind it. -/
def readLeading : (clean : Bool) → List Word → List Text → Except Leave Request
  | clean, [], _ => if clean then .ok .nothing else .error .misuse
  | clean, .argument t :: _, _ :: rest =>
    match [Command.check, .watch, .config].find? fun c => c.name.toList = t with
    | none => .error .misuse
    | some c =>
      match Word.ofTexts? c.options rest with
      | none => .error .misuse
      | some ws =>
        match Arguments.takeWords c (ws.length + 1) true .standard ws with
        | .error e => .error e
        | .ok a => if clean then .ok (.command c a) else .error .misuse
  | _, .option o value :: _, _ =>
    match value with
    | .separate => .error (if o = .version then .version else .help)
    | .equals _ => .error .misuse
    | .joined v => .error (Arguments.joinedHelp v)
  | _, .unknown _ :: ws, ts => readLeading false ws ts.tail
  | _, _, _ => .error .misuse

def read (line : List String) : Except Leave Request :=
  let ts := line.map String.toList
  match Word.ofTexts? OptionName.leading ts with
  | none => .error .misuse
  | some ws => readLeading true ws ts

/-- The names of settings that options can give, in the order in which they are applied. -/
def settingNames : List String :=
  ["main", "root", "bundled", "jar_location", "host", "port", "languages", "chunk_size", "spellcheck", "log_level",
    "log_format", "on_change"]

/-- The settings that were given. -/
def Arguments.options (a : Arguments) : List (String × Json) :=
  let given := if a.languages.isEmpty then a.settings
    else a.settings ++ [("languages", .arr a.languages)]
  settingNames.filterMap fun name => (given.lookup name).map fun v => (name, v)

end Proofreader.CommandLine
