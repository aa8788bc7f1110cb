import Proofreader.Disk
import Proofreader.Json.Reader
import Proofreader.Settings.Basic

/-! Where settings come from: a file, then the environment, then options, each over the one before. -/

namespace Proofreader.Settings

/-- Relative paths made absolute, from `directory` if given and else from the working directory. -/
def makeAbsolute (s : Settings) (working : String) (directory : Option String) : Settings :=
  let base := Path.join working.toList ((directory.getD "").toList)
  let resolve (p : String) : String :=
    if Path.isAbsolute p.toList then p else String.ofList (Path.resolve base p.toList)
  { s with
    root := s.root.map resolve
    main := s.main.map resolve
    jarLocation := s.jarLocation.map resolve }

/-- What the environment calls the settings it may give, in the order they are read. -/
def environmentKeys : List (String × Key) :=
  [("PROSECHECK_BUNDLED", .bundled), ("PROSECHECK_JAR_LOCATION", .jarLocation), ("PROSECHECK_HOST", .host),
    ("PROSECHECK_PORT", .port), ("PROSECHECK_LANGUAGES", .languages), ("PROSECHECK_CHUNK_SIZE", .chunkSize),
    ("PROSECHECK_ON_CHANGE", .onChange), ("PROSECHECK_SPELLCHECK", .spellcheck),
    ("PROSECHECK_MAX_RETRIES", .maxRetries), ("PROSECHECK_REQUEST_TIMEOUT", .requestTimeout),
    ("PROSECHECK_LOG_LEVEL", .logLevel), ("PROSECHECK_LOG_FORMAT", .logFormat)]

/-- What the environment's reading left: the settings, and a complaint for each value it passed over. -/
structure FromEnvironment where
  settings : Settings
  warnings : List String
  mishap : Option Mishap

def skipped (envName value message : String) : String :=
  "Invalid env var " ++ envName ++ "=" ++ value ++ ": " ++ message

/-- Variables hold texts where a system provides them; other values are read in the same way. -/
def applyVariables (s : Settings) (environment : List (String × Json)) :
    List (String × Key) → FromEnvironment
  | [] => ⟨s, [], none⟩
  | (envName, key) :: r =>
    match environment.lookup envName with
    | none | some .null => s.applyVariables environment r
    | some value =>
      let pass (message : String) : FromEnvironment :=
        let got := s.applyVariables environment r
        { got with warnings := skipped envName value.plain message :: got.warnings }
      match s.take key value with
      | .ok s => s.applyVariables environment r
      | .error (.problem p) => pass p.message
      | .error (.mishap (.badValue text)) => pass text
      | .error (.mishap m) => ⟨s, [], some m⟩

def applyEnvironment (s : Settings) (environment : List (String × Json)) : FromEnvironment :=
  s.applyVariables environment environmentKeys

def fileName : String := "prosecheck.json"

/-- The file of settings in `directory` or else in the working directory. -/
def findFile (disk : Disk) (working : String) (directory : Option String) : Option String :=
  let candidates := (directory.toList ++ [working]).map fun d =>
    String.ofList (Path.tidy (Path.join d.toList fileName.toList))
  candidates.find? fun p => disk.holds (Disk.nameOf working p)

def fileProblem (message : String) : Fault := .problem (.configuration message (.str "config") [])

def unreadable (path message : String) : Fault :=
  fileProblem ("Could not load config file " ++ path ++ ": " ++ message)

/-- The members of the file of settings. -/
def readFile (disk : Disk) (working path : String) : Except Fault (List (String × Json)) :=
  match disk.read (Disk.nameOf working path) with
  | .error (.missing _) => .error (unreadable path (ReadError.missing path).message)
  | .error .undecodable => .error (.mishap .undecodable)
  | .ok t =>
    match Json.parse t with
    | .error (.malformed e) => .error (unreadable path (e.message t))
    | .error (.number e) => .error (.mishap (.badValue (e.message "")))
    | .error e@(.nesting _) => .error (.mishap (.tooDeep (e.message t)))
    | .ok (.obj members) => .ok members
    | .ok _ => .error (fileProblem ("Config file " ++ path ++ " must hold a JSON object"))

structure Loaded where
  settings : Except Fault Settings
  /-- Complaints on the way, in order. -/
  warnings : List String

def unknownOption (name : String) : String := "Unknown configuration option: " ++ name

/-- Settings from the file at `path`, or the one that is found, the environment and `options`. -/
def load (disk : Disk) (working : String) (path directory : Option String)
    (environment options : List (String × Json)) : Loaded :=
  let members :=
    match path.or (findFile disk working directory) with
    | some path => readFile disk working path
    | none => .ok []
  match members with
  | .error e => ⟨.error e, []⟩
  | .ok members =>
    let a := standard.apply members
    let seen := a.unknown.map unknownOption
    match a.fault with
    | some e => ⟨.error e, seen⟩
    | none =>
      let b := a.settings.applyEnvironment environment
      let seen := seen ++ b.warnings
      match b.mishap with
      | some m => ⟨.error (.mishap m), seen⟩
      | none =>
        let c := b.settings.apply options
        let seen := seen ++ c.unknown.map unknownOption
        match c.fault with
        | some e => ⟨.error e, seen⟩
        | none =>
          let s := c.settings.makeAbsolute working directory
          match s.validate with
          | .ok () => ⟨.ok s, seen⟩
          | .error p => ⟨.error (.problem p), seen⟩

end Proofreader.Settings
