import Proofreader.CommandLine.Arguments
import Proofreader.Log
import Proofreader.Presentation.Terminal
import Proofreader.Scheduler.Basic
import Proofreader.Session.Basic
import Proofreader.Settings.Load

/-! The commands. `check` makes one run and prints its report, `config` prints settings, and `watch` makes a
run whenever files of the document have been modified. -/

namespace Proofreader

/-- Which files were modified since the last look, told by their stamps, by path in the order in which the paths were first
watched. A file that is not there has none. -/
structure Poller (μ : Type) where
  seen : List (String × Option μ)

namespace Poller

variable {μ : Type} [DecidableEq μ]

def empty : Poller μ := ⟨[]⟩

/-- Watches more paths, as they are now; a path that is watched keeps its last look. -/
def watch (p : Poller μ) (stamp : String → Option μ) (paths : List String) : Poller μ :=
  paths.foldl (fun p path =>
    if p.seen.any (·.1 = path) then p else ⟨p.seen ++ [(path, stamp path)]⟩) p

/-- The paths that were modified, and a new look at all. -/
def changed (p : Poller μ) (stamp : String → Option μ) : List String × Poller μ :=
  ((p.seen.filter fun s => s.2 ≠ stamp s.1).map (·.1), ⟨p.seen.map fun s => (s.1, stamp s.1)⟩)

end Poller

namespace CommandLine

/-- What a command finds around it. -/
structure Scene where
  surroundings : Surroundings
  disk : Disk
  environment : List (String × Json)

inductive Ending where
  | status (n : Nat)
  | left (l : Leave)
  /-- A problem that is reported as a document. -/
  | complaint (p : Problem)
  | mishap (m : Mishap)

inductive Printed where
  | usage
  | line (text : String)

structure Outcome where
  ending : Ending
  printed : List Printed

def version : String := "1.0.0"

def failed : Fault → Outcome
  | .problem p => ⟨.complaint p, []⟩
  | .mishap m => ⟨.mishap m, []⟩

/-- Puts one assignment `key=value` in force. -/
def assign (s : Settings) : Json → Except Fault Settings
  | .str assignment =>
    let malformed : Fault :=
      .problem (.configuration ("Expected KEY=VALUE, got " ++ quoted assignment) (.str "set") [])
    match splitAtFirst '=' assignment with
    | (_, none) => .error malformed
    | (key, some value) =>
      if trimBlank key = "" then .error malformed else (s.set (trimBlank key) (.str value)).complete
  | v => .error (.mishap (v.noMember "partition"))

/-- Settings from the file, the environment, the options and then the assignments. -/
def settings (scene : Scene) (a : Arguments) : Except Fault Settings := do
  let working := scene.surroundings.working
  let file := (a.configFile.filter (· ≠ "")).map fun p => String.ofList (Path.tidy p.toList)
  let s ← (Settings.load scene.disk working file none scene.environment a.options).settings
  if a.assignments.isEmpty then return s
  let s := (← a.assignments.foldlM assign s).makeAbsolute working none
  s.validate.mapError .problem
  return s

variable {σ β : Type}

/-- A session for the document at `path`, unless the settings name another main file. -/
def sessionFor (scene : Scene) (path : String) (s : Settings) : Except Fault (Session β) :=
  Session.create (Project.create scene.surroundings ((s.main.filter (· ≠ "")).getD path) s.root) s

/-- A session for the document of a command, if its log can be kept. -/
def createSession (scene : Scene) (a : Arguments) : Except Fault (Session β) := do
  let s ← settings scene a
  let _ ← (Log.threshold s.logLevel).mapError Fault.mishap
  sessionFor scene (a.path.getD "") s

/-- The report of a single run, after which the service is closed. -/
def runOnce (provider : Provider σ β Selection) (scene : Scene) (s : Session β) (w : σ) :
    Except Fault Report × σ :=
  let (got, s, w) := Session.run provider scene.disk s w
  (got, (s.close provider w).2)

/-- The report of one document, checked with the given options. The path is no option. -/
def checkFile (provider : Provider σ β Selection) (scene : Scene) (path : String)
    (options : List (String × Json)) (w : σ) : Except Fault Report × σ :=
  let s := (Settings.load scene.disk scene.surroundings.working none none scene.environment options).settings
  if options.any (·.1 = "path") then (.error (.mishap (.wrongType "got multiple values for argument 'path'")), w)
  else
    match s >>= sessionFor scene path with
    | .error e => (.error e, w)
    | .ok s => runOnce provider scene s w

def shown (s : Session β) (r : Report) : Except Mishap String :=
  Terminal.format r (some s.project.root) Terminal.suggestionBound

def check (provider : Provider σ β Selection) (scene : Scene) (a : Arguments) (w : σ) : Outcome × σ :=
  match createSession scene a with
  | .error e => (failed e, w)
  | .ok s =>
    match runOnce provider scene s w with
    | (.error e, w) => (failed e, w)
    | (.ok r, w) =>
      match if a.json then .ok r.toJson.pretty else shown s r with
      | .error m => (failed (.mishap m), w)
      | .ok text => (⟨.status r.exitCode, [.line text]⟩, w)

def config (scene : Scene) (a : Arguments) : Outcome :=
  let asked (s : Settings) : Except Fault Json :=
    match a.key.filter (· ≠ "") with
    | none => .ok s.toJson
    | some key =>
      (s.get? key).elim
        (.error (.problem (.configuration ("Unknown config key: " ++ key) (.str key) []))) .ok
  match settings scene a >>= asked with
  | .error e => failed e
  | .ok v => ⟨.status 0, [.line v.pretty]⟩

/-! Watching -/

structure Watch (β : Type) where
  session : Session β
  scheduler : Scheduler Float
  poller : Poller Nat
  /-- The reports so far, the last one first. -/
  printed : List String

namespace Watch

def stamp (scene : Scene) (path : String) : Option Nat :=
  scene.disk.stamp? (Disk.nameOf scene.surroundings.working path)

/-- Makes the run that has begun. One that raises, or that cannot be shown, prints nothing. -/
def run (provider : Provider σ β Selection) (scene : Scene) (now : Float) (v : Watch β) (w : σ) : Watch β × σ :=
  let (got, session, w) := Session.run provider scene.disk v.session w
  let v := { v with session := session, scheduler := v.scheduler.complete now }
  match got with
  | .error _ => (v, w)
  | .ok r =>
    ({ v with
        poller := v.poller.watch (stamp scene) (r.sources.map (·.1))
        printed := (shown session r).toOption.toList ++ v.printed }, w)

def follow (provider : Provider σ β Selection) (scene : Scene) (now : Float) (v : Watch β)
    (next : Scheduler Float × Bool) (w : σ) : Watch β × σ :=
  let v := { v with scheduler := next.1 }
  if next.2 then v.run provider scene now w else (v, w)

/-- The first look, with a run. -/
def start (provider : Provider σ β Selection) (scene : Scene) (now : Float) (s : Session β) (w : σ) :
    Watch β × σ :=
  let v : Watch β := ⟨s, .create s.pipeline.settings.onChange, Poller.empty.watch (stamp scene) [s.project.main], []⟩
  v.follow provider scene now (v.scheduler.handle .opened now) w

/-- Makes a run that is due. -/
def poll (provider : Provider σ β Selection) (scene : Scene) (now : Float) (v : Watch β) (w : σ) : Watch β × σ :=
  v.follow provider scene now (v.scheduler.poll now) w

/-- Looks at the files. A modification counts as an edit if edits start runs, and else as a save. -/
def look (provider : Provider σ β Selection) (scene : Scene) (now : Float) (v : Watch β) (w : σ) : Watch β × σ :=
  match v.poller.changed (stamp scene) with
  | ([], poller) => ({ v with poller := poller }, w)
  | (_, poller) =>
    let event := if v.scheduler.debounce.isSome then Event.edited else Event.saved
    { v with poller := poller }.follow provider scene now (v.scheduler.handle event now) w

/-- Lets time pass until nothing is due any more. -/
def settle (provider : Provider σ β Selection) (scene : Scene) (v : Watch β) (w : σ) : Watch β × σ :=
  match v.scheduler.deadline with
  | some deadline => v.poll provider scene deadline w
  | none => (v, w)

end Watch

/-- The files that a command reads, as far as those that are there tell. -/
def wanted (scene : Scene) (a : Arguments) : List String :=
  let file := (a.configFile.filter (· ≠ "")).getD Settings.fileName
  let resolved := Disk.nameOf scene.surroundings.working file
  match settings scene a with
  | .error _ => [resolved]
  | .ok s =>
    let main := (s.main.filter (· ≠ "")).getD (a.path.getD "")
    let (_, _, v) := (Project.create scene.surroundings main s.root).snapshot.compile scene.disk
    resolved :: s.jarLocation.toList ++ v.texts.map (·.1)

/-- A command under way: it has ended, or it goes on watching. -/
inductive Course (β : Type) where
  | ended (o : Outcome)
  | watching (v : Watch β)

/-- Carries out what a command line asks for. -/
def start (provider : Provider σ β Selection) (scene : Scene) (line : List String) (now : Float) (w : σ) :
    Course β × σ :=
  match read line with
  | .error .help => (.ended ⟨.left .help, [.usage]⟩, w)
  | .error .version => (.ended ⟨.left .version, [.line ("prosecheck " ++ version)]⟩, w)
  | .error .misuse => (.ended ⟨.left .misuse, []⟩, w)
  | .ok .nothing => (.ended ⟨.status 2, [.usage]⟩, w)
  | .ok (.command .check a) =>
    let (o, w) := check provider scene a w
    (.ended o, w)
  | .ok (.command .config a) => (.ended (config scene a), w)
  | .ok (.command .watch a) =>
    match createSession scene a with
    | .error e => (.ended (failed e), w)
    | .ok s =>
      let (v, w) := Watch.start provider scene now s w
      (.watching v, w)

end CommandLine

end Proofreader
