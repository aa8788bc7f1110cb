import Proofreader.Disk
import Proofreader.Service.Selection
import Proofreader.Service.Server
import Proofreader.Service.Tool

/-! A checking service in use: the bundled tool, a local server process or a server elsewhere. All three
answer with findings that count code points. -/

namespace Proofreader

/-- What services stand on. -/
structure Ground (σ τ : Type) where
  host : Host σ τ
  box : Toolbox σ

inductive Backend (τ : Type) where
  | bundled (tool : ToolState)
  | external (server : Server τ) (state : ServerState)
  | remote (url : String) (client : Client τ)

namespace Backend

variable {σ τ : Type} [Time τ]

def kind : Backend τ → ServiceKind
  | bundled _ => .bundled
  | external _ _ => .external
  | remote _ _ => .remote

/-- The client that asks the server of this service, if there is one. -/
def client? : Backend τ → Option (Client τ)
  | bundled _ => none
  | external server _ => some server.client
  | remote _ client => some client

/-- Gets ready ahead of the first check. -/
def start (g : Ground σ τ) (b : Backend τ) (s : σ) : Except Fault Unit × Backend τ × σ :=
  match b with
  | bundled tool =>
    let (r, tool, s) := Tool.start g.box tool s
    (r, .bundled tool, s)
  | external server st =>
    let (r, st, s) := server.ensureRunning g.host st s
    (r, .external server st, s)
  | remote url client => (.ok (), .remote url client, s)

def check (g : Ground σ τ) (text : Text) (profile : Profile) (b : Backend τ) (s : σ) :
    Except Fault (List Finding) × Backend τ × σ :=
  match b with
  | bundled tool =>
    let (r, tool, s) := Tool.check g.box text profile tool s
    (r, .bundled tool, s)
  | external server st =>
    match server.ensureRunning g.host st s with
    | (.error e, st, s) => (.error e, .external server st, s)
    | (.ok (), st, s) =>
      let (r, s) := server.client.check g.host.network text profile.tag (sortedSet profile.disabled) s
      (r, .external server st, s)
  | remote url client =>
    let (r, s) := client.check g.host.network text profile.tag (sortedSet profile.disabled) s
    (r, .remote url client, s)

def close (g : Ground σ τ) (b : Backend τ) (s : σ) : Backend τ × σ :=
  match b with
  | bundled tool => (.bundled (Tool.close tool), s)
  | external server st =>
    let (st, s) := Server.stop g.host st s
    (.external server st, g.host.network.hangUp s)
  | remote url client => (.remote url client, g.host.network.hangUp s)

/-- What is told about a service. -/
def status (g : Ground σ τ) (b : Backend τ) (s : σ) : Json × σ :=
  let base := [("backend", Json.str b.kind.name), ("supports_rule_suppression", .bool true)]
  match b with
  | bundled _ => (.obj base, s)
  | external server st =>
    let (running, s) := Server.isRunning g.host st s
    (.obj (base ++ [("jar", .str server.jar), ("running", .bool running)]), s)
  | remote url _ => (.obj (base ++ [("url", .str url)]), s)

end Backend

/-- A server process for the archive at `jar`, which must be there, as a Java runtime must. -/
def Server.create {τ : Type} [Time τ] (disk : Disk) (working : String) (java : Option String) (jar : String)
    (port : Json) (client : Client τ) (attempts : Int) (patience : τ) (probes : Nat) (backoff : Backoff τ) :
    Except Problem (Server τ) :=
  if !disk.holds (Disk.nameOf working jar) then
    .error (.configuration ("LanguageTool JAR not found: " ++ jar) (.str "jar_location") [])
  else
    match java.filter (· ≠ "") with
    | none => .error (.configuration "No Java runtime found on PATH" (.str "jar_location") [])
    | some java =>
      .ok ⟨java, String.ofList (Path.tidy jar.toList), port, client, (attempts - 1).toNat, patience, probes, backoff⟩

namespace Backend

/-- A host and a port as an address; a scheme in front of the host is kept. -/
def address (host port : Json) : Except Mishap String :=
  match host with
  | .str host =>
    let schemes := ["http://".toList, "https://".toList]
    let base := if schemes.any fun p => p.isPrefixOf host.toList then host else "http://" ++ host
    .ok (base ++ ":" ++ port.plain)
  | v => .error (v.noMember "startswith")

/-- A number that is only needed later; nothing stands for what is none. -/
def laterNumber (v : Json) : Quantity := v.quantity?.getD (.whole 0)

/-- A number of attempts; there is always one. -/
def atLeastOne (n : Quantity) : Quantity := if n.less (.whole 1) then .whole 1 else n

/-- How often a request is sent in all. -/
def attempts (selection : Selection) : Except Mishap Quantity :=
  selection.maxRetries.toQuantity.map fun n => atLeastOne (n.add (.whole 1))

def backoffFor (selection : Selection) (attempts : Quantity) : Backoff Quantity :=
  .ofAttempts attempts.floor selection.retryDelay.toQuantity Backoff.longestWait

def clientFor (selection : Selection) (url : String) : Except Mishap (Client Quantity) :=
  (attempts selection).map fun n => .create url (laterNumber selection.requestTimeout) (backoffFor selection n)

/-- An empty value is replaced. -/
def orElse (v default : Json) : Json := if v.isEmpty then default else v

/-- A server process as it is selected. -/
def createServer (disk : Disk) (working : String) (java : Option String) (probes : Nat) (selection : Selection) :
    Except Fault (Server Quantity) := do
  let port := orElse selection.port (.int defaultPort)
  let client ← (clientFor selection ("http://127.0.0.1:" ++ port.plain)).mapError Fault.mishap
  let launches ← selection.launchAttempts.toQuantity.mapError Fault.mishap
  match orElse selection.jar (.str "") with
  | .str jar =>
    (Server.create disk working java jar port client launches.floor (laterNumber selection.startupTimeout) probes
      (backoffFor selection launches)).mapError Fault.problem
  | v => throw (.mishap (.wrongType ("expected str, bytes or os.PathLike object, not " ++ v.kindName)))

/-- The service that is selected. -/
def create (disk : Disk) (working : String) (java : Option String) (probes : Nat) (selection : Selection)
    (language : String) : Except Fault (Backend Quantity) :=
  match selection.kind with
  | .bundled => .ok (.bundled ⟨language, false⟩)
  | .remote => do
    let url ← (address (orElse selection.host (.str "")) selection.port).mapError Fault.mishap
    return .remote url (← (clientFor selection url).mapError Fault.mishap)
  | .external => (createServer disk working java probes selection).map fun server => .external server Server.idle
  | .other v => .error (.problem (.configuration ("Unknown backend kind: " ++ v.literal) (.str "backend") []))

end Backend

end Proofreader
