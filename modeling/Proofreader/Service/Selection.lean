import Proofreader.Settings.Basic

/-! Which checking service settings select, and how to reach it. A host comes first, then a local
archive, then the bundled tool. -/

namespace Proofreader

inductive ServiceKind where
  | bundled
  | external
  | remote
  /-- Something that is no name of a service. -/
  | other (v : Json)

namespace ServiceKind

def name : ServiceKind → String
  | bundled => "bundled"
  | external => "external"
  | remote => "remote"
  | other v => v.plain

def ofJson : Json → ServiceKind
  | .str "bundled" => bundled
  | .str "external" => external
  | .str "remote" => remote
  | v => other v

def toJson : ServiceKind → Json
  | other v => v
  | kind => .str kind.name

end ServiceKind

/-- A service with its values as they were written; they are read when the service is created. -/
structure Selection where
  kind : ServiceKind
  jar : Json
  host : Json
  port : Json
  requestTimeout : Json
  maxRetries : Json
  launchAttempts : Json
  startupTimeout : Json
  retryDelay : Json

/-- The port a local server listens on if none is given. -/
def defaultPort : Int := 8081

namespace Selection

def standard (kind : ServiceKind) : Selection where
  kind := kind
  jar := .null
  host := .null
  port := .null
  requestTimeout := .float defaultTimeout
  maxRetries := .int 2
  launchAttempts := .int 3
  startupTimeout := .float defaultStartup
  retryDelay := .float 0.5

/-- The values by their names, the kind left out. -/
def members (s : Selection) : List (String × Json) :=
  [("jar_location", s.jar), ("host", s.host), ("port", s.port), ("request_timeout", s.requestTimeout),
    ("max_retries", s.maxRetries), ("launch_attempts", s.launchAttempts), ("startup_timeout", s.startupTimeout),
    ("retry_delay", s.retryDelay)]

def toJson (s : Selection) : Json := .obj (("kind", s.kind.toJson) :: s.members)

/-- Puts some values in place of others. -/
def withMembers (s : Selection) (values : List (String × Json)) : Selection :=
  let value (name : String) (v : Json) : Json := (values.lookup name).getD v
  { s with
    jar := value "jar_location" s.jar
    host := value "host" s.host
    port := value "port" s.port
    requestTimeout := value "request_timeout" s.requestTimeout
    maxRetries := value "max_retries" s.maxRetries
    launchAttempts := value "launch_attempts" s.launchAttempts
    startupTimeout := value "startup_timeout" s.startupTimeout
    retryDelay := value "retry_delay" s.retryDelay }

/-- The same, if all names are names of values. -/
def complete (s : Selection) (values : List (String × Json)) : Except Mishap Selection :=
  match values.find? fun m => !s.members.any (·.1 = m.1) with
  | some m => .error (.wrongType ("got an unexpected keyword argument " ++ quoted m.1))
  | none => .ok (s.withMembers values)

/-- What is left out is standard, but there must be a kind. -/
def ofMembers (values : List (String × Json)) : Except Mishap Selection :=
  match values.lookup "kind" with
  | none => .error (.wrongType "missing 1 required positional argument: 'kind'")
  | some kind => (standard (.ofJson kind)).complete (values.filter (·.1 ≠ "kind"))

/-- The service that a host, a place of an archive and a port call for, with the other values in `more`. -/
def select (bundled : Bool) (jar host port : Json) (more : List (String × Json)) : Except Fault Selection := do
  let complete (s : Selection) : Except Fault Selection := (s.complete more).mapError Fault.mishap
  let number : Except Fault Json := (port.toInteger.mapError Fault.mishap).map .int
  let isNull := port.kindName = Json.null.kindName
  if !host.isEmpty then
    if isNull then throw (.problem (.configuration "A remote host needs a port" (.str "port") []))
    complete { standard .remote with host := host, port := ← number }
  else if !jar.isEmpty then
    complete { standard .external with jar := jar, port := ← if isNull then pure (.int defaultPort) else number }
  else if bundled then complete (standard .bundled)
  else
    throw (.problem (.configuration "No checking backend configured: set bundled, jar_location or host/port"
      (.str "backend") []))

/-- Names that a selection gives itself. -/
def taken : List String := ["bundled", "jar_location", "host", "port"]

/-- The service that values call for by their names. -/
def selectBy (values : List (String × Json)) : Except Fault Selection :=
  let value (name : String) : Json := (values.lookup name).getD .null
  if values.any (·.1 = "cls") then .error (.mishap (.wrongType "got multiple values for argument 'cls'"))
  else
    select (!(value "bundled").isEmpty) (value "jar_location") (value "host") (value "port")
      (values.filter fun m => !taken.contains m.1)

/-- A value of a simple kind, told from others of its kind. -/
def sameValue : Json → Json → Bool
  | .null, .null => true
  | .bool a, .bool b => a = b
  | .int a, .int b => a = b
  | .float a, .float b => a == b
  | .str a, .str b => a = b
  | _, _ => false

/-- Whether two selections of settings are the same. -/
def same (a b : Selection) : Bool :=
  a.kind.name = b.kind.name && (a.members.zip b.members).all fun (x, y) => sameValue x.2 y.2

end Selection

def Settings.selection (s : Settings) : Except Fault Selection :=
  Selection.select s.bundled (s.jarLocation.elim .null .str) (s.host.elim .null .str) (s.port.elim .null .int)
    [("request_timeout", .float s.requestTimeout), ("max_retries", .int s.maxRetries),
      ("launch_attempts", .int s.launchAttempts), ("startup_timeout", .float s.startupTimeout)]

end Proofreader
