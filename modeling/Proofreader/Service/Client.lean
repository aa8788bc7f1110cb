import Proofreader.Language.Profile
import Proofreader.Service.Reply
import Proofreader.Time

/-! Asking a checking server. A request that gets no answer in time, or no connection, is sent again
after a pause; any answer at all ends the attempts. -/

namespace Proofreader

/-- What lies between the library and a server. -/
structure Network (σ τ : Type) where
  send : Request τ → σ → Reply × σ
  sleep : τ → σ → σ
  /-- Ends the conversation with a server. -/
  hangUp : σ → σ

structure Client (τ : Type) where
  /-- Without a slash at its end. -/
  url : String
  timeout : τ
  backoff : Backoff τ

namespace Client

variable {σ τ : Type} [Time τ]

def create (url : String) (timeout : τ) (backoff : Backoff τ) : Client τ :=
  ⟨String.ofList (Text.dropTailWhile (· = '/') url.toList), timeout, backoff⟩

def refused (status : Int) (body : String) (attempt : Nat) : Fault :=
  .problem (.connection
    ("LanguageTool returned HTTP " ++ toString status ++ ": " ++ String.ofList (body.toList.take 200))
    (.int attempt) [("status_code", .int status)])

def unreachable (c : Client τ) (text : String) (attempts : Nat) : Fault :=
  .problem (.connection ("LanguageTool server unreachable at " ++ c.url ++ ": " ++ text) (.int attempts) [])

/-- The body of the first good answer, from the given attempt on with so many to follow. -/
def deliver (c : Client τ) (net : Network σ τ) (request : Request τ) :
    (left attempt : Nat) → σ → Except Fault String × σ
  | left, attempt, s =>
    match net.send request s with
    | (.answered status body, s) =>
      if status = 200 then (.ok body, s) else (.error (refused status body attempt), s)
    | (.failed .other text, s) => (.error (.mishap (.request text)), s)
    | (.failed _ text, s) =>
      match left with
      | 0 => (.error (c.unreachable text attempt), s)
      | left + 1 =>
        match c.backoff.pause attempt with
        | .error m => (.error (.mishap m), s)
        | .ok none => c.deliver net request left (attempt + 1) s
        | .ok (some d) => c.deliver net request left (attempt + 1) (net.sleep d s)

/-- The fields of a request to check a text. -/
def form (text : Text) (tag : String) (disabled : List String) : List (String × String) :=
  let fields := [("text", String.ofList text), ("language", tag)]
  if disabled.isEmpty then fields
  else fields ++ [("disabledRules", joinWith "," (disabled.mergeSort fun a b => !(b < a)))]

def invalid (c : Client τ) (message : String) : Fault :=
  .problem (.connection ("Invalid response from " ++ c.url ++ ": " ++ message) (.int 0) [])

/-- The findings in the body of an answer. -/
def readBody (c : Client τ) (text : Text) (body : String) : Except Fault (List Finding) :=
  match Json.parse body.toList with
  | .error e@(.nesting _) => .error (.mishap (.tooDeep (e.message body.toList)))
  | .error e => .error (c.invalid (e.message body.toList))
  | .ok answer => (Reply.findings answer text).mapError Fault.mishap

def checkRequest (c : Client τ) (text : Text) (tag : String) (disabled : List String) : Request τ :=
  ⟨.post, c.url ++ "/v2/check", c.timeout, form text tag disabled⟩

def check (c : Client τ) (net : Network σ τ) (text : Text) (tag : String) (disabled : List String) (s : σ) :
    Except Fault (List Finding) × σ :=
  let (got, s) := c.deliver net (c.checkRequest text tag disabled) c.backoff.retries 1 s
  (got >>= c.readBody text, s)

/-- Five seconds, or the timeout if that is less. -/
def probeRequest (c : Client τ) : Request τ :=
  ⟨.get, c.url ++ "/v2/languages", Time.lesser c.timeout (Time.quarters 20), []⟩

/-- Whether the server answers at all. -/
def isReady (c : Client τ) (net : Network σ τ) (s : σ) : Bool × σ :=
  match net.send c.probeRequest s with
  | (.answered status _, s) => (status = 200, s)
  | (.failed _ _, s) => (false, s)

end Client

end Proofreader
