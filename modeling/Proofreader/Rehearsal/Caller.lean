import Proofreader.Rehearsal.World

/-! Clients of a server as JSON writes them, with how often and how patiently they ask. Any value can stand for a
number here; what is no number does no harm before it is reckoned with. -/

namespace Proofreader.Rehearsal

/-- How often to ask, and how long to wait in between. -/
structure Policy where
  /-- At least one, of any kind of number. -/
  attempts : Json
  backoff : Backoff Quantity

namespace Policy

def fields : List String := ["max_attempts", "base_delay", "max_delay"]

def ofJson (v : Json) : Except Mishap Policy := do
  let told (key : String) (default : Json) : Json := (v.get? key).getD default
  let attempts := told "max_attempts" (.int 3)
  let first := told "base_delay" (.float 0.5)
  let longest := told "max_delay" (.float 10.0)
  match v.entries.find? fun m => !fields.contains m.1 with
  | some m => throw (.wrongType ("there is no field " ++ quoted m.1))
  | none =>
    let n ← attempts.toQuantity
    let spans := first.toQuantity >>= fun x => longest.toQuantity.map fun _ => x
    return ⟨if n.less (.whole 1) then .int 1 else attempts,
      .ofAttempts n.floor spans (longest.quantity?.getD Time.zero)⟩

/-- Two to a power that need not be whole. -/
def powerOfTwo (x : Float) : Except Mishap Float :=
  let y := Float.pow 2.0 x
  if y.isInf && !x.isInf then .error .tooLarge else .ok y

/-- The span after an attempt, whatever kind of number counts it. -/
def delay (p : Policy) (attempt : Json) : Except Mishap Quantity := do
  match ← attempt.toQuantity with
  | .whole n => p.backoff.delay n
  | .real x =>
    let first ← p.backoff.first
    let factor ← powerOfTwo (x - 1.0)
    let first ← Json.toFloat (.ofQuantity first)
    return Time.lesser (.real (first * factor)) p.backoff.longest

end Policy

structure Caller where
  policy : Policy
  timeout : Json
  client : Client Quantity

namespace Caller

def create (url : String) (timeout : Json) (policy : Policy) : Caller :=
  ⟨policy, timeout, .create url (timeout.quantity?.getD Time.zero) policy.backoff⟩

/-- Only a whole number of attempts can be made, and only a span that is a float can be waited for. -/
def check (c : Caller) (text : Text) (tag : String) (disabled : List String) (w : World) :
    Except Fault (List Finding) × World :=
  match c.policy.attempts.asInt?, c.timeout.toFloat with
  | none, _ => (.error (.mishap (.wrongType "attempts are counted in whole numbers")), w)
  | some _, .error m => (.error (.mishap m), w)
  | some _, .ok _ => c.client.check World.network text tag disabled w

def isReady (c : Caller) (w : World) : Except Mishap Bool × World :=
  match c.timeout.toQuantity >>= fun _ => (Json.ofQuantity c.client.probeRequest.timeout).toFloat with
  | .error m => (.error m, w)
  | .ok _ =>
    let (answers, w) := c.client.isReady World.network w
    (.ok answers, w)

end Caller

end Proofreader.Rehearsal
