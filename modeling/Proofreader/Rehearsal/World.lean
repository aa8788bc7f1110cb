import Proofreader.Rehearsal.Checker
import Proofreader.Service.Backend

/-! A world for rehearsals: replies, processes and tools follow a script, and sleeping takes no time but is
written down. -/

namespace Proofreader.Rehearsal

/-- How a process will behave. -/
structure Plan where
  /-- The launch is refused. -/
  refused : Bool
  exited : Bool
  /-- After how many looks at the running process it is seen to have exited. -/
  exitAfter : Option Int
  /-- Ends by force only. -/
  stubborn : Bool

def Plan.good : Plan := ⟨false, false, none, false⟩

structure Process where
  plan : Plan
  exited : Bool
  looks : Int

structure World where
  checker : Checker
  /-- Replies to every request in order; without such a list the checker answers. -/
  replies : Option (List Reply)
  /-- Replies to the question whether the server is ready. -/
  ready : List Reply
  plans : List Plan
  processes : Array Process
  /-- How the next tools fail to be created, if they do. -/
  toolTroubles : List (Option ToolError)
  requests : Array (Request Quantity)
  sleeps : Array Quantity
  /-- What was done to processes. -/
  log : Array String
  /-- The languages that tools were created for. -/
  tools : Array String
  closed : Bool

namespace World

def quiet : World := ⟨.quiet, none, [], [], #[], [], #[], #[], #[], #[], false⟩

def plainReply : Reply := .answered 200 (Json.obj [("matches", .arr [])]).compact

def send (r : Request Quantity) (w : World) : Reply × World :=
  let w := { w with requests := w.requests.push r }
  match w.replies, r.method with
  | some [], _ => (plainReply, w)
  | some (a :: rest), _ => (a, { w with replies := some rest })
  | none, .post => let (a, c) := w.checker.answer r.form; (a, { w with checker := c })
  | none, .get =>
    match w.ready with
    | [] => (plainReply, w)
    | a :: rest => (a, { w with ready := rest })

def network : Network World Quantity where
  send := send
  sleep d w := { w with sleeps := w.sleeps.push d }
  hangUp w := { w with closed := true }

def note (w : World) (line : String) : World := { w with log := w.log.push line }

def setProcess (w : World) (i : Nat) (f : Process → Process) : World :=
  { w with processes := w.processes.modify i f }

def launch (command : List String) (w : World) : Option Nat × World :=
  let w := w.note (joinWith " " command)
  let plan := w.plans.headD .good
  let w := { w with plans := w.plans.drop 1 }
  if plan.refused then (none, w)
  else (some w.processes.size, { w with processes := w.processes.push ⟨plan, plan.exited, 0⟩ })

def Process.look (p : Process) : Process :=
  if p.exited then p
  else { p with looks := p.looks + 1, exited := p.plan.exitAfter.any (· < p.looks + 1) }

def hasExited (w : World) (i : Nat) : Bool := w.processes[i]?.all (·.exited)

def isAlive (i : Nat) (w : World) : Bool × World :=
  let w := w.setProcess i Process.look
  (!w.hasExited i, w)

def terminate (i : Nat) (w : World) : World :=
  (w.note "terminate").setProcess i fun p => { p with exited := p.exited || !p.plan.stubborn }

def endNow (w : World) (i : Nat) : World := w.setProcess i fun p => { p with exited := true }

def kill (i : Nat) (w : World) : World := ((w.note "kill").endNow i).note "wait None"

/-- The last process exits by itself. -/
def crash (w : World) : World := w.endNow (w.processes.size - 1)

def host : Host World Quantity where
  launch := launch
  isAlive := isAlive
  terminate := terminate
  awaitEnd i w := (w.hasExited i, w.note "wait 5")
  kill := kill
  now w := w.sleeps.foldl Time.add Time.zero
  network := network

def toolbox : Toolbox World where
  create language w :=
    let rest := w.toolTroubles.drop 1
    let made := { w with tools := w.tools.push language, toolTroubles := rest }
    match w.toolTroubles.head? with
    | some (some e) => (.error e, made)
    | _ => (.ok (), made)
  check text tag disabled w :=
    let (r, c) := w.checker.check text tag disabled
    (r, { w with checker := c })

def ground : Ground World Quantity := ⟨host, toolbox⟩

/-- More questions than the script can leave without a good answer. -/
def probes (w : World) : Nat := w.ready.length + 2

end World

end Proofreader.Rehearsal
