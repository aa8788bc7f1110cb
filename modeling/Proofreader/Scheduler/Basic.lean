import Proofreader.Fault
import Proofreader.Time

/-! When a document is checked again. A request starts a run at once, an edit starts one when no other has
followed for a while. What comes during a run is remembered until it has finished: runs never overlap. -/

namespace Proofreader

/-- What a scheduler is told. -/
inductive Event where
  | opened
  | saved
  /-- Someone asks for a check. -/
  | asked
  | edited
  /-- A run has ended. -/
  | finished
deriving DecidableEq, Inhabited

namespace Event

def all : List Event := [opened, saved, asked, edited, finished]

def name : Event → String
  | opened => "open"
  | saved => "save"
  | asked => "check"
  | edited => "change"
  | finished => "finished"

def ofJson (v : Json) : Except Mishap Event :=
  match all.find? fun e => textOf v = some e.name with
  | some e => .ok e
  | none => .error (.badValue (v.literal ++ " is not a valid Event"))
where
  textOf : Json → Option String
    | .str s => some s
    | _ => none

/-- Whether a run is due at once. -/
def isRequest : Event → Bool
  | opened | saved | asked => true
  | edited | finished => false

end Event

inductive Phase where
  | idle
  /-- A run is due at the deadline. -/
  | pending
  | checking
deriving DecidableEq, Inhabited

def Phase.name : Phase → String
  | idle => "idle"
  | pending => "pending"
  | checking => "checking"

structure Scheduler (τ : Type) where
  /-- How long edits must rest; without it they start no run. -/
  debounce : Option τ
  phase : Phase
  deadline : Option τ
  /-- How many runs have begun. -/
  runs : Nat
  /-- An edit came during the run. -/
  editedSince : Bool
  /-- A request came during the run. -/
  askedSince : Bool
  /-- What those see who wait for the end of all work. -/
  quiet : Bool

namespace Scheduler

variable {τ : Type} [Time τ]

def create (debounce : Option τ) : Scheduler τ := ⟨debounce, .idle, none, 0, false, false, true⟩

def await (s : Scheduler τ) (deadline : τ) : Scheduler τ :=
  { s with phase := .pending, deadline := some deadline, quiet := false }

def begin (s : Scheduler τ) : Scheduler τ :=
  { s with phase := .checking, deadline := none, runs := s.runs + 1, quiet := false }

/-- Keeps in mind what comes during a run. -/
def remember (s : Scheduler τ) (e : Event) : Scheduler τ :=
  if e.isRequest then { s with askedSince := true }
  else if s.debounce.isSome then { s with editedSince := true }
  else s

def rest (s : Scheduler τ) : Scheduler τ := { s with phase := .idle, quiet := true }

/-- The end of a run. A request that came during it is due now, an edit after the usual while. -/
def complete (s : Scheduler τ) (now : τ) : Scheduler τ :=
  let next :=
    if s.askedSince then s.await now
    else if s.editedSince then s.await (Time.add now (s.debounce.getD Time.zero))
    else s.rest
  { next with editedSince := false, askedSince := false }

def isDue (s : Scheduler τ) (now : τ) : Bool :=
  s.phase = .pending && s.deadline.any fun deadline => Time.atMost deadline now

/-- The effect of an event, and whether a run begins. -/
def handle (s : Scheduler τ) (e : Event) (now : τ) : Scheduler τ × Bool :=
  if e = .finished then (s.complete now, false)
  else if s.phase = .checking then (s.remember e, false)
  else if e.isRequest then (s.begin, true)
  else
    match s.debounce with
    | some d => (s.await (Time.add now d), false)
    | none => (s, false)

/-- The effect of time alone, and whether a run begins. -/
def poll (s : Scheduler τ) (now : τ) : Scheduler τ × Bool :=
  if s.isDue now then (s.begin, true) else (s, false)

end Scheduler

end Proofreader
