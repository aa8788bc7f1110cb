import Proofreader.Scheduler.Inline

/-! A scheduler with a thread of its own, which takes events from a queue, and a worker, which makes the runs
one after the other and reports the end of each through the same queue. -/

namespace Proofreader

inductive Message where
  | event (e : Event)
  | stop
deriving DecidableEq

structure Threaded (τ : Type) where
  scheduler : Scheduler τ
  clock : τ
  /-- The thread is there. -/
  started : Bool
  queue : List Message
  /-- How many runs the worker has not ended yet. -/
  held : Nat
  /-- How many runs the worker has ended. -/
  ended : Nat

namespace Threaded

variable {τ : Type} [Time τ]

def create (debounce : Option τ) (clock : τ) : Threaded τ := ⟨.create debounce, clock, false, [], 0, 0⟩

def start (t : Threaded τ) : Threaded τ := { t with started := true }

/-- Takes the next state of the scheduler; a run that begins is handed to the worker. -/
def take (t : Threaded τ) (next : Scheduler τ × Bool) : Threaded τ :=
  { t with scheduler := next.1, held := if next.2 then t.held + 1 else t.held }

/-- The worker ends a run. -/
def endRun (t : Threaded τ) : Threaded τ :=
  match t.held with
  | 0 => t
  | n + 1 => { t with held := n, ended := t.ended + 1, queue := t.queue ++ [.event .finished] }

def endRuns : Nat → Threaded τ → Threaded τ
  | 0, t => t
  | n + 1, t => endRuns n t.endRun

/-- The thread takes one message. At a stop it ends, after the worker has ended its runs; what is queued by
then stays in the queue. -/
def next (t : Threaded τ) : Threaded τ :=
  match t.queue with
  | [] => t.take (t.scheduler.poll t.clock)
  | .event e :: r => { t with queue := r }.take (t.scheduler.handle e t.clock)
  | .stop :: r => { endRuns t.held { t with queue := r } with started := false }

/-- Queues an event; without the thread it is handled on the spot. -/
def submit (t : Threaded τ) (e : Event) : Threaded τ :=
  if t.started then { t with queue := t.queue ++ [.event e] }
  else
    let m := (Inline.handle ⟨t.scheduler, t.clock, [], []⟩ e none).2
    { t with scheduler := m.scheduler, ended := t.ended + m.results.length }

def askToStop (t : Threaded τ) : Threaded τ :=
  if t.started then { t with queue := t.queue ++ [.stop] } else t

/-- One thing that happens by itself up to a time: a message is taken, or else a run that is due begins, or else a run
ends, or else the deadline comes. -/
def advance (limit : τ) (t : Threaded τ) : Threaded τ :=
  if !t.queue.isEmpty || t.scheduler.isDue t.clock then t.next
  else if 0 < t.held then t.endRun
  else
    match t.scheduler.deadline with
    | some deadline =>
      if Time.atMost deadline limit then { t with clock := Time.greater t.clock deadline }.next else t
    | none => t

def advances (limit : τ) : Nat → Threaded τ → Threaded τ
  | 0, t => t
  | n + 1, t => advances limit n (t.advance limit)

/-- All that happens until nothing is left to do up to a time. Each event starts one run at most, which ends, is reported
and may let another one become due. -/
def settle (limit : τ) (t : Threaded τ) : Threaded τ := advances limit (8 * (t.queue.length + t.held + 1)) t

end Threaded

end Proofreader
