import Proofreader.Scheduler.Basic

/-! A scheduler that makes its runs on the spot, within the call that starts them. What the runs do is known
beforehand: time passes in them, and they may call the scheduler themselves. -/

namespace Proofreader

/-- What happens during a run. -/
inductive Incident (τ : Type) where
  | wait (span : τ)
  /-- An event, at its own time or now. -/
  | call (e : Event) (at? : Option τ)
  | raise (m : Mishap)

structure Run (τ : Type) where
  incidents : List (Incident τ)
  /-- The check raises in the end. -/
  fails : Bool
  /-- What the one who is shown the result raises. -/
  refusal : Option Mishap

def Run.plain {τ : Type} : Run τ := ⟨[], false, none⟩

structure Inline (τ : Type) where
  scheduler : Scheduler τ
  clock : τ
  /-- The runs to come; all runs after them are plain. -/
  script : List (Run τ)
  /-- When the successful runs began, the last one first. -/
  results : List τ

namespace Inline

variable {τ : Type} [Time τ]

def create (debounce : Option τ) (clock : τ) (script : List (Run τ)) : Inline τ :=
  ⟨.create debounce, clock, script, []⟩

/-- How many runs can be made one within the other. Each takes three frames of a stack of a thousand; the rest is left
to the caller, and to a run that fails and tells of it. -/
def room : Nat := 325

def tooDeep : Mishap := .tooDeep "maximum recursion depth exceeded"

section Moves

-- how a run that has begun is made, with what follows from it
variable (make : Inline τ → Except Mishap Unit × Inline τ)

/-- Takes the next state of the scheduler; a run that begins is made at once. -/
def take (m : Inline τ) (next : Scheduler τ × Bool) : Except Mishap Unit × Inline τ :=
  if next.2 then make { m with scheduler := next.1 } else (.ok (), { m with scheduler := next.1 })

/-- The end of a run; another one may be due already. -/
def finish (now : τ) (m : Inline τ) : Except Mishap Unit × Inline τ :=
  take make m ((m.scheduler.complete now).poll now)

/-- An event with all that follows from it. -/
def hear (e : Event) (now : τ) (m : Inline τ) : Except Mishap Unit × Inline τ :=
  if e = .finished then finish make now m else take make m (m.scheduler.handle e now)

/-- Lives through the incidents of a run, up to the first that raises. -/
def live : List (Incident τ) → Inline τ → Except Mishap Unit × Inline τ
  | [], m => (.ok (), m)
  | .wait span :: r, m => live r { m with clock := Time.add m.clock span }
  | .raise e :: _, m => (.error e, m)
  | .call e at? :: r, m =>
    match hear make e (at?.getD m.clock) m with
    | (.error e, m) => (.error e, m)
    | (.ok (), m) => live r m

end Moves

/-- Makes the run that has begun, and what follows from it. A check that raises ends its run; whoever is shown the result and
raises leaves it in progress. -/
def execute : (room : Nat) → Inline τ → Except Mishap Unit × Inline τ
  | 0, m => (.error tooDeep, m)
  | room + 1, m =>
    let run := m.script.headD .plain
    match live (execute room) run.incidents { m with script := m.script.drop 1 } with
    | (.error _, m₁) => finish (execute room) m₁.clock m₁
    | (.ok (), m₁) =>
      if run.fails then finish (execute room) m₁.clock m₁
      else
        let shown := { m₁ with results := m.clock :: m₁.results }
        match run.refusal with
        | some e => (.error e, shown)
        | none => finish (execute room) shown.clock shown

def handle (m : Inline τ) (e : Event) (at? : Option τ) : Except Mishap Unit × Inline τ :=
  hear (execute room) e (at?.getD m.clock) m

/-- Makes a run that is due; whether there was one. -/
def poll (m : Inline τ) (at? : Option τ) : Except Mishap Bool × Inline τ :=
  let next := m.scheduler.poll (at?.getD m.clock)
  let (r, m) := take (execute room) m next
  (r.map fun _ => next.2, m)

end Inline

end Proofreader
