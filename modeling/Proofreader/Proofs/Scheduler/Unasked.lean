import Mathlib.Tactic.Linarith
import Proofreader.Proofs.Scheduler.Recovery
import Proofreader.Proofs.Time

/-! What a scheduler goes through while nobody asks for a run: it hears edits, it is polled, and its runs end. A scheduler
with a thread goes through nothing else, and neither does one that makes its runs on the spot, where an edit may come
during a run. -/

namespace Proofreader

/-- What happens to a scheduler that nobody asks for a run. -/
inductive Beat (τ : Type) where
  | edit (now : τ)
  /-- A poll, and whether it begins a run. -/
  | poll (now : τ) (begins : Bool)
  /-- The end of a run is handled. -/
  | finish (now : τ)
deriving DecidableEq

namespace Beat

variable {τ : Type}

def time : Beat τ → τ
  | edit now => now
  | poll now _ => now
  | finish now => now

def edit? : Beat τ → Option τ
  | edit now => some now
  | _ => none

def begins : Beat τ → Bool
  | poll _ begins => begins
  | _ => false

/-- What can be seen of it. -/
def seen : Beat τ → List (Happening τ)
  | edit now => [.heard .edited now]
  | poll _ begins => if begins then [.began] else []
  | finish now => [.heard .finished now]

/-- Only polls begin runs. -/
theorem exists_of_begins {x : Beat τ} (h : x.begins = true) : ∃ now, x = poll now true := by
  cases x with
  | edit now => cases h
  | finish now => cases h
  | poll now begins => exact ⟨now, congrArg _ h⟩

end Beat

namespace Scheduler

variable {τ : Type} [Time τ] {s : Scheduler τ} {d : τ} {log : List (Beat τ)}

/-- What a scheduler can come to from the start, with what has happened on the way, first one first. -/
inductive Unasked (d : τ) : List (Beat τ) → Scheduler τ → Prop
  | create : Unasked d [] (create (some d))
  | edit {log : List (Beat τ)} {s : Scheduler τ} : Unasked d log s → ∀ now,
      Unasked d (log ++ [.edit now]) (s.handle .edited now).1
  | poll {log : List (Beat τ)} {s : Scheduler τ} : Unasked d log s → ∀ now,
      Unasked d (log ++ [.poll now (s.poll now).2]) (s.poll now).1
  | finish {log : List (Beat τ)} {s : Scheduler τ} : Unasked d log s → s.phase = .checking → ∀ now,
      Unasked d (log ++ [.finish now]) (s.handle .finished now).1

/-- An edit during a run leaves it in progress. -/
theorem handle_edited_checking (h : s.phase = .checking) (now : τ) : (s.handle .edited now).1.phase = .checking := by
  cases hd : s.debounce <;> simp [handle, h, remember, Event.isRequest, hd]

end Scheduler

namespace Threaded

variable {τ : Type} [Time τ] {d : τ} {log : List (Happening τ)} {t : Threaded τ}

/-- A scheduler with a thread that hears no request goes through edits, polls and ends of runs. -/
theorem History.unasked (h : History (some d) log t) (hnone : ∀ e now, .heard e now ∈ log → e.isRequest = false) :
    ∃ beats, Scheduler.Unasked d beats t.scheduler ∧ beats.flatMap Beat.seen = log := by
  induction h with
  | start clock => exact ⟨[], .create, rfl⟩
  | @step log seen t u h hs ih =>
    obtain ⟨beats, hbeats, hseen⟩ := ih fun e now hm => hnone e now (List.mem_append_left _ hm)
    have hsnoc : ∀ x, (beats ++ [x]).flatMap Beat.seen = log ++ x.seen := fun x => by
      rw [List.flatMap_append, hseen, List.flatMap_singleton]
    cases hs with
    | wait now => exact ⟨beats, hbeats, by rw [hseen, List.append_nil]⟩
    | submit he =>
      rw [submit, if_pos h.coherent.started]
      exact ⟨beats, hbeats, by rw [hseen, List.append_nil]⟩
    | endRun hheld =>
      rw [endRun_scheduler]
      exact ⟨beats, hbeats, by rw [hseen, List.append_nil]⟩
    | poll => exact ⟨_, hbeats.poll t.clock, hsnoc _⟩
    | @handle e r hq =>
      rw [next_event hq]
      cases e with
      | edited =>
        refine ⟨_, hbeats.edit t.clock, ?_⟩
        rw [hsnoc, Beat.seen, Scheduler.beginnings, Scheduler.handle_edited_begins, if_neg Bool.false_ne_true]
      | finished => exact ⟨_, hbeats.finish (h.coherent.checking hq) t.clock, hsnoc _⟩
      | opened | saved | asked =>
        have hrequest := hnone _ t.clock (List.mem_append_right _ List.mem_cons_self)
        cases hrequest

end Threaded

/-- It takes no time back, and the only events are edits, which come as they happen. -/
def Incident.Calm : Incident ℚ → Prop
  | .wait span => 0 ≤ span
  | .call e at? => e = .edited ∧ at? = none
  | .raise _ => True

namespace Inline

variable {d : ℚ} {log : List (Beat ℚ)} {m m₁ : Inline ℚ}

/-- A scheduler that makes its runs on the spot has gone through `log`, in the order of time and up to now. -/
structure Lived (d : ℚ) (log : List (Beat ℚ)) (m : Inline ℚ) : Prop where
  unasked : Scheduler.Unasked d log m.scheduler
  ordered : log.Pairwise (·.time ≤ ·.time)
  past : ∀ x ∈ log, x.time ≤ m.clock
  calm : ∀ run ∈ m.script, ∀ i ∈ run.incidents, i.Calm

theorem lived_create {script : List (Run ℚ)} (h : ∀ run ∈ script, ∀ i ∈ run.incidents, i.Calm) (d clock : ℚ) :
    Lived d [] (create (some d) clock script) :=
  ⟨.create, .nil, nofun, h⟩

namespace Lived

theorem snoc (h : Lived d log m) {x : Beat ℚ} (hx : x.time = m.clock) {s : Scheduler ℚ}
    (hs : Scheduler.Unasked d (log ++ [x]) s) : Lived d (log ++ [x]) { m with scheduler := s } where
  unasked := hs
  ordered := by
    rw [List.pairwise_append]
    refine ⟨h.ordered, List.pairwise_singleton _ _, fun y hy z hz => ?_⟩
    rw [List.mem_singleton.1 hz, hx]
    exact h.past y hy
  past := by
    intro y hy
    rcases List.mem_append.1 hy with hy | hy
    · exact h.past y hy
    · rw [List.mem_singleton.1 hy, hx]
  calm := h.calm

theorem wait (h : Lived d log m) {span : ℚ} (hspan : 0 ≤ span) : Lived d log { m with clock := Time.add m.clock span } where
  unasked := h.unasked
  ordered := h.ordered
  past := by
    intro x hx
    change x.time ≤ m.clock + span
    exact (h.past x hx).trans (le_add_of_nonneg_right hspan)
  calm := h.calm

theorem edit (h : Lived d log m) :
    Lived d (log ++ [.edit m.clock]) { m with scheduler := (m.scheduler.handle .edited m.clock).1 } :=
  h.snoc rfl (h.unasked.edit m.clock)

theorem drop (h : Lived d log m) : Lived d log { m with script := m.script.drop 1 } :=
  ⟨h.unasked, h.ordered, h.past, fun run hrun => h.calm run (List.mem_of_mem_drop hrun)⟩

/-- Showing a result leaves all this as it is. -/
theorem of_past {room : Nat} (h : Lived d log (m.during room)) (hpast : Past room m m₁) : Lived d log m₁ :=
  ⟨hpast.scheduler ▸ h.unasked, h.ordered, hpast.clock ▸ h.past, hpast.script ▸ h.calm⟩

end Lived

variable (make : Inline ℚ → Except Mishap Unit × Inline ℚ)

theorem hear_edited (m : Inline ℚ) (now : ℚ) :
    hear make .edited now m = (.ok (), { m with scheduler := (m.scheduler.handle .edited now).1 }) := by
  rw [hear, if_neg (by decide), take, Scheduler.handle_edited_begins, if_neg Bool.false_ne_true]

/-- During a run edits are heard, and the run stays in progress. -/
theorem Lived.live_calm (h : Lived d log m) (hphase : m.scheduler.phase = .checking) {incidents : List (Incident ℚ)}
    (hcalm : ∀ i ∈ incidents, i.Calm) : ∃ more, Lived d (log ++ more) (live make incidents m).2 ∧
      (live make incidents m).2.scheduler.phase = .checking := by
  induction incidents generalizing log m with
  | nil => exact ⟨[], by rwa [List.append_nil], hphase⟩
  | cons i r ih =>
    have hi := hcalm i List.mem_cons_self
    have hr : ∀ j ∈ r, j.Calm := fun j hj => hcalm j (List.mem_cons_of_mem i hj)
    cases i with
    | wait span => exact ih (h.wait hi) hphase hr
    | raise e => exact ⟨[], by rwa [List.append_nil], hphase⟩
    | call e at? =>
      obtain ⟨rfl, rfl⟩ := hi
      rw [live, Option.getD_none, hear_edited]
      obtain ⟨more, hmore, hphase'⟩ := ih h.edit (Scheduler.handle_edited_checking hphase _) hr
      rw [List.append_assoc] at hmore
      exact ⟨_, hmore, hphase'⟩

/-- A poll; a run that is due then is made at once. -/
theorem Lived.take_poll (h : Lived d log m)
    (hmake : ∀ {log : List (Beat ℚ)} {m : Inline ℚ}, Lived d log m → m.scheduler.phase = .checking →
      ∃ more, Lived d (log ++ more) (make m).2) :
    ∃ more, Lived d (log ++ .poll m.clock (m.scheduler.poll m.clock).2 :: more)
      (take make m (m.scheduler.poll m.clock)).2 := by
  have hpoll := h.snoc rfl (h.unasked.poll m.clock)
  unfold take
  by_cases hdue : m.scheduler.isDue m.clock = true
  · have hbegin : m.scheduler.poll m.clock = (m.scheduler.begin, true) := if_pos hdue
    rw [hbegin] at hpoll ⊢
    obtain ⟨more, hmore⟩ := hmake hpoll rfl
    rw [List.append_assoc] at hmore
    exact ⟨more, hmore⟩
  · have hstill : m.scheduler.poll m.clock = (m.scheduler, false) := if_neg hdue
    rw [hstill] at hpoll ⊢
    exact ⟨[], hpoll⟩

/-- The end of a run, when it is handled: a run that is due then begins at once. -/
theorem Lived.finish (h : Lived d log m) (hphase : m.scheduler.phase = .checking)
    (hmake : ∀ {log : List (Beat ℚ)} {m : Inline ℚ}, Lived d log m → m.scheduler.phase = .checking →
      ∃ more, Lived d (log ++ more) (make m).2) :
    ∃ more, Lived d (log ++ more) (Inline.finish make m.clock m).2 := by
  obtain ⟨more, hmore⟩ := (h.snoc rfl (h.unasked.finish hphase m.clock)).take_poll make hmake
  rw [List.append_assoc] at hmore
  exact ⟨_, hmore⟩

/-- Whatever a run does, and whatever follows from it, is a matter of edits, polls and ends of runs. -/
theorem Lived.execute (room : Nat) (h : Lived d log m) (hphase : m.scheduler.phase = .checking) :
    ∃ more, Lived d (log ++ more) (Inline.execute room m).2 := by
  induction room generalizing log m with
  | zero => exact ⟨[], by rwa [List.append_nil]⟩
  | succ room ih =>
    have hcalm : ∀ i ∈ (m.script.headD .plain).incidents, i.Calm := Run.next_of_forall nofun h.calm
    obtain ⟨more, hmore, hphase'⟩ := h.drop.live_calm (Inline.execute room) hphase hcalm
    change Lived d (log ++ more) (m.during room) at hmore
    obtain ⟨m₁, hpast, hfinish | ⟨-, -, e, -, hraised⟩⟩ := execute_cases room m
    · rw [hfinish]
      obtain ⟨rest, hrest⟩ := (hmore.of_past hpast).finish _ (hpast.scheduler ▸ hphase') ih
      rw [List.append_assoc] at hrest
      exact ⟨_, hrest⟩
    · rw [hraised]
      exact ⟨_, hmore.of_past hpast⟩

/-- An edit between runs is heard, and begins none. -/
theorem Lived.handled (h : Lived d log m) : Lived d (log ++ [.edit m.clock]) (m.handle .edited none).2 := by
  rw [handle, Option.getD_none, hear_edited]
  exact h.edit

/-- A poll, with whatever follows from it. What it answers is whether it has begun a run, unless it raises what those raise who
are shown the result. -/
theorem Lived.polled (h : Lived d log m) : ∃ begins more,
    Lived d (log ++ .poll m.clock begins :: more) (m.poll none).2 ∧ ∀ answer, (m.poll none).1 = .ok answer → answer = begins := by
  obtain ⟨more, hmore⟩ := h.take_poll (Inline.execute room) (Lived.execute room)
  refine ⟨_, more, hmore, fun answer hanswer => ?_⟩
  rw [poll, Option.getD_none] at hanswer
  dsimp only at hanswer
  cases htaken : (take (Inline.execute room) m (m.scheduler.poll m.clock)).1 with
  | error e =>
    rw [htaken] at hanswer
    cases hanswer
  | ok =>
    rw [htaken] at hanswer
    exact (Except.ok.inj hanswer).symm

end Inline

end Proofreader
