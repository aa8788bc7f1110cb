import Mathlib.Logic.Relation
import Proofreader.Proofs.Scheduler.Recovery

/-! What a scheduler can do after it has been stopped, and whether it can be started again. A stop waits for the worker, but the
thread is gone by then: where a run was in progress, its end stays in the queue, and requests that are made on the spot wait
for it until the scheduler is started again. -/

namespace Proofreader

open Relation

variable {τ : Type} {debounce : Option τ} {log : List (Happening τ)}

namespace Scheduler

variable {s : Scheduler τ} {n : Nat}

/-- After `n` runs another one has begun or will begin. -/
structure Follows (n : Nat) (s : Scheduler τ) : Prop where
  reached : n ≤ s.runs
  begun : n < s.runs ∨ s.Owes

theorem Follows.remember (h : Follows n s) (e : Event) : Follows n (s.remember e) := by
  refine ⟨h.reached.trans_eq (s.remember_runs e).symm, h.begun.imp (fun hlt => hlt.trans_eq (s.remember_runs e).symm) ?_⟩
  rintro (hpending | ⟨hphase, hmind⟩)
  · exact .inl ((s.remember_phase e).trans hpending)
  · refine .inr ⟨(s.remember_phase e).trans hphase, ?_⟩
    unfold Scheduler.remember
    split
    · exact .inl rfl
    · split
      · exact .inr rfl
      · exact hmind

theorem Follows.mono {n' : Nat} (h : Follows n s) (hn : n' ≤ n) : Follows n' s :=
  ⟨hn.trans h.reached, h.begun.imp_left hn.trans_lt⟩

theorem follows_begin (h : n ≤ s.runs) : Follows n s.begin := ⟨Nat.le_succ_of_le h, .inl (Nat.lt_succ_of_le h)⟩

/-- When all is quiet, it has begun. -/
theorem Follows.lt (h : Follows n s) (hs : s.Consistent) (hquiet : s.quiet = true) : n < s.runs := by
  have hidle := hs.quiet.1 hquiet
  rcases h.begun with hlt | hpending | ⟨hchecking, -⟩
  · exact hlt
  · rw [hidle] at hpending
    cases hpending
  · rw [hidle] at hchecking
    cases hchecking

variable [Time τ]

theorem Follows.complete (h : Follows n s) (hphase : s.phase = .checking) (now : τ) : Follows n (s.complete now) := by
  refine ⟨h.reached.trans_eq (s.complete_runs now).symm, h.begun.imp (fun hlt => hlt.trans_eq (s.complete_runs now).symm) ?_⟩
  rintro (hpending | ⟨-, hmind⟩)
  · rw [hphase] at hpending
    cases hpending
  · refine .inl ?_
    unfold Scheduler.complete
    by_cases hasked : s.askedSince = true
    · rw [if_pos hasked]
      rfl
    · rw [if_neg hasked, if_pos (hmind.resolve_left hasked)]
      rfl

theorem Follows.handle (h : Follows n s) {e : Event} (he : e = .finished → s.phase = .checking) (now : τ) :
    Follows n (s.handle e now).1 := by
  obtain ⟨rfl, heq⟩ | ⟨-, -, heq⟩ | ⟨-, -, heq⟩ | ⟨-, -, ⟨-, heq⟩ | ⟨d, -, heq⟩⟩ := s.handle_cases e now <;> rw [heq]
  · exact h.complete (he rfl) now
  · exact h.remember e
  · exact follows_begin h.reached
  · exact h
  · exact ⟨h.reached, .inr (.inl rfl)⟩

theorem Follows.poll (h : Follows n s) (now : τ) : Follows n (s.poll now).1 := by
  unfold Scheduler.poll
  split
  · exact follows_begin h.reached
  · exact h

/-- A request is followed by a run. -/
theorem follows_handle {e : Event} (he : e.isRequest = true) (now : τ) : Follows s.runs (s.handle e now).1 := by
  have hfinished : e ≠ .finished := by
    rintro rfl
    cases he
  by_cases hphase : s.phase = .checking
  · rw [handle_checking hphase hfinished]
    refine ⟨(s.remember_runs e).ge, .inr (.inr ⟨(s.remember_phase e).trans hphase, .inl ?_⟩)⟩
    rw [Scheduler.remember, if_pos he]
  · rw [handle_request hphase he]
    exact follows_begin (Nat.le_refl _)

end Scheduler

namespace Message

theorem count_stop_event (e : Event) (r : List Message) : (event e :: r).count stop = r.count stop := by
  have hne : event e ≠ stop := nofun
  exact List.count_cons_of_ne hne

theorem count_finished_stop (r : List Message) : (stop :: r).count (event .finished) = r.count (event .finished) := by
  have hne : stop ≠ event .finished := nofun
  exact List.count_cons_of_ne hne

end Message

namespace Inline

variable [Time τ]

/-- A plain run for which nothing was kept in mind ends, and no other one follows. -/
theorem execute_plain (level : Nat) {s : Scheduler τ} (hs : s.askedSince = false ∧ s.editedSince = false) (clock : τ) :
    execute (level + 1) ⟨s, clock, [], []⟩ = (.ok (), ⟨s.complete clock, clock, [], [clock]⟩) := by
  have hpoll : (s.complete clock).poll clock = (s.complete clock, false) := by
    simp [Scheduler.poll, Scheduler.isDue, Scheduler.complete, Scheduler.rest, hs]
  change finish (execute level) clock ⟨s, clock, [], [clock]⟩ = _
  rw [finish, hpoll, take, if_neg Bool.false_ne_true]

theorem handle_plain {s : Scheduler τ} (hs : s.Consistent) {e : Event} (he : e ≠ .finished) (clock : τ) :
    handle ⟨s, clock, [], []⟩ e none =
      (.ok (), if (s.handle e clock).2 then ⟨(s.handle e clock).1.complete clock, clock, [], [clock]⟩
        else ⟨(s.handle e clock).1, clock, [], []⟩) := by
  rw [handle, hear, if_neg he, take, Option.getD_none]
  obtain ⟨hfinished, -⟩ | ⟨-, -, heq⟩ | ⟨-, hphase, heq⟩ | ⟨-, -, ⟨-, heq⟩ | ⟨d, -, heq⟩⟩ := s.handle_cases e clock
  · exact absurd hfinished he
  · rw [heq]
    rfl
  · rw [heq]
    -- one level less than there is room for
    exact execute_plain 324 (s := s.begin) (hs.unremembered hphase) clock
  · rw [heq]
    rfl
  · rw [heq]
    rfl

end Inline

namespace Threaded

variable [Time τ] {t u : Threaded τ}

/-- What a scheduler does by itself: it waits, its thread takes messages and polls, and its worker ends runs. -/
inductive Own : Threaded τ → Threaded τ → Prop
  | wait (t : Threaded τ) (now : τ) : Own t { t with clock := now }
  | next {t : Threaded τ} : t.started = true → t.queue ≠ [] → Own t t.next
  | poll {t : Threaded τ} : t.started = true → Own t (t.take (t.scheduler.poll t.clock))
  | endRun {t : Threaded τ} : 0 < t.held → Own t t.endRun

/-- What a scheduler can come to that is started, stopped and told things in any order. Nobody asks it to stop while a stop is
under way. -/
inductive Life (debounce : Option τ) : Threaded τ → Prop
  | create (clock : τ) : Life debounce (create debounce clock)
  | start {t : Threaded τ} : Life debounce t → Life debounce t.start
  | submit {t : Threaded τ} {e : Event} : Life debounce t → e ≠ .finished → Life debounce (t.submit e)
  | askToStop {t : Threaded τ} : Life debounce t → .stop ∉ t.queue → Life debounce t.askToStop
  | own {t u : Threaded τ} : Life debounce t → Own t u → Life debounce u

/-- Each run in flight is with the worker or its end is queued, and a scheduler that has been stopped has no run with its
worker. -/
structure Sound (debounce : Option τ) (t : Threaded τ) : Prop where
  coherent : ∃ log, t.scheduler.Coherent debounce log ∧
    (t.held : Int) + t.queue.count (.event .finished) = Happening.inFlight log
  stops : t.queue.count .stop ≤ t.started.toNat
  held : t.started = false → t.held = 0

omit [Time τ] in
/-- A worker that ends its runs reports each of them. -/
theorem endRuns_eq (t : Threaded τ) : endRuns t.held t = { t with
    held := 0
    ended := t.ended + t.held
    queue := t.queue ++ List.replicate t.held (.event .finished) } := by
  generalize hn : t.held = n
  induction n generalizing t with
  | zero =>
    obtain ⟨s, clock, started, queue, held, ended⟩ := t
    obtain rfl : held = 0 := hn
    rw [endRuns, List.replicate_zero, List.append_nil, Nat.add_zero]
  | succ n ih =>
    rw [endRuns, endRun_held hn, ih _ rfl, List.append_assoc, List.singleton_append, ← List.replicate_succ,
      Nat.add_right_comm, Nat.add_assoc]

theorem next_stop {r : List Message} (hq : t.queue = .stop :: r) : t.next = { t with
    started := false
    held := 0
    ended := t.ended + t.held
    queue := r ++ List.replicate t.held (.event .finished) } := by
  have hends := endRuns_eq { t with queue := r }
  rw [next, hq]
  dsimp only at hends ⊢
  rw [hends]

namespace Sound

omit [Time τ] in
theorem of_coherent (h : t.Coherent debounce log) (hstops : t.queue.count .stop ≤ 1) : Sound debounce t where
  coherent := ⟨log, h.scheduler, h.reported⟩
  stops := by rwa [h.started]
  held hstopped := by
    rw [h.started] at hstopped
    cases hstopped

omit [Time τ] in
theorem exists_coherent (h : Sound debounce t) (hstarted : t.started = true) : ∃ log, t.Coherent debounce log := by
  obtain ⟨log, hscheduler, hreported⟩ := h.coherent
  exact ⟨log, hscheduler, hstarted, hreported⟩

omit [Time τ] in
theorem create (debounce : Option τ) (clock : τ) : Sound debounce (create debounce clock) :=
  ⟨⟨[], Scheduler.coherent_create debounce, rfl⟩, Nat.le_refl _, fun _ => rfl⟩

omit [Time τ] in
theorem start (h : Sound debounce t) : Sound debounce t.start :=
  ⟨h.coherent, h.stops.trans (Bool.toNat_le _), nofun⟩

omit [Time τ] in
theorem stops_le (h : Sound debounce t) : t.queue.count .stop ≤ 1 := h.stops.trans (Bool.toNat_le _)

omit [Time τ] in
theorem askToStop (h : Sound debounce t) (hnone : .stop ∉ t.queue) : Sound debounce t.askToStop := by
  unfold Threaded.askToStop
  split
  · next hstarted =>
    obtain ⟨log, hscheduler, hreported⟩ := h.coherent
    refine ⟨⟨log, hscheduler, ?_⟩, ?_, h.held⟩
    · simpa [List.count_append] using hreported
    · simp [List.count_append, List.count_eq_zero_of_not_mem hnone, hstarted]
  · exact h

/-- The thread takes the stop. -/
theorem stop (h : Sound debounce t) (hstarted : t.started = true) {r : List Message} (hq : t.queue = .stop :: r) :
    Sound debounce t.next := by
  obtain ⟨log, hc⟩ := h.exists_coherent hstarted
  have hreported := hc.reported
  have hstops := h.stops_le
  rw [hq, List.count_cons_self] at hstops
  rw [hq, Message.count_finished_stop] at hreported
  rw [next_stop hq]
  refine ⟨⟨log, hc.scheduler, ?_⟩, ?_, fun _ => rfl⟩
  · rw [List.count_append, List.count_replicate_self]
    dsimp only
    omega
  · rw [List.count_append, List.count_replicate]
    simpa using hstops

theorem own (h : Sound debounce t) (hown : Own t u) : Sound debounce u := by
  cases hown with
  | wait now => exact ⟨h.coherent, h.stops, h.held⟩
  | poll hstarted =>
    obtain ⟨log, hc⟩ := h.exists_coherent hstarted
    exact of_coherent hc.poll h.stops_le
  | endRun hheld =>
    have hstarted : t.started = true := by
      by_contra hstopped
      rw [h.held (Bool.eq_false_iff.2 hstopped)] at hheld
      exact Nat.lt_irrefl 0 hheld
    obtain ⟨log, hc⟩ := h.exists_coherent hstarted
    refine of_coherent (hc.step (.endRun hheld)) ?_
    obtain ⟨n, hn⟩ := Nat.exists_eq_add_one_of_ne_zero (Nat.ne_of_gt hheld)
    rw [endRun_held hn, List.count_append]
    exact h.stops_le
  | next hstarted hqueue =>
    obtain ⟨x, r, hq⟩ := List.exists_cons_of_ne_nil hqueue
    cases x with
    | stop => exact h.stop hstarted hq
    | event e =>
      obtain ⟨log, hc⟩ := h.exists_coherent hstarted
      have hstops := h.stops_le
      refine of_coherent (hc.step (.handle hq)) ?_
      rw [hq, Message.count_stop_event] at hstops
      rwa [next_event hq]

/-- Without the thread an event is handled on the spot, with the run that it begins. -/
theorem submit_stopped (h : Sound debounce t) (hstopped : t.started = false) {e : Event} (he : e ≠ .finished) :
    t.submit e = if (t.scheduler.handle e t.clock).2 then
        { t with scheduler := (t.scheduler.handle e t.clock).1.complete t.clock, ended := t.ended + 1 }
      else { t with scheduler := (t.scheduler.handle e t.clock).1 } := by
  obtain ⟨log, hscheduler, -⟩ := h.coherent
  rw [submit, if_neg (Bool.eq_false_iff.1 hstopped), Inline.handle_plain hscheduler.consistent he]
  split <;> rfl

theorem submit (h : Sound debounce t) {e : Event} (he : e ≠ .finished) : Sound debounce (t.submit e) := by
  cases hstarted : t.started with
  | true =>
    obtain ⟨log, hc⟩ := h.exists_coherent hstarted
    refine of_coherent (hc.step (.submit t he)) ?_
    rw [Threaded.submit, if_pos hstarted]
    simpa [List.count_append] using h.stops_le
  | false =>
    obtain ⟨log, hc, hreported⟩ := h.coherent
    have hheard := hc.handle (fun hfinished => absurd hfinished he) t.clock
    have hseen := Scheduler.inFlight_beginnings (log ++ [.heard e t.clock]) (t.scheduler.handle e t.clock)
    rw [Happening.inFlight_heard, if_neg he, List.append_assoc, List.singleton_append, ← hreported] at hseen
    rw [h.submit_stopped hstarted he]
    split
    · next hbegins =>
      refine ⟨⟨_, hheard.complete (Scheduler.handle_begins hbegins) t.clock, ?_⟩, h.stops, h.held⟩
      rw [Happening.inFlight_heard, hseen, if_pos hbegins, if_pos rfl]
      dsimp only
      omega
    · next hbegins =>
      refine ⟨⟨_, hheard, ?_⟩, h.stops, h.held⟩
      rw [hseen, if_neg hbegins, Int.sub_zero, Int.add_zero]

omit [Time τ] in
/-- While it is stopped, a run is in progress just when its end is queued. -/
theorem checking_iff (h : Sound debounce t) (hstopped : t.started = false) :
    t.scheduler.phase = .checking ↔ .event .finished ∈ t.queue := by
  obtain ⟨log, hc, hreported⟩ := h.coherent
  rw [h.held hstopped, hc.inFlight] at hreported
  rw [← List.count_pos_iff]
  by_cases hphase : t.scheduler.phase = .checking
  · rw [if_pos hphase] at hreported
    exact ⟨fun _ => by omega, fun _ => hphase⟩
  · rw [if_neg hphase] at hreported
    exact ⟨fun hchecking => absurd hchecking hphase, fun hpos => by omega⟩

omit [Time τ] in
theorem consistent (h : Sound debounce t) : t.scheduler.Consistent := by
  obtain ⟨log, hc, -⟩ := h.coherent
  exact hc.consistent

theorem owns (h : Sound debounce t) (hown : ReflTransGen Own t u) : Sound debounce u := by
  induction hown with
  | refl => exact h
  | tail _ hstep ih => exact ih.own hstep

/-- A run that has begun or will begin is not forgotten. -/
theorem follows_own (h : Sound debounce t) (hown : Own t u) {n : Nat} (hn : t.scheduler.Follows n) :
    u.scheduler.Follows n := by
  cases hown with
  | wait now => exact hn
  | poll hstarted => exact hn.poll t.clock
  | endRun hheld => rwa [endRun_scheduler]
  | next hstarted hqueue =>
    obtain ⟨x, r, hq⟩ := List.exists_cons_of_ne_nil hqueue
    cases x with
    | stop => rwa [next_stop hq]
    | event e =>
      obtain ⟨log, hc⟩ := h.exists_coherent hstarted
      rw [next_event hq]
      exact hn.handle (fun he => hc.checking (he ▸ hq)) t.clock

theorem follows_owns (h : Sound debounce t) (hown : ReflTransGen Own t u) {n : Nat} (hn : t.scheduler.Follows n) :
    u.scheduler.Follows n := by
  induction hown with
  | refl => exact hn
  | tail hsteps hstep ih => exact (h.owns hsteps).follows_own hstep ih

/-- A request that the thread takes is followed by a run before all is quiet again. -/
theorem runs_lt (h : Sound debounce t) (hstarted : t.started = true) {e : Event} (he : e.isRequest = true) {r : List Message}
    (hq : t.queue = .event e :: r) (hown : ReflTransGen Own t.next u) (hquiet : u.scheduler.quiet = true) :
    t.scheduler.runs < u.scheduler.runs := by
  have hnext := h.own (.next hstarted (hq ▸ List.cons_ne_nil _ _))
  have hfollows : t.next.scheduler.Follows t.scheduler.runs := by
    rw [next_event hq]
    exact Scheduler.follows_handle he t.clock
  exact (hnext.follows_owns hown hfollows).lt (hnext.owns hown).consistent hquiet

end Sound

/-! ### Coming to rest -/

/-- The thread is there, and nobody has asked it to stop. -/
structure Running (t : Threaded τ) : Prop where
  started : t.started = true
  stop : .stop ∉ t.queue

omit [Time τ] in
theorem running_endRun (h : Running t) : Running t.endRun := by
  unfold endRun
  split
  · exact h
  · refine ⟨h.started, ?_⟩
    rw [List.mem_append, List.mem_singleton, not_or]
    exact ⟨h.stop, nofun⟩

theorem Running.own (h : Running t) (hown : Own t u) : Running u := by
  cases hown with
  | wait now => exact ⟨h.started, h.stop⟩
  | poll _ => exact ⟨h.started, h.stop⟩
  | endRun _ => exact running_endRun h
  | next _ hqueue =>
    obtain ⟨x, r, hq⟩ := List.exists_cons_of_ne_nil hqueue
    have hstop := h.stop
    rw [hq, List.mem_cons, not_or] at hstop
    cases x with
    | stop => exact absurd rfl hstop.1
    | event e =>
      rw [next_event hq]
      exact ⟨h.started, hstop.2⟩

theorem Running.owns (h : Running t) (hown : ReflTransGen Own t u) : Running u := by
  induction hown with
  | refl => exact h
  | tail _ hstep ih => exact ih.own hstep

/-- The thread can take all that is queued, up to a request. -/
theorem exists_emptied (h : Running t) {queue : List Message} {e : Event} (he : e.isRequest = true)
    (hq : t.queue = queue ++ [.event e]) :
    ∃ u, ReflTransGen Own t u ∧ u.queue = [] ∧ u.scheduler.Follows t.scheduler.runs := by
  induction queue generalizing t with
  | nil =>
    rw [List.nil_append] at hq
    refine ⟨t.next, .single (.next h.started (hq ▸ List.cons_ne_nil _ _)), ?_, ?_⟩
    · rw [next_event hq, take]
    · rw [next_event hq]
      exact Scheduler.follows_handle he t.clock
  | cons x r ih =>
    rw [List.cons_append] at hq
    have hown : Own t t.next := .next h.started (hq ▸ List.cons_ne_nil _ _)
    cases x with
    | stop => exact absurd (hq ▸ List.mem_cons_self) h.stop
    | event e' =>
      have hnext := next_event hq
      obtain ⟨u, hsteps, hqueue, hfollows⟩ := ih (h.own hown) (by rw [hnext, take])
      have hruns : t.scheduler.runs ≤ t.next.scheduler.runs := by
        rw [hnext, take, Scheduler.handle_runs]
        exact Nat.le_add_right _ _
      exact ⟨u, .head hown hsteps, hqueue, hfollows.mono hruns⟩

/-- It waits for messages, and has none. -/
structure Emptied (debounce : Option τ) (t : Threaded τ) : Prop where
  sound : Sound debounce t
  started : t.started = true
  queue : t.queue = []

namespace Emptied

/-- The worker ends its run, and the thread handles the end. -/
theorem exists_completed (h : Emptied debounce t) (hphase : t.scheduler.phase = .checking) :
    ∃ u, ReflTransGen Own t u ∧ Emptied debounce u ∧ u.scheduler = t.scheduler.complete t.clock := by
  obtain ⟨log, hc⟩ := h.sound.exists_coherent h.started
  have hheld : t.held = 0 + 1 := by
    have hreported := hc.reported
    rw [h.queue, hc.scheduler.inFlight, if_pos hphase, List.count_nil] at hreported
    omega
  have hend : Own t t.endRun := .endRun (hheld ▸ Nat.one_pos)
  have hended := endRun_held hheld
  have hq : t.endRun.queue = [.event .finished] := by rw [hended, h.queue, List.nil_append]
  have hstarted : t.endRun.started = true := by rw [hended, h.started]
  have hnext : Own t.endRun t.endRun.next := .next hstarted (hq ▸ List.cons_ne_nil _ _)
  refine ⟨t.endRun.next, .tail (.single hend) hnext, ⟨(h.sound.own hend).own hnext, ?_, ?_⟩, ?_⟩
  · rw [next_event hq, take, hstarted]
  · rw [next_event hq, take]
  · rw [next_event hq, take, hended]
    rfl

/-- A run that is pending begins at its deadline. -/
theorem exists_begun (hrefl : ∀ x : τ, Time.atMost x x = true) (h : Emptied debounce t) (hphase : t.scheduler.phase = .pending) :
    ∃ u, ReflTransGen Own t u ∧ Emptied debounce u ∧ u.scheduler = t.scheduler.begin := by
  obtain ⟨deadline, hdeadline⟩ := Option.isSome_iff_exists.1 (h.sound.consistent.deadline.2 hphase)
  have hpoll : t.scheduler.poll deadline = (t.scheduler.begin, true) := by
    simp [Scheduler.poll, Scheduler.isDue, hphase, hdeadline, hrefl]
  have hwait : Own t { t with clock := deadline } := .wait t deadline
  have hbegin : Own { t with clock := deadline } ({ t with clock := deadline }.take (t.scheduler.poll deadline)) :=
    .poll h.started
  refine ⟨_, .tail (.single hwait) hbegin, ⟨(h.sound.own hwait).own hbegin, h.started, h.queue⟩, ?_⟩
  rw [hpoll, take]

/-- A run for which nothing is kept in mind is the last one. -/
theorem exists_quiet_of_fresh (h : Emptied debounce t) (hphase : t.scheduler.phase = .checking)
    (hfresh : t.scheduler.askedSince = false ∧ t.scheduler.editedSince = false) :
    ∃ u, ReflTransGen Own t u ∧ u.queue = [] ∧ u.scheduler.quiet = true := by
  obtain ⟨u, hown, hu, hscheduler⟩ := h.exists_completed hphase
  refine ⟨u, hown, hu.queue, ?_⟩
  rw [hscheduler]
  simp [Scheduler.complete, Scheduler.rest, hfresh]

theorem exists_quiet_of_pending (hrefl : ∀ x : τ, Time.atMost x x = true) (h : Emptied debounce t)
    (hphase : t.scheduler.phase = .pending) : ∃ u, ReflTransGen Own t u ∧ u.queue = [] ∧ u.scheduler.quiet = true := by
  have hfresh := h.sound.consistent.unremembered (hphase ▸ Phase.noConfusion)
  obtain ⟨u, hown, hu, hscheduler⟩ := h.exists_begun hrefl hphase
  obtain ⟨v, hown', hv⟩ := hu.exists_quiet_of_fresh (by rw [hscheduler]; rfl) (by rw [hscheduler]; exact hfresh)
  exact ⟨v, hown.trans hown', hv⟩

theorem exists_quiet (hrefl : ∀ x : τ, Time.atMost x x = true) (h : Emptied debounce t) :
    ∃ u, ReflTransGen Own t u ∧ u.queue = [] ∧ u.scheduler.quiet = true := by
  have hidle : ∀ {t : Threaded τ}, Emptied debounce t → t.scheduler.phase ≠ .checking →
      ∃ u, ReflTransGen Own t u ∧ u.queue = [] ∧ u.scheduler.quiet = true := by
    intro t h hphase
    cases hp : t.scheduler.phase with
    | idle => exact ⟨t, .refl, h.queue, h.sound.consistent.quiet.2 hp⟩
    | pending => exact h.exists_quiet_of_pending hrefl hp
    | checking => exact absurd hp hphase
  by_cases hphase : t.scheduler.phase = .checking
  · obtain ⟨u, hown, hu, hscheduler⟩ := h.exists_completed hphase
    obtain ⟨v, hown', hv⟩ := hidle hu (hscheduler ▸ t.scheduler.complete_phase t.clock)
    exact ⟨v, hown.trans hown', hv⟩
  · exact hidle h hphase

end Emptied

theorem Life.sound (h : Life debounce t) : Sound debounce t := by
  induction h with
  | create clock => exact .create debounce clock
  | start _ ih => exact ih.start
  | submit _ he ih => exact ih.submit he
  | askToStop _ hnone ih => exact ih.askToStop hnone
  | own _ hown ih => exact ih.own hown

/-- After a stop no run is with the worker, and the scheduler can be started again: it can come to rest then, and every request
that it takes is followed by a run. Without being started it begins a run for each request and rests after it, if no run was
in progress when the thread took the stop; otherwise the end of that run stays in the queue, and requests wait for it. -/
theorem usable_of_stopped (hrefl : ∀ x : τ, Time.atMost x x = true) (h : Life debounce t) :
    (∀ r, t.started = true → t.queue = .stop :: r → t.next.started = false ∧ t.next.scheduler = t.scheduler) ∧
    (t.started = false → t.held = 0 ∧ (t.scheduler.phase = .checking ↔ .event .finished ∈ t.queue) ∧
      ∀ e, e.isRequest = true →
        (t.scheduler.phase ≠ .checking → (t.submit e).scheduler.runs = t.scheduler.runs + 1 ∧
          (t.submit e).ended = t.ended + 1 ∧ (t.submit e).scheduler.quiet = true) ∧
        (t.scheduler.phase = .checking → (t.submit e).scheduler.runs = t.scheduler.runs ∧
          (t.submit e).ended = t.ended ∧ (t.submit e).scheduler.phase = .checking) ∧
        (∃ u, ReflTransGen Own (t.start.submit e) u ∧ u.queue = [] ∧ u.scheduler.quiet = true ∧
          t.scheduler.runs < u.scheduler.runs) ∧
        ∀ u r, ReflTransGen Own (t.start.submit e) u → u.queue = .event e :: r →
          ∀ v, ReflTransGen Own u.next v → v.scheduler.quiet = true → u.scheduler.runs < v.scheduler.runs) := by
  refine ⟨fun r _ hq => ?_, fun hstopped => ⟨h.sound.held hstopped, h.sound.checking_iff hstopped, fun e he => ?_⟩⟩
  · rw [next_stop hq]
    exact ⟨rfl, rfl⟩
  have hfinished : e ≠ .finished := by
    rintro rfl
    cases he
  have hsubmit := h.sound.submit_stopped hstopped hfinished
  have hqueue : (t.start.submit e).queue = t.queue ++ [.event e] := rfl
  have hsound : Sound debounce (t.start.submit e) := h.sound.start.submit hfinished
  have hrunning : Running (t.start.submit e) := by
    refine ⟨rfl, ?_⟩
    have hstops := h.sound.stops
    rw [hstopped, Bool.toNat_false, Nat.le_zero, List.count_eq_zero] at hstops
    rw [hqueue, List.mem_append, List.mem_singleton, not_or]
    exact ⟨hstops, nofun⟩
  refine ⟨fun hphase => ?_, fun hphase => ?_, ?_, fun u r hown hq v hown' hquiet => ?_⟩
  · have hfresh := h.sound.consistent.unremembered hphase
    rw [hsubmit, Scheduler.handle_request hphase he, if_pos rfl]
    refine ⟨Scheduler.complete_runs _ _, rfl, ?_⟩
    simp [Scheduler.complete, Scheduler.begin, Scheduler.rest, hfresh]
  · rw [hsubmit, Scheduler.handle_checking hphase hfinished, if_neg Bool.false_ne_true]
    exact ⟨t.scheduler.remember_runs e, rfl, (t.scheduler.remember_phase e).trans hphase⟩
  · obtain ⟨u, hown, hempty, hfollows⟩ := exists_emptied hrunning he hqueue
    have hu : Emptied debounce u := ⟨hsound.owns hown, (hrunning.owns hown).started, hempty⟩
    obtain ⟨v, hown', hv, hquiet⟩ := hu.exists_quiet hrefl
    have hruns := (hu.sound.follows_owns hown' hfollows).lt (hu.sound.owns hown').consistent hquiet
    exact ⟨v, hown.trans hown', hv, hquiet, hruns⟩
  · exact (hsound.owns hown).runs_lt (hrunning.owns hown).started he hq hown' hquiet

/-- A scheduler that is stopped while it checks a file. -/
def interrupted : Threaded Nat := (((create none 0).start.submit .opened).next.askToStop).next

theorem life_interrupted : Life none interrupted := by
  have hopened : Life none ((create none (0 : Nat)).start.submit .opened).next :=
    .own ((Life.create 0).start.submit (by decide)) (.next rfl (by decide))
  exact .own (hopened.askToStop (by decide)) (.next rfl (by decide))

/-- A scheduler that is stopped before it has anything to do. -/
def unused : Threaded Nat := (create none 0).start.askToStop.next

theorem life_unused : Life none unused := .own ((Life.create 0).start.askToStop (by decide)) (.next rfl (by decide))

theorem usable_of_stopped_interrupted :
    (interrupted.started = false ∧ interrupted.held = 0 ∧ .event .finished ∈ interrupted.queue ∧
      interrupted.scheduler.runs = 1 ∧
      ∃ u, ReflTransGen Own (interrupted.start.submit .asked) u ∧ u.scheduler.quiet = true ∧ 1 < u.scheduler.runs) ∧
    (unused.started = false ∧ (unused.submit .asked).scheduler.runs = 1 ∧ (unused.submit .asked).scheduler.quiet = true) := by
  have hrefl : ∀ x : Nat, Time.atMost x x = true := by simp [Time.atMost]
  obtain ⟨-, hinterrupted⟩ := usable_of_stopped hrefl life_interrupted
  obtain ⟨hheld, hchecking, hrequests⟩ := hinterrupted rfl
  obtain ⟨-, -, ⟨u, hown, -, hquiet, hruns⟩, -⟩ := hrequests .asked rfl
  obtain ⟨-, hunused⟩ := usable_of_stopped hrefl life_unused
  obtain ⟨hruns', -, hquiet'⟩ := ((hunused rfl).2.2 .asked rfl).1 (by decide)
  exact ⟨⟨rfl, hheld, hchecking.1 rfl, rfl, u, hown, hquiet, hruns⟩, rfl, hruns', hquiet'⟩

/-- It waits for the end of a run that has ended. -/
theorem submit_interrupted : Life none interrupted ∧ interrupted.started = false ∧ interrupted.held = 0 ∧
    interrupted.ended = 1 ∧ interrupted.scheduler.phase = .checking ∧
    (interrupted.submit .asked).scheduler.runs = interrupted.scheduler.runs ∧
    (interrupted.submit .asked).scheduler.quiet = false :=
  ⟨life_interrupted, rfl, rfl, rfl, rfl, rfl, rfl⟩

end Threaded

end Proofreader
