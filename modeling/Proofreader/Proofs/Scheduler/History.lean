import Mathlib.Algebra.Group.Nat.Defs
import Mathlib.Data.List.Induction
import Mathlib.Tactic.Common
import Proofreader.Scheduler.Threaded

/-! What a scheduler with a thread can go through: events are queued and handled, the thread polls, the worker ends its
runs and reports each of them once, in any order and at any times. Runs never overlap, and a scheduler that is idle owes
nobody a run: one has begun since each event that calls for one. -/

namespace Proofreader

/-- What can be seen of a scheduler. -/
inductive Happening (τ : Type) where
  /-- The thread handles an event at a time. -/
  | heard (e : Event) (now : τ)
  | began

namespace Happening

variable {τ : Type}

def isStart : Happening τ → Bool
  | began => true
  | heard _ _ => false

/-- The end of a run is handled. -/
def isEnd : Happening τ → Bool
  | heard e _ => e = .finished
  | began => false

def isRequest : Happening τ → Bool
  | heard e _ => e.isRequest
  | began => false

/-- Whether a run should follow: for a request, and for an edit where edits are waited for. -/
def callsForRun (debounce : Option τ) : Happening τ → Bool
  | heard e _ => e.isRequest || (e = .edited && debounce.isSome)
  | began => false

/-- What has happened since the last run began. -/
def sinceRun (log : List (Happening τ)) : List (Happening τ) :=
  log.foldl (fun since x => if x.isStart then [] else since ++ [x]) []

/-- Runs that have begun and whose end has not been handled. -/
def inFlight (log : List (Happening τ)) : Int := log.countP isStart - log.countP isEnd

@[simp] theorem sinceRun_began (log : List (Happening τ)) : sinceRun (log ++ [began]) = [] := by simp [sinceRun, isStart]

@[simp] theorem sinceRun_heard (log : List (Happening τ)) (e : Event) (now : τ) :
    sinceRun (log ++ [heard e now]) = sinceRun log ++ [heard e now] := by simp [sinceRun, isStart]

theorem inFlight_began (log : List (Happening τ)) : inFlight (log ++ [began]) = inFlight log + 1 := by
  simp [inFlight, isStart, isEnd]
  omega

theorem inFlight_heard (log : List (Happening τ)) (e : Event) (now : τ) :
    inFlight (log ++ [heard e now]) = inFlight log - if e = .finished then 1 else 0 := by
  by_cases he : e = .finished
  · simp [inFlight, isStart, isEnd, he]
    omega
  · simp [inFlight, isStart, isEnd, he]

/-- What no run has followed has happened since the last one began. -/
theorem mem_sinceRun {before after : List (Happening τ)} {e : Event} {now : τ} (h : .began ∉ after) :
    heard e now ∈ sinceRun (before ++ heard e now :: after) := by
  induction after using List.reverseRecOn with
  | nil => simp
  | append_singleton after y ih =>
    rw [List.mem_append, not_or, List.mem_singleton] at h
    cases y with
    | began => exact absurd rfl h.2
    | heard e now =>
      rw [← List.cons_append, ← List.append_assoc, sinceRun_heard]
      exact List.mem_append_left _ (ih h.1)

end Happening

open Happening

namespace Scheduler

variable {τ : Type} {s : Scheduler τ} {debounce : Option τ} {log : List (Happening τ)} {e : Event}

/-- The fields of a scheduler agree with its phase. -/
structure Consistent (s : Scheduler τ) : Prop where
  deadline : s.deadline.isSome = true ↔ s.phase = .pending
  remembered : s.askedSince = true ∨ s.editedSince = true → s.phase = .checking
  quiet : s.quiet = true ↔ s.phase = .idle

/-- A run will begin without further events. -/
def Owes (s : Scheduler τ) : Prop :=
  s.phase = .pending ∨ s.phase = .checking ∧ (s.askedSince = true ∨ s.editedSince = true)

/-- The scheduler stands where what was seen of it leads to. -/
structure Coherent (debounce : Option τ) (log : List (Happening τ)) (s : Scheduler τ) : Prop where
  setting : s.debounce = debounce
  consistent : s.Consistent
  inFlight : inFlight log = if s.phase = .checking then 1 else 0
  owes : ∀ x ∈ sinceRun log, x.callsForRun debounce = true → s.Owes

theorem coherent_create (debounce : Option τ) : (create debounce).Coherent debounce [] where
  setting := rfl
  consistent := ⟨by simp [create], by simp [create], by simp [create]⟩
  inFlight := rfl
  owes := by simp [sinceRun]

theorem Consistent.unremembered (h : s.Consistent) (hphase : s.phase ≠ .checking) :
    s.askedSince = false ∧ s.editedSince = false :=
  ⟨Bool.eq_false_iff.2 fun ha => hphase (h.remembered (.inl ha)),
    Bool.eq_false_iff.2 fun he => hphase (h.remembered (.inr he))⟩

theorem coherent_begin (hsetting : s.debounce = debounce) (hlog : Happening.inFlight log = 0) :
    s.begin.Coherent debounce (log ++ [.began]) where
  setting := hsetting
  consistent := ⟨by simp [begin], fun _ => rfl, by simp [begin]⟩
  inFlight := by
    rw [inFlight_began, hlog]
    rfl
  owes := by simp

theorem Coherent.none_inFlight (h : s.Coherent debounce log) (hphase : s.phase ≠ .checking) :
    Happening.inFlight log = 0 := by
  rw [h.inFlight, if_neg hphase]

/-- An event in the log that is not the end of a run leaves the number of runs. -/
theorem Coherent.inFlight_heard (h : s.Coherent debounce log) (he : e ≠ .finished) (now : τ) :
    Happening.inFlight (log ++ [.heard e now]) = if s.phase = .checking then 1 else 0 := by
  rw [Happening.inFlight_heard, if_neg he, Int.sub_zero, h.inFlight]

theorem Coherent.await (h : s.Coherent debounce log) (hphase : s.phase ≠ .checking) (he : e ≠ .finished)
    (now deadline : τ) : (s.await deadline).Coherent debounce (log ++ [.heard e now]) where
  setting := h.setting
  consistent := by
    obtain ⟨hasked, hedited⟩ := h.consistent.unremembered hphase
    exact ⟨by simp [Scheduler.await], by simp [hasked, hedited, Scheduler.await], by simp [Scheduler.await]⟩
  inFlight := by
    rw [h.inFlight_heard he, if_neg hphase]
    rfl
  owes _ _ _ := .inl rfl

/-- An event that starts nothing and is not waited for calls for no run. -/
theorem Coherent.ignore (h : s.Coherent none log) (now : τ) : s.Coherent none (log ++ [.heard .edited now]) where
  setting := h.setting
  consistent := h.consistent
  inFlight := h.inFlight_heard (by decide) now
  owes := by
    intro x hx hcalls
    rw [sinceRun_heard, List.mem_append, List.mem_singleton] at hx
    rcases hx with hx | rfl
    · exact h.owes x hx hcalls
    · simp [callsForRun, Event.isRequest] at hcalls

/-- What calls for a run while one is in progress is kept in mind. -/
theorem Coherent.remember (h : s.Coherent debounce log) (hphase : s.phase = .checking) (he : e ≠ .finished) (now : τ) :
    (s.remember e).Coherent debounce (log ++ [.heard e now]) := by
  have hseen := h.inFlight_heard he now
  have hdeadline := h.consistent.deadline
  have hquiet := h.consistent.quiet
  unfold Scheduler.remember
  by_cases hrequest : e.isRequest = true
  · rw [if_pos hrequest]
    exact ⟨h.setting, ⟨hdeadline, fun _ => hphase, hquiet⟩, hseen, fun _ _ _ => .inr ⟨hphase, .inl rfl⟩⟩
  rw [if_neg hrequest]
  by_cases hsetting : s.debounce.isSome = true
  · rw [if_pos hsetting]
    exact ⟨h.setting, ⟨hdeadline, fun _ => hphase, hquiet⟩, hseen, fun _ _ _ => .inr ⟨hphase, .inr rfl⟩⟩
  rw [if_neg hsetting]
  refine ⟨h.setting, h.consistent, hseen, fun x hx hcalls => ?_⟩
  rw [sinceRun_heard, List.mem_append, List.mem_singleton] at hx
  rcases hx with hx | rfl
  · exact h.owes x hx hcalls
  · simp [callsForRun, hrequest, ← h.setting, hsetting] at hcalls

/-- What is seen of a step besides the event that it handles. -/
def beginnings (next : Scheduler τ × Bool) : List (Happening τ) := if next.2 then [.began] else []

theorem inFlight_beginnings (log : List (Happening τ)) (next : Scheduler τ × Bool) :
    Happening.inFlight (log ++ beginnings next) = Happening.inFlight log + if next.2 then 1 else 0 := by
  unfold beginnings
  split
  · exact inFlight_began log
  · simp

@[simp] theorem remember_phase (s : Scheduler τ) (e : Event) : (s.remember e).phase = s.phase := by
  unfold remember
  split
  · rfl
  · split <;> rfl

@[simp] theorem remember_runs (s : Scheduler τ) (e : Event) : (s.remember e).runs = s.runs := by
  unfold remember
  split
  · rfl
  · split <;> rfl

variable [Time τ]

/-- An edit never begins a run. -/
@[simp] theorem handle_edited_begins (s : Scheduler τ) (now : τ) : (s.handle .edited now).2 = false := by
  unfold handle
  by_cases hphase : s.phase = .checking
  · simp [hphase]
  · cases hd : s.debounce <;> simp [hphase, Event.isRequest]

/-- All that an event can do. -/
theorem handle_cases (s : Scheduler τ) (e : Event) (now : τ) :
    (e = .finished ∧ s.handle e now = (s.complete now, false)) ∨
    (e ≠ .finished ∧ s.phase = .checking ∧ s.handle e now = (s.remember e, false)) ∨
    (e.isRequest = true ∧ s.phase ≠ .checking ∧ s.handle e now = (s.begin, true)) ∨
    (e = .edited ∧ s.phase ≠ .checking ∧ ((s.debounce = none ∧ s.handle e now = (s, false)) ∨
      ∃ d, s.debounce = some d ∧ s.handle e now = (s.await (Time.add now d), false))) := by
  by_cases hfinished : e = .finished
  · exact .inl ⟨hfinished, by rw [handle, if_pos hfinished]⟩
  by_cases hphase : s.phase = .checking
  · exact .inr (.inl ⟨hfinished, hphase, by rw [handle, if_neg hfinished, if_pos hphase]⟩)
  by_cases hrequest : e.isRequest = true
  · exact .inr (.inr (.inl ⟨hrequest, hphase, by rw [handle, if_neg hfinished, if_neg hphase, if_pos hrequest]⟩))
  obtain rfl : e = .edited := by cases e <;> simp [Event.isRequest] at hfinished hrequest ⊢
  refine .inr (.inr (.inr ⟨rfl, hphase, ?_⟩))
  rw [handle, if_neg hfinished, if_neg hphase, if_neg hrequest]
  cases s.debounce with
  | none => exact .inl ⟨rfl, rfl⟩
  | some d => exact .inr ⟨d, rfl, rfl⟩

theorem complete_phase (s : Scheduler τ) (now : τ) : (s.complete now).phase ≠ .checking := by
  unfold complete
  split
  · exact Phase.noConfusion
  · split <;> exact Phase.noConfusion

@[simp] theorem complete_runs (s : Scheduler τ) (now : τ) : (s.complete now).runs = s.runs := by
  unfold complete
  split
  · rfl
  · split <;> rfl

theorem handle_checking (hphase : s.phase = .checking) (he : e ≠ .finished) (now : τ) :
    s.handle e now = (s.remember e, false) := by
  rw [handle, if_neg he, if_pos hphase]

theorem handle_request (hphase : s.phase ≠ .checking) (he : e.isRequest = true) (now : τ) :
    s.handle e now = (s.begin, true) := by
  obtain ⟨rfl, -⟩ | ⟨-, hchecking, -⟩ | ⟨-, -, h⟩ | ⟨rfl, -⟩ := s.handle_cases e now
  · cases he
  · exact absurd hchecking hphase
  · exact h
  · cases he

theorem handle_runs (s : Scheduler τ) (e : Event) (now : τ) :
    (s.handle e now).1.runs = s.runs + (s.handle e now).2.toNat := by
  obtain ⟨-, h⟩ | ⟨-, -, h⟩ | ⟨-, -, h⟩ | ⟨-, -, ⟨-, h⟩ | ⟨d, -, h⟩⟩ := s.handle_cases e now
  · rw [h]
    exact s.complete_runs now
  · rw [h]
    exact s.remember_runs e
  all_goals
    rw [h]
    rfl

theorem poll_runs (s : Scheduler τ) (now : τ) : (s.poll now).1.runs = s.runs + (s.poll now).2.toNat := by
  unfold poll
  split <;> rfl

/-- What happens while no run is in progress leaves none in progress, unless it begins one. -/
theorem handle_phase (hphase : s.phase ≠ .checking) {now : τ} (hbegins : (s.handle e now).2 = false) :
    (s.handle e now).1.phase ≠ .checking := by
  obtain ⟨-, h⟩ | ⟨-, hchecking, -⟩ | ⟨-, -, h⟩ | ⟨-, -, ⟨-, h⟩ | ⟨d, -, h⟩⟩ := s.handle_cases e now
  · rw [h]
    exact s.complete_phase now
  · exact absurd hchecking hphase
  · rw [h] at hbegins
    cases hbegins
  · rwa [h]
  · rw [h]
    exact Phase.noConfusion

theorem handle_begins {now : τ} (hbegins : (s.handle e now).2 = true) : (s.handle e now).1.phase = .checking := by
  obtain ⟨-, h⟩ | ⟨-, -, h⟩ | ⟨-, -, h⟩ | ⟨-, -, ⟨-, h⟩ | ⟨d, -, h⟩⟩ := s.handle_cases e now <;> rw [h] at hbegins ⊢
  all_goals first | rfl | cases hbegins

theorem poll_checking (hphase : s.phase = .checking) (now : τ) : s.poll now = (s, false) := by
  simp [poll, isDue, hphase]

theorem poll_begins {now : τ} (hbegins : (s.poll now).2 = true) : (s.poll now).1.phase = .checking := by
  unfold poll at hbegins ⊢
  split at hbegins
  · next hdue =>
    rw [if_pos hdue]
    rfl
  · cases hbegins

theorem poll_phase (hphase : s.phase ≠ .checking) {now : τ} (hbegins : (s.poll now).2 = false) :
    (s.poll now).1.phase ≠ .checking := by
  unfold poll at hbegins ⊢
  split at hbegins
  · cases hbegins
  · next hdue => rwa [if_neg hdue]

/-- After a run the scheduler rests, unless something was kept in mind. -/
theorem Coherent.complete (h : s.Coherent debounce log) (hphase : s.phase = .checking) (now : τ) :
    (s.complete now).Coherent debounce (log ++ [.heard .finished now]) := by
  have hseen : Happening.inFlight (log ++ [.heard .finished now]) = 0 := by
    rw [Happening.inFlight_heard, h.inFlight, if_pos hphase, if_pos rfl, Int.sub_self]
  have hdeadline : s.deadline = none := by
    rw [← Option.isNone_iff_eq_none, ← Option.not_isSome, Bool.not_eq_true', Bool.eq_false_iff]
    intro hsome
    have := h.consistent.deadline.1 hsome
    rw [hphase] at this
    cases this
  unfold Scheduler.complete
  by_cases hasked : s.askedSince = true
  · rw [if_pos hasked]
    exact ⟨h.setting, ⟨by simp [Scheduler.await], by simp, by simp [Scheduler.await]⟩, by simp [hseen, Scheduler.await],
      fun _ _ _ => .inl rfl⟩
  by_cases hedited : s.editedSince = true
  · rw [if_neg hasked, if_pos hedited]
    exact ⟨h.setting, ⟨by simp [Scheduler.await], by simp, by simp [Scheduler.await]⟩, by simp [hseen, Scheduler.await],
      fun _ _ _ => .inl rfl⟩
  rw [if_neg hasked, if_neg hedited]
  refine ⟨h.setting, ⟨by simp [rest, hdeadline], by simp, by simp [rest]⟩, by simp [hseen, rest], fun x hx hx' => ?_⟩
  rw [sinceRun_heard, List.mem_append, List.mem_singleton] at hx
  rcases hx with hx | rfl
  · rcases h.owes x hx hx' with hpending | ⟨-, hmind⟩
    · rw [hphase] at hpending
      cases hpending
    · exact absurd hmind (not_or.2 ⟨hasked, hedited⟩)
  · simp [callsForRun, Event.isRequest] at hx'

/-- The end of a run is only handled while one is in progress. -/
theorem Coherent.handle (h : s.Coherent debounce log) (he : e = .finished → s.phase = .checking) (now : τ) :
    (s.handle e now).1.Coherent debounce (log ++ .heard e now :: beginnings (s.handle e now)) := by
  obtain ⟨rfl, hhandle⟩ | ⟨hfinished, hphase, hhandle⟩ | ⟨hrequest, hphase, hhandle⟩ | ⟨rfl, hphase, hhandle⟩ :=
    s.handle_cases e now
  · rw [hhandle]
    exact h.complete (he rfl) now
  · rw [hhandle]
    exact h.remember hphase hfinished now
  · have hfinished : e ≠ .finished := by
      rintro rfl
      cases hrequest
    have hseen := h.inFlight_heard hfinished now
    rw [if_neg hphase] at hseen
    have hbegun := coherent_begin (s := s) h.setting hseen
    rw [List.append_assoc] at hbegun
    rwa [hhandle]
  · obtain ⟨hnone, hhandle⟩ | ⟨d, -, hhandle⟩ := hhandle
    · obtain rfl : debounce = none := h.setting.symm.trans hnone
      rw [hhandle]
      exact h.ignore now
    · rw [hhandle]
      exact h.await hphase (by decide) now _

theorem Coherent.poll (h : s.Coherent debounce log) (now : τ) :
    (s.poll now).1.Coherent debounce (log ++ beginnings (s.poll now)) := by
  unfold Scheduler.poll
  split
  · next hdue =>
    have hphase : s.phase ≠ .checking := by
      intro hphase
      simp [isDue, hphase] at hdue
    exact coherent_begin h.setting (h.none_inFlight hphase)
  · exact (List.append_nil log).symm ▸ h

end Scheduler

namespace Threaded

variable {τ : Type} {debounce : Option τ} {log seen : List (Happening τ)} {t u : Threaded τ}

/-- Every run in flight is with the worker, or its end is queued. -/
structure Coherent (debounce : Option τ) (log : List (Happening τ)) (t : Threaded τ) : Prop where
  scheduler : t.scheduler.Coherent debounce log
  started : t.started = true
  reported : (t.held : Int) + t.queue.count (.event .finished) = inFlight log

/-- An end that is queued is that of a run in progress. -/
theorem Coherent.checking (h : t.Coherent debounce log) {r : List Message} (hq : t.queue = .event .finished :: r) :
    t.scheduler.phase = .checking := by
  have hreported := h.reported
  rw [hq, List.count_cons_self, h.scheduler.inFlight] at hreported
  by_contra hphase
  rw [if_neg hphase] at hreported
  omega

/-- What the worker does is not seen before it is reported. -/
@[simp] theorem endRun_scheduler (t : Threaded τ) : t.endRun.scheduler = t.scheduler := by
  unfold endRun
  split <;> rfl

theorem endRun_held {n : Nat} (hn : t.held = n + 1) :
    t.endRun = { t with held := n, ended := t.ended + 1, queue := t.queue ++ [.event .finished] } := by
  rw [endRun, hn]

variable [Time τ]

/-- One thing that happens, and what is seen of it. The end of a run is reported by the worker only. -/
inductive Step : Threaded τ → List (Happening τ) → Threaded τ → Prop
  | wait (t : Threaded τ) (now : τ) : Step t [] { t with clock := now }
  | submit (t : Threaded τ) {e : Event} : e ≠ .finished → Step t [] (t.submit e)
  | handle {t : Threaded τ} {e : Event} {r : List Message} : t.queue = .event e :: r →
      Step t (.heard e t.clock :: Scheduler.beginnings (t.scheduler.handle e t.clock)) t.next
  | poll (t : Threaded τ) :
      Step t (Scheduler.beginnings (t.scheduler.poll t.clock)) (t.take (t.scheduler.poll t.clock))
  | endRun {t : Threaded τ} : 0 < t.held → Step t [] t.endRun

/-- What a started scheduler can come to, with what was seen on the way, first one first. -/
inductive History (debounce : Option τ) : List (Happening τ) → Threaded τ → Prop
  | start (clock : τ) : History debounce [] (create debounce clock).start
  | step {log seen : List (Happening τ)} {t u : Threaded τ} : History debounce log t → Step t seen u →
      History debounce (log ++ seen) u

theorem next_event {e : Event} {r : List Message} (hq : t.queue = .event e :: r) :
    t.next = { t with queue := r }.take (t.scheduler.handle e t.clock) := by
  rw [next, hq]

theorem Coherent.handle (h : t.Coherent debounce log) {e : Event} {r : List Message} (hq : t.queue = .event e :: r) :
    t.next.Coherent debounce (log ++ .heard e t.clock :: Scheduler.beginnings (t.scheduler.handle e t.clock)) := by
  have hreported := h.reported
  rw [next_event hq]
  refine ⟨h.scheduler.handle (fun he => h.checking (he ▸ hq)) _, h.started, ?_⟩
  rw [← List.singleton_append, ← List.append_assoc, Scheduler.inFlight_beginnings, inFlight_heard]
  rw [hq, List.count_cons] at hreported
  by_cases he : e = .finished
  · subst he
    simp only [take, Scheduler.handle, if_true, Bool.false_eq_true, if_false, beq_self_eq_true] at hreported ⊢
    omega
  · simp only [take, beq_iff_eq, Message.event.injEq, he, if_false] at hreported ⊢
    split <;> omega

theorem Coherent.poll (h : t.Coherent debounce log) :
    (t.take (t.scheduler.poll t.clock)).Coherent debounce (log ++ Scheduler.beginnings (t.scheduler.poll t.clock)) := by
  have hreported := h.reported
  refine ⟨h.scheduler.poll _, h.started, ?_⟩
  rw [Scheduler.inFlight_beginnings]
  simp only [take]
  split <;> omega

theorem Coherent.step (h : t.Coherent debounce log) (hs : t.Step seen u) : u.Coherent debounce (log ++ seen) := by
  cases hs with
  | wait now => exact (List.append_nil log).symm ▸ ⟨h.scheduler, h.started, h.reported⟩
  | @submit e he =>
    rw [submit, if_pos h.started, List.append_nil]
    refine ⟨h.scheduler, h.started, ?_⟩
    have hcount : [Message.event e].count (.event .finished) = 0 := by simp [he]
    rw [List.count_append, hcount]
    exact h.reported
  | handle hq => exact h.handle hq
  | poll => exact h.poll
  | endRun hheld =>
    obtain ⟨n, hn⟩ := Nat.exists_eq_add_one_of_ne_zero (Nat.ne_of_gt hheld)
    have hreported := h.reported
    rw [endRun_held hn, List.append_nil]
    refine ⟨h.scheduler, h.started, ?_⟩
    rw [List.count_append, List.count_singleton_self]
    dsimp only
    omega

theorem History.coherent (h : History debounce log t) : t.Coherent debounce log := by
  induction h with
  | start clock => exact ⟨Scheduler.coherent_create debounce, rfl, rfl⟩
  | step _ hs ih => exact ih.step hs

/-- Runs never overlap, and no request is lost. Whatever is queued and handled when, one run is in flight while the
scheduler is checking and none otherwise; it has a deadline while it is pending, keeps events in mind while it is checking
and is quiet while it is idle. Then a run has begun at or after each event that called for one. -/
theorem history_coherent (h : History debounce log t) :
    (inFlight log = 0 ∨ inFlight log = 1) ∧ (inFlight log = 1 ↔ t.scheduler.phase = .checking) ∧
    (t.held : Int) + t.queue.count (.event .finished) = inFlight log ∧
    (t.scheduler.deadline.isSome = true ↔ t.scheduler.phase = .pending) ∧
    (t.scheduler.askedSince = true ∨ t.scheduler.editedSince = true → t.scheduler.phase = .checking) ∧
    (t.scheduler.quiet = true ↔ t.scheduler.phase = .idle) ∧
    (t.scheduler.phase = .idle → ∀ before after e now, log = before ++ .heard e now :: after →
      e.isRequest = true ∨ e = .edited ∧ debounce.isSome = true → .began ∈ after) := by
  have hc := h.coherent
  have hconsistent := hc.scheduler.consistent
  refine ⟨?_, ?_, hc.reported, hconsistent.deadline, hconsistent.remembered, hconsistent.quiet, ?_⟩
  · rw [hc.scheduler.inFlight]
    split
    · exact .inr rfl
    · exact .inl rfl
  · rw [hc.scheduler.inFlight]
    split
    · next hphase => exact ⟨fun _ => hphase, fun _ => rfl⟩
    · next hphase => exact ⟨nofun, fun h => absurd h hphase⟩
  · intro hidle before after e now hlog hcalls
    by_contra hnone
    have hcalls' : callsForRun debounce (.heard e now) = true := by simpa [callsForRun] using hcalls
    rcases hc.scheduler.owes _ (hlog ▸ mem_sinceRun hnone) hcalls' with hpending | ⟨hchecking, -⟩
    · rw [hidle] at hpending
      cases hpending
    · rw [hidle] at hchecking
      cases hchecking

end Threaded

/-- Whole quarters of a second. -/
instance : Time Nat where
  add x y := x + y
  less x y := decide (x < y)
  quarters n := n
  scale
    | x, .ofNat n => .ok (x * 2 ^ n)
    | x, .negSucc n => .ok (x / 2 ^ (n + 1))

namespace Threaded

/-- An edit comes while a saved file is checked, and rests for half a second after that. -/
def edited : Threaded Nat :=
  let saved := ((create (some 2) 0).start.submit .saved).next
  let awaiting := (saved.submit .edited).next.endRun.next
  let due := { awaiting with clock := 2 }
  (due.take (due.scheduler.poll due.clock)).endRun.next

def editedLog : List (Happening Nat) :=
  [.heard .saved 0, .began, .heard .edited 0, .heard .finished 0, .began, .heard .finished 2]

theorem history_edited : History (some 2) editedLog edited := by
  have hstart : History (some 2) [] (create (some (2 : Nat)) 0).start := .start 0
  have hsaved := (hstart.step (.submit _ (e := .saved) nofun)).step (.handle rfl)
  have hawaiting := (((hsaved.step (.submit _ (e := .edited) nofun)).step (.handle rfl)).step (.endRun Nat.one_pos)).step
    (.handle rfl)
  exact (((hawaiting.step (.wait _ 2)).step (.poll _)).step (.endRun Nat.one_pos)).step (.handle rfl)

/-- The edit has led to a run of its own. -/
theorem history_coherent_edited : edited.scheduler.phase = .idle ∧ edited.scheduler.runs = 2 ∧ inFlight editedLog = 0 ∧
    editedLog = [.heard .saved 0, .began] ++ .heard .edited 0 :: [.heard .finished 0, .began, .heard .finished 2] ∧
    Happening.began ∈ [.heard .finished 0, .began, .heard .finished 2] := by
  obtain ⟨-, -, -, -, -, -, hanswered⟩ := history_coherent history_edited
  exact ⟨rfl, rfl, rfl, rfl, hanswered rfl [.heard .saved 0, .began] _ .edited 0 rfl (.inr ⟨rfl, rfl⟩)⟩

end Threaded

end Proofreader
