import Proofreader.Proofs.Collections
import Proofreader.Proofs.Scheduler.Unasked

/-! When edits lead to a run. A run begins with the first poll for which the last edit has rested long enough, counted anew
from the end of a run that the edit came in; and it answers all edits before it, so a burst of them leads to one run. -/

namespace Proofreader

namespace Beat

variable {log since : List (Beat ℚ)} {x : Beat ℚ}

/-- Whether the last run that has begun is in progress. -/
def running (log : List (Beat ℚ)) : Bool :=
  log.foldl (fun r x =>
    match x with
    | .poll _ true => true
    | .finish _ => false
    | _ => r) false

/-- The last edit, if no run has begun since, and what has happened since. -/
def unanswered? (log : List (Beat ℚ)) : Option (ℚ × List (Beat ℚ)) :=
  log.foldl (fun u x =>
    match x with
    | .edit now => some (now, [])
    | .poll _ true => none
    | x => u.map fun (now, since) => (now, since ++ [x])) none

/-- No edit comes, and no run begins. -/
def Calm (since : List (Beat ℚ)) : Prop := ∀ x ∈ since, x.edit? = none ∧ x.begins = false

/-- A poll at the time begins a run: none is in progress, an edit has come since the last one began, and the last edit has
rested for `d`, counted from the end of the run if it came during one. -/
structure Due (d : ℚ) (before : List (Beat ℚ)) (now : ℚ) : Prop where
  free : running before = false
  rested : ∃ earlier t since, before = earlier ++ .edit t :: since ∧ Calm since ∧ t + d ≤ now ∧
    ∀ f, .finish f ∈ since → f + d ≤ now

theorem calm_snoc : Calm (since ++ [x]) ↔ Calm since ∧ x.edit? = none ∧ x.begins = false := by
  simp only [Calm, List.mem_append, List.mem_singleton, or_imp, forall_and, forall_eq]
  tauto

@[simp] theorem running_edit (log : List (Beat ℚ)) (now : ℚ) : running (log ++ [.edit now]) = running log := by
  simp [running]

@[simp] theorem running_finish (log : List (Beat ℚ)) (now : ℚ) : running (log ++ [.finish now]) = false := by
  simp [running]

@[simp] theorem running_poll (log : List (Beat ℚ)) (now : ℚ) (begins : Bool) :
    running (log ++ [.poll now begins]) = (begins || running log) := by
  cases begins <;> simp [running]

theorem running_append (h : running log = false) (hbegins : ∀ x ∈ since, x.begins = false) : running (log ++ since) = false := by
  induction since using List.reverseRecOn with
  | nil => rwa [List.append_nil]
  | append_singleton since x ih =>
    have hx := hbegins x (by simp)
    have hsince := ih fun y hy => hbegins y (List.mem_append_left _ hy)
    rw [← List.append_assoc]
    cases x with
    | edit now => rwa [running_edit]
    | finish now => exact running_finish _ now
    | poll now begins =>
      obtain rfl : begins = false := hx
      rwa [running_poll, Bool.false_or]

@[simp] theorem unanswered?_nil : unanswered? [] = none := rfl

@[simp] theorem unanswered?_edit (log : List (Beat ℚ)) (now : ℚ) : unanswered? (log ++ [.edit now]) = some (now, []) := by
  simp [unanswered?]

@[simp] theorem unanswered?_begin (log : List (Beat ℚ)) (now : ℚ) : unanswered? (log ++ [.poll now true]) = none := by
  simp [unanswered?]

theorem unanswered?_snoc (hedit : x.edit? = none) (hbegins : x.begins = false) (log : List (Beat ℚ)) :
    unanswered? (log ++ [x]) = (unanswered? log).map fun (now, since) => (now, since ++ [x]) := by
  cases x with
  | edit now => cases hedit
  | finish now => simp [unanswered?]
  | poll now begins =>
    obtain rfl : begins = false := hbegins
    simp [unanswered?]

/-- The last edit is the one with nothing but calm after it. -/
theorem unanswered?_eq_some {t : ℚ} : unanswered? log = some (t, since) ↔
    ∃ earlier, log = earlier ++ .edit t :: since ∧ Calm since := by
  induction log using List.reverseRecOn generalizing since with
  | nil => simp
  | append_singleton log x ih =>
    simp only [snoc_eq_append_cons]
    by_cases hx : x.edit? = none ∧ x.begins = false
    · rw [unanswered?_snoc hx.1 hx.2]
      constructor
      · intro h
        obtain ⟨⟨now, r⟩, hr, heq⟩ := Option.map_eq_some_iff.1 h
        cases heq
        obtain ⟨earlier, hlog, hcalm⟩ := ih.1 hr
        exact ⟨earlier, Or.inr ⟨r, rfl, hlog⟩, calm_snoc.2 ⟨hcalm, hx⟩⟩
      · rintro ⟨earlier, ⟨-, rfl, -⟩ | ⟨r, rfl, hlog⟩, hcalm⟩
        · cases hx.1
        · rw [ih.2 ⟨earlier, hlog, (calm_snoc.1 hcalm).1⟩]
          rfl
    · have hlast : ∀ r, ¬ Calm (r ++ [x]) := fun r hcalm => hx (calm_snoc.1 hcalm).2
      cases x with
      | finish now => exact absurd ⟨rfl, rfl⟩ hx
      | edit now =>
        rw [unanswered?_edit]
        constructor
        · intro h
          cases h
          exact ⟨log, Or.inl ⟨rfl, rfl, rfl⟩, nofun⟩
        · rintro ⟨earlier, ⟨-, heq, rfl⟩ | ⟨r, rfl, -⟩, hcalm⟩
          · cases heq
            rfl
          · exact absurd hcalm (hlast r)
      | poll now begins =>
        obtain rfl : begins = true := by simpa [edit?, Beat.begins] using hx
        rw [unanswered?_begin]
        constructor
        · intro h
          cases h
        · rintro ⟨earlier, ⟨-, heq, -⟩ | ⟨r, rfl, -⟩, hcalm⟩
          · cases heq
          · exact absurd hcalm (hlast r)

/-- An edit that no other follows is the last one, as long as no run begins. -/
theorem eq_of_unanswered? {t t' : ℚ} {r : List (Beat ℚ)} (hr : ∀ x ∈ r, x.edit? = none)
    (h : unanswered? (log ++ .edit t :: r) = some (t', since)) : t' = t ∧ since = r := by
  induction r using List.reverseRecOn generalizing since with
  | nil =>
    rw [unanswered?_edit] at h
    cases h
    exact ⟨rfl, rfl⟩
  | append_singleton r x ih =>
    have hx := hr x (by simp)
    rw [← List.cons_append, ← List.append_assoc] at h
    by_cases hbegins : x.begins = true
    · obtain ⟨now, rfl⟩ := exists_of_begins hbegins
      rw [unanswered?_begin] at h
      cases h
    · rw [unanswered?_snoc hx (Bool.eq_false_iff.2 hbegins)] at h
      obtain ⟨⟨now, since⟩, hsince, heq⟩ := Option.map_eq_some_iff.1 h
      cases heq
      obtain ⟨rfl, rfl⟩ := ih (fun y hy => hr y (List.mem_append_left _ hy)) hsince
      exact ⟨rfl, rfl⟩

/-- The times of the edits, the last one last. -/
theorem getLast?_edits (earlier : List (Beat ℚ)) (t : ℚ) (hcalm : Calm since) :
    ((earlier ++ .edit t :: since).filterMap edit?).getLast? = some t := by
  have hnone : since.filterMap edit? = [] := List.filterMap_eq_nil_iff.2 fun x hx => (hcalm x hx).1
  simp [hnone, edit?]

end Beat

namespace Scheduler

open Beat

variable {d now : ℚ} {log : List (Beat ℚ)} {s : Scheduler ℚ}

/-- `due` is when an edit at `t` has rested for `d`, counted anew from the end of a run that has ended since. -/
def Awaits (d t : ℚ) (since : List (Beat ℚ)) (due : ℚ) : Prop :=
  ∀ now, due ≤ now ↔ t + d ≤ now ∧ ∀ f, .finish f ∈ since → f + d ≤ now

/-- What the scheduler knows of what has happened: whether a run is in progress, whether an edit waits for one, and since
when. -/
inductive Stance (d : ℚ) (log : List (Beat ℚ)) (s : Scheduler ℚ) : Prop
  | idle : s.phase = .idle → s.editedSince = false → running log = false → unanswered? log = none → Stance d log s
  | pending {t due : ℚ} {since : List (Beat ℚ)} : s.phase = .pending → s.editedSince = false → running log = false →
      unanswered? log = some (t, since) → s.deadline = some due → Awaits d t since due → Stance d log s
  /-- An edit that comes in the run waits for the end of it. -/
  | checking : s.phase = .checking → s.editedSince = (unanswered? log).isSome → running log = true →
      (∀ t since, unanswered? log = some (t, since) → ∀ f, .finish f ∉ since) → Stance d log s

structure Keeps (d : ℚ) (log : List (Beat ℚ)) (s : Scheduler ℚ) : Prop where
  setting : s.debounce = some d
  unasked : s.askedSince = false
  runs : s.runs = log.countP Beat.begins
  stance : Stance d log s

theorem isDue_iff {due : ℚ} (hphase : s.phase = .pending) (hdue : s.deadline = some due) : s.isDue now = true ↔ due ≤ now := by
  simp [isDue, hphase, hdue, Time.atMost]

theorem keeps_create (d : ℚ) : Keeps d [] (create (some d)) :=
  ⟨rfl, rfl, rfl, .idle rfl rfl rfl rfl⟩

namespace Keeps

/-- An edit waits for a debounce from now, or is remembered during a run. -/
theorem edit (h : Keeps d log s) (now : ℚ) : Keeps d (log ++ [.edit now]) (s.handle .edited now).1 := by
  have hruns : s.runs = (log ++ [Beat.edit now]).countP Beat.begins := by simpa [Beat.begins] using h.runs
  have hawait : s.phase ≠ .checking → s.editedSince = false → running log = false →
      Keeps d (log ++ [.edit now]) (s.handle .edited now).1 := by
    intro hphase hedited hrunning
    have hhandle : (s.handle .edited now).1 = s.await (now + d) := by
      simp [handle, hphase, Event.isRequest, h.setting, Time.add]
    rw [hhandle]
    refine ⟨h.setting, h.unasked, hruns, ?_⟩
    exact .pending rfl hedited (by simpa using hrunning) (unanswered?_edit log now) rfl (fun _ => by simp)
  cases h.stance with
  | idle hphase hedited hrunning _ => exact hawait (by simp [hphase]) hedited hrunning
  | pending hphase hedited hrunning _ _ _ => exact hawait (by simp [hphase]) hedited hrunning
  | checking hphase _ hrunning _ =>
    have hhandle : (s.handle .edited now).1 = { s with editedSince := true } := by
      simp [handle, hphase, remember, Event.isRequest, h.setting]
    rw [hhandle]
    refine ⟨h.setting, h.unasked, hruns, .checking hphase (by simp) (by simpa using hrunning) ?_⟩
    intro t since hu
    rw [unanswered?_edit] at hu
    cases hu
    exact fun f => List.not_mem_nil

/-- A poll that comes too early changes nothing. -/
theorem still (h : Keeps d log s) (now : ℚ) : Keeps d (log ++ [.poll now false]) s := by
  have hruns : s.runs = (log ++ [Beat.poll now false]).countP Beat.begins := by simpa [Beat.begins] using h.runs
  have hu := unanswered?_snoc (x := .poll now false) rfl rfl log
  have hfinish : ∀ f since, Beat.finish f ∈ since ++ [.poll now false] ↔ .finish f ∈ since := by simp
  refine ⟨h.setting, h.unasked, hruns, ?_⟩
  cases h.stance with
  | idle hphase hedited hrunning hnone =>
    exact .idle hphase hedited (by simpa using hrunning) (by rw [hu, hnone]; rfl)
  | pending hphase hedited hrunning hsome hdeadline hdue =>
    refine .pending hphase hedited (by simpa using hrunning) (by rw [hu, hsome]; rfl) hdeadline ?_
    simpa only [Awaits, hfinish] using hdue
  | checking hphase hedited hrunning hunfinished =>
    refine .checking hphase (by simpa [hu] using hedited) (by simpa using hrunning) ?_
    intro t since hsome
    rw [hu] at hsome
    obtain ⟨⟨t', r⟩, hr, heq⟩ := Option.map_eq_some_iff.1 hsome
    cases heq
    simpa only [hfinish] using hunfinished t r hr

/-- A run that begins answers the edits before it. -/
theorem begin (h : Keeps d log s) (hphase : s.phase = .pending) (now : ℚ) : Keeps d (log ++ [.poll now true]) s.begin := by
  have hedited : s.editedSince = false := by
    cases h.stance with
    | idle _ hedited _ _ => exact hedited
    | pending _ hedited _ _ _ _ => exact hedited
    | checking hchecking _ _ _ => simp [hphase] at hchecking
  refine ⟨h.setting, h.unasked, ?_, .checking rfl ?_ ?_ ?_⟩
  · simp [Scheduler.begin, h.runs, Beat.begins]
  · simpa [Scheduler.begin] using hedited
  · simp
  · simp

/-- After a run an edit that came during it waits for a debounce from now. -/
theorem finish (h : Keeps d log s) (hphase : s.phase = .checking) (hpast : ∀ x ∈ log, x.time ≤ now) :
    Keeps d (log ++ [.finish now]) (s.handle .finished now).1 := by
  have hruns : s.runs = (log ++ [Beat.finish now]).countP Beat.begins := by simpa [Beat.begins] using h.runs
  have hu := unanswered?_snoc (x := .finish now) rfl rfl log
  have hhandle : (s.handle .finished now).1 = s.complete now := rfl
  rw [hhandle]
  cases h.stance with
  | idle hidle _ _ _ => simp [hphase] at hidle
  | pending hpending _ _ _ _ _ => simp [hphase] at hpending
  | checking _ hedited _ hunfinished =>
    cases hsome : unanswered? log with
    | none =>
      have hcomplete : s.complete now = { s.rest with editedSince := false, askedSince := false } := by
        simp [complete, h.unasked, hedited, hsome]
      rw [hcomplete]
      exact ⟨h.setting, rfl, hruns, .idle rfl rfl (by simp) (by rw [hu, hsome]; rfl)⟩
    | some u =>
      obtain ⟨t, since⟩ := u
      have hcomplete : s.complete now = { s.await (now + d) with editedSince := false, askedSince := false } := by
        simp [complete, h.unasked, hedited, hsome, h.setting, Time.add]
      obtain ⟨earlier, hlog, -⟩ := unanswered?_eq_some.1 hsome
      have ht : t ≤ now := hpast (.edit t) (by simp [hlog])
      rw [hcomplete]
      refine ⟨h.setting, rfl, hruns, .pending rfl rfl (by simp) (by rw [hu, hsome]; rfl) rfl fun later => ?_⟩
      have hends : ∀ f, .finish f ∈ since ++ [.finish now] ↔ f = now := by simp [hunfinished t since hsome]
      simp only [hends, forall_eq]
      constructor
      · intro hlater
        exact ⟨by linarith, hlater⟩
      · exact And.right

end Keeps

/-- A poll begins a run when one is due. -/
theorem Keeps.isDue (h : Keeps d log s) (now : ℚ) : s.isDue now = true ↔ Due d log now := by
  have hwaits : Due d log now ↔ running log = false ∧ ∃ t since, unanswered? log = some (t, since) ∧ t + d ≤ now ∧
      ∀ f, .finish f ∈ since → f + d ≤ now := by
    simp only [unanswered?_eq_some]
    constructor
    · rintro ⟨hfree, earlier, t, since, hlog, hcalm, hrested⟩
      exact ⟨hfree, t, since, ⟨earlier, hlog, hcalm⟩, hrested⟩
    · rintro ⟨hfree, t, since, ⟨earlier, hlog, hcalm⟩, hrested⟩
      exact ⟨hfree, earlier, t, since, hlog, hcalm, hrested⟩
  rw [hwaits]
  cases h.stance with
  | idle hphase _ _ hnone => simp [Scheduler.isDue, hphase, hnone]
  | checking hphase _ hrunning _ => simp [Scheduler.isDue, hphase, hrunning]
  | pending hphase _ hrunning hsome hdeadline hdue =>
    rw [isDue_iff hphase hdeadline, hdue now, hsome]
    simp [hrunning]

/-- A scheduler keeps track of every history in which time does not go back. -/
theorem Unasked.keeps (h : Unasked d log s) (hordered : log.Pairwise (·.time ≤ ·.time)) : Keeps d log s := by
  induction h with
  | create => exact keeps_create d
  | edit h now ih => exact (ih (List.pairwise_append.1 hordered).1).edit now
  | @poll log s h now ih =>
    have hkeeps := ih (List.pairwise_append.1 hordered).1
    by_cases hdue : s.isDue now = true
    · have hbegin : s.poll now = (s.begin, true) := if_pos hdue
      rw [hbegin]
      exact hkeeps.begin (by simp [Scheduler.isDue] at hdue; exact hdue.1) now
    · have hstill : s.poll now = (s, false) := if_neg hdue
      rw [hstill]
      exact hkeeps.still now
  | finish h hphase now ih =>
    obtain ⟨hbefore, -, hlast⟩ := List.pairwise_append.1 hordered
    exact (ih hbefore).finish hphase fun x hx => hlast x hx _ (List.mem_singleton_self _)

/-- The history up to a beat is that of the scheduler that it happens to. -/
theorem Unasked.upTo (h : Unasked d log s) {before after : List (Beat ℚ)} {x : Beat ℚ} (hlog : log = before ++ x :: after) :
    ∃ mid, Unasked d before mid ∧ (∀ now begins, x = .poll now begins → begins = (mid.poll now).2) ∧
      (∀ now, x = .finish now → mid.phase = .checking) := by
  induction h generalizing after with
  | create => simp at hlog
  | @edit log s h now ih =>
    rcases snoc_eq_append_cons.1 hlog with ⟨rfl, rfl, -⟩ | ⟨r, -, hlog⟩
    · exact ⟨s, h, by simp, by simp⟩
    · exact ih hlog
  | @poll log s h now ih =>
    rcases snoc_eq_append_cons.1 hlog with ⟨rfl, rfl, -⟩ | ⟨r, -, hlog⟩
    · refine ⟨s, h, fun now' begins heq => ?_, by simp⟩
      cases heq
      rfl
    · exact ih hlog
  | @finish log s h hphase now ih =>
    rcases snoc_eq_append_cons.1 hlog with ⟨rfl, rfl, -⟩ | ⟨r, -, hlog⟩
    · exact ⟨s, h, by simp, fun _ _ => hphase⟩
    · exact ih hlog

/-- A poll begins a run just when one is due. -/
theorem Unasked.begins_iff (h : Unasked d log s) (hordered : log.Pairwise (·.time ≤ ·.time)) {before after : List (Beat ℚ)}
    {begins : Bool} (hlog : log = before ++ .poll now begins :: after) : begins = true ↔ Due d before now := by
  obtain ⟨mid, hmid, hpoll, -⟩ := h.upTo hlog
  rw [hlog] at hordered
  have hkeeps := hmid.keeps (List.pairwise_append.1 hordered).1
  rw [hpoll now begins rfl, ← hkeeps.isDue now, Scheduler.poll]
  cases mid.isDue now <;> simp

/-- Only a run in progress ends. -/
theorem Unasked.running_of_finish (h : Unasked d log s) (hordered : log.Pairwise (·.time ≤ ·.time)) {before after : List (Beat ℚ)}
    (hlog : log = before ++ .finish now :: after) : Beat.running before = true := by
  obtain ⟨mid, hmid, -, hfinish⟩ := h.upTo hlog
  have hphase := hfinish now rfl
  rw [hlog] at hordered
  cases (hmid.keeps (List.pairwise_append.1 hordered).1).stance with
  | idle hidle _ _ _ => simp [hphase] at hidle
  | pending hpending _ _ _ _ _ => simp [hphase] at hpending
  | checking _ _ hrunning _ => exact hrunning

end Scheduler

namespace Beat

/-- A poll at the time or later. -/
def pollsFrom (due : ℚ) : Beat ℚ → Bool
  | poll now _ => due ≤ now
  | _ => false

/-- Edits that follow each other within less than `d`, the last one at `t`, and what else happens from the first one on. -/
structure Burst (d : ℚ) (first : List (Beat ℚ)) (t : ℚ) (rest : List (Beat ℚ)) : Prop where
  opening : ∀ x ∈ first.head?, x.edit? ≠ none
  close : ((first ++ [Beat.edit t]).filterMap edit?).IsChain fun a b => b < a + d
  last : ∀ x ∈ rest, x.edit? = none

end Beat

namespace Scheduler

open Beat

variable {d t now : ℚ} {log before first rest : List (Beat ℚ)} {s : Scheduler ℚ}

/-- Before the last edit of a burst no run begins: the next edit always comes first. -/
theorem Unasked.begins_none_of_burst (h : Unasked d log s) (hordered : log.Pairwise (·.time ≤ ·.time))
    (hlog : log = before ++ (first ++ .edit t :: rest)) (hburst : Burst d first t rest) : ∀ x ∈ first, x.begins = false := by
  intro x hx
  rw [← Bool.not_eq_true]
  intro hbegins
  obtain ⟨now, rfl⟩ := exists_of_begins hbegins
  obtain ⟨front, back, rfl⟩ := List.append_of_mem hx
  have hsplit : log = (before ++ front) ++ .poll now true :: (back ++ .edit t :: rest) := by simp [hlog]
  obtain ⟨-, earlier, t', since, hfront, hcalm, hrested, -⟩ := (h.begins_iff hordered hsplit).1 rfl
  -- the last edit before the poll is one of the burst, and the next one comes after the poll
  have hopening : front.filterMap edit? ≠ [] := by
    cases front with
    | nil => exact absurd rfl (hburst.opening (.poll now true) rfl)
    | cons y front =>
      intro hnil
      exact hburst.opening y rfl (List.filterMap_eq_nil_iff.1 hnil y List.mem_cons_self)
  have hlast : (front.filterMap edit?).getLast? = some t' := by
    have hedits := getLast?_edits earlier t' hcalm
    rwa [← hfront, List.filterMap_append, List.getLast?_append_of_ne_nil _ hopening] at hedits
  obtain ⟨next, hnext⟩ : ∃ next, ((back ++ [Beat.edit t]).filterMap edit?).head? = some next := by
    rw [List.filterMap_append]
    cases back.filterMap edit? with
    | nil => exact ⟨t, rfl⟩
    | cons u r => exact ⟨u, rfl⟩
  have hclose := hburst.close
  rw [List.append_assoc, List.cons_append, List.filterMap_append] at hclose
  have hsoon : next < t' + d := (List.isChain_append.1 hclose).2.2 t' hlast next hnext
  have hlater : now ≤ next := by
    obtain ⟨y, hy, hedit⟩ := List.mem_filterMap.1 (List.mem_of_mem_head? hnext)
    cases y with
    | poll u b => cases hedit
    | finish u => cases hedit
    | edit u =>
      cases hedit
      rw [hsplit] at hordered
      have hmem : Beat.edit next ∈ back ++ .edit t :: rest := by
        rw [List.append_cons]
        exact List.mem_append_left _ hy
      exact List.rel_of_pairwise_cons (List.pairwise_append.1 hordered).2.1 hmem
  linarith

/-- When a run is due after the last edit, it has rested, and no run has begun since. -/
theorem rested_of_due (hr : ∀ x ∈ rest, x.edit? = none) (h : Due d (before ++ .edit t :: rest) now) :
    t + d ≤ now ∧ ∀ x ∈ rest, x.begins = false := by
  obtain ⟨-, earlier, t', since, hbefore, hcalm, hrested, -⟩ := h
  obtain ⟨rfl, rfl⟩ := eq_of_unanswered? hr (unanswered?_eq_some.2 ⟨earlier, hbefore, hcalm⟩)
  exact ⟨hrested, fun x hx => (hcalm x hx).2⟩

/-- A run is due once the last edit has rested, if none was in progress when it came. -/
theorem Unasked.due_of_rested (h : Unasked d log s) (hordered : log.Pairwise (·.time ≤ ·.time)) {after : List (Beat ℚ)}
    (hlog : log = before ++ .edit t :: (rest ++ after)) (hfree : Beat.running before = false) (hcalm : Calm rest)
    (hrested : t + d ≤ now) : Due d (before ++ .edit t :: rest) now := by
  have hedit : ∀ r, (∀ x ∈ r, x.begins = false) → Beat.running (before ++ .edit t :: r) = false := by
    intro r hr
    refine running_append hfree fun x hx => ?_
    rcases List.mem_cons.1 hx with rfl | hx
    · rfl
    · exact hr x hx
  refine ⟨hedit rest fun x hx => (hcalm x hx).2, before, t, rest, rfl, hcalm, hrested, fun f hf => ?_⟩
  -- no run is in progress after the edit, so none ends
  obtain ⟨front, back, rfl⟩ := List.append_of_mem hf
  have hsplit : log = (before ++ .edit t :: front) ++ .finish f :: (back ++ after) := by simp [hlog]
  have hrunning := h.running_of_finish hordered hsplit
  rw [hedit front fun x hx => (hcalm x (List.mem_append_left _ hx)).2] at hrunning
  cases hrunning

/-- After the last edit one run begins at most, and not before the edit has rested. -/
theorem Unasked.begins_once (h : Unasked d log s) (hordered : log.Pairwise (·.time ≤ ·.time))
    (hlog : log = before ++ .edit t :: rest) (hlast : ∀ x ∈ rest, x.edit? = none) (hmem : .poll now true ∈ rest) :
    t + d ≤ now ∧ rest.filter Beat.begins = [.poll now true] := by
  have hrested : ∀ {front back u}, rest = front ++ .poll u true :: back → t + d ≤ u ∧ ∀ x ∈ front, x.begins = false := by
    rintro front back u rfl
    have hsplit : log = (before ++ .edit t :: front) ++ .poll u true :: back := by simp [hlog]
    exact rested_of_due (fun x hx => hlast x (List.mem_append_left _ hx)) ((h.begins_iff hordered hsplit).1 rfl)
  obtain ⟨front, back, rfl⟩ := List.append_of_mem hmem
  obtain ⟨hdue, hfront⟩ := hrested rfl
  have hback : ∀ x ∈ back, x.begins = false := by
    intro x hx
    rw [← Bool.not_eq_true]
    intro hbegins
    obtain ⟨again, rfl⟩ := exists_of_begins hbegins
    obtain ⟨mid, tail, rfl⟩ := List.append_of_mem hx
    have hagain : front ++ .poll now true :: (mid ++ .poll again true :: tail) =
        (front ++ .poll now true :: mid) ++ .poll again true :: tail := by simp
    cases (hrested hagain).2 (.poll now true) (by simp)
  have hnone : ∀ ys : List (Beat ℚ), (∀ y ∈ ys, y.begins = false) → ys.filter Beat.begins = [] := by
    intro ys hys
    exact List.filter_eq_nil_iff.2 fun y hy => by simp [hys y hy]
  refine ⟨hdue, ?_⟩
  rw [List.filter_append, hnone front hfront, List.filter_cons_of_pos rfl, hnone back hback]
  rfl

/-- After the last edit of a burst the first poll for which it has rested begins a run, and no other does. -/
theorem Unasked.begins_of_burst (h : Unasked d log s) (hordered : log.Pairwise (·.time ≤ ·.time))
    (hlog : log = before ++ .edit t :: rest) (hfree : Beat.running before = false) (hlast : ∀ x ∈ rest, x.edit? = none) :
    rest.filter Beat.begins = (rest.find? (Beat.pollsFrom (t + d))).toList := by
  have hpolls : ∀ x ∈ rest, x.begins = true → x.pollsFrom (t + d) = true := by
    intro x hx hbegins
    obtain ⟨now, rfl⟩ := exists_of_begins hbegins
    exact decide_eq_true (h.begins_once hordered hlog hlast hx).1
  cases hfind : rest.find? (Beat.pollsFrom (t + d)) with
  | none =>
    rw [List.find?_eq_none] at hfind
    exact List.filter_eq_nil_iff.2 fun x hx hbegins => hfind x hx (hpolls x hx hbegins)
  | some x =>
    obtain ⟨hx, front, back, rfl, hfront⟩ := List.find?_eq_some_iff_append.1 hfind
    cases x with
    | edit now => cases hx
    | finish now => cases hx
    | poll now begins =>
      have hcalm : Calm front := by
        intro y hy
        refine ⟨hlast y (List.mem_append_left _ hy), Bool.eq_false_iff.2 fun hbegins => ?_⟩
        simpa [hpolls y (List.mem_append_left _ hy) hbegins] using hfront y hy
      have hsplit : log = (before ++ .edit t :: front) ++ .poll now begins :: back := by simp [hlog]
      obtain rfl : begins = true :=
        (h.begins_iff hordered hsplit).2 (h.due_of_rested hordered hlog hfree hcalm (of_decide_eq_true hx))
      exact (h.begins_once hordered hlog hlast (by simp)).2

/-- Edits lead to a run once they have rested. A poll begins a run just when none is in progress and an edit waits for one, the
last of which came `d` ago or earlier, and so did the end of the run that it came in, if it came in one. So a burst of edits
leads to one run at most, after its last edit, and with the first poll `d` or more after that if no run was in progress when
the burst began. -/
theorem debounced (h : Unasked d log s) (hordered : log.Pairwise (·.time ≤ ·.time)) :
    s.runs = log.countP Beat.begins ∧
    (∀ before now begins after, log = before ++ .poll now begins :: after → (begins = true ↔ Due d before now)) ∧
    (∀ before first t rest, log = before ++ (first ++ .edit t :: rest) → Burst d first t rest →
      (∀ x ∈ first, x.begins = false) ∧ rest.countP Beat.begins ≤ 1 ∧
      (Beat.running before = false → rest.filter Beat.begins = (rest.find? (Beat.pollsFrom (t + d))).toList)) := by
  refine ⟨(h.keeps hordered).runs, fun before now begins after hlog => h.begins_iff hordered hlog, ?_⟩
  intro before first t rest hlog hburst
  have hnone := h.begins_none_of_burst hordered hlog hburst
  have hsplit : log = (before ++ first) ++ .edit t :: rest := by simp [hlog]
  refine ⟨hnone, ?_, fun hfree => h.begins_of_burst hordered hsplit (running_append hfree hnone) hburst.last⟩
  by_contra hmany
  obtain ⟨x, hx, hbegins⟩ := List.countP_pos_iff.1 (Nat.zero_lt_of_lt (not_le.1 hmany))
  obtain ⟨now, rfl⟩ := exists_of_begins hbegins
  obtain ⟨-, hone⟩ := h.begins_once hordered hsplit hburst.last hx
  rw [List.countP_eq_length_filter, hone] at hmany
  exact hmany (Nat.le_refl 1)

/-- An edit, another one during the run that follows, and a burst of two. -/
def editedLog : List (Beat ℚ) :=
  [.edit 0, .poll (3 / 10) true, .edit (4 / 10), .finish (5 / 10), .poll (75 / 100) false, .poll (8 / 10) true,
    .finish (9 / 10), .edit 1, .poll (11 / 10) false, .edit (12 / 10), .poll (14 / 10) false, .poll (16 / 10) true,
    .poll 2 false]

theorem unasked_editedLog : ∃ s, Unasked (3 / 10) editedLog s := by
  have hfirst := ((((Unasked.create (d := (3 / 10 : ℚ))).edit 0).poll (3 / 10)).edit (4 / 10)).finish (by decide +kernel) (5 / 10)
  have hsecond := ((hfirst.poll (75 / 100)).poll (8 / 10)).finish (by decide +kernel) (9 / 10)
  have hburst := (((((hsecond.edit 1).poll (11 / 10)).edit (12 / 10)).poll (14 / 10)).poll (16 / 10)).poll 2
  obtain ⟨log, s, hlog, hhistory⟩ : ∃ log s, log = editedLog ∧ Unasked (3 / 10) log s :=
    ⟨_, _, by decide +kernel, hburst⟩
  exact ⟨s, hlog ▸ hhistory⟩

/-- The edit during the run rests from the end of the run, and the burst leads to one run. -/
theorem debounced_editedLog : ∃ s, Unasked (3 / 10) editedLog s ∧ s.runs = 3 ∧
    ¬ Due (3 / 10) (editedLog.take 4) (75 / 100) ∧ Due (3 / 10) (editedLog.take 5) (8 / 10) ∧
    editedLog.drop 7 = [.edit 1, .poll (11 / 10) false] ++ .edit (12 / 10) :: editedLog.drop 10 ∧
    (editedLog.drop 10).filter Beat.begins = [.poll (16 / 10) true] := by
  obtain ⟨s, h⟩ := unasked_editedLog
  have hordered : editedLog.Pairwise (·.time ≤ ·.time) := by decide +kernel
  obtain ⟨hruns, hpolls, hbursts⟩ := debounced h hordered
  have hearly := hpolls (editedLog.take 4) (75 / 100) false (editedLog.drop 5) rfl
  have hlate := hpolls (editedLog.take 5) (8 / 10) true (editedLog.drop 6) rfl
  have hfree : Beat.running (editedLog.take 7) = false := by decide +kernel
  have hburst : Burst (3 / 10) [.edit 1, .poll (11 / 10) false] (12 / 10) (editedLog.drop 10) :=
    ⟨by simp [edit?], by decide +kernel, by decide +kernel⟩
  obtain ⟨-, -, hone⟩ := hbursts (editedLog.take 7) _ _ _ rfl hburst
  exact ⟨s, h, hruns.trans (by decide +kernel), fun hdue => Bool.false_ne_true (hearly.2 hdue), hlate.1 rfl, rfl,
    (hone hfree).trans (by decide +kernel)⟩

end Scheduler

end Proofreader
