import Mathlib.Data.List.Basic
import Proofreader.Proofs.Scheduler.History

/-! When the run begins that was asked for during another one. It is due at once when the end of that run is handled,
and edits that are handled before it begins put it off. -/

namespace Proofreader

open Happening

variable {τ : Type} {debounce : Option τ} {log since : List (Happening τ)} {s : Scheduler τ} {e : Event}

theorem Happening.sinceRun_append_began (earlier : List (Happening τ)) (h : .began ∉ since) :
    sinceRun (earlier ++ .began :: since) = since := by
  induction since using List.reverseRecOn with
  | nil => exact sinceRun_began earlier
  | append_singleton since x ih =>
    rw [List.mem_append, not_or, List.mem_singleton] at h
    cases x with
    | began => exact absurd rfl h.2
    | heard e now => rw [← List.cons_append, ← List.append_assoc, sinceRun_heard, ih h.1]

variable [Time τ]

namespace Scheduler

/-- When a run is due that was due at `due`: a debounce after the last edit since. -/
def dueAfter (debounce : Option τ) (due : τ) (since : List (Happening τ)) : τ :=
  since.foldl (fun due x =>
    match x, debounce with
    | .heard .edited now, some d => Time.add now d
    | _, _ => due) due

theorem dueAfter_of_still {due : τ} (h : debounce = none ∨ ∀ now, .heard .edited now ∉ since) :
    dueAfter debounce due since = due := by
  induction since with
  | nil => rfl
  | cons x r ih =>
    rw [dueAfter, List.foldl_cons]
    split
    · next now d =>
      rcases h with hnone | hstill
      · cases hnone
      · exact absurd List.mem_cons_self (hstill now)
    · exact ih (h.imp_right fun hstill now hm => hstill now (List.mem_cons_of_mem _ hm))

/-- What a scheduler that has heard `since` after the last run began knows of it. -/
inductive Recalls (debounce : Option τ) : List (Happening τ) → Scheduler τ → Prop
  /-- No run has begun. -/
  | unstarted {since : List (Happening τ)} {s : Scheduler τ} : s.phase ≠ .checking → (∀ x ∈ since, x.isEnd = false) →
      Recalls debounce since s
  | running {since : List (Happening τ)} {s : Scheduler τ} : s.phase = .checking → (∀ x ∈ since, x.isEnd = false) →
      ((∃ x ∈ since, x.isRequest = true) → s.askedSince = true) → Recalls debounce since s
  | ended {during since : List (Happening τ)} {now : τ} {s : Scheduler τ} : s.phase ≠ .checking →
      (∀ x ∈ during, x.isEnd = false) → (∀ x ∈ since, x.isEnd = false) →
      ((∃ x ∈ during, x.isRequest = true) → s.phase = .pending ∧ s.deadline = some (dueAfter debounce now since)) →
      Recalls debounce (during ++ .heard .finished now :: since) s

omit [Time τ] in
theorem forall_not_isEnd_snoc (h : ∀ x ∈ since, x.isEnd = false) (he : e ≠ .finished) (now : τ) :
    ∀ x ∈ since ++ [.heard e now], x.isEnd = false := by
  intro x hx
  rw [List.mem_append, List.mem_singleton] at hx
  rcases hx with hx | rfl
  · exact h x hx
  · simp [isEnd, he]

theorem recalls_begin (debounce : Option τ) (s : Scheduler τ) : Recalls debounce [] s.begin :=
  .running rfl (by simp) (by simp)

namespace Recalls

/-- The end of a run that was in progress. -/
theorem complete (h : Recalls debounce since s) (hphase : s.phase = .checking) (now : τ) :
    Recalls debounce (since ++ [.heard .finished now]) (s.complete now) := by
  cases h with
  | unstarted hother => exact absurd hphase hother
  | ended hother => exact absurd hphase hother
  | running _ hduring hasked =>
    refine .ended (s.complete_phase now) hduring (by simp) fun hrequest => ?_
    unfold Scheduler.complete
    rw [if_pos (hasked hrequest)]
    exact ⟨rfl, rfl⟩

/-- An event during a run. -/
theorem remember (h : Recalls debounce since s) (hphase : s.phase = .checking) (he : e ≠ .finished) (now : τ) :
    Recalls debounce (since ++ [.heard e now]) (s.remember e) := by
  cases h with
  | unstarted hother => exact absurd hphase hother
  | ended hother => exact absurd hphase hother
  | running _ hduring hasked =>
    refine .running ((s.remember_phase e).trans hphase) (forall_not_isEnd_snoc hduring he now) fun ⟨x, hx, hrequest⟩ => ?_
    rw [List.mem_append, List.mem_singleton] at hx
    unfold Scheduler.remember
    rcases hx with hx | rfl
    · have := hasked ⟨x, hx, hrequest⟩
      split
      · rfl
      · split
        · exact this
        · exact this
    · change e.isRequest = true at hrequest
      rw [if_pos hrequest]

/-- An edit while no run is in progress. -/
theorem edit (h : Recalls debounce since s) (hs : s.debounce = debounce) (hphase : s.phase ≠ .checking) (now : τ) :
    Recalls debounce (since ++ [.heard .edited now]) (s.handle .edited now).1 := by
  have hhandle : (debounce = none ∧ (s.handle .edited now).1 = s) ∨
      ∃ d, debounce = some d ∧ (s.handle .edited now).1 = s.await (Time.add now d) := by
    subst hs
    cases hd : s.debounce with
    | none => simp [handle, hphase, Event.isRequest, hd]
    | some d => simp [handle, hphase, Event.isRequest, hd]
  have hphase' : (s.handle .edited now).1.phase ≠ .checking := by
    rcases hhandle with ⟨-, heq⟩ | ⟨d, -, heq⟩ <;> rw [heq]
    · exact hphase
    · simp [await]
  cases h with
  | running hchecking => exact absurd hchecking hphase
  | unstarted _ hsince => exact .unstarted hphase' (forall_not_isEnd_snoc hsince (by decide) now)
  | @ended during since finish s _ hduring hsince hpending =>
    rw [List.append_assoc, List.cons_append]
    refine .ended hphase' hduring (forall_not_isEnd_snoc hsince (by decide) now) fun hrequest => ?_
    rcases hhandle with ⟨rfl, heq⟩ | ⟨d, rfl, heq⟩ <;> rw [heq]
    · simpa [dueAfter] using hpending hrequest
    · simp [dueAfter, await]

theorem handle (h : Recalls debounce (sinceRun log) s) (hs : s.debounce = debounce)
    (he : e = .finished → s.phase = .checking) (now : τ) :
    Recalls debounce (sinceRun (log ++ .heard e now :: beginnings (s.handle e now))) (s.handle e now).1 := by
  obtain ⟨rfl, hhandle⟩ | ⟨hfinished, hphase, hhandle⟩ | ⟨-, -, hhandle⟩ | ⟨rfl, hphase, -⟩ := s.handle_cases e now
  · rw [hhandle, beginnings, if_neg Bool.false_ne_true, sinceRun_heard]
    exact h.complete (he rfl) now
  · rw [hhandle, beginnings, if_neg Bool.false_ne_true, sinceRun_heard]
    exact h.remember hphase hfinished now
  · rw [hhandle, beginnings, if_pos rfl, ← List.singleton_append, ← List.append_assoc, sinceRun_began]
    exact recalls_begin debounce s
  · have hbeginnings : beginnings (s.handle .edited now) = [] := by
      rw [beginnings, handle_edited_begins, if_neg Bool.false_ne_true]
    rw [hbeginnings, sinceRun_heard]
    exact h.edit hs hphase now

end Recalls

end Scheduler

namespace Threaded

variable {t : Threaded τ}

/-- Every scheduler that a history leads to knows what it has heard since the last run began. -/
theorem History.recalls (h : History debounce log t) : t.scheduler.Recalls debounce (sinceRun log) := by
  induction h with
  | start clock => exact .unstarted nofun (by simp [sinceRun])
  | @step log seen t u h hs ih =>
    have hc := h.coherent
    have hsetting := hc.scheduler.setting
    cases hs with
    | wait now => rwa [List.append_nil]
    | submit he =>
      rw [List.append_nil, submit, if_pos hc.started]
      exact ih
    | endRun hheld =>
      rw [List.append_nil, endRun_scheduler]
      exact ih
    | poll =>
      simp only [take, Scheduler.poll]
      split
      · rw [Scheduler.beginnings, if_pos rfl, sinceRun_began]
        exact Scheduler.recalls_begin _ _
      · rw [Scheduler.beginnings, if_neg Bool.false_ne_true, List.append_nil]
        exact ih
    | @handle e r hq =>
      rw [next_event hq]
      exact ih.handle hsetting (fun he => hc.checking (he ▸ hq)) t.clock

/-- A run that was asked for during another one is due when the end of that one is handled. Until it begins only edits can
put it off: then it is due a debounce after the last of them. -/
theorem deadline_asked (h : History debounce log t) {earlier during since : List (Happening τ)} {finish : τ}
    (hlog : log = earlier ++ .began :: (during ++ .heard .finished finish :: since)) (hduring : .began ∉ during)
    (hsince : .began ∉ since) (hasked : ∃ e now, .heard e now ∈ during ∧ e.isRequest = true) :
    t.scheduler.phase = .pending ∧ t.scheduler.deadline = some (Scheduler.dueAfter debounce finish since) ∧
      (debounce = none ∨ (∀ now, .heard .edited now ∉ since) → t.scheduler.deadline = some finish) := by
  have hrest : Happening.began ∉ during ++ .heard .finished finish :: since := by simp [hduring, hsince]
  have hrecalls := h.recalls
  rw [hlog, sinceRun_append_began earlier hrest] at hrecalls
  have hend : (Happening.heard Event.finished finish).isEnd = true := by simp [isEnd]
  generalize hrun : during ++ .heard .finished finish :: since = run at hrecalls
  have hmem : .heard .finished finish ∈ run := by simp [← hrun]
  cases hrecalls with
  | unstarted _ hnone => exact absurd hend (by simp [hnone _ hmem])
  | running _ hnone => exact absurd hend (by simp [hnone _ hmem])
  | @ended during' since' finish' _ _ hduring' hsince' hpending =>
    -- the end of the run is handled once, so the log is cut in one way only
    have hfirst : .heard .finished finish ∉ during' := fun hm => by simp [hduring' _ hm] at hend
    have hlast : .heard .finished finish ∉ since' := fun hm => by simp [hsince' _ hm] at hend
    obtain ⟨rfl, hfinish, rfl⟩ := (List.append_cons_inj_of_notMem hfirst hlast).1 hrun.symm
    obtain rfl : finish' = finish := by simpa using hfinish
    obtain ⟨e, now, hm, hrequest⟩ := hasked
    obtain ⟨hphase, hdeadline⟩ := hpending ⟨.heard e now, hm, hrequest⟩
    refine ⟨hphase, hdeadline, fun hstill => ?_⟩
    rw [hdeadline, Scheduler.dueAfter_of_still hstill]

/-- A file is opened, a check is asked for while that run is in progress, and an edit is handled after its end. -/
def edgedOut : Threaded Nat :=
  let asked := (((create (some 2) 0).start.submit .opened).next.submit .asked).next
  ((asked.endRun.submit .edited).next).next

def edgedOutLog : List (Happening Nat) :=
  [.heard .opened 0, .began, .heard .asked 0, .heard .finished 0, .heard .edited 0]

theorem history_edgedOut : History (some 2) edgedOutLog edgedOut := by
  have hstart : History (some 2) [] (create (some (2 : Nat)) 0).start := .start 0
  have hasked := (((hstart.step (.submit _ (e := .opened) nofun)).step (.handle rfl)).step
    (.submit _ (e := .asked) nofun)).step (.handle rfl)
  exact (((hasked.step (.endRun Nat.one_pos)).step (.submit _ (e := .edited) nofun)).step (.handle rfl)).step (.handle rfl)

/-- The run that was asked for waits for the edit to rest. -/
theorem deadline_asked_edgedOut : edgedOutLog = [.heard .opened 0] ++ .began :: ([.heard .asked 0] ++
      .heard .finished 0 :: [.heard .edited 0]) ∧
    edgedOut.scheduler.phase = .pending ∧
    edgedOut.scheduler.deadline = some (Scheduler.dueAfter (some 2) 0 [.heard .edited 0]) := by
  have hlog : edgedOutLog = [.heard .opened 0] ++ .began :: ([.heard .asked 0] ++ .heard .finished 0 :: [.heard .edited 0]) :=
    rfl
  obtain ⟨hphase, hdeadline, -⟩ := deadline_asked history_edgedOut hlog (by simp) (by simp) ⟨.asked, 0, by simp, rfl⟩
  exact ⟨hlog, hphase, hdeadline⟩

/-- It is due later than when the end of the first run was handled. -/
theorem deadline_edgedOut : History (some 2) edgedOutLog edgedOut ∧
    edgedOutLog = [.heard .opened 0, .began, .heard .asked 0, .heard .finished 0, .heard .edited 0] ∧
    edgedOut.scheduler.deadline = some 2 ∧ Time.atMost (2 : Nat) 0 = false :=
  ⟨history_edgedOut, rfl, rfl, by decide⟩

end Threaded

end Proofreader
