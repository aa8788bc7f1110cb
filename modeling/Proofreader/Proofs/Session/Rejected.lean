import Proofreader.Proofs.Session.Course
import Proofreader.Proofs.Session.Typed

/-! Settings that cannot be put in force leave the session as it was. What a session does afterwards does not depend on
how many runs there were or how the last one ended, so later runs never show that there were such settings. -/

namespace Proofreader

def Report.numbered (n : Nat) (r : Report) : Report := { r with run := n }

namespace Session

variable {σ β : Type} {provider : Provider σ β Selection} {s s' mid : Session β} {disk : Disk} {w v w' : σ}

/-- The session after another number of runs. -/
def counting (s : Session β) (n : Nat) : Session β := { s with runs := n }

theorem applyPending_counting (provider : Provider σ β Selection) (s : Session β) (n : Nat) (w : σ) :
    (s.counting n).applyPending provider w =
      ((s.applyPending provider w).1, (s.applyPending provider w).2.1.counting n, (s.applyPending provider w).2.2) := by
  obtain ⟨project, pipeline, pending, backend, launchFailure, cache, previous, published, runs, status⟩ := s
  unfold applyPending counting
  cases pending with
  | none => rfl
  | some c =>
    dsimp only
    cases Pipeline.ofSettings c with
    | error e => rfl
    | ok q => rfl

theorem ensureBackend_counting (provider : Provider σ β Selection) (s : Session β) (n : Nat) (w : σ) :
    (s.counting n).ensureBackend provider w =
      ((s.ensureBackend provider w).1, (s.ensureBackend provider w).2.1.counting n, (s.ensureBackend provider w).2.2) := by
  obtain ⟨project, pipeline, pending, backend, launchFailure, cache, previous, published, runs, status⟩ := s
  unfold ensureBackend counting
  dsimp only
  cases pipeline.selection with
  | error p => rfl
  | ok selection =>
    cases launchFailure with
    | some message => rfl
    | none =>
      cases backend with
      | some b => rfl
      | none =>
        dsimp only
        rcases provider.create selection pipeline.settings.defaultTag w with ⟨created, v⟩
        cases created with
        | error e => rfl
        | ok b => rfl

theorem finish_counting (s : Session β) (n : Nat) (disk : Disk) (r : Report) (view : Snapshot) :
    (s.counting n).finish disk ⟨r.numbered n, view⟩ =
      (s.finish disk ⟨r, view⟩).map fun x => (x.1.numbered n, x.2.counting n) := by
  unfold finish counting Report.numbered
  dsimp only [bind, Except.bind]
  split
  · rfl
  · rfl

/-- The same outcome under another number of the run. -/
def renumbered (n : Nat) (out : Except Fault Report × Session β × σ) : Except Fault Report × Session β × σ :=
  (out.1.map (·.numbered n), out.2.1.counting n, out.2.2)

theorem complete_counting (s : Session β) (n : Nat) (disk : Disk) (view : Snapshot) (r : Report) (next : Cache) (w : σ) :
    (s.counting n).complete disk view (r.numbered n) next w = renumbered n (s.complete disk view r next w) := by
  unfold complete
  rw [finish_counting]
  cases s.finish disk ⟨r, view⟩ with
  | error m => rfl
  | ok x => rfl

/-- The number of a run shows in its report only. -/
theorem runChecks_counting (provider : Provider σ β Selection) (disk : Disk) (s : Session β) (n : Nat) (w : σ) :
    (s.counting n).runChecks provider disk w = renumbered n (s.runChecks provider disk w) := by
  rcases hcompile : s.project.snapshot.compile disk with ⟨root, warnings, view⟩
  have hcompile' : (s.counting n).project.snapshot.compile disk = (root, warnings, view) := hcompile
  have hservice := ensureBackend_counting provider s n w
  unfold runChecks
  rw [hcompile, hcompile']
  dsimp only
  cases root with
  | none =>
    exact complete_counting s n disk view
      { s.blankReport warnings with status := .error, errors := [mainMissing s.project.main] } s.cache w
  | some root =>
    dsimp only
    rw [hservice]
    rcases s.ensureBackend provider w with ⟨service, mid, v⟩
    cases service with
    | error e =>
      cases e with
      | mishap m => rfl
      | problem p =>
        dsimp only
        cases p.kind with
        | launch =>
          exact complete_counting { mid with launchFailure := some p.message } n disk view
            (mid.failAll (s.docReport warnings root) (s.checkedTexts root) p) mid.cache v
        | configuration =>
          exact complete_counting mid n disk view (mid.failAll (s.docReport warnings root) (s.checkedTexts root) p) mid.cache v
        | general => rfl
        | connection => rfl
        | mapping => rfl
    | ok b =>
      rcases hcheck : checkTexts mid.pipeline provider mid.cache (s.checkedTexts root) ⟨[], 0, b, v⟩ with ⟨results, c⟩
      have hcheck' : checkTexts (mid.counting n).pipeline provider (mid.counting n).cache (s.checkedTexts root)
          ⟨[], 0, b, v⟩ = (results, c) := hcheck
      dsimp only
      unfold checkedTexts at hcheck hcheck'
      dsimp only [counting] at hcheck' ⊢
      rw [hcheck]
      exact complete_counting
        { (mid.conclude (s.docReport warnings root) results).2 with backend := some c.backend } n disk view
        (mid.conclude (s.docReport warnings root) results).1 c.next c.world

/-- How many runs there were before shows in the numbers of reports only, and how the last one ended shows nowhere. -/
theorem run_counting (provider : Provider σ β Selection) (disk : Disk) (s : Session β) (n : Nat) (status : Status) (w : σ) :
    ({ s with runs := n, status := status } : Session β).run provider disk w =
      renumbered (n + 1) (s.run provider disk w) := by
  have hpending := applyPending_counting provider s.begun (n + 1) w
  rcases hsettled : s.begun.applyPending provider w with ⟨settled, mid, v⟩
  rw [hsettled] at hpending
  have hbegun : ({ s with runs := n, status := status } : Session β).begun = s.begun.counting (n + 1) := rfl
  rw [← hbegun] at hpending
  cases settled with
  | error e =>
    rw [run_unsettled hpending, run_unsettled hsettled]
    rfl
  | ok u =>
    have hchecks := runChecks_counting provider disk mid (n + 1) v
    rcases hrun : mid.runChecks provider disk v with ⟨out, s', v'⟩
    rw [hrun] at hchecks
    cases out with
    | error e =>
      rw [run_raised hpending hchecks, run_raised hsettled hrun]
      rfl
    | ok r =>
      rw [run_reported hpending hchecks, run_reported hsettled hrun]
      rfl

/-- An outcome but for the number of the run. -/
def unnumbered (out : Except Fault Report) : Except Fault Report := out.map (·.numbered 0)

theorem unnumbered_numbered (n : Nat) (out : Except Fault Report) : unnumbered (out.map (·.numbered n)) = unnumbered out := by
  cases out with
  | error e => rfl
  | ok r => rfl

/-- Sessions that differ only in how many runs there were and in how the last one ended give the same from then on. -/
theorem outcomes_counting (provider : Provider σ β Selection) (actions : List (Action σ)) (s : Session β) (n : Nat)
    (status : Status) (w : σ) :
    (outcomes provider actions { s with runs := n, status := status } w).map unnumbered =
      (outcomes provider actions s w).map unnumbered := by
  induction actions generalizing s n status w with
  | nil => rfl
  | cons a r ih =>
    cases a with
    | edit f => exact ih { s with project := f s.project } n status w
    | update settings => exact ih (s.update settings) n status w
    | run disk =>
      rcases hrun : s.run provider disk w with ⟨out, s', w'⟩
      have hcounted := run_counting provider disk s n status w
      rw [hrun] at hcounted
      unfold outcomes act
      dsimp only
      rw [hrun, hcounted]
      dsimp only [renumbered]
      rw [List.map_append, List.map_append]
      have hrest := ih s' (n + 1) s'.status w'
      have hout : (some (out.map (·.numbered (n + 1)))).toList.map unnumbered = (some out).toList.map unnumbered :=
        congrArg (fun x => [x]) (unnumbered_numbered (n + 1) out)
      exact congrArg₂ (· ++ ·) hout hrest
    | close => exact ih (s.close provider w).1 n status (s.close provider w).2
    | meanwhile f => exact ih s n status (f w)

/-- Settings that cannot be put in force are given up, and the run with them. -/
theorem run_rejected {bad : Settings} {e : Fault} (hbad : Pipeline.ofSettings bad = .error e)
    (provider : Provider σ β Selection) (disk : Disk) (s : Session β) (w : σ) :
    (s.update bad).run provider disk w = (.error e, { s with pending := none, runs := s.runs + 1, status := .error }, w) := by
  have hpending : (s.update bad).begun.applyPending provider w = (.error e, { s.begun with pending := none }, w) := by
    unfold applyPending begun update
    dsimp only
    rw [hbad]
  rw [run_unsettled hpending]
  rfl

/-- Where rules are named by texts, a run that raises leaves what was shown as it was, and what is remembered too unless
it has put settings in force. -/
theorem Course.raised {e : Fault} (hp : provider.Gives (·.rule.IsText)) (hcache : s.cache.Holds (·.rule.IsText))
    (hshown : s.Shown (·.rule.IsText)) (h : Course provider disk s w (.error e) s' w') :
    s'.previous = s.previous ∧ s'.published = s.published ∧ s'.status = .error ∧ (s.due = [] → s'.cache = s.cache) := by
  have hdue : ∀ mid v, s.begun.applyPending provider w = (.ok (), mid, v) → s.due = [] → mid.cache = s.cache := by
    intro mid v hpending hnone
    obtain happly | ⟨e, happly⟩ := applyPending_of_due (s := s.begun) hnone provider w
    · rw [happly] at hpending
      cases hpending
      rfl
    · rw [happly] at hpending
      cases hpending
  cases h with
  | unsettled hpending =>
    rw [applyPending_error hpending]
    exact ⟨rfl, rfl, rfl, fun _ => rfl⟩
  | unserved hpending _ =>
    obtain ⟨hprevious, hpublished⟩ := applyPending_keeps hpending
    have hmid := hdue _ _ hpending
    exact ⟨hprevious, hpublished, rfl, hmid⟩
  | @unsorted mid s' v v' view r next m hpending hdrawn hfinish =>
    have hmid : mid.Shown (·.rule.IsText) := by
      unfold Shown
      rw [(applyPending_keeps hpending).1]
      exact hshown
    have hremembered : mid.cache.Holds (·.rule.IsText) := by
      obtain rfl | ⟨settings, q, backend, -, rfl⟩ := applyPending_ok hpending
      · exact hcache
      · exact Cache.holds_nil _
    have hnamed := (hdrawn.shown hmid fun _ _ _ _ _ _ _ _ hresults =>
      (rules_of_checkTexts Finding.naming_rule hp hremembered (Cache.holds_nil _) hresults).2).1
    rw [finish_eq (byFile_eq hnamed)] at hfinish
    cases hfinish

/-- Settings that cannot be put in force make the next run raise, and that is all they do: the session stays as it was,
its service is not closed, and whatever follows gives what it would had there been no update. And whatever makes a run
raise, it leaves what was shown as it was, and what is remembered too unless it has put settings in force. -/
theorem rejected_update (provider : Provider σ β Selection) (disk : Disk) (s : Session β) (w : σ) :
    (∀ bad e, Pipeline.ofSettings bad = .error e →
      (s.update bad).run provider disk w =
          (.error e, { s with pending := none, runs := s.runs + 1, status := .error }, w) ∧
        ∀ actions, (outcomes provider actions ((s.update bad).run provider disk w).2.1 w).map unnumbered =
          (outcomes provider actions { s with pending := none } w).map unnumbered) ∧
      (provider.Gives (·.rule.IsText) → s.cache.Holds (·.rule.IsText) → s.Shown (·.rule.IsText) →
        ∀ e s' w', s.run provider disk w = (.error e, s', w') →
          s'.previous = s.previous ∧ s'.published = s.published ∧ s'.status = .error ∧
            (s.due = [] → s'.cache = s.cache)) := by
  constructor
  · intro bad e hbad
    have hrun := run_rejected hbad provider disk s w
    refine ⟨hrun, fun actions => ?_⟩
    rw [hrun]
    exact outcomes_counting provider actions { s with pending := none } (s.runs + 1) .error w
  · intro hp hcache hshown e s' w' hrun
    have hcourse := run_course provider disk s w
    rw [hrun] at hcourse
    exact hcourse.raised hp hcache hshown

end Session

/-- Chunks of no length are asked for. -/
theorem ofSettings_cramped : ∃ e, Pipeline.ofSettings (bundledSettings 0) = .error e := ⟨_, rfl⟩

def shownSession : Session Unit := (wideSession.run moody sharedDisk false).2.1

theorem typed_shownSession : shownSession.Typed :=
  ((history_wide moody).run sharedDisk false).typed typed_moody

theorem gives_moody : moody.Gives (·.rule.IsText) :=
  fun text profile b w fs b' w' hcheck f hf => (typed_moody text profile b w fs b' w' hcheck f hf).rule

def laterActions : List (Session.Action Bool) :=
  [.meanwhile not, .run sharedDisk, .update (bundledSettings 6), .run sharedDisk]

theorem Session.rejected_update_cramped : ∃ e s', (shownSession.update (bundledSettings 0)).run moody sharedDisk false =
      (.error e, s', false) ∧ s'.status = .error ∧ s'.previous = shownSession.previous ∧
      s'.published = shownSession.published ∧ s'.cache = shownSession.cache ∧
      (outcomes moody laterActions s' false).map unnumbered =
        (outcomes moody laterActions { shownSession with pending := none } false).map unnumbered := by
  have htyped := typed_shownSession
  -- nothing else about the session matters, and it is not to be computed
  generalize shownSession = s at htyped ⊢
  obtain ⟨e, hbad⟩ := ofSettings_cramped
  have hdue : (s.update (bundledSettings 0)).due = [] := due_error rfl hbad
  have hcache : s.cache.Holds (·.rule.IsText) := fun x hx f hf => (htyped.cache x hx f hf).rule
  obtain ⟨hrun, hlater⟩ := (rejected_update moody sharedDisk s false).1 (bundledSettings 0) e hbad
  obtain ⟨hprevious, hpublished, hstatus, hremembered⟩ :=
    (rejected_update moody sharedDisk (s.update (bundledSettings 0)) false).2 gives_moody hcache htyped.previous _ _ _ hrun
  have hlater := hlater laterActions
  rw [hrun] at hlater
  exact ⟨e, _, hrun, hstatus, hprevious, hpublished, hremembered hdue, hlater⟩

end Proofreader
