import Proofreader.Proofs.Collections
import Proofreader.Proofs.Session.Check

/-! What one run does to a session, one case for each way in which it can end. -/

namespace Proofreader.Session

variable {σ β : Type} {provider : Provider σ β Selection} {s mid : Session β} {disk : Disk} {w v : σ}
variable {pipeline : Pipeline} {last : Cache} {t : CheckedText} {texts : List CheckedText} {c c' : Checking σ β}
variable {results : List (CheckedText × LanguageResult × Option Problem)}

/-- The session while a run is under way. -/
def begun (s : Session β) : Session β := { s with runs := s.runs + 1, status := .checking }

/-- The settings that the next run puts in force. -/
def due (s : Session β) : List Settings := s.pending.toList.filter fun c => (Pipeline.ofSettings c).isOk

/-- The texts of a document that are checked. -/
def checkedTexts (s : Session β) (root : Node) : List CheckedText :=
  (s.pipeline.extract root).texts.filter (·.profile.resolved)

/-- The report of a run that has found nothing yet. -/
def blankReport (s : Session β) (warnings : List Warning) : Report := ⟨s.runs, .idle, [], [], warnings, [], []⟩

def docReport (s : Session β) (warnings : List Warning) (root : Node) : Report :=
  s.blankReport (warnings ++ (s.pipeline.extract root).warnings)

/-- After a failed launch nothing is tried again. -/
def refusedBy (s : Session β) (p : Problem) : Session β :=
  if isLaunch p then { s with launchFailure := some p.message } else s

/-- The end of a run: the report is laid out by file, and what the next run may remember is kept. -/
def complete (s : Session β) (disk : Disk) (view : Snapshot) (r : Report) (next : Cache) (w : σ) :
    Except Fault Report × Session β × σ :=
  match s.finish disk ⟨r, view⟩ with
  | .error m => (.error (.mishap m), s, w)
  | .ok (r, s) => (.ok r, { s with cache := next }, w)

/-- What a run has to tell before it is laid out by file: the view it has of the files, the report, the session, what
the next run may remember, and the world. -/
inductive Drawn (provider : Provider σ β Selection) (disk : Disk) (s : Session β) (w : σ) :
    Snapshot → Report → Session β → Cache → σ → Prop
  | missing {warnings : List Warning} {view : Snapshot} : s.project.snapshot.compile disk = (none, warnings, view) →
      Drawn provider disk s w view
        { s.blankReport warnings with status := .error, errors := [mainMissing s.project.main] } s s.cache w
  | refused {root : Node} {warnings : List Warning} {view : Snapshot} {p : Problem} {v : σ} :
      s.project.snapshot.compile disk = (some root, warnings, view) →
      s.ensureBackend provider w = (.error (.problem p), s, v) →
      Drawn provider disk s w view (s.failAll (s.docReport warnings root) (s.checkedTexts root) p) (s.refusedBy p)
        s.cache v
  | checked {root : Node} {warnings : List Warning} {view : Snapshot} {b : β} {v : σ}
      {results : List (CheckedText × LanguageResult × Option Problem)} {c : Checking σ β} :
      s.project.snapshot.compile disk = (some root, warnings, view) →
      s.ensureBackend provider w = (.ok b, { s with backend := some b }, v) →
      checkTexts s.pipeline provider s.cache (s.checkedTexts root) ⟨[], 0, b, v⟩ = (results, c) →
      Drawn provider disk s w view (s.conclude (s.docReport warnings root) results).1
        { (s.conclude (s.docReport warnings root) results).2 with backend := some c.backend } c.next c.world

/-- How a run ends. -/
inductive Course (provider : Provider σ β Selection) (disk : Disk) (s : Session β) (w : σ) :
    Except Fault Report → Session β → σ → Prop
  /-- New settings cannot work. -/
  | unsettled {e : Fault} {mid : Session β} {v : σ} : s.begun.applyPending provider w = (.error e, mid, v) →
      Course provider disk s w (.error e) { mid with status := .error } v
  /-- The service cannot be created, in a way that nobody expects. -/
  | unserved {e : Fault} {mid : Session β} {v v' : σ} : s.begun.applyPending provider w = (.ok (), mid, v) →
      mid.ensureBackend provider v = (.error e, mid, v') →
      Course provider disk s w (.error e) { mid with status := .error } v'
  /-- The diagnostics cannot be put in order. -/
  | unsorted {mid s' : Session β} {v v' : σ} {view : Snapshot} {r : Report} {next : Cache} {m : Mishap} :
      s.begun.applyPending provider w = (.ok (), mid, v) → Drawn provider disk mid v view r s' next v' →
      s'.finish disk ⟨r, view⟩ = .error m → Course provider disk s w (.error (.mishap m)) { s' with status := .error } v'
  | reported {mid s' s'' : Session β} {v v' : σ} {view : Snapshot} {r r' : Report} {next : Cache} :
      s.begun.applyPending provider w = (.ok (), mid, v) → Drawn provider disk mid v view r s' next v' →
      s'.finish disk ⟨r, view⟩ = .ok (r', s'') → Course provider disk s w (.ok r') { s'' with cache := next } v'

/-- A new session has its project and what follows from its settings, and remembers nothing. -/
theorem create_ok {p : Project} {settings : Settings} (h : create p settings = .ok s) :
    ∃ q, Pipeline.ofSettings settings = .ok q ∧ s = ⟨p, q, none, none, none, [], [], [], 0, .idle⟩ := by
  unfold create at h
  cases hq : Pipeline.ofSettings settings with
  | error e =>
    rw [hq] at h
    cases h
  | ok q =>
    rw [hq] at h
    cases h
    exact ⟨q, rfl, rfl⟩

theorem eq_of_ensureBackend_error {e : Fault} (h : s.ensureBackend provider w = (.error e, mid, v)) : mid = s := by
  unfold ensureBackend at h
  split at h
  · cases h
    rfl
  · split at h
    · cases h
      rfl
    · cases h
    · split at h
      · cases h
      · cases h
        rfl

theorem eq_of_ensureBackend_ok {b : β} (h : s.ensureBackend provider w = (.ok b, mid, v)) :
    mid = { s with backend := some b } := by
  unfold ensureBackend at h
  split at h
  · cases h
  · split at h
    · cases h
    · next hb =>
      cases h
      rw [← hb]
    · split at h
      · cases h
        rfl
      · cases h

/-- New settings that are put in force replace what follows from them and empty the cache. -/
theorem applyPending_ok (h : s.applyPending provider w = (.ok (), mid, v)) :
    mid = s ∨ ∃ settings q backend, Pipeline.ofSettings settings = .ok q ∧ mid =
      { s with
        pending := none
        pipeline := q
        backend := backend
        launchFailure := none
        cache := []
        project := moveProject s.project settings } := by
  unfold applyPending at h
  split at h
  · cases h
    exact Or.inl rfl
  · next settings _ =>
    dsimp only at h
    split at h
    · cases h
    · next q hq =>
      cases h
      exact Or.inr ⟨settings, q, _, hq, rfl⟩

/-- New settings change nothing of what was shown. -/
theorem applyPending_keeps (h : s.applyPending provider w = (.ok (), mid, v)) :
    mid.previous = s.previous ∧ mid.published = s.published := by
  obtain rfl | ⟨settings, q, backend, -, rfl⟩ := applyPending_ok h
  · exact ⟨rfl, rfl⟩
  · exact ⟨rfl, rfl⟩

theorem applyPending_error {e : Fault} (h : s.applyPending provider w = (.error e, mid, v)) :
    mid = { s with pending := none } := by
  unfold applyPending at h
  split at h
  · cases h
  · dsimp only at h
    split at h
    · cases h
      rfl
    · cases h

theorem due_none (h : s.pending = none) : s.due = [] := by
  rw [due, h]
  rfl

theorem due_error {settings : Settings} {e : Fault} (h : s.pending = some settings)
    (hsettings : Pipeline.ofSettings settings = .error e) : s.due = [] := by
  rw [due, h]
  simp [hsettings, Except.isOk, Except.toBool]

theorem due_ok {settings : Settings} {q : Pipeline} (h : s.pending = some settings)
    (hsettings : Pipeline.ofSettings settings = .ok q) : s.due = [settings] := by
  rw [due, h]
  simp [hsettings, Except.isOk, Except.toBool]

theorem exists_of_due (h : s.due ≠ []) :
    ∃ settings q, s.pending = some settings ∧ Pipeline.ofSettings settings = .ok q ∧ s.due = [settings] := by
  cases hpending : s.pending with
  | none => exact absurd (due_none hpending) h
  | some settings =>
    cases hsettings : Pipeline.ofSettings settings with
    | error e => exact absurd (due_error hpending hsettings) h
    | ok q => exact ⟨settings, q, rfl, hsettings, due_ok hpending hsettings⟩

theorem due_of_applyPending_error {e : Fault} (h : s.applyPending provider w = (.error e, mid, v)) : s.due = [] := by
  by_contra hdue
  obtain ⟨settings, q, hpending, hq, -⟩ := exists_of_due hdue
  unfold applyPending at h
  rw [hpending] at h
  dsimp only at h
  rw [hq] at h
  cases h

/-- Where no settings are put in force, those that are given up are all that changes. -/
theorem applyPending_of_due (h : s.due = []) (provider : Provider σ β Selection) (w : σ) :
    s.applyPending provider w = (.ok (), s, w) ∨
      ∃ e, s.applyPending provider w = (.error e, { s with pending := none }, w) := by
  unfold applyPending
  cases hpending : s.pending with
  | none => exact Or.inl rfl
  | some settings =>
    dsimp only
    cases hsettings : Pipeline.ofSettings settings with
    | error e => exact Or.inr ⟨e, rfl⟩
    | ok q =>
      rw [due_ok hpending hsettings] at h
      cases h

/-- Diagnostics by file complete a report; the files that have any are remembered. -/
theorem finish_ok {d : Draw} {r : Report} (h : s.finish disk d = .ok (r, mid)) :
    ∃ rows, byFile (d.snapshot.files ++ s.published) (d.report.languages.flatMap (·.2.diagnostics)) = .ok rows ∧
      r = { d.report with diagnostics := rows, sources := readSources disk (rows.map (·.1)) d.snapshot } ∧
      mid = { s with published := (rows.filter fun f => !f.2.isEmpty).map (·.1), status := d.report.status } := by
  obtain ⟨rows, hrows, h⟩ := exists_of_bind h
  cases h
  exact ⟨rows, hrows, rfl, rfl⟩

/-- Diagnostics that can be sorted by file complete the report. -/
theorem finish_eq {d : Draw} {rows : List (FileId × List Diagnostic)}
    (h : byFile (d.snapshot.files ++ s.published) (d.report.languages.flatMap (·.2.diagnostics)) = .ok rows) :
    s.finish disk d =
      .ok ({ d.report with diagnostics := rows, sources := readSources disk (rows.map (·.1)) d.snapshot },
        { s with published := (rows.filter fun f => !f.2.isEmpty).map (·.1), status := d.report.status }) := by
  unfold finish
  dsimp only [bind, Except.bind]
  rw [h]
  rfl

theorem checkText_result {result : LanguageResult} {problem : Option Problem}
    (h : checkText pipeline provider last t c = (result, problem, c')) :
    result.profile = t.profile ∧ result.error = none ∧ result.stale = false := by
  rcases hgot : checkChunks provider last t.profile (pipeline.chunker.chunks t) { c with calls := 0 } with ⟨got, mid⟩
  rw [checkText_eq hgot] at h
  cases h
  unfold Pipeline.judge
  split
  · exact ⟨rfl, rfl, rfl⟩
  · split
    · exact ⟨rfl, rfl, rfl⟩
    · exact ⟨rfl, rfl, rfl⟩

/-- Each text has its result, in the same order. -/
theorem checkTexts_results (h : checkTexts pipeline provider last texts c = (results, c')) :
    results.map Prod.fst = texts ∧
      ∀ x ∈ results, x.2.1.profile = x.1.profile ∧ x.2.1.error = none ∧ x.2.1.stale = false :=
  (forall_checkTexts (I := fun _ => True) (fun _ _ _ _ _ _ _ htext => ⟨trivial, checkText_result htext⟩) trivial h).2

/-- Where all tags are different, every text has its result in the report. -/
theorem languages_conclude (s : Session β) (report : Report)
    (htags : ((results.map Prod.fst).map (·.profile.tag)).Nodup) :
    (s.conclude report results).1.languages =
      results.map fun x => (x.1.profile.tag, s.settle x.1 x.2.1 x.2.2) := by
  have hnodup : ((results.map fun x => (x.1.profile.tag, s.settle x.1 x.2.1 x.2.2)).map Prod.fst).Nodup := by
    rw [List.map_map] at htags ⊢
    exact htags
  rw [← ofMembers_of_nodup hnodup]
  simp only [conclude, List.map_map]
  rfl

/-- Behind the settings a run is drawn up and laid out, unless the service cannot be created. -/
theorem runChecks_cases (provider : Provider σ β Selection) (disk : Disk) (s : Session β) (w : σ) :
    (∃ e v, s.ensureBackend provider w = (.error e, s, v) ∧ s.runChecks provider disk w = (.error e, s, v) ∧
      ∀ p, e = .problem p → isLaunch p = false) ∨
    ∃ view r s' next v, Drawn provider disk s w view r s' next v ∧
      s.runChecks provider disk w = s'.complete disk view r next v := by
  rcases hcompile : s.project.snapshot.compile disk with ⟨root, warnings, view⟩
  unfold runChecks
  rw [hcompile]
  dsimp only
  cases root with
  | none => exact Or.inr ⟨view, _, _, _, _, .missing hcompile, rfl⟩
  | some root =>
    dsimp only
    rcases hservice : s.ensureBackend provider w with ⟨service, s', v⟩
    cases service with
    | ok b =>
      have hs' := eq_of_ensureBackend_ok hservice
      subst hs'
      exact Or.inr ⟨view, _, _, _, _, .checked hcompile hservice rfl, rfl⟩
    | error e =>
      have hs' := eq_of_ensureBackend_error hservice
      subst hs'
      cases e with
      | mishap m => exact Or.inl ⟨_, _, rfl, rfl, nofun⟩
      | problem p =>
        have hdrawn := Drawn.refused hcompile hservice
        dsimp only
        cases hkind : p.kind with
        | launch =>
          rw [refusedBy, isLaunch, hkind] at hdrawn
          exact Or.inr ⟨view, _, _, _, _, hdrawn, rfl⟩
        | configuration =>
          rw [refusedBy, isLaunch, hkind] at hdrawn
          exact Or.inr ⟨view, _, _, _, _, hdrawn, rfl⟩
        | general | connection | mapping =>
          have hother : isLaunch p = false := by simp [isLaunch, hkind]
          exact Or.inl ⟨_, _, rfl, rfl, fun _ he => by cases he; exact hother⟩

section

variable {s' : Session β} {e : Fault} {r : Report} {v' : σ}

theorem run_unsettled (h : s.begun.applyPending provider w = (.error e, mid, v)) :
    s.run provider disk w = (.error e, { mid with status := .error }, v) := by
  unfold begun at h
  unfold run
  dsimp only
  rw [h]

theorem run_raised (h : s.begun.applyPending provider w = (.ok (), mid, v))
    (hchecks : mid.runChecks provider disk v = (.error e, s', v')) :
    s.run provider disk w = (.error e, { s' with status := .error }, v') := by
  unfold begun at h
  unfold run
  dsimp only
  rw [h]
  dsimp only
  rw [hchecks]

theorem run_reported (h : s.begun.applyPending provider w = (.ok (), mid, v))
    (hchecks : mid.runChecks provider disk v = (.ok r, s', v')) : s.run provider disk w = (.ok r, s', v') := by
  unfold begun at h
  unfold run
  dsimp only
  rw [h]
  dsimp only
  rw [hchecks]

end

theorem run_course (provider : Provider σ β Selection) (disk : Disk) (s : Session β) (w : σ) :
    Course provider disk s w (s.run provider disk w).1 (s.run provider disk w).2.1 (s.run provider disk w).2.2 := by
  rcases hpending : s.begun.applyPending provider w with ⟨settled, mid, v⟩
  cases settled with
  | error e =>
    rw [run_unsettled hpending]
    exact .unsettled hpending
  | ok u =>
    obtain ⟨e, v', hservice, hchecks, -⟩ | ⟨view, r, s', next, v', hdrawn, hchecks⟩ := runChecks_cases provider disk mid v
    · rw [run_raised hpending hchecks]
      exact .unserved hpending hservice
    · unfold complete at hchecks
      cases hfinish : s'.finish disk ⟨r, view⟩ with
      | error m =>
        rw [hfinish] at hchecks
        rw [run_raised hpending hchecks]
        exact .unsorted hpending hdrawn hfinish
      | ok x =>
        obtain ⟨r', s''⟩ := x
        rw [hfinish] at hchecks
        rw [run_reported hpending hchecks]
        exact .reported hpending hdrawn hfinish

end Proofreader.Session

/-! ### Actions

Edits, new settings, runs and closing, in a world that changes by itself. -/

namespace Proofreader.Session

variable {σ β : Type}

/-- What can happen to a session; the world may also change by itself. -/
inductive Action (σ : Type) where
  | edit (f : Project → Project)
  | update (settings : Settings)
  | run (disk : Disk)
  | close
  | meanwhile (f : σ → σ)

/-- What an action gives, the session and the world behind it. -/
def act (provider : Provider σ β Selection) (s : Session β) (w : σ) :
    Action σ → Option (Except Fault Report) × Session β × σ
  | .edit f => (none, { s with project := f s.project }, w)
  | .update settings => (none, s.update settings, w)
  | .run disk =>
    let (out, s, w) := s.run provider disk w
    (some out, s, w)
  | .close =>
    let (s, w) := s.close provider w
    (none, s, w)
  | .meanwhile f => (none, s, f w)

/-- What the runs among some actions give, first one first. -/
def outcomes (provider : Provider σ β Selection) : List (Action σ) → Session β → σ → List (Except Fault Report)
  | [], _, _ => []
  | a :: r, s, w =>
    let (out, s, w) := s.act provider w a
    out.toList ++ outcomes provider r s w

/-- The session and the world behind some actions. -/
def after (provider : Provider σ β Selection) : List (Action σ) → Session β → σ → Session β × σ
  | [], s, w => (s, w)
  | a :: r, s, w =>
    let (_, s, w) := s.act provider w a
    after provider r s w

/-- What every action keeps is kept by a sequence of them. -/
theorem after_keeps {P : Session β → Prop} {provider : Provider σ β Selection}
    (hact : ∀ {s : Session β} {w : σ} {a : Action σ}, P s → P (s.act provider w a).2.1) {s : Session β} (h : P s)
    (actions : List (Action σ)) (w : σ) : P (after provider actions s w).1 := by
  induction actions generalizing s w with
  | nil => exact h
  | cons a r ih => exact ih (hact h) _

/-- The settings that the runs among some actions put in force. -/
def applied (provider : Provider σ β Selection) : List (Action σ) → Session β → σ → List Settings
  | [], _, _ => []
  | a :: r, s, w =>
    let (out, s', w) := s.act provider w a
    (if out.isSome then s.due else []) ++ applied provider r s' w

end Proofreader.Session
