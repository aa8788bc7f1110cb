import Proofreader.Proofs.Extraction.Tags
import Proofreader.Proofs.Mapping.Located
import Proofreader.Proofs.Project.View
import Proofreader.Proofs.Session.Course

/-! Histories of a session: edits, new settings and runs in any order, over files and a service that may change in any
way between the runs. -/

namespace Proofreader

/-- One step of an editor. -/
inductive Project.Edited (p : Project) : Project → Prop
  | openFile {q : Project} {path : String} {text : Json} : p.openFile path text = .ok q → Edited p q
  | closeFile {q : Project} {path : String} : p.closeFile path = .ok q → Edited p q
  | change (disk : Disk) (path : String) (changes : Json) : Edited p (p.change disk path changes).1

theorem Project.Reachable.edited {p q : Project} (hp : p.Reachable) (h : p.Edited q) : q.Reachable := by
  cases h with
  | openFile h => exact hp.openFile h
  | closeFile h => exact hp.closeFile h
  | change disk path changes => exact hp.change disk path changes

theorem Pipeline.of_ofSettings {settings : Settings} {q : Pipeline} (h : ofSettings settings = .ok q) :
    q.settings = settings ∧
      q.resolver = .ofSettings settings.languages settings.dictionary settings.disabledChecks supportedCodes := by
  unfold ofSettings at h
  dsimp only at h
  split at h
  all_goals
    obtain ⟨selection, -, h⟩ := exists_of_bind h
    obtain ⟨table, -, h⟩ := exists_of_bind h
    obtain ⟨chunker, -, h⟩ := exists_of_bind h
    cases h
    exact ⟨rfl, rfl⟩

namespace Session

variable {σ β : Type} {provider : Provider σ β Selection} {log : List (Except Fault Report)} {s : Session β}

/-- The sessions that a history leads to, with what each run gave, first one first. -/
inductive History (provider : Provider σ β Selection) : List (Except Fault Report) → Session β → Prop
  | create {p : Project} {settings : Settings} {s : Session β} : p.Reachable → Session.create p settings = .ok s →
      History provider [] s
  | edit {log : List (Except Fault Report)} {s : Session β} {p : Project} : History provider log s →
      s.project.Edited p → History provider log { s with project := p }
  | update {log : List (Except Fault Report)} {s : Session β} (settings : Settings) : History provider log s →
      History provider log (s.update settings)
  | run {log : List (Except Fault Report)} {s : Session β} (disk : Disk) (w : σ) : History provider log s →
      History provider (log ++ [(s.run provider disk w).1]) (s.run provider disk w).2.1
  | close {log : List (Except Fault Report)} {s : Session β} (w : σ) : History provider log s →
      History provider log (s.close provider w).1

/-- The project has come about by edits, and everything else follows from some settings. -/
structure Regular (s : Session β) : Prop where
  project : s.project.Reachable
  pipeline : ∃ settings, Pipeline.ofSettings settings = .ok s.pipeline

theorem reachable_moveProject {p : Project} (hp : p.Reachable) (settings : Settings) :
    (moveProject p settings).Reachable := by
  unfold moveProject
  split
  · exact hp.move _ _
  · exact hp.move _ _
  · exact hp

variable {mid s' : Session β} {disk : Disk} {w v : σ} {view : Snapshot} {r : Report} {next : Cache}

/-- A report is drawn up on the files and the settings that the run has found. -/
theorem Drawn.unmoved (h : Drawn provider disk s w view r s' next v) :
    s'.project = s.project ∧ s'.pipeline = s.pipeline ∧ s'.published = s.published := by
  cases h with
  | missing => exact ⟨rfl, rfl, rfl⟩
  | refused =>
    unfold refusedBy
    split
    · exact ⟨rfl, rfl, rfl⟩
    · exact ⟨rfl, rfl, rfl⟩
  | checked => exact ⟨rfl, rfl, rfl⟩

theorem Drawn.exists_compile (h : Drawn provider disk s w view r s' next v) :
    ∃ root warnings, s.project.snapshot.compile disk = (root, warnings, view) := by
  cases h with
  | missing h => exact ⟨_, _, h⟩
  | refused h _ => exact ⟨_, _, h⟩
  | checked h _ _ => exact ⟨_, _, h⟩

namespace Regular

/-- No two texts of a run have the same tag. -/
theorem nodup_tags (hs : s.Regular) (root : Node) : ((s.checkedTexts root).map (·.profile.tag)).Nodup := by
  obtain ⟨settings, hq⟩ := hs.pipeline
  refine Proofreader.nodup_tags ?_
  rw [(Pipeline.of_ofSettings hq).2]
  exact Resolver.plain_ofSettings _ _ _

theorem applyPending (hs : s.Regular) (h : s.begun.applyPending provider w = (.ok (), mid, v)) : mid.Regular := by
  obtain rfl | ⟨settings, q, backend, hq, rfl⟩ := applyPending_ok h
  · exact ⟨hs.project, hs.pipeline⟩
  · exact ⟨reachable_moveProject hs.project settings, settings, hq⟩

theorem drawn (hs : s.Regular) (h : Drawn provider disk s w view r s' next v) : s'.Regular := by
  obtain ⟨hproject, hpipeline, -⟩ := h.unmoved
  exact ⟨hproject ▸ hs.project, hpipeline ▸ hs.pipeline⟩

theorem course {out : Except Fault Report} (hs : s.Regular) (h : Course provider disk s w out s' v) : s'.Regular := by
  cases h with
  | unsettled h =>
    rw [applyPending_error h]
    exact ⟨hs.project, hs.pipeline⟩
  | unserved h _ =>
    have hmid := hs.applyPending h
    exact ⟨hmid.project, hmid.pipeline⟩
  | unsorted h hdrawn =>
    have hdrawn' := (hs.applyPending h).drawn hdrawn
    exact ⟨hdrawn'.project, hdrawn'.pipeline⟩
  | reported h hdrawn hfinish =>
    have hdrawn' := (hs.applyPending h).drawn hdrawn
    obtain ⟨rows, -, -, rfl⟩ := finish_ok hfinish
    exact ⟨hdrawn'.project, hdrawn'.pipeline⟩

end Regular

theorem History.regular (h : History provider log s) : s.Regular := by
  induction h with
  | @create p settings s hp hs =>
    obtain ⟨q, hq, rfl⟩ := create_ok hs
    exact ⟨hp, settings, hq⟩
  | edit _ hedit ih => exact ⟨ih.project.edited hedit, ih.pipeline⟩
  | update settings _ ih => exact ⟨ih.project, ih.pipeline⟩
  | run disk w _ ih => exact ih.course (run_course provider disk _ w)
  | close w _ ih => exact ⟨ih.project, ih.pipeline⟩

end Session

/-- How many diagnostics a report has of each language, and its error. -/
def Report.verdicts (r : Report) : List (String × Nat × Option String) :=
  r.languages.map fun l => (l.1, l.2.diagnostics.length, l.2.error)

def bundledSettings (chunkSize : Int) : Settings := { Settings.standard with bundled := true, chunkSize := chunkSize }

def wideSession {β : Type} : Session β := (Session.create sharedProject (bundledSettings 20)).toOption.get rfl

theorem create_wide {β : Type} : Session.create sharedProject (bundledSettings 20) = .ok (wideSession (β := β)) := rfl

theorem history_wide {σ β : Type} (provider : Provider σ β Selection) : Session.History provider [] wideSession :=
  .create reachable_shared create_wide

end Proofreader
