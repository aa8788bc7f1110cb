import Proofreader.Proofs.Session.Fresh

/-! What a session keeps of settings that others have replaced: the main file and the root that they named, and nothing
else. Settings that name neither leave both where they are. -/

namespace Proofreader

namespace Settings

def main? (c : Settings) : Option String := c.main.filter (· ≠ "")

def root? (c : Settings) : Option String := c.root.filter (· ≠ "")

/-- These settings name again what earlier ones have named. A main file brings its own root with it. -/
def Overrides (c : Settings) (ds : List Settings) : Prop :=
  c.main? ≠ none ∨ ∀ d ∈ ds, d.main? = none ∧ (c.root? = none → d.root? = none)

end Settings

variable {σ β : Type} {provider : Provider σ β Selection} {s s' : Session β} {disk : Disk} {w w' : σ}
variable {p q : Project} {c d : Settings} {ds : List Settings}

/-- An editor changes nothing but its own texts. -/
theorem Project.Edited.eq (h : p.Edited q) : q = { p with shadows := q.shadows } := by
  cases h with
  | openFile hopen =>
    obtain ⟨file, -, hopen⟩ := exists_of_bind hopen
    split at hopen
    · cases hopen
      rfl
    · cases hopen
  | closeFile hclose =>
    obtain ⟨file, -, hclose⟩ := exists_of_bind hclose
    cases hclose
    rfl
  | change disk path changes =>
    unfold Project.change
    split
    · rfl
    · rfl

/-- An editor works the same wherever the main file is. -/
theorem Project.Edited.elsewhere (h : p.Edited q) (main root : FileId) :
    Project.Edited { p with main := main, root := root } { q with main := main, root := root } := by
  cases h with
  | @openFile _ path text hopen =>
    have hmoved : Project.openFile { p with main := main, root := root } path text =
        (p.openFile path text).map fun q => { q with main := main, root := root } := by
      unfold Project.openFile Project.idFor
      cases fileIdFor p.surroundings path with
      | error m => rfl
      | ok file =>
        dsimp only [bind, Except.bind]
        split
        · rfl
        · rfl
    exact .openFile (hmoved.trans (by rw [hopen]; rfl))
  | @closeFile _ path hclose =>
    have hmoved : Project.closeFile { p with main := main, root := root } path =
        (p.closeFile path).map fun q => { q with main := main, root := root } := by
      unfold Project.closeFile Project.idFor
      cases fileIdFor p.surroundings path with
      | error m => rfl
      | ok file => rfl
    exact .closeFile (hmoved.trans (by rw [hclose]; rfl))
  | change disk path changes =>
    have hmoved : (Project.change { p with main := main, root := root } disk path changes).1 =
        { (p.change disk path changes).1 with main := main, root := root } := by
      unfold Project.change Project.idFor
      cases fileIdFor p.surroundings path with
      | error m => rfl
      | ok file => rfl
    rw [← hmoved]
    exact .change disk path changes

@[simp] theorem Project.move_surroundings (p : Project) (main : String) (root : Option String) :
    (p.move main root).surroundings = p.surroundings := by
  unfold Project.move
  rfl

@[simp] theorem Project.move_shadows (p : Project) (main : String) (root : Option String) :
    (p.move main root).shadows = p.shadows := by
  unfold Project.move
  rfl

/-- A project stays where it is when its own main file is made the main file. -/
theorem Project.Reachable.main_move (hp : p.Reachable) (root : Option String) : (p.move p.main root).main = p.main := by
  have hmain := hp.sound.main
  change String.ofList (Path.resolve p.surroundings.working.toList (Path.join p.surroundings.working.toList p.main.toList)) =
    p.main
  rw [hmain.join, hmain.resolve, String.ofList_toList]

namespace Session

theorem moveProject_main {main : String} (h : c.main? = some main) (p : Project) :
    moveProject p c = p.move main c.root? := by
  rw [Settings.main?] at h
  rw [moveProject, h]
  rfl

theorem moveProject_root {root : String} (h : c.main? = none) (hroot : c.root? = some root) (p : Project) :
    moveProject p c = p.move p.main (some root) := by
  rw [Settings.main?] at h
  rw [Settings.root?] at hroot
  rw [moveProject, h, hroot]

theorem moveProject_none (h : c.main? = none) (hroot : c.root? = none) (p : Project) : moveProject p c = p := by
  rw [Settings.main?] at h
  rw [Settings.root?] at hroot
  rw [moveProject, h, hroot]

theorem moveProject_shadows (p : Project) (shadows : List (FileId × Shadow)) (c : Settings) :
    moveProject { p with shadows := shadows } c = { moveProject p c with shadows := shadows } := by
  unfold moveProject
  split
  · rfl
  · rfl
  · rfl

theorem foldl_moveProject_shadows (p : Project) (shadows : List (FileId × Shadow)) (ds : List Settings) :
    ds.foldl moveProject { p with shadows := shadows } = { ds.foldl moveProject p with shadows := shadows } := by
  induction ds generalizing p with
  | nil => rfl
  | cons d r ih => rw [List.foldl_cons, List.foldl_cons, moveProject_shadows, ih]

theorem reachable_foldl_moveProject (hp : p.Reachable) (ds : List Settings) : (ds.foldl moveProject p).Reachable := by
  induction ds generalizing p with
  | nil => exact hp
  | cons d r ih => exact ih (reachable_moveProject hp d)

/-- Nothing but the main file and the root is moved, and these only by settings that name one of them. -/
structure Moves (p q : Project) (ds : List Settings) : Prop where
  surroundings : q.surroundings = p.surroundings
  shadows : q.shadows = p.shadows
  main : (∀ d ∈ ds, d.main? = none) → q.main = p.main
  root : (∀ d ∈ ds, d.main? = none ∧ d.root? = none) → q.root = p.root

theorem moves_moveProject (hp : p.Reachable) (d : Settings) : Moves p (moveProject p d) [d] := by
  cases hmain : d.main? with
  | some main =>
    rw [moveProject_main hmain]
    refine ⟨p.move_surroundings _ _, p.move_shadows _ _, fun h => ?_, fun h => ?_⟩
    · rw [h d (List.mem_singleton_self d)] at hmain
      cases hmain
    · rw [(h d (List.mem_singleton_self d)).1] at hmain
      cases hmain
  | none =>
    cases hroot : d.root? with
    | some root =>
      rw [moveProject_root hmain hroot]
      refine ⟨p.move_surroundings _ _, p.move_shadows _ _, fun _ => hp.main_move _, fun h => ?_⟩
      rw [(h d (List.mem_singleton_self d)).2] at hroot
      cases hroot
    | none =>
      rw [moveProject_none hmain hroot]
      exact ⟨rfl, rfl, fun _ => rfl, fun _ => rfl⟩

theorem moves_foldl_moveProject (hp : p.Reachable) (ds : List Settings) : Moves p (ds.foldl moveProject p) ds := by
  induction ds generalizing p with
  | nil => exact ⟨rfl, rfl, fun _ => rfl, fun _ => rfl⟩
  | cons d r ih =>
    have hstep := moves_moveProject hp d
    have hrest := ih (reachable_moveProject hp d)
    rw [List.foldl_cons]
    refine ⟨hrest.surroundings.trans hstep.surroundings, hrest.shadows.trans hstep.shadows, fun h => ?_, fun h => ?_⟩
    · rw [List.forall_mem_cons] at h
      exact (hrest.main h.2).trans (hstep.main (by simpa using h.1))
    · rw [List.forall_mem_cons] at h
      exact (hrest.root h.2).trans (hstep.root (by simpa using h.1))

/-- What earlier settings have named is gone where the later ones name it again. -/
theorem moveProject_foldl (hp : p.Reachable) (h : c.Overrides ds) :
    moveProject (ds.foldl moveProject p) c = moveProject p c := by
  obtain ⟨hsurroundings, hshadows, hmain, hroot⟩ := moves_foldl_moveProject hp ds
  generalize ds.foldl moveProject p = q at *
  have hmove : ∀ main root, q.move main root = p.move main root := by
    intro main root
    unfold Project.move
    rw [hsurroundings, hshadows]
  cases hcmain : c.main? with
  | some name => rw [moveProject_main hcmain, moveProject_main hcmain, hmove]
  | none =>
    have hnone : ∀ d ∈ ds, d.main? = none ∧ (c.root? = none → d.root? = none) := h.resolve_left (not_not_intro hcmain)
    have hmain := hmain fun d hd => (hnone d hd).1
    cases hcroot : c.root? with
    | some name => rw [moveProject_root hcmain hcroot, moveProject_root hcmain hcroot, hmove, hmain]
    | none =>
      have hroot := hroot fun d hd => ⟨(hnone d hd).1, (hnone d hd).2 hcroot⟩
      rw [moveProject_none hcmain hcroot, moveProject_none hcmain hcroot]
      obtain ⟨at_, main, root, shadows⟩ := p
      obtain ⟨at', main', root', shadows'⟩ := q
      cases hsurroundings
      cases hshadows
      cases hmain
      cases hroot
      rfl

theorem due_update (hserves : provider.Serves c) (s : Session β) : (s.update c).due = [c] := by
  obtain ⟨q, selection, hq, -⟩ := hserves
  exact due_ok rfl hq

/-- The sessions that a history leads to in which these settings were put in force, first ones first. Services may
change and behave in any way. The project is the one that the session was created for, with the edits since. -/
inductive After (σ : Type) : Project → List Settings → Session β → Prop
  | create {p : Project} {c : Settings} {s : Session β} : p.Reachable → Session.create p c = .ok s → After σ p [] s
  | edit {p q : Project} {ds : List Settings} {s : Session β} : After σ p ds s → s.project.Edited q →
      After σ { p with shadows := q.shadows } ds { s with project := q }
  | update {p : Project} {ds : List Settings} {s : Session β} (c : Settings) : After σ p ds s → After σ p ds (s.update c)
  | run {p : Project} {ds : List Settings} {s : Session β} (provider : Provider σ β Selection) (disk : Disk) (w : σ) :
      After σ p ds s → After σ p (ds ++ s.due) (s.run provider disk w).2.1
  | close {p : Project} {ds : List Settings} {s : Session β} (provider : Provider σ β Selection) (w : σ) :
      After σ p ds s → After σ p ds (s.close provider w).1

theorem applyPending_project (provider : Provider σ β Selection) (s : Session β) (w : σ) :
    (s.applyPending provider w).2.1.project = s.due.foldl moveProject s.project := by
  unfold applyPending
  cases hpending : s.pending with
  | none =>
    rw [due_none hpending]
    rfl
  | some c =>
    dsimp only
    cases hc : Pipeline.ofSettings c with
    | error e =>
      rw [due_error hpending hc]
      rfl
    | ok q =>
      rw [due_ok hpending hc]
      rfl

/-- How a run leaves the project and what follows from the settings: as it found them once the settings were in force. -/
theorem Course.stands {out : Except Fault Report} (h : Course provider disk s w out s' w') :
    s'.project = (s.begun.applyPending provider w).2.1.project ∧
      s'.pipeline = (s.begun.applyPending provider w).2.1.pipeline := by
  cases h with
  | unsettled hpending =>
    rw [hpending]
    exact ⟨rfl, rfl⟩
  | unserved hpending _ =>
    rw [hpending]
    exact ⟨rfl, rfl⟩
  | unsorted hpending hdrawn =>
    rw [hpending]
    obtain ⟨hproject, hpipeline, -⟩ := hdrawn.unmoved
    exact ⟨hproject, hpipeline⟩
  | reported hpending hdrawn hfinish =>
    rw [hpending]
    obtain ⟨hproject, hpipeline, -⟩ := hdrawn.unmoved
    obtain ⟨rows, -, -, rfl⟩ := finish_ok hfinish
    exact ⟨hproject, hpipeline⟩

theorem After.regular (h : After σ p ds s) : s.Regular := by
  induction h with
  | @create p c s hp hs =>
    obtain ⟨q, hq, rfl⟩ := create_ok hs
    exact ⟨hp, c, hq⟩
  | edit _ hedit ih => exact ⟨ih.project.edited hedit, ih.pipeline⟩
  | update c _ ih => exact ⟨ih.project, ih.pipeline⟩
  | run provider disk w _ ih => exact ih.course (run_course provider disk _ w)
  | close provider w _ ih => exact ⟨ih.project, ih.pipeline⟩

/-- The project is where the settings have moved it, one after the other. -/
theorem After.project_eq (h : After σ p ds s) : s.project = ds.foldl moveProject p := by
  induction h with
  | create _ hs =>
    obtain ⟨q, hq, rfl⟩ := create_ok hs
    rfl
  | edit _ hedit ih =>
    dsimp only
    rw [foldl_moveProject_shadows, ← ih]
    exact hedit.eq
  | update c _ ih => exact ih
  | @run p ds s provider disk w _ ih =>
    rw [(run_course provider disk s w).stands.1, applyPending_project, List.foldl_append, ← ih]
    rfl
  | close provider w _ ih => exact ih

theorem After.reachable (h : After σ p ds s) : p.Reachable := by
  induction h with
  | create hp _ => exact hp
  | @edit p q ds s h hedit ih =>
    obtain ⟨hsurroundings, hshadows, -, -⟩ := moves_foldl_moveProject ih ds
    rw [← h.project_eq] at hsurroundings hshadows
    have hfrom : Project.mk s.project.surroundings p.main p.root s.project.shadows = p := by rw [hsurroundings, hshadows]
    have hto : { q with main := p.main, root := p.root } = { p with shadows := q.shadows } := by
      rw [hedit.eq, hsurroundings]
    have hp := hedit.elsewhere p.main p.root
    rw [hfrom, hto] at hp
    exact ih.edited hp
  | update c _ ih => exact ih
  | run provider disk w _ ih => exact ih
  | close provider w _ ih => exact ih

variable {answer : CacheKey → List Finding}

/-- A run that puts settings in force reports on the project as they move it, whatever went before. -/
theorem Regular.exists_run (hs : s.Regular) (hserves : provider.Serves c) (hp : provider.Answers answer)
    (hanswer : ∀ key, ∀ f ∈ answer key, f.Typed) (disk : Disk) (w : σ) :
    ∃ r s' w' q, (s.update c).run provider disk w = (.ok r, s', w') ∧ Pipeline.ofSettings c = .ok q ∧
      Tells answer disk (moveProject s.project c) q s.published r ∧ s'.project = moveProject s.project c ∧
      s'.pipeline = q := by
  obtain ⟨q, selection, hq, hselection, hcreate⟩ := id hserves
  have hsettings := Pipeline.settings_of_ofSettings hq
  have happly : ∃ mid v, (s.update c).begun.applyPending provider w = (.ok (), mid, v) ∧
      mid.Sound provider answer ∧ mid.project = moveProject s.project c ∧ mid.pipeline = q ∧
      mid.published = s.published := by
    unfold Session.applyPending begun update
    dsimp only
    rw [hq]
    refine ⟨_, _, rfl, ⟨reachable_moveProject hs.project c, ?_, ?_, fun _ h => (nomatch h), rfl, fun _ h => (nomatch h)⟩,
      rfl, rfl, rfl⟩
    · rw [hsettings, hq]
    · rwa [hsettings]
  obtain ⟨mid, v, hpending, hmid, hproject, hpipeline, hpublished⟩ := happly
  obtain ⟨r, s', w', hchecks, -, htells, -⟩ := hmid.exists_runChecks hp hanswer disk v
  rw [hproject, hpipeline, hpublished] at htells
  have hrun := run_reported hpending hchecks
  have hstands := (run_course provider disk (s.update c) w).stands
  rw [hrun, hpending] at hstands
  exact ⟨r, s', w', q, hrun, hq, htells, hstands.1.trans hproject, hstands.2.trans hpipeline⟩

/-- A run under new settings reports what it would in a session that has never had any others, on the project as all the
settings have moved it: main file and root are all that is left of the earlier ones, and nothing is where the new
settings name again what the earlier ones have named. -/
theorem run_after_settings (h : After σ p ds s) (hserves : provider.Serves c) (hp : provider.Answers answer)
    (hanswer : ∀ key, ∀ f ∈ answer key, f.Typed) (disk : Disk) (w w₀ : σ) :
    ∃ r s' w' fresh r₀ s₀ w₀', (s.update c).run provider disk w = (.ok r, s', w') ∧
      create ((ds ++ [c]).foldl moveProject p) c = .ok fresh ∧ fresh.run provider disk w₀ = (.ok r₀, s₀, w₀') ∧
      r.Agrees r₀ ∧ s'.project = (ds ++ [c]).foldl moveProject p ∧ s'.pipeline = fresh.pipeline ∧
      (c.Overrides ds → s'.project = moveProject p c) := by
  have hplace : moveProject s.project c = (ds ++ [c]).foldl moveProject p := by
    rw [h.project_eq, List.foldl_append]
    rfl
  obtain ⟨r, s', w', q, hrun, hq, htells, hproject, hpipeline⟩ := h.regular.exists_run hserves hp hanswer disk w
  obtain ⟨fresh, hfresh, hsound, hupcoming, hpublished⟩ :=
    exists_create (β := β) answer (reachable_foldl_moveProject h.reachable (ds ++ [c])) hserves
  obtain ⟨r₀, s₀, w₀', q₀, hrun₀, -, hq₀, htells₀, -⟩ := hsound.exists_run hp hanswer disk w₀
  rw [hupcoming] at hq₀ htells₀
  rw [hpublished] at htells₀
  rw [hplace] at htells hproject
  rw [hq] at hq₀
  cases hq₀
  refine ⟨r, s', w', fresh, r₀, s₀, w₀', hrun, hfresh, hrun₀, htells.agrees htells₀, hproject, ?_, fun hover => ?_⟩
  · obtain ⟨q', hq', rfl⟩ := create_ok hfresh
    rw [hq] at hq'
    cases hq'
    exact hpipeline
  · rw [hproject, List.foldl_append]
    exact moveProject_foldl h.reachable hover

end Session

def partSettings : Settings := { bundledSettings 20 with main := some "part" }

def mainSettings : Settings := { bundledSettings 6 with main := some "main" }

/-- A session that has been moved to the included file. -/
def strayedSession : Session Unit :=
  ((wideSession.update partSettings).run echo sharedDisk []).2.1

theorem after_wide : Session.After (List CacheKey) sharedProject [] (wideSession : Session Unit) :=
  .create reachable_shared create_wide

theorem serves_part : echo.Serves partSettings := ⟨_, _, rfl, rfl, fun w => ⟨(), w, rfl⟩⟩

theorem after_part : Session.After (List CacheKey) sharedProject [partSettings] strayedSession := by
  have hrun := (after_wide.update partSettings).run echo sharedDisk []
  rwa [Session.due_update serves_part] at hrun

theorem serves_main : echo.Serves mainSettings := ⟨_, _, rfl, rfl, fun w => ⟨(), w, rfl⟩⟩

theorem Session.run_after_settings_returned : mainSettings.Overrides [partSettings] ∧
    strayedSession.project.main = "/home/me/part" ∧
    ∃ r s' w' fresh r₀ s₀ w₀', (strayedSession.update mainSettings).run echo sharedDisk [] = (.ok r, s', w') ∧
      create (moveProject sharedProject mainSettings) mainSettings = .ok fresh ∧
      fresh.run echo sharedDisk [] = (.ok r₀, s₀, w₀') ∧ r.Agrees r₀ ∧ s'.project.main = "/home/me/main" := by
  have hover : mainSettings.Overrides [partSettings] := Or.inl (by decide)
  have hstrayed : strayedSession.project = moveProject sharedProject partSettings := after_part.project_eq
  refine ⟨hover, ?_, ?_⟩
  · rw [hstrayed]
    decide +kernel
  · obtain ⟨r, s', w', fresh, r₀, s₀, w₀', hrun, hfresh, hrun₀, hagrees, hproject, -, hkept⟩ :=
      run_after_settings after_part serves_main answers_echo (by simp [echoAnswer, typed_spelled]) sharedDisk [] []
    rw [← hproject, hkept hover] at hfresh
    refine ⟨r, s', w', fresh, r₀, s₀, w₀', hrun, hfresh, hrun₀, hagrees, ?_⟩
    rw [hkept hover]
    decide +kernel

/-- Settings that name no main file leave the session at the file that earlier ones named; without these it would be at
its own. -/
theorem Session.main_lingers :
    ((strayedSession.update (bundledSettings 20)).run echo sharedDisk []).2.1.project.main = "/home/me/part" ∧
      ((wideSession.update (bundledSettings 20)).run echo sharedDisk []).2.1.project.main = "/home/me/main" := by
  have hstrayed := ((after_part.update (bundledSettings 20)).run echo sharedDisk []).project_eq
  have hkept := ((after_wide.update (bundledSettings 20)).run echo sharedDisk []).project_eq
  rw [due_update serves_wide] at hstrayed hkept
  rw [hstrayed, hkept]
  exact ⟨by decide +kernel, by decide +kernel⟩

end Proofreader
