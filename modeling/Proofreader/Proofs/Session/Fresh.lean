import Proofreader.Proofs.Session.History
import Proofreader.Proofs.Session.Verdict

/-! A session reports after any history what a fresh one would: what it remembers saves work and shows nowhere. -/

namespace Proofreader

variable {σ β : Type}

/-- Everything follows from the settings, and the service that they select can be created. -/
def Provider.Serves (provider : Provider σ β Selection) (settings : Settings) : Prop :=
  ∃ q selection, Pipeline.ofSettings settings = .ok q ∧ q.selection = .ok selection ∧
    ∀ w, ∃ b w', provider.create selection settings.defaultTag w = (.ok b, w')

/-- The reports differ at most in the number of the run, in how often the service was asked and in clean files. -/
structure Report.Agrees (r fresh : Report) : Prop where
  status : r.status = fresh.status
  languages : r.languages.map (fun l => (l.1, l.2.uncounted)) = fresh.languages.map fun l => (l.1, l.2.uncounted)
  diagnostics : ∃ clean, r.diagnostics = fresh.diagnostics ++ clean ∧ ∀ x ∈ clean, x.2 = []
  warnings : r.warnings = fresh.warnings
  errors : r.errors = fresh.errors

theorem Pipeline.settings_of_ofSettings {settings : Settings} {q : Pipeline} (h : ofSettings settings = .ok q) :
    q.settings = settings := (of_ofSettings h).1

/-- What a report tells, the order by file apart. -/
def Report.outline (r : Report) : Status × List (String × LanguageResult) × List Warning × List Json :=
  (r.status, r.languages.map fun l => (l.1, l.2.uncounted), r.warnings, r.errors)

/-- What the answers of a service come to for a project. -/
def Pipeline.outline (q : Pipeline) (answer : CacheKey → List Finding) (disk : Disk) (p : Project) :
    Status × List (String × LanguageResult) × List Warning × List Json :=
  match p.snapshot.compile disk with
  | (none, warnings, _) => (.error, [], warnings, [Session.mainMissing p.main])
  | (some root, warnings, _) => (.idle, q.verdicts answer root, warnings ++ (q.extract root).warnings, [])

namespace Session

/-- The sessions that edits, changes of the settings and runs lead to, in a world that may change between them. -/
inductive Reachable (provider : Provider σ β Selection) : Session β → Prop
  | create {p : Project} {settings : Settings} {s : Session β} : p.Reachable → provider.Serves settings →
      Session.create p settings = .ok s → Reachable provider s
  | openFile {s : Session β} {p : Project} {path : String} {text : Json} : Reachable provider s →
      s.project.openFile path text = .ok p → Reachable provider { s with project := p }
  | closeFile {s : Session β} {p : Project} {path : String} : Reachable provider s →
      s.project.closeFile path = .ok p → Reachable provider { s with project := p }
  | change {s : Session β} (disk : Disk) (path : String) (changes : Json) : Reachable provider s →
      Reachable provider { s with project := (s.project.change disk path changes).1 }
  | update {s : Session β} {settings : Settings} : Reachable provider s → provider.Serves settings →
      Reachable provider (s.update settings)
  | run {s : Session β} (disk : Disk) (w : σ) : Reachable provider s → Reachable provider (s.run provider disk w).2.1
  | close {s : Session β} (w : σ) : Reachable provider s → Reachable provider (s.close provider w).1

/-- The project and the settings of the next run. -/
def upcoming (s : Session β) : Project × Settings :=
  match s.pending with
  | none => (s.project, s.pipeline.settings)
  | some settings => (moveProject s.project settings, settings)

structure Sound (provider : Provider σ β Selection) (answer : CacheKey → List Finding) (s : Session β) : Prop where
  project : s.project.Reachable
  pipeline : Pipeline.ofSettings s.pipeline.settings = .ok s.pipeline
  serves : provider.Serves s.pipeline.settings
  pending : ∀ settings, s.pending = some settings → provider.Serves settings
  launchFailure : s.launchFailure = none
  cache : s.cache.Exact answer

variable {provider : Provider σ β Selection} {answer : CacheKey → List Finding} {s : Session β} {disk : Disk}

theorem exists_create (answer : CacheKey → List Finding) {p : Project} {settings : Settings} (hp : p.Reachable)
    (hserves : provider.Serves settings) :
    ∃ s : Session β, create p settings = .ok s ∧ s.Sound provider answer ∧ s.upcoming = (p, settings) ∧
      s.published = [] := by
  obtain ⟨q, selection, hq, -⟩ := id hserves
  have hsettings := Pipeline.settings_of_ofSettings hq
  refine ⟨⟨p, q, none, none, none, [], [], [], 0, .idle⟩, ?_, ⟨hp, ?_, ?_, fun _ h => (nomatch h), rfl,
    fun _ h => (nomatch h)⟩, ?_, rfl⟩
  · rw [create, hq]
    rfl
  · rw [hsettings, hq]
  · rwa [hsettings]
  · rw [upcoming, hsettings]

namespace Sound

/-- Pending settings come into force without a failure. What they make unsure is forgotten. -/
theorem exists_applyPending (hs : s.Sound provider answer) (w : σ) :
    ∃ s' w', s.applyPending provider w = (.ok (), s', w') ∧ s'.Sound provider answer ∧
      (s'.project, s'.pipeline.settings) = s.upcoming ∧ s'.published = s.published ∧
      ∀ sent, provider.Records sent → sent w' = sent w := by
  unfold applyPending upcoming
  cases hpending : s.pending with
  | none => exact ⟨s, w, rfl, hs, rfl, rfl, fun _ _ => rfl⟩
  | some settings =>
    obtain ⟨q, selection, hq, -⟩ := id (hs.pending settings hpending)
    have hsettings := Pipeline.settings_of_ofSettings hq
    dsimp only
    rw [hq]
    refine ⟨_, _, rfl, ⟨reachable_moveProject hs.project settings, ?_, ?_, fun _ h => (nomatch h), rfl,
      fun _ h => (nomatch h)⟩, ?_, rfl, ?_⟩
    · rw [hsettings, hq]
    · rw [hsettings]
      exact hs.pending settings hpending
    · rw [hsettings]
    · intro sent hsent
      split
      · rfl
      · cases s.backend with
        | none => rfl
        | some b => exact hsent.close b w

theorem exists_ensureBackend (hs : s.Sound provider answer) (w : σ) :
    ∃ b w', s.ensureBackend provider w = (.ok b, { s with backend := some b }, w') ∧
      ∀ sent, provider.Records sent → sent w' = sent w := by
  obtain ⟨q, selection, hq, hselection, hcreate⟩ := hs.serves
  rw [hs.pipeline] at hq
  cases hq
  unfold ensureBackend
  cases hbackend : s.backend with
  | some b =>
    have hsame : { s with backend := some b } = s := by rw [← hbackend]
    refine ⟨b, w, ?_, fun _ _ => rfl⟩
    rw [hsame, hselection, hs.launchFailure]
  | none =>
    obtain ⟨b, w', hb⟩ := hcreate w
    rw [hselection, hs.launchFailure]
    dsimp only
    rw [hb]
    refine ⟨b, w', rfl, fun sent hsent => ?_⟩
    have := hsent.create selection s.pipeline.settings.defaultTag w
    rwa [hb] at this

end Sound

/-- The report tells what the answers of the service come to; beside the files of the document it lists `published`. -/
structure Tells (answer : CacheKey → List Finding) (disk : Disk) (p : Project) (q : Pipeline) (published : List FileId)
    (r : Report) : Prop where
  outline : r.outline = q.outline answer disk p
  files : ∀ d ∈ r.languages.flatMap (·.2.diagnostics), d.location.file ∈ (p.snapshot.compile disk).2.2.files
  rules : ∀ d ∈ r.languages.flatMap (·.2.diagnostics), d.rule.IsText
  diagnostics : byFile ((p.snapshot.compile disk).2.2.files ++ published) (r.languages.flatMap (·.2.diagnostics)) =
    .ok r.diagnostics

theorem Sound.exists_runChecks (hs : s.Sound provider answer) (hp : provider.Answers answer)
    (hanswer : ∀ key, ∀ f ∈ answer key, f.Typed) (disk : Disk) (w : σ) :
    ∃ r s' w', s.runChecks provider disk w = (.ok r, s', w') ∧ s'.Sound provider answer ∧
      Tells answer disk s.project s.pipeline s.published r ∧
      ∀ sent, provider.Records sent → ∃ new, sent w' = new ++ sent w ∧ new.Nodup := by
  rcases hcompile : s.project.snapshot.compile disk with ⟨root, warnings, view⟩
  unfold runChecks
  rw [hcompile]
  dsimp only
  cases root with
  | none =>
    dsimp only
    have hrows : ∀ files, byFile files [] = .ok ((files ++ []).eraseDups.map (row [])) := fun _ => byFile_eq nofun
    rw [finish_eq (hrows _)]
    refine ⟨_, _, _, rfl, ⟨hs.project, hs.pipeline, hs.serves, hs.pending, hs.launchFailure, hs.cache⟩,
      ⟨?_, nofun, nofun, ?_⟩, fun sent _ => ⟨[], rfl, .nil⟩⟩
    · rw [Pipeline.outline, hcompile]
      rfl
    · rw [hcompile]
      exact hrows _
  | some root =>
    have hmap := fun t ht => Pipeline.map_findings (q := s.pipeline) (t := t) hs.project hcompile ht hanswer
    obtain ⟨b, v, hb, hv⟩ := hs.exists_ensureBackend w
    obtain ⟨results, c, hcheck, hresults, hc⟩ :=
      Pipeline.exists_checkTexts (Checking.Sound.start provider answer 0 b v) hp hs.cache
        fun t ht => (hmap t (List.mem_of_mem_filter ht)).1
    have hlanguages := Pipeline.verdicts_eq hresults
    have hshown : ∀ d ∈ (ofMembers (results.map fun x => (x.1.profile.tag, x.2))).flatMap (·.2.diagnostics),
        d.location.file ∈ view.files ∧ d.rule.IsText := by
      rw [← flatMap_uncounted, hlanguages]
      intro d hd
      obtain ⟨t, ht, hd⟩ := Pipeline.shown_of_mem_verdicts hd
      exact (hmap t ht).2 d hd
    dsimp only
    rw [hb]
    dsimp only
    rw [hcheck]
    dsimp only
    rw [conclude_eq]
    dsimp only
    rw [finish_eq (byFile_eq fun d hd => (hshown d hd).2)]
    refine ⟨_, _, _, rfl, ⟨hs.project, hs.pipeline, hs.serves, hs.pending, hs.launchFailure, hc.exact⟩,
      ⟨?_, ?_, fun d hd => (hshown d hd).2, ?_⟩, fun sent hsent => ?_⟩
    · rw [Pipeline.outline, hcompile]
      dsimp only
      rw [← hlanguages]
      rfl
    · rw [hcompile]
      exact fun d hd => (hshown d hd).1
    · rw [hcompile]
      exact byFile_eq fun d hd => (hshown d hd).2
    · obtain ⟨new, hnew, hnodup, -⟩ := hc.once sent hsent
      exact ⟨new, hnew.trans (congrArg _ (hv sent hsent)), hnodup⟩

/-- A run ends with a report, which does not depend on what is remembered, and sends nothing twice. -/
theorem Sound.exists_run (hs : s.Sound provider answer) (hp : provider.Answers answer)
    (hanswer : ∀ key, ∀ f ∈ answer key, f.Typed) (disk : Disk) (w : σ) :
    ∃ r s' w' q, s.run provider disk w = (.ok r, s', w') ∧ s'.Sound provider answer ∧
      Pipeline.ofSettings s.upcoming.2 = .ok q ∧ Tells answer disk s.upcoming.1 q s.published r ∧
      ∀ sent, provider.Records sent → ∃ new, sent w' = new ++ sent w ∧ new.Nodup := by
  have hbegun : Sound provider answer { s with runs := s.runs + 1, status := .checking } :=
    ⟨hs.project, hs.pipeline, hs.serves, hs.pending, hs.launchFailure, hs.cache⟩
  obtain ⟨mid, v, hpending, hmid, hupcoming, hpublished, hv⟩ := hbegun.exists_applyPending w
  obtain ⟨r, s', w', hchecks, hs', htells, hsent⟩ := hmid.exists_runChecks hp hanswer disk v
  change (mid.project, mid.pipeline.settings) = s.upcoming at hupcoming
  refine ⟨r, s', w', mid.pipeline, ?_, hs', ?_, ?_, fun sent hrecords => ?_⟩
  · unfold run
    dsimp only
    rw [hpending]
    dsimp only
    rw [hchecks]
  · rw [← hupcoming]
    exact hmid.pipeline
  · rw [← hupcoming]
    rwa [hpublished] at htells
  · obtain ⟨new, hnew, hnodup⟩ := hsent sent hrecords
    exact ⟨new, hnew.trans (congrArg _ (hv sent hrecords)), hnodup⟩

theorem Tells.agrees {p : Project} {q : Pipeline} {published : List FileId} {r fresh : Report}
    (h : Tells answer disk p q published r) (hfresh : Tells answer disk p q [] fresh) : r.Agrees fresh := by
  have houtline := h.outline.trans hfresh.outline.symm
  simp only [Report.outline, Prod.mk.injEq] at houtline
  obtain ⟨status, languages, warnings, errors⟩ := houtline
  have hds : r.languages.flatMap (·.2.diagnostics) = fresh.languages.flatMap (·.2.diagnostics) := by
    rw [← flatMap_uncounted, languages, flatMap_uncounted]
  obtain ⟨rows, clean, hrows, hall, hclean⟩ := exists_byFile_append hfresh.rules hfresh.files published
  have hr := h.diagnostics
  have hr₀ := hfresh.diagnostics
  rw [hds, hall, Except.ok.injEq] at hr
  rw [List.append_nil, hrows, Except.ok.injEq] at hr₀
  refine ⟨status, languages, ⟨clean, ?_, hclean⟩, warnings, errors⟩
  rw [← hr, ← hr₀]

theorem Sound.serves_upcoming (hs : s.Sound provider answer) : provider.Serves s.upcoming.2 := by
  unfold upcoming
  split
  · exact hs.serves
  · next settings hpending => exact hs.pending settings hpending

theorem Sound.reachable_upcoming (hs : s.Sound provider answer) : s.upcoming.1.Reachable := by
  unfold upcoming
  split
  · exact hs.project
  · exact reachable_moveProject hs.project _

theorem Reachable.sound (hs : s.Reachable provider) (hp : provider.Answers answer)
    (hanswer : ∀ key, ∀ f ∈ answer key, f.Typed) : s.Sound provider answer := by
  induction hs with
  | create hproject hserves hs =>
    obtain ⟨s, hcreate, hsound, -⟩ := exists_create (β := β) answer hproject hserves
    rw [hs] at hcreate
    cases hcreate
    exact hsound
  | openFile _ hopen ih =>
    exact ⟨ih.project.openFile hopen, ih.pipeline, ih.serves, ih.pending, ih.launchFailure, ih.cache⟩
  | closeFile _ hclose ih =>
    exact ⟨ih.project.closeFile hclose, ih.pipeline, ih.serves, ih.pending, ih.launchFailure, ih.cache⟩
  | change disk path changes _ ih =>
    exact ⟨ih.project.change disk path changes, ih.pipeline, ih.serves, ih.pending, ih.launchFailure, ih.cache⟩
  | update _ hserves ih =>
    refine ⟨ih.project, ih.pipeline, ih.serves, fun settings h => ?_, ih.launchFailure, ih.cache⟩
    cases h
    exact hserves
  | run disk w _ ih =>
    obtain ⟨r, s', w', q, hrun, hs', -⟩ := ih.exists_run hp hanswer disk w
    rwa [hrun]
  | close w _ ih => exact ⟨ih.project, ih.pipeline, ih.serves, ih.pending, ih.launchFailure, ih.cache⟩

/-- After any history a run reports what a fresh session on the same project and settings would, and sends no key to the
service twice. -/
theorem exists_run_agrees (hs : s.Reachable provider) (hp : provider.Answers answer)
    (hanswer : ∀ key, ∀ f ∈ answer key, f.Typed) (disk : Disk) (w w₀ : σ) :
    ∃ r s' w' new r₀ s₀ w₀', s.run provider disk w = (.ok r, s', w') ∧
      Session.create s.upcoming.1 s.upcoming.2 = .ok new ∧ new.run provider disk w₀ = (.ok r₀, s₀, w₀') ∧
      r.Agrees r₀ ∧ ∀ sent, provider.Records sent → ∃ keys, sent w' = keys ++ sent w ∧ keys.Nodup := by
  have hsound := hs.sound hp hanswer
  obtain ⟨r, s', w', q, hrun, -, hq, htells, hsent⟩ := hsound.exists_run hp hanswer disk w
  obtain ⟨new, hcreate, hnew, hupcoming, hpublished⟩ :=
    exists_create (β := β) answer hsound.reachable_upcoming hsound.serves_upcoming
  obtain ⟨r₀, s₀, w₀', q₀, hrun₀, -, hq₀, htells₀, -⟩ := hnew.exists_run hp hanswer disk w₀
  rw [hupcoming] at hq₀ htells₀
  rw [hpublished] at htells₀
  rw [hq] at hq₀
  cases hq₀
  exact ⟨r, s', w', new, r₀, s₀, w₀', hrun, hcreate, hrun₀, htells.agrees htells₀, hsent⟩

end Session

/-- A service that finds fault with everything, in a world that only keeps what it was sent. -/
def echo : Provider (List CacheKey) Unit Selection where
  create _ _ w := (.ok (), w)
  check text profile _ w := (.ok [spelled 0 text.length], (), profile.cacheKey text :: w)
  close _ w := w

def echoAnswer (key : CacheKey) : List Finding := [spelled 0 key.text.length]

theorem serves_narrow : echo.Serves (bundledSettings 6) := ⟨_, _, rfl, rfl, fun w => ⟨(), w, rfl⟩⟩

theorem serves_wide : echo.Serves (bundledSettings 20) := ⟨_, _, rfl, rfl, fun w => ⟨(), w, rfl⟩⟩

def narrowSession : Session Unit := (Session.create sharedProject (bundledSettings 6)).toOption.get rfl

/-- After a run, an edit of the included file and new settings. -/
def editedSession : Session Unit :=
  let s := (narrowSession.run echo sharedDisk []).2.1
  let edit : Json := .arr [.obj [("text", .str "Two _more_ parts.")]]
  Session.update { s with project := (s.project.change sharedDisk "part" edit).1 } (bundledSettings 20)

theorem reachable_edited : editedSession.Reachable echo :=
  .update (.change sharedDisk "part" _ (.run sharedDisk [] (.create reachable_shared serves_narrow rfl))) serves_wide

theorem answers_echo : echo.Answers echoAnswer := fun _ _ _ _ => ⟨(), _, rfl⟩

theorem records_echo : echo.Records id := ⟨fun _ _ _ => rfl, fun _ _ _ _ => rfl, fun _ _ => rfl⟩

theorem Session.exists_run_agrees_edited : editedSession.upcoming.2.chunkSize = 20 ∧
    ∃ r s' w' new r₀ s₀ w₀', editedSession.run echo sharedDisk [] = (.ok r, s', w') ∧
      create editedSession.upcoming.1 editedSession.upcoming.2 = .ok new ∧
      new.run echo sharedDisk [] = (.ok r₀, s₀, w₀') ∧ r.Agrees r₀ ∧ w'.Nodup := by
  refine ⟨rfl, ?_⟩
  obtain ⟨r, s', w', new, r₀, s₀, w₀', hrun, hnew, hrun₀, hagrees, hsent⟩ :=
    exists_run_agrees reachable_edited answers_echo (by simp [echoAnswer, typed_spelled]) sharedDisk [] []
  obtain ⟨keys, hkeys, hnodup⟩ := hsent id records_echo
  rw [id, id, List.append_nil] at hkeys
  exact ⟨r, s', w', new, r₀, s₀, w₀', hrun, hnew, hrun₀, hagrees, hkeys ▸ hnodup⟩

end Proofreader
