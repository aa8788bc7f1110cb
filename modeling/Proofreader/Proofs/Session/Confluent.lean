import Proofreader.Proofs.Session.Pool

/-! Checking the languages at once is the same as checking them one after the other: in whatever order the steps come,
a run gives the same report, sends the same requests for each language and remembers the same. -/

namespace Proofreader

namespace Session

variable {σ β : Type}

/-- A way to check the texts of a run. -/
abbrev Checks (σ β : Type) := Pipeline → Provider σ β Selection → Cache → List CheckedText → Board σ β →
  List (CheckedText × LanguageResult × Option Problem) × Board σ β

/-- One text after the other. -/
def inTurn : Checks σ β := fun q provider last texts b =>
  let (results, c) := checkTexts q provider last texts ⟨b.next, 0, b.backend, b.world⟩
  (results, c.board)

/-- The part of a run behind the settings, with another way to check the texts. -/
def runChecksBy (check : Checks σ β) (provider : Provider σ β Selection) (disk : Disk) (s : Session β) (w : σ) :
    Except Fault Report × Session β × σ :=
  let (root, warnings, snapshot) := s.project.snapshot.compile disk
  let report : Report := ⟨s.runs, .idle, [], [], warnings, [], []⟩
  let done (s : Session β) (next : Cache) (report : Report) (w : σ) : Except Fault Report × Session β × σ :=
    match s.finish disk ⟨report, snapshot⟩ with
    | .error m => (.error (.mishap m), s, w)
    | .ok (report, s) => (.ok report, { s with cache := next }, w)
  match root with
  | none => done s s.cache { report with status := .error, errors := [mainMissing s.project.main] } w
  | some root =>
    let extraction := s.pipeline.extract root
    let report := { report with warnings := warnings ++ extraction.warnings }
    let texts := extraction.texts.filter (·.profile.resolved)
    match s.ensureBackend provider w with
    | (.error (.problem p), s, w) =>
      match p.kind with
      | .launch => done { s with launchFailure := some p.message } s.cache (s.failAll report texts p) w
      | .configuration => done s s.cache (s.failAll report texts p) w
      | _ => (.error (.problem p), s, w)
    | (.error e, s, w) => (.error e, s, w)
    | (.ok b, s, w) =>
      let (results, board) := check s.pipeline provider s.cache texts ⟨[], b, w⟩
      let (report, s) := s.conclude report results
      done { s with backend := some board.backend } board.next report board.world

/-- One run, with another way to check the texts. -/
def runBy (check : Checks σ β) (provider : Provider σ β Selection) (disk : Disk) (s : Session β) (w : σ) :
    Except Fault Report × Session β × σ :=
  let s := { s with runs := s.runs + 1, status := .checking }
  let failed (e : Fault) (s : Session β) (w : σ) : Except Fault Report × Session β × σ :=
    (.error e, { s with status := .error }, w)
  match s.applyPending provider w with
  | (.error e, s, w) => failed e s w
  | (.ok (), s, w) =>
    match s.runChecksBy check provider disk w with
    | (.error e, s, w) => failed e s w
    | got => got

variable {provider : Provider σ β Selection} {disk : Disk} {s : Session β} {w : σ}

theorem runChecksBy_inTurn (provider : Provider σ β Selection) (disk : Disk) (s : Session β) (w : σ) :
    s.runChecksBy inTurn provider disk w = s.runChecks provider disk w := by
  unfold runChecksBy runChecks
  rcases s.project.snapshot.compile disk with ⟨root, warnings, view⟩
  cases root with
  | none => rfl
  | some root => rfl

theorem runBy_inTurn (provider : Provider σ β Selection) (disk : Disk) (s : Session β) (w : σ) :
    s.runBy inTurn provider disk w = s.run provider disk w := by
  have hchecks : runChecksBy inTurn provider disk = runChecks provider disk :=
    funext fun s => funext fun w => runChecksBy_inTurn provider disk s w
  unfold runBy
  rw [hchecks]
  rfl

variable {asked : String → β → σ → List CacheKey} {answer : List CacheKey → Except Fault (List Finding)}

/-- Two runs have given the same, have asked the same for each language and have left the same behind. -/
structure Same (asked : String → β → σ → List CacheKey) (x y : Except Fault Report × Session β × σ) : Prop where
  given : x.1 = y.1
  session : x.2.1 = { y.2.1 with cache := x.2.1.cache, backend := x.2.1.backend }
  cache : ∀ key, x.2.1.cache.lookup key = y.2.1.cache.lookup key
  requests : ∀ tag, (x.2.1.backend.map fun b => asked tag b x.2.2) = y.2.1.backend.map fun b => asked tag b y.2.2

theorem Same.refl (x : Except Fault Report × Session β × σ) : Same asked x x := ⟨rfl, rfl, fun _ => rfl, fun _ => rfl⟩

theorem finish_backend (s : Session β) (disk : Disk) (d : Draw) (b : Option β) :
    finish { s with backend := b } disk d = (s.finish disk d).map fun x => (x.1, { x.2 with backend := b }) := by
  unfold finish
  dsimp only [bind, Except.bind]
  split
  · rfl
  · rfl

theorem same_runChecksBy {f g : Checks σ β} (disk : Disk) (w : σ)
    (h : ∀ root b v, (f s.pipeline provider s.cache (s.checkedTexts root) ⟨[], b, v⟩).1 =
        (g s.pipeline provider s.cache (s.checkedTexts root) ⟨[], b, v⟩).1 ∧
      ∀ tag, (f s.pipeline provider s.cache (s.checkedTexts root) ⟨[], b, v⟩).2.Agrees asked tag
        (g s.pipeline provider s.cache (s.checkedTexts root) ⟨[], b, v⟩).2) :
    Same asked (s.runChecksBy f provider disk w) (s.runChecksBy g provider disk w) := by
  unfold runChecksBy
  rcases s.project.snapshot.compile disk with ⟨root, warnings, view⟩
  cases root with
  | none => exact .refl _
  | some root =>
    dsimp only
    rcases hservice : s.ensureBackend provider w with ⟨service, s', v⟩
    cases service with
    | error e => 
      cases e with
      | problem p => exact .refl _
      | mishap m => exact .refl _
    | ok b =>
      obtain rfl := eq_of_ensureBackend_ok hservice
      obtain ⟨hresults, hboard⟩ := h root b v
      rcases hf : f s.pipeline provider s.cache (s.checkedTexts root) ⟨[], b, v⟩ with ⟨results, x⟩
      rcases hg : g s.pipeline provider s.cache (s.checkedTexts root) ⟨[], b, v⟩ with ⟨results', y⟩
      rw [hf, hg] at hresults hboard
      dsimp only at hresults hboard
      subst hresults
      rw [checkedTexts] at hf hg
      dsimp only
      rw [hf, hg]
      dsimp only
      rcases conclude { s with backend := some b } _ results with ⟨r, s'⟩
      dsimp only
      rw [finish_backend s' disk ⟨r, view⟩ (some x.backend), finish_backend s' disk ⟨r, view⟩ (some y.backend)]
      cases s'.finish disk ⟨r, view⟩ with
      | error m => exact ⟨rfl, rfl, fun _ => rfl, fun tag => congrArg some (hboard tag).asked⟩
      | ok z => exact ⟨rfl, rfl, fun key => (hboard key.tag).lookup key rfl, fun tag => congrArg some (hboard tag).asked⟩

theorem same_runBy {f g : Checks σ β} (disk : Disk) (w : σ) (hs : s.Regular)
    (h : ∀ (s : Session β), s.Regular → ∀ root b v,
      (f s.pipeline provider s.cache (s.checkedTexts root) ⟨[], b, v⟩).1 =
        (g s.pipeline provider s.cache (s.checkedTexts root) ⟨[], b, v⟩).1 ∧
      ∀ tag, (f s.pipeline provider s.cache (s.checkedTexts root) ⟨[], b, v⟩).2.Agrees asked tag
        (g s.pipeline provider s.cache (s.checkedTexts root) ⟨[], b, v⟩).2) :
    Same asked (s.runBy f provider disk w) (s.runBy g provider disk w) := by
  have hrun : ∀ check : Checks σ β, s.runBy check provider disk w = match s.begun.applyPending provider w with
    | (.error e, s, w) => (.error e, { s with status := .error }, w)
    | (.ok (), s, w) =>
      match s.runChecksBy check provider disk w with
      | (.error e, s, w) => (.error e, { s with status := .error }, w)
      | got => got := fun _ => rfl
  rw [hrun, hrun]
  rcases hpending : s.begun.applyPending provider w with ⟨settled, mid, v⟩
  cases settled with
  | error e => exact .refl _
  | ok u =>
    dsimp only
    have hsame : Same asked (mid.runChecksBy f provider disk v) (mid.runChecksBy g provider disk v) :=
      same_runChecksBy disk v (h mid (hs.applyPending hpending))
    rcases hf : mid.runChecksBy f provider disk v with ⟨out, s₁, w₁⟩
    rcases hg : mid.runChecksBy g provider disk v with ⟨out', s₂, w₂⟩
    rw [hf, hg] at hsame
    obtain ⟨hgiven, hsession, hcache, hrequests⟩ := hsame
    dsimp only at hgiven hsession hcache hrequests
    subst hgiven
    cases out with
    | ok r => exact ⟨rfl, hsession, hcache, hrequests⟩
    | error e =>
      refine ⟨rfl, ?_, hcache, hrequests⟩
      dsimp only
      rw [hsession]

/-- However many workers check the languages of a run, and in whatever order they look into the cache, send their requests
and note the answers, the run gives the same report, sends the same requests for each language in the same order and
leaves the same in the cache as a run that checks one language after the other. -/
theorem runBy_checkAtOnce_same (hs : s.Regular) (hp : provider.Private asked answer) (workers : Nat)
    (schedule : List Nat) (disk : Disk) (w : σ) :
    Same asked (s.runBy (checkAtOnce workers schedule) provider disk w) (s.run provider disk w) := by
  rw [← runBy_inTurn]
  refine same_runBy disk w hs fun s hs root b v => ?_
  have hnodup := hs.nodup_tags root
  have hmany : EachAlone asked s.pipeline provider s.cache (s.checkedTexts root) ⟨[], 0, b, v⟩
      (checkAtOnce workers schedule s.pipeline provider s.cache (s.checkedTexts root) ⟨[], b, v⟩).1
      (checkAtOnce workers schedule s.pipeline provider s.cache (s.checkedTexts root) ⟨[], b, v⟩).2 :=
    checkAtOnce_eachAlone hp hnodup workers schedule ⟨[], 0, b, v⟩
  exact hmany.agrees (checkTexts_eachAlone hp hnodup rfl)

end Session

/-- Three workers, of whom the last one is the fastest. -/
def weave : List Nat := [0, 2, 2, 1, 2, 1, 0]

theorem Session.runBy_checkAtOnce_same_woven :
    (wideSession.run (trippingService "de") threefoldDisk []).2.2.map (·.tag) = ["fr", "de", "en"] ∧
    (wideSession.runBy (checkAtOnce 3 weave) (trippingService "de") threefoldDisk []).2.2.map (·.tag) =
      ["en", "de", "fr"] ∧
    Same (fun tag _ w => requestsOf tag w) (wideSession.runBy (checkAtOnce 3 weave) (trippingService "de") threefoldDisk [])
      (wideSession.run (trippingService "de") threefoldDisk []) :=
  ⟨by decide +kernel, by decide +kernel,
    runBy_checkAtOnce_same (history_wide (trippingService "de")).regular (private_tripping "de") 3 weave threefoldDisk []⟩

end Proofreader
