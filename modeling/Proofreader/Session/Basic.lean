import Proofreader.Mapping
import Proofreader.Project.Snapshot
import Proofreader.Report
import Proofreader.Service.Selection
import Proofreader.Session.Cache

/-! Runs over an edited project. A run checks each language on its own; where that fails, it shows what
the last good check found. Settings change between runs only. -/

namespace Proofreader

/-- Everything that follows from the settings: the service to ask, the rules of style, the languages, the chunks and the
mapping. -/
structure Pipeline where
  settings : Settings
  /-- The service, or why there is none. -/
  selection : Except Problem Selection
  table : Table
  resolver : Resolver
  chunker : Chunker
  mapper : Mapper

namespace Pipeline

def ofSettings (s : Settings) : Except Fault Pipeline := do
  let selection ←
    match s.selection with
    | .ok selection => pure (.ok selection)
    | .error (.problem p) => pure (.error p)
    | .error e => throw e
  let table ← (Table.resolve s.spellcheck s.rules s.paginateLevel).mapError fun e => .problem e.problem
  let chunker ←
    (Chunker.ofInts s.chunkSize s.lookback s.boundaryWindow).mapError fun e => .mishap (.badValue e.message)
  pure
    { settings := s
      selection := selection
      table := table
      resolver := .ofSettings s.languages s.dictionary s.disabledChecks supportedCodes
      chunker := chunker
      mapper := .ofTokens table.tokens s.caseSensitive }

def extract (p : Pipeline) (root : Node) : Extraction := Proofreader.extract p.table p.resolver defaultLanguage root

/-- Whether both ask the same service. -/
def sameService (p q : Pipeline) : Bool :=
  match p.selection, q.selection with
  | .ok a, .ok b => a.same b
  | .error _, .error _ => true
  | _, _ => false

end Pipeline

structure Session (β : Type) where
  project : Project
  pipeline : Pipeline
  /-- Settings for the next run. -/
  pending : Option Settings
  backend : Option β
  /-- Why the service could not be started; nothing is tried again until the settings change. -/
  launchFailure : Option String
  cache : Cache
  /-- The last diagnostics of each language. -/
  previous : List (Language × List Diagnostic)
  /-- The files that were last shown with diagnostics. -/
  published : List FileId
  runs : Nat
  status : Status

/-- The report of a run with the files as it saw them. -/
structure Draw where
  report : Report
  snapshot : Snapshot

namespace Session

variable {σ β : Type}

def create (project : Project) (s : Settings) : Except Fault (Session β) :=
  (Pipeline.ofSettings s).map fun pipeline => ⟨project, pipeline, none, none, none, [], [], [], 0, .idle⟩

def update (s : Session β) (settings : Settings) : Session β := { s with pending := some settings }

def moveProject (p : Project) (settings : Settings) : Project :=
  match settings.main.filter (· ≠ ""), settings.root.filter (· ≠ "") with
  | some main, root => p.move main root
  | none, some root => p.move p.main root
  | none, none => p

/-- Puts new settings in force; a service that they do not select is closed. -/
def applyPending (provider : Provider σ β Selection) (s : Session β) (w : σ) :
    Except Fault Unit × Session β × σ :=
  match s.pending with
  | none => (.ok (), s, w)
  | some settings =>
    let s := { s with pending := none }
    match Pipeline.ofSettings settings with
    | .error e => (.error e, s, w)
    | .ok pipeline =>
      let (backend, w) :=
        if pipeline.sameService s.pipeline then (s.backend, w)
        else (none, s.backend.elim w fun b => provider.close b w)
      (.ok (),
        { s with
          pipeline := pipeline
          backend := backend
          launchFailure := none
          cache := []
          project := moveProject s.project settings }, w)

/-- The service in use, created if there is none. -/
def ensureBackend (provider : Provider σ β Selection) (s : Session β) (w : σ) :
    Except Fault β × Session β × σ :=
  match s.pipeline.selection with
  | .error p => (.error (.problem p), s, w)
  | .ok selection =>
    match s.launchFailure, s.backend with
    | some message, _ => (.error (.problem (.launch message (.int 0) [])), s, w)
    | none, some b => (.ok b, s, w)
    | none, none =>
      match provider.create selection s.pipeline.settings.defaultTag w with
      | (.ok b, w) => (.ok b, { s with backend := some b }, w)
      | (.error e, w) => (.error e, s, w)

/-- What was shown for a language last. -/
def lastGood (s : Session β) (t : CheckedText) : List Diagnostic := (s.previous.lookup t.key).getD []

/-- A failure of one language as a problem to report. -/
def checkProblem (tag : String) : Fault → Problem
  | .problem p => p
  | .mishap m => .general ("Checking " ++ tag ++ " failed: " ++ m.message) "CHECK_ERROR" []

/-- Checks one text. -/
def checkText (pipeline : Pipeline) (provider : Provider σ β Selection) (last : Cache) (t : CheckedText)
    (c : Checking σ β) : LanguageResult × Option Problem × Checking σ β :=
  let chunks := pipeline.chunker.split t.text (t.pageBreaks.map fun (b : Nat) => (b : Int))
  let (got, c) := checkChunks provider last t.profile chunks { c with calls := 0 }
  match got with
  | .error e => (⟨t.profile, [], 0, c.calls, none, false⟩, some (checkProblem t.profile.tag e), c)
  | .ok fs =>
    let splits := (hardSplits chunks).map fun (b : Nat) => (b : Int)
    match pipeline.mapper.map t splits fs with
    | .error m => (⟨t.profile, [], chunks.length, c.calls, none, false⟩, some (checkProblem t.profile.tag (.mishap m)), c)
    | .ok ds => (⟨t.profile, ds, chunks.length, c.calls, none, false⟩, none, c)

def checkTexts (pipeline : Pipeline) (provider : Provider σ β Selection) (last : Cache) :
    List CheckedText → Checking σ β → List (CheckedText × LanguageResult × Option Problem) × Checking σ β
  | [], c => ([], c)
  | t :: r, c =>
    let (result, problem, c) := checkText pipeline provider last t c
    let (results, c) := checkTexts pipeline provider last r c
    ((t, result, problem) :: results, c)

/-- The result to report: after a failure, the last good diagnostics. -/
def settle (s : Session β) (t : CheckedText) (result : LanguageResult) : Option Problem → LanguageResult
  | none => result
  | some p => { result with diagnostics := s.lastGood t, error := some p.message, stale := true }

/-- The diagnostics by file. The files of the document come first, then those that were shown with
diagnostics before. -/
def byFile (files : List FileId) (ds : List Diagnostic) : Except Mishap (List (FileId × List Diagnostic)) :=
  (files ++ ds.map (·.location.file)).eraseDups.mapM fun file =>
    (Diagnostic.sorted (ds.filter (·.location.file = file))).map fun ds => (file, ds)

def readSources (disk : Disk) : List FileId → Snapshot → List (FileId × Source)
  | [], _ => []
  | file :: r, v =>
    match v.source disk file with
    | (some source, v) => (file, source) :: readSources disk r v
    | (none, v) => readSources disk r v

/-- Completes a report with the diagnostics of its languages by file. -/
def finish (s : Session β) (disk : Disk) (d : Draw) : Except Mishap (Report × Session β) := do
  let ds := d.report.languages.flatMap (·.2.diagnostics)
  let files ← byFile (d.snapshot.files ++ s.published) ds
  return ({ d.report with diagnostics := files, sources := readSources disk (files.map (·.1)) d.snapshot },
    { s with published := (files.filter fun f => !f.2.isEmpty).map (·.1), status := d.report.status })

/-- A report of a service that cannot be used: every language keeps what was shown last. -/
def failAll (s : Session β) (report : Report) (texts : List CheckedText) (p : Problem) : Report :=
  { report with
    status := .error
    errors := [.obj p.members]
    languages := ofMembers (texts.map fun t =>
      (t.profile.tag, ⟨t.profile, s.lastGood t, 0, 0, some p.message, true⟩)) }

def mainMissing (main : FileId) : Json :=
  .obj [("code", .str "MAIN_NOT_FOUND"), ("message", .str ("Main file not readable: " ++ main))]

def isLaunch (p : Problem) : Bool := p.kind = .launch

/-- The report of checked languages, with what the session keeps of them. -/
def conclude (s : Session β) (report : Report)
    (results : List (CheckedText × LanguageResult × Option Problem)) : Report × Session β :=
  let settled := results.map fun (t, result, problem) => (t, s.settle t result problem)
  let problems := results.filterMap fun (t, _, problem) => problem.map fun p => (t.profile.tag, p)
  let launch := (problems.filter fun (_, p) => isLaunch p).getLast?.map fun (_, p) => p.message
  ({ report with
      status := if problems.isEmpty then .idle else .error
      errors := problems.map fun (tag, p) => .obj (("language", .str tag) :: p.members)
      languages := ofMembers (settled.map fun (t, result) => (t.profile.tag, result)) },
    { s with
      launchFailure := launch.or s.launchFailure
      previous := settled.map fun (t, result) => (t.key, result.diagnostics) })

/-- The part of a run behind the settings. -/
def runChecks (provider : Provider σ β Selection) (disk : Disk) (s : Session β) (w : σ) :
    Except Fault Report × Session β × σ :=
  let (root, warnings, snapshot) := s.project.snapshot.compile disk
  let report : Report := ⟨s.runs, .idle, [], [], warnings, [], []⟩
  let done (s : Session β) (next : Cache) (report : Report) (w : σ) : Except Fault Report × Session β × σ :=
    match s.finish disk ⟨report, snapshot⟩ with
    | .error m => (.error (.mishap m), s, w)
    | .ok (report, s) => (.ok report, { s with cache := next }, w)
  match root with
  | none => done s s.cache { report with status := .error, errors := [mainMissing s.project.main] } w
  | some root =>
    let extraction := s.pipeline.extract root
    let report := { report with warnings := warnings ++ extraction.warnings }
    let texts := extraction.texts.filter (·.profile.resolved)
    match s.ensureBackend provider w with
    | (.error (.problem p), s, w) =>
      match p.kind with
      | .launch => done { s with launchFailure := some p.message } s.cache (s.failAll report texts p) w
      | .configuration => done s s.cache (s.failAll report texts p) w
      | _ => (.error (.problem p), s, w)
    | (.error e, s, w) => (.error e, s, w)
    | (.ok b, s, w) =>
      let (results, c) := checkTexts s.pipeline provider s.cache texts ⟨[], 0, b, w⟩
      let (report, s) := s.conclude report results
      done { s with backend := some c.backend } c.next report c.world

/-- One run. What it raises leaves the status at error and what is known from earlier runs as it was. -/
def run (provider : Provider σ β Selection) (disk : Disk) (s : Session β) (w : σ) :
    Except Fault Report × Session β × σ :=
  let s := { s with runs := s.runs + 1, status := .checking }
  let failed (e : Fault) (s : Session β) (w : σ) : Except Fault Report × Session β × σ :=
    (.error e, { s with status := .error }, w)
  match s.applyPending provider w with
  | (.error e, s, w) => failed e s w
  | (.ok (), s, w) =>
    match s.runChecks provider disk w with
    | (.error e, s, w) => failed e s w
    | got => got

def close (provider : Provider σ β Selection) (s : Session β) (w : σ) : Session β × σ :=
  ({ s with backend := none }, s.backend.elim w fun b => provider.close b w)

end Session

end Proofreader
