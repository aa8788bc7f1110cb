import Proofreader.Proofs.Session.Dealings

/-! One service at a time. A session closes its service when other settings select another one, creates one when it has
none, and asks only the one that it has; where one could not be launched, it leaves services alone until settings are
put in force. -/

namespace Proofreader

variable {σ β : Type}

/-- From one point of a check to a later one the service was asked some more. Where it failed, `failed` holds of why. -/
structure Asks (c c' : Checking (σ × List Dealing) (Nat × β)) (failed : Fault → Prop) : Prop where
  service : c'.backend.1 = c.backend.1
  log : ∃ faults : List (Option Fault), c'.world.2 = c.world.2 ++ faults.map (.asked c.backend.1) ∧
    ∀ e, some e ∈ faults → failed e

namespace Asks

variable {c mid c' : Checking (σ × List Dealing) (Nat × β)} {P Q : Fault → Prop}

theorem still (hservice : c'.backend.1 = c.backend.1) (hlog : c'.world.2 = c.world.2) : Asks c c' P :=
  ⟨hservice, [], hlog.trans (List.append_nil _).symm, nofun⟩

theorem mono (h : Asks c c' P) (hPQ : ∀ e, P e → Q e) : Asks c c' Q := by
  obtain ⟨faults, hlog, hfaults⟩ := h.log
  exact ⟨h.service, faults, hlog, fun e he => hPQ e (hfaults e he)⟩

theorem trans (h : Asks c mid P) (h' : Asks mid c' P) : Asks c c' P := by
  obtain ⟨faults, hlog, hfaults⟩ := h.log
  obtain ⟨faults', hlog', hfaults'⟩ := h'.log
  refine ⟨h'.service.trans h.service, faults ++ faults', ?_, fun e he => ?_⟩
  · rw [hlog', hlog, h.service, List.map_append, List.append_assoc]
  · rcases List.mem_append.1 he with he | he
    · exact hfaults e he
    · exact hfaults' e he

theorem length_le (h : Asks c c' P) : c.world.2.length ≤ c'.world.2.length := by
  obtain ⟨faults, hlog, -⟩ := h.log
  rw [hlog, List.length_append]
  exact Nat.le_add_right _ _

end Asks

variable {provider : Provider σ β Selection} {last : Cache} {profile : Profile} {chunk : Chunk} {chunks : List Chunk}
variable {c c' : Checking (σ × List Dealing) (Nat × β)} {got : Except Fault (List Finding)}

theorem asks_checkChunk (h : checkChunk provider.watched last profile chunk c = (got, c')) :
    Asks c c' fun e => got = .error e := by
  unfold checkChunk Provider.watched at h
  dsimp only at h
  split at h
  · cases h
    exact .still rfl rfl
  · rcases hcheck : provider.check chunk.text profile c.backend.2 c.world.1 with ⟨answer, b, v⟩
    rw [hcheck] at h
    cases answer with
    | ok fs =>
      cases h
      exact ⟨rfl, [none], rfl, by simp⟩
    | error e =>
      cases h
      exact ⟨rfl, [some e], rfl, by simp⟩

/-- The check of a text ends with the first failure of its service. -/
theorem asks_checkChunks (h : checkChunks provider.watched last profile chunks c = (got, c')) :
    Asks c c' fun e => got = .error e := by
  induction chunks generalizing c c' got with
  | nil =>
    cases h
    exact .still rfl rfl
  | cons chunk r ih =>
    rw [checkChunks] at h
    rcases hchunk : checkChunk provider.watched last profile chunk c with ⟨one, mid⟩
    have hone := asks_checkChunk hchunk
    rw [hchunk] at h
    cases one with
    | error e =>
      cases h
      exact hone.mono fun e he => by cases he; rfl
    | ok fs =>
      dsimp only at h
      rcases hrest : checkChunks provider.watched last profile r mid with ⟨rest, stop⟩
      have hmore := ih hrest
      rw [hrest] at h
      have hquiet : Asks c mid fun e => got = .error e := hone.mono fun e he => by cases he
      cases rest with
      | error e =>
        cases h
        exact hquiet.trans (hmore.mono fun e he => by cases he; rfl)
      | ok gs =>
        cases h
        exact hquiet.trans (hmore.mono fun e he => by cases he)

/-- Where nothing is remembered, the service is asked about the first chunk. -/
theorem asked_checkChunks (hnext : c.next = []) (hchunks : chunks ≠ [])
    (h : checkChunks provider.watched [] profile chunks c = (got, c')) : c.world.2.length < c'.world.2.length := by
  obtain ⟨chunk, r, rfl⟩ := List.exists_cons_of_ne_nil hchunks
  rw [checkChunks] at h
  rcases hchunk : checkChunk provider.watched [] profile chunk c with ⟨one, mid⟩
  have hone : mid.world.2.length = c.world.2.length + 1 := by
    unfold checkChunk Provider.watched at hchunk
    rw [hnext] at hchunk
    dsimp only [List.lookup_nil, Option.or_none] at hchunk
    rcases hcheck : provider.check chunk.text profile c.backend.2 c.world.1 with ⟨answer, b, v⟩
    rw [hcheck] at hchunk
    cases answer with
    | ok fs =>
      cases hchunk
      exact List.length_append
    | error e =>
      cases hchunk
      exact List.length_append
  rw [hchunk] at h
  cases one with
  | error e =>
    cases h
    omega
  | ok fs =>
    dsimp only at h
    rcases hrest : checkChunks provider.watched [] profile r mid with ⟨rest, stop⟩
    have hmore := (asks_checkChunks hrest).length_le
    rw [hrest] at h
    cases rest with
    | error e =>
      cases h
      omega
    | ok gs =>
      cases h
      omega

/-- A run needs a service: the settings select one, and the main file can be read. -/
def Pipeline.Needs (q : Pipeline) (p : Project) (disk : Disk) : Prop :=
  q.selection.isOk = true ∧ (p.snapshot.compile disk).1.isSome = true

/-- There is something in the document to ask a service about. -/
def Pipeline.Wants (q : Pipeline) (p : Project) (disk : Disk) : Prop :=
  ∃ root, (p.snapshot.compile disk).1 = some root ∧
    ∃ t ∈ (q.extract root).texts.filter (·.profile.resolved), q.chunker.chunks t ≠ []

namespace Session

variable {pipeline : Pipeline} {t : CheckedText} {texts : List CheckedText} {result : LanguageResult}
variable {problem : Option Problem} {results : List (CheckedText × LanguageResult × Option Problem)}

theorem asks_checkText (h : checkText pipeline provider.watched last t c = (result, problem, c')) :
    Asks c c' fun e => problem = some (checkProblem t.profile.tag e) := by
  rcases hgot : checkChunks provider.watched last t.profile (pipeline.chunker.chunks t) { c with calls := 0 } with ⟨got, mid⟩
  have hstart : Asks c { c with calls := 0 } fun e => got = .error e := .still rfl rfl
  have hasks := hstart.trans (asks_checkChunks hgot)
  rw [checkText_eq hgot] at h
  cases h
  exact hasks.mono fun e he => by rw [he, Pipeline.judge]

/-- All texts of a run are checked by the one service; the failures are the problems of their texts. -/
theorem asks_checkTexts (h : checkTexts pipeline provider.watched last texts c = (results, c')) :
    Asks c c' fun e => ∃ x ∈ results, x.2.2 = some (checkProblem x.1.profile.tag e) := by
  induction texts generalizing c c' results with
  | nil =>
    cases h
    exact .still rfl rfl
  | cons t r ih =>
    rw [checkTexts] at h
    rcases htext : checkText pipeline provider.watched last t c with ⟨result, problem, mid⟩
    have hasks := asks_checkText htext
    rw [htext] at h
    dsimp only at h
    rcases hrest : checkTexts pipeline provider.watched last r mid with ⟨rest, stop⟩
    have hmore := ih hrest
    rw [hrest] at h
    cases h
    refine (hasks.mono fun e he => ⟨_, List.mem_cons_self, he⟩).trans (hmore.mono fun e he => ?_)
    obtain ⟨x, hx, hproblem⟩ := he
    exact ⟨x, List.mem_cons_of_mem _ hx, hproblem⟩

/-- Where nothing is remembered, the service is asked about the first text that has any chunks. -/
theorem asked_checkTexts (hnext : c.next = []) (ht : t ∈ texts) (hchunks : pipeline.chunker.chunks t ≠ [])
    (h : checkTexts pipeline provider.watched [] texts c = (results, c')) : c.world.2.length < c'.world.2.length := by
  induction texts generalizing c c' results with
  | nil => cases ht
  | cons t₀ r ih =>
    rw [checkTexts] at h
    rcases htext : checkText pipeline provider.watched [] t₀ c with ⟨result, problem, mid⟩
    have hasks := (asks_checkText htext).length_le
    rw [htext] at h
    dsimp only at h
    rcases hrest : checkTexts pipeline provider.watched [] r mid with ⟨rest, stop⟩
    have hmore := (asks_checkTexts hrest).length_le
    rw [hrest] at h
    cases h
    rcases hgot : checkChunks provider.watched [] t₀.profile (pipeline.chunker.chunks t₀) { c with calls := 0 }
      with ⟨got, behind⟩
    rw [checkText_eq hgot] at htext
    cases htext
    obtain hempty | hsome := eq_or_ne (pipeline.chunker.chunks t₀) []
    · rw [hempty] at hgot
      cases hgot
      have htail : t ∈ r := (List.mem_cons.1 ht).resolve_left fun he => hchunks (he ▸ hempty)
      exact hasks.trans_lt (ih hnext htail hrest)
    · have hasked : c.world.2.length < mid.world.2.length :=
        asked_checkChunks (c := { c with calls := 0 }) hnext hsome hgot
      exact hasked.trans_le hmore

/-- A launch that failed in the check of a text is remembered. -/
theorem launchFailure_conclude (s : Session β) (report : Report) {x : CheckedText × LanguageResult × Option Problem}
    (hx : x ∈ results) {p : Problem} (hp : x.2.2 = some p) (hlaunch : isLaunch p = true) :
    (s.conclude report results).2.launchFailure.isSome = true := by
  have hmem : (x.1.profile.tag, p) ∈ (results.filterMap fun x => x.2.2.map fun p => (x.1.profile.tag, p)).filter
      fun y => isLaunch y.2 := by
    refine List.mem_filter.2 ⟨List.mem_filterMap.2 ⟨x, hx, ?_⟩, hlaunch⟩
    rw [hp]
    rfl
  unfold conclude
  dsimp only
  rw [Option.isSome_or, Option.isSome_map, List.getLast?_eq_some_getLast (List.ne_nil_of_mem hmem)]
  rfl

/-- The service that is in use. -/
def live (s : Session (Nat × β)) : Option Nat := s.backend.map Prod.fst

/-- The settings that the next run puts in force select another service. -/
def replaces {γ : Type} (s : Session γ) : Bool := s.due.any fun c =>
  match Pipeline.ofSettings c with
  | .ok q => !q.sameService s.pipeline
  | .error _ => false

/-- The service that the next run finds once its settings are in force. -/
def found (s : Session (Nat × β)) : Option Nat := if s.replaces then none else s.live

/-- What the next run does with the service in use before it looks for one. -/
def closing (s : Session (Nat × β)) : List Dealing := if s.replaces then s.live.toList.map .closed else []

/-- A run goes on with the service that it finds. If it finds none it may create one, or try to. -/
inductive Making (log : List Dealing) : Option Nat → Option Nat → List Dealing → Prop
  | kept (live : Option Nat) : Making log live live []
  | made : Making log none (some log.length) [.made log.length]
  | refused (e : Fault) : Making log none none [.refused e]

/-- The questions to the service in use, if there is one. -/
def asking (live : Option Nat) (faults : List (Option Fault)) : List Dealing :=
  live.toList.flatMap fun n => faults.map (.asked n)

variable {s s' mid : Session (Nat × β)} {w v : σ × List Dealing} {disk : Disk}

/-- What the settings of a run do before anything else. If any are put in force, they close the service in use where they
select another one, a failed launch is forgotten and so is what was remembered. -/
structure Settles (s mid : Session (Nat × β)) (log log' : List Dealing) : Prop where
  written : log' = log ++ s.closing
  found : mid.live = s.found
  still : s.due = [] → mid.launchFailure = s.launchFailure
  afresh : ∀ c ∈ s.due, ∀ q, Pipeline.ofSettings c = .ok q →
    mid.pipeline = q ∧ mid.project = moveProject s.project c ∧ mid.launchFailure = none ∧ mid.cache = []

theorem settles_of_due (h : s.due = []) (hlive : mid.live = s.live) (hfailure : mid.launchFailure = s.launchFailure) :
    Settles s mid w.2 w.2 := by
  have hreplaces : s.replaces = false := by
    rw [replaces, h]
    rfl
  refine ⟨?_, ?_, fun _ => hfailure, fun c hc => ?_⟩
  · rw [closing, hreplaces]
    exact (List.append_nil _).symm
  · rw [found, hreplaces]
    exact hlive
  · rw [h] at hc
    cases hc

theorem settles_applyPending {settled : Except Fault Unit} (h : s.applyPending provider.watched w = (settled, mid, v)) :
    Settles s mid w.2 v.2 := by
  by_cases hdue : s.due = []
  · obtain happly | ⟨e, happly⟩ := applyPending_of_due hdue provider.watched w
    · rw [happly] at h
      cases h
      exact settles_of_due hdue rfl rfl
    · rw [happly] at h
      cases h
      exact settles_of_due hdue rfl rfl
  · obtain ⟨c, q, hpending, hc, hc'⟩ := exists_of_due hdue
    have hreplaces : s.replaces = !q.sameService s.pipeline := by
      rw [replaces, hc', List.any_cons, List.any_nil, hc, Bool.or_false]
    have hafresh : mid.pipeline = q → mid.project = moveProject s.project c → mid.launchFailure = none → mid.cache = [] →
        ∀ d ∈ s.due, ∀ q', Pipeline.ofSettings d = .ok q' →
          mid.pipeline = q' ∧ mid.project = moveProject s.project d ∧ mid.launchFailure = none ∧ mid.cache = [] := by
      intro hpipeline hproject hfailure hcache d hd q' hq'
      rw [hc', List.mem_singleton] at hd
      subst hd
      rw [hc] at hq'
      cases hq'
      exact ⟨hpipeline, hproject, hfailure, hcache⟩
    unfold applyPending at h
    rw [hpending] at h
    dsimp only at h
    rw [hc] at h
    dsimp only at h
    cases hsame : q.sameService s.pipeline with
    | true =>
      rw [hsame] at h hreplaces
      cases h
      refine ⟨?_, ?_, fun hnil => absurd hnil hdue, hafresh rfl rfl rfl rfl⟩
      · rw [closing, hreplaces]
        exact (List.append_nil _).symm
      · rw [found, hreplaces]
        rfl
    | false =>
      rw [hsame] at h hreplaces
      cases h
      refine ⟨?_, ?_, fun hnil => absurd hnil hdue, hafresh rfl rfl rfl rfl⟩
      · rw [closing, hreplaces, live]
        cases s.backend with
        | none => exact (List.append_nil _).symm
        | some b => rfl
      · rw [found, hreplaces]
        rfl

/-- How a run comes by a service, or why it has none. -/
inductive Ensured (s : Session (Nat × β)) (log : List Dealing) : Except Fault (Nat × β) → List Dealing → Prop
  | unselected {p : Problem} : s.pipeline.selection = .error p → Ensured s log (.error (.problem p)) []
  | broken {message : String} : s.launchFailure = some message →
      Ensured s log (.error (.problem (.launch message (.int 0) []))) []
  | kept {b : Nat × β} : s.launchFailure = none → s.backend = some b → Ensured s log (.ok b) []
  | made {b : β} : s.launchFailure = none → s.backend = none → Ensured s log (.ok (log.length, b)) [.made log.length]
  | refused {e : Fault} : s.launchFailure = none → s.backend = none → Ensured s log (.error e) [.refused e]

theorem ensureBackend_watched {service : Except Fault (Nat × β)} (h : s.ensureBackend provider.watched w = (service, mid, v)) :
    ∃ making, Ensured s w.2 service making ∧ v.2 = w.2 ++ making := by
  unfold ensureBackend at h
  cases hselection : s.pipeline.selection with
  | error p =>
    rw [hselection] at h
    cases h
    exact ⟨[], .unselected hselection, (List.append_nil _).symm⟩
  | ok selection =>
    rw [hselection] at h
    dsimp only at h
    cases hfailure : s.launchFailure with
    | some message =>
      rw [hfailure] at h
      cases h
      exact ⟨[], .broken hfailure, (List.append_nil _).symm⟩
    | none =>
      rw [hfailure] at h
      cases hbackend : s.backend with
      | some b =>
        rw [hbackend] at h
        cases h
        exact ⟨[], .kept hfailure hbackend, (List.append_nil _).symm⟩
      | none =>
        rw [hbackend] at h
        dsimp only [Provider.watched] at h
        rcases hcreate : provider.create selection s.pipeline.settings.defaultTag w.1 with ⟨created, v'⟩
        rw [hcreate] at h
        cases created with
        | ok b =>
          cases h
          exact ⟨_, .made hfailure hbackend, rfl⟩
        | error e =>
          cases h
          exact ⟨_, .refused hfailure hbackend, rfl⟩

theorem Ensured.of_ok {log made : List Dealing} {b : Nat × β} (h : Ensured s log (.ok b) made) :
    Making log s.live (some b.1) made ∧ (∀ d ∈ made, d.launchFails = false) ∧ s.launchFailure = none := by
  cases h with
  | kept hfailure hbackend =>
    refine ⟨?_, List.forall_mem_nil _, hfailure⟩
    rw [live, hbackend]
    exact .kept _
  | made hfailure hbackend =>
    refine ⟨?_, by simp [Dealing.launchFails], hfailure⟩
    rw [live, hbackend]
    exact .made

theorem Ensured.of_error {log made : List Dealing} {e : Fault} (h : Ensured s log (.error e) made) :
    Making log s.live s.live made ∧ (∀ d ∈ made, d = .refused e) ∧ (s.launchFailure.isSome = true → made = []) := by
  cases h with
  | unselected => exact ⟨.kept _, List.forall_mem_nil _, fun _ => rfl⟩
  | broken => exact ⟨.kept _, List.forall_mem_nil _, fun _ => rfl⟩
  | refused hfailure hbackend =>
    refine ⟨?_, by simp, fun hsome => ?_⟩
    · rw [live, hbackend]
      exact .refused e
    · rw [hfailure] at hsome
      cases hsome

/-- Where nothing stands against it, a run has a service already or creates one, or it tries to. -/
theorem Ensured.kept_or_ne_nil {log made : List Dealing} {service : Except Fault (Nat × β)}
    (h : Ensured s log service made) (hselection : s.pipeline.selection.isOk = true) (hfailure : s.launchFailure = none) :
    (∃ b, service = .ok b ∧ s.backend = some b) ∨ made ≠ [] := by
  cases h with
  | unselected h =>
    rw [h] at hselection
    cases hselection
  | broken h =>
    rw [hfailure] at h
    cases h
  | @kept b _ hbackend => exact .inl ⟨b, rfl, hbackend⟩
  | made => exact .inr (List.cons_ne_nil _ _)
  | refused => exact .inr (List.cons_ne_nil _ _)

theorem Ensured.ne_nil {log made : List Dealing} {service : Except Fault (Nat × β)} (h : Ensured s log service made)
    (hselection : s.pipeline.selection.isOk = true) (hfailure : s.launchFailure = none) (hlive : s.live = none) :
    made ≠ [] := by
  refine (h.kept_or_ne_nil hselection hfailure).resolve_left ?_
  rintro ⟨b, -, hbackend⟩
  rw [live, hbackend] at hlive
  cases hlive

/-- A run that has come by no service has tried to create one, unless something stands against it. -/
theorem Ensured.tried {log made : List Dealing} {e : Fault} (h : Ensured s log (.error e) made)
    (hselection : s.pipeline.selection.isOk = true) (hfailure : s.launchFailure = none) : made ≠ [] := by
  refine (h.kept_or_ne_nil hselection hfailure).resolve_left ?_
  rintro ⟨b, hservice, -⟩
  cases hservice

theorem asking_nil (live : Option Nat) : asking live [] = [] := by
  cases live with
  | none => rfl
  | some n => rfl

theorem asking_some (n : Nat) (faults : List (Option Fault)) : asking (some n) faults = faults.map (.asked n) :=
  List.append_nil _

/-- From the moment its settings are in force, a run comes by a service if it can and asks it. A launch that fails is
remembered; after one that has failed before, the run leaves services alone. -/
structure Attends (disk : Disk) (s s' : Session (Nat × β)) (log made : List Dealing) (faults : List (Option Fault)) :
    Prop where
  making : Making log s.live s'.live made
  launch : ∀ d ∈ made ++ asking s'.live faults, d.launchFails = true → s'.launchFailure.isSome = true
  broken : s.launchFailure.isSome = true → made ++ asking s'.live faults = [] ∧ s'.launchFailure.isSome = true
  tries : s.launchFailure = none → s.pipeline.Needs s.project disk → s.live = none → made ≠ []
  asks : s.launchFailure = none → s.cache = [] → s.pipeline.Needs s.project disk → s.pipeline.Wants s.project disk →
    made ++ asking s'.live faults ≠ []

/-- A service that cannot be created, in a way that nobody expects, is not a failed launch. -/
theorem attends_unserved (disk : Disk) {e : Fault} (h : s.ensureBackend provider.watched w = (.error e, s, v))
    (hother : ∀ p, e = .problem p → isLaunch p = false) :
    ∃ made, v.2 = w.2 ++ (made ++ asking s.live []) ∧ Attends disk s s w.2 made [] := by
  obtain ⟨made, hensured, hv⟩ := ensureBackend_watched h
  obtain ⟨hmaking, hrefused, hbroken⟩ := hensured.of_error
  refine ⟨made, ?_, ?_⟩
  · rw [asking_nil, List.append_nil, hv]
  · refine ⟨hmaking, fun d hd hlaunch => ?_, fun hsome => ?_, fun hfailure hneeds => hensured.ne_nil hneeds.1 hfailure,
      fun hfailure _ hneeds _ => ?_⟩
    · rw [asking_nil, List.append_nil] at hd
      rw [hrefused d hd] at hlaunch
      cases e with
      | mishap m => cases hlaunch
      | problem p =>
        have hp := hother p rfl
        rw [Dealing.launchFails, hp] at hlaunch
        cases hlaunch
    · rw [asking_nil, List.append_nil]
      exact ⟨hbroken hsome, hsome⟩
    · exact List.append_ne_nil_of_left_ne_nil (hensured.tried hneeds.1 hfailure) _

variable {view : Snapshot} {r : Report} {next : Cache}

theorem attends_drawn (h : Drawn provider.watched disk s w view r s' next v) :
    ∃ made faults, v.2 = w.2 ++ (made ++ asking s'.live faults) ∧ Attends disk s s' w.2 made faults ∧
      (s.launchFailure.isSome = true → r.status = .error) := by
  cases h with
  | missing hcompile =>
    have hunread : ¬s.pipeline.Needs s.project disk := by
      rintro ⟨-, hread⟩
      rw [hcompile] at hread
      cases hread
    refine ⟨[], [], ?_, ⟨.kept _, ?_, fun hsome => ⟨?_, hsome⟩, fun _ hneeds => absurd hneeds hunread,
      fun _ _ hneeds => absurd hneeds hunread⟩, fun _ => rfl⟩
    · rw [asking_nil]
      exact (List.append_nil _).symm
    · rw [asking_nil]
      exact List.forall_mem_nil _
    · rw [asking_nil]
      rfl
  | @refused root warnings _ p _ hcompile hservice =>
    obtain ⟨made, hensured, hv⟩ := ensureBackend_watched hservice
    obtain ⟨hmaking, hrefused, hbroken⟩ := hensured.of_error
    have hlive : (s.refusedBy p).live = s.live := by
      unfold refusedBy
      split
      · rfl
      · rfl
    have hkept : s.launchFailure.isSome = true → (s.refusedBy p).launchFailure.isSome = true := by
      intro hsome
      unfold refusedBy
      split
      · rfl
      · exact hsome
    refine ⟨made, [], ?_, ⟨?_, fun d hd hlaunch => ?_, fun hsome => ⟨?_, hkept hsome⟩,
      fun hfailure hneeds => hensured.ne_nil hneeds.1 hfailure,
      fun hfailure _ hneeds _ => List.append_ne_nil_of_left_ne_nil (hensured.tried hneeds.1 hfailure) _⟩, fun _ => rfl⟩
    · rw [asking_nil, List.append_nil, hv]
    · rw [hlive]
      exact hmaking
    · rw [asking_nil, List.append_nil] at hd
      rw [hrefused d hd] at hlaunch
      have hp : isLaunch p = true := hlaunch
      unfold refusedBy
      rw [if_pos hp]
      rfl
    · rw [asking_nil, List.append_nil]
      exact hbroken hsome
  | @checked root warnings _ b _ results c hcompile hservice hresults =>
    obtain ⟨made, hensured, hv⟩ := ensureBackend_watched hservice
    obtain ⟨hmaking, hquiet, hfailure⟩ := hensured.of_ok
    obtain ⟨hname, faults, hlog, hfaults⟩ := asks_checkTexts hresults
    have hlive : live { (s.conclude (s.docReport warnings root) results).2 with backend := some c.backend } = some b.1 :=
      congrArg some hname
    refine ⟨made, faults, ?_, ⟨?_, fun d hd hlaunch => ?_, fun hsome => ?_,
      fun hfailure hneeds => hensured.ne_nil hneeds.1 hfailure, fun _ hcache _ hwants => ?_⟩, fun hsome => ?_⟩
    · rw [hlive, asking_some, hlog, hv, List.append_assoc]
    · rw [hlive]
      exact hmaking
    · rw [hlive, asking_some] at hd
      rcases List.mem_append.1 hd with hd | hd
      · rw [hquiet d hd] at hlaunch
        cases hlaunch
      · obtain ⟨e, he, rfl⟩ := List.mem_map.1 hd
        obtain ⟨p, rfl, hp⟩ := Dealing.exists_of_launchFails hlaunch
        obtain ⟨x, hx, hproblem⟩ := hfaults _ he
        exact launchFailure_conclude s (s.docReport warnings root) hx hproblem hp
    · rw [hfailure] at hsome
      cases hsome
    · obtain ⟨root', hroot, t, ht, hchunks⟩ := hwants
      rw [hcompile] at hroot
      cases hroot
      rw [hcache] at hresults
      have hasked := asked_checkTexts rfl ht hchunks hresults
      refine List.append_ne_nil_of_right_ne_nil _ fun hnone => ?_
      rw [hlive, asking_some] at hnone
      rw [hlog, hnone, List.append_nil] at hasked
      exact lt_irrefl _ hasked
    · rw [hfailure] at hsome
      cases hsome

end Session

end Proofreader
