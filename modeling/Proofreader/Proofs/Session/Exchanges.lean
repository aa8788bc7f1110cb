import Proofreader.Proofs.Session.Memory
import Proofreader.Proofs.Session.Refinement
import Proofreader.Proofs.Session.Typed

/-! What a run sends, written down with whether the service had an answer. Nothing that is remembered is sent. What is
answered is remembered, and what was remembered stays so as long as no chunk in front of it fails. -/

namespace Proofreader

variable {σ β ι : Type}

/-- A chunk that was sent, and whether there was an answer. -/
structure Exchange where
  key : CacheKey
  answered : Bool
deriving DecidableEq

/-- The same service, with a log of what is sent to it. -/
def Provider.recorded (provider : Provider σ β ι) : Provider (σ × List Exchange) β ι where
  create i tag w :=
    let (created, v) := provider.create i tag w.1
    (created, v, w.2)
  check text profile b w :=
    let (answer, b', v) := provider.check text profile b w.1
    (answer, b', v, w.2 ++ [⟨profile.cacheKey text, answer.isOk⟩])
  close b w := (provider.close b w.1, w.2)

section

variable {provider : Provider σ β ι} {w : σ × List Exchange} {v : σ}

theorem recorded_create {i : ι} {tag : String} {created : Except Fault β} (h : provider.create i tag w.1 = (created, v)) :
    provider.recorded.create i tag w = (created, v, w.2) := by
  unfold Provider.recorded
  simp only [h]

theorem recorded_check {text : Text} {profile : Profile} {b b' : β} {answer : Except Fault (List Finding)}
    (h : provider.check text profile b w.1 = (answer, b', v)) :
    provider.recorded.check text profile b w = (answer, b', v, w.2 ++ [⟨profile.cacheKey text, answer.isOk⟩]) := by
  unfold Provider.recorded
  simp only [h]

theorem Provider.Typed.recorded (h : provider.Typed) : provider.recorded.Typed := by
  intro text profile b w fs b' w' hcheck
  rcases hgiven : provider.check text profile b w.1 with ⟨answer, b'', v⟩
  rw [recorded_check hgiven] at hcheck
  cases hcheck
  exact h text profile b w.1 fs b' v hgiven

/-- A log does not change what a service does. -/
theorem refines_recorded (provider : Provider σ β ι) : provider.recorded.Refines Prod.fst id provider where
  create i tag w := by
    rcases hcreate : provider.create i tag w.1 with ⟨created, v⟩
    rw [recorded_create hcreate]
    cases created with
    | ok b => rfl
    | error e => rfl
  check text profile b w := by
    rcases hcheck : provider.check text profile b w.1 with ⟨answer, b', v⟩
    rw [recorded_check hcheck]
    exact hcheck
  close _ _ := rfl

/-- What stands in a log before does not matter. -/
theorem refines_prefixed (provider : Provider σ β ι) (log : List Exchange) :
    provider.recorded.Refines (Prod.map id (log ++ ·)) id provider.recorded where
  create i tag w := by
    rcases hcreate : provider.create i tag w.1 with ⟨created, v⟩
    rw [recorded_create hcreate, recorded_create (w := Prod.map id (log ++ ·) w) hcreate]
    cases created with
    | ok b => rfl
    | error e => rfl
  check text profile b w := by
    rcases hcheck : provider.check text profile b w.1 with ⟨answer, b', v⟩
    rw [recorded_check hcheck]
    refine (recorded_check (w := Prod.map id (log ++ ·) w) hcheck).trans ?_
    rw [Prod.map_snd, List.append_assoc]
    rfl
  close _ _ := rfl

end

def Cache.Knows (c : Cache) (key : CacheKey) : Prop := key ∈ c.map Prod.fst

/-- From one point of a check to a later one `new` was sent. -/
structure Sends (last : Cache) (c c' : Checking (σ × List Exchange) β) (new : List Exchange) : Prop where
  log : c'.world.2 = c.world.2 ++ new
  unknown : ∀ x ∈ new, ¬ last.Knows x.key
  answered : ∀ x ∈ new, x.answered = true → c'.next.Knows x.key
  grows : ∀ key, c.next.Knows key → c'.next.Knows key

namespace Sends

variable {last : Cache} {c mid c' : Checking (σ × List Exchange) β} {new more : List Exchange}

theorem still (hlog : c'.world.2 = c.world.2) (hgrows : ∀ key, c.next.Knows key → c'.next.Knows key) : Sends last c c' [] :=
  ⟨hlog.trans (List.append_nil _).symm, List.forall_mem_nil _, List.forall_mem_nil _, hgrows⟩

theorem trans (h : Sends last c mid new) (h' : Sends last mid c' more) : Sends last c c' (new ++ more) := by
  refine ⟨?_, fun x hx => ?_, fun x hx hanswered => ?_, fun key hkey => h'.grows key (h.grows key hkey)⟩
  · rw [h'.log, h.log, List.append_assoc]
  · rcases List.mem_append.1 hx with hx | hx
    · exact h.unknown x hx
    · exact h'.unknown x hx
  · rcases List.mem_append.1 hx with hx | hx
    · exact h'.grows _ (h.answered x hx hanswered)
    · exact h'.answered x hx hanswered

end Sends

/-- All of the keys are known up to the first one that failed. -/
def Reaches (next : Cache) (new : List Exchange) (keys : List CacheKey) : Prop :=
  ∃ done rest, keys = done ++ rest ∧ (∀ key ∈ done, next.Knows key) ∧ ∀ key ∈ rest.head?, ⟨key, false⟩ ∈ new

namespace Reaches

variable {next next' : Cache} {new new' : List Exchange} {keys : List CacheKey}

theorem mono (h : Reaches next new keys) (hnext : ∀ key, next.Knows key → next'.Knows key) (hnew : new ⊆ new') :
    Reaches next' new' keys := by
  obtain ⟨done, rest, hkeys, hdone, hrest⟩ := h
  exact ⟨done, rest, hkeys, fun key hkey => hnext key (hdone key hkey), fun key hkey => hnew (hrest key hkey)⟩

theorem cons (h : Reaches next new keys) {key : CacheKey} (hkey : next.Knows key) : Reaches next new (key :: keys) := by
  obtain ⟨done, rest, rfl, hdone, hrest⟩ := h
  exact ⟨key :: done, rest, rfl, List.forall_mem_cons.2 ⟨hkey, hdone⟩, hrest⟩

/-- Where all was answered, all is known. -/
theorem all (h : Reaches next new keys) (hnew : ∀ x ∈ new, x.answered = true) : ∀ key ∈ keys, next.Knows key := by
  obtain ⟨done, rest, rfl, hdone, hrest⟩ := h
  cases rest with
  | nil =>
    rw [List.append_nil]
    exact hdone
  | cons key r =>
    have hfailed := hnew _ (hrest key rfl)
    cases hfailed

/-- A key is known if neither it nor one in front of it failed. -/
theorem knows (h : Reaches next new keys) {key : CacheKey} (hkey : key ∈ keys) (hasked : ⟨key, false⟩ ∉ new)
    (hfront : ∀ k ∈ keys.takeWhile (· ≠ key), ⟨k, false⟩ ∉ new) : next.Knows key := by
  obtain ⟨done, rest, rfl, hdone, hrest⟩ := h
  by_contra hunknown
  have hapart : ∀ k ∈ done, decide (k ≠ key) = true := by
    intro k hk
    refine decide_eq_true ?_
    rintro rfl
    exact hunknown (hdone k hk)
  cases rest with
  | nil =>
    rw [List.append_nil] at hkey
    exact hunknown (hdone key hkey)
  | cons k r =>
    have hfailed : ⟨k, false⟩ ∈ new := hrest k rfl
    obtain rfl | hne := eq_or_ne k key
    · exact hasked hfailed
    · refine hfront k ?_ hfailed
      rw [List.takeWhile_append_of_pos hapart]
      refine List.mem_append_right _ ?_
      rw [List.takeWhile_cons_of_pos (by simpa using hne)]
      exact List.mem_cons_self

end Reaches

section

variable {provider : Provider σ β ι} {last : Cache} {profile : Profile} {chunk : Chunk} {chunks : List Chunk}
variable {c c' : Checking (σ × List Exchange) β} {got : Except Fault (List Finding)}

theorem sends_checkChunk (h : checkChunk provider.recorded last profile chunk c = (got, c')) :
    ∃ new, Sends last c c' new ∧
      (∀ fs, got = .ok fs → c'.next.Knows (profile.cacheKey chunk.text) ∧ ∀ x ∈ new, x.answered = true) ∧
      ∀ e, got = .error e → ⟨profile.cacheKey chunk.text, false⟩ ∈ new := by
  unfold checkChunk at h
  dsimp only at h
  split at h
  · cases h
    refine ⟨[], .still rfl fun _ hkey => ?_, fun _ _ => ⟨List.mem_cons_self, List.forall_mem_nil _⟩, nofun⟩
    exact List.mem_cons_of_mem _ hkey
  · next hunknown =>
    have hlast : ¬ last.Knows (profile.cacheKey chunk.text) :=
      not_mem_keys_of_lookup (Option.or_eq_none_iff.1 hunknown).2
    rcases hcheck : provider.check chunk.text profile c.backend c.world.1 with ⟨answer, b, v⟩
    rw [recorded_check hcheck] at h
    cases answer with
    | ok fs =>
      cases h
      refine ⟨[⟨profile.cacheKey chunk.text, true⟩], ⟨rfl, ?_, ?_, fun _ hkey => List.mem_cons_of_mem _ hkey⟩, ?_, nofun⟩
      · exact List.forall_mem_singleton.2 hlast
      · exact List.forall_mem_singleton.2 fun _ => List.mem_cons_self
      · exact fun _ _ => ⟨List.mem_cons_self, List.forall_mem_singleton.2 rfl⟩
    | error e =>
      cases h
      refine ⟨[⟨profile.cacheKey chunk.text, false⟩], ⟨rfl, ?_, ?_, fun _ hkey => hkey⟩, nofun, ?_⟩
      · exact List.forall_mem_singleton.2 hlast
      · exact List.forall_mem_singleton.2 nofun
      · exact fun _ _ => List.mem_singleton_self _

/-- The check of a text ends at the first chunk that fails. -/
theorem sends_checkChunks (h : checkChunks provider.recorded last profile chunks c = (got, c')) :
    ∃ new, Sends last c c' new ∧ Reaches c'.next new (chunks.map fun chunk => profile.cacheKey chunk.text) ∧
      ∀ fs, got = .ok fs → ∀ x ∈ new, x.answered = true := by
  induction chunks generalizing c c' got with
  | nil =>
    cases h
    refine ⟨[], .still rfl fun _ hkey => hkey, ⟨[], [], rfl, List.forall_mem_nil _, ?_⟩, fun _ _ => List.forall_mem_nil _⟩
    exact fun key hkey => by cases hkey
  | cons chunk r ih =>
    rw [checkChunks] at h
    rcases hchunk : checkChunk provider.recorded last profile chunk c with ⟨one, mid⟩
    obtain ⟨new, hsends, hok, herror⟩ := sends_checkChunk hchunk
    rw [hchunk] at h
    cases one with
    | error e =>
      cases h
      refine ⟨new, hsends, ⟨[], _, rfl, List.forall_mem_nil _, fun key hkey => ?_⟩, fun fs hfs => by cases hfs⟩
      cases hkey
      exact herror e rfl
    | ok fs =>
      obtain ⟨hknown, hanswered⟩ := hok fs rfl
      dsimp only at h
      rcases hrest : checkChunks provider.recorded last profile r mid with ⟨rest, stop⟩
      obtain ⟨more, hmore, hreaches, hquiet⟩ := ih hrest
      have hall : Reaches stop.next (new ++ more) ((chunk :: r).map fun chunk => profile.cacheKey chunk.text) :=
        (hreaches.mono (fun _ hkey => hkey) (List.subset_append_right _ _)).cons (hmore.grows _ hknown)
      rw [hrest] at h
      cases rest with
      | error e =>
        cases h
        exact ⟨new ++ more, hsends.trans hmore, hall, fun fs hfs => by cases hfs⟩
      | ok gs =>
        cases h
        exact ⟨new ++ more, hsends.trans hmore, hall, fun _ _ => List.forall_mem_append.2 ⟨hanswered, hquiet gs rfl⟩⟩

end

/-- The chunks of a text as they are remembered. -/
def Pipeline.keys (q : Pipeline) (t : CheckedText) : List CacheKey :=
  (q.chunker.chunks t).map fun chunk => t.profile.cacheKey chunk.text

namespace Session

variable {provider : Provider σ β Selection} {pipeline : Pipeline} {last next : Cache} {t : CheckedText}
variable {texts : List CheckedText} {result : LanguageResult} {problem : Option Problem}
variable {results : List (CheckedText × LanguageResult × Option Problem)} {c c' : Checking (σ × List Exchange) β}

theorem sends_checkText (h : checkText pipeline provider.recorded last t c = (result, problem, c')) :
    ∃ new, Sends last c c' new ∧ Reaches c'.next new (pipeline.keys t) ∧
      (problem = none → ∀ x ∈ new, x.answered = true) := by
  rcases hgot : checkChunks provider.recorded last t.profile (pipeline.chunker.chunks t) { c with calls := 0 } with ⟨got, mid⟩
  obtain ⟨new, hsends, hreaches, hquiet⟩ := sends_checkChunks hgot
  rw [checkText_eq hgot] at h
  cases h
  refine ⟨new, ⟨hsends.log, hsends.unknown, hsends.answered, hsends.grows⟩, hreaches, fun hproblem => ?_⟩
  cases got with
  | error e => cases hproblem
  | ok fs => exact hquiet fs rfl

/-- Each text of a run is checked as far as it goes. -/
theorem sends_checkTexts (h : checkTexts pipeline provider.recorded last texts c = (results, c')) :
    ∃ new, Sends last c c' new ∧ (∀ t ∈ texts, Reaches c'.next new (pipeline.keys t)) ∧
      ((∀ x ∈ results, x.2.2 = none) → ∀ x ∈ new, x.answered = true) := by
  induction texts generalizing c c' results with
  | nil =>
    cases h
    exact ⟨[], .still rfl fun _ hkey => hkey, List.forall_mem_nil _, fun _ => List.forall_mem_nil _⟩
  | cons t r ih =>
    rw [checkTexts] at h
    rcases htext : checkText pipeline provider.recorded last t c with ⟨result, problem, mid⟩
    obtain ⟨new, hsends, hreaches, hquiet⟩ := sends_checkText htext
    rw [htext] at h
    dsimp only at h
    rcases hrest : checkTexts pipeline provider.recorded last r mid with ⟨rest, stop⟩
    obtain ⟨more, hmore, hall, hcalm⟩ := ih hrest
    rw [hrest] at h
    cases h
    refine ⟨new ++ more, hsends.trans hmore, List.forall_mem_cons.2 ⟨?_, fun u hu => ?_⟩, fun hproblems => ?_⟩
    · exact hreaches.mono hmore.grows (List.subset_append_left _ _)
    · exact (hall u hu).mono (fun _ hkey => hkey) (List.subset_append_right _ _)
    · obtain ⟨hproblem, hproblems⟩ := List.forall_mem_cons.1 hproblems
      exact List.forall_mem_append.2 ⟨hquiet hproblem, hcalm hproblems⟩

variable {s s' mid : Session β} {disk : Disk} {w v w' : σ × List Exchange} {view : Snapshot} {r : Report}
variable {out : Except Fault Report} {new : List Exchange} {key : CacheKey}

/-- The texts of the document that are checked, if there is a document. -/
def docTexts (s : Session β) (disk : Disk) : List CheckedText :=
  (s.project.snapshot.compile disk).1.elim [] s.checkedTexts

/-- If there is a document, the chunk has a place in it in front of which no chunk has failed. -/
def Stands (s : Session β) (disk : Disk) (new : List Exchange) (key : CacheKey) : Prop :=
  (s.project.snapshot.compile disk).1.isSome = true → ∃ t ∈ s.docTexts disk, key ∈ s.pipeline.keys t ∧
    ∀ k ∈ (s.pipeline.keys t).takeWhile (· ≠ key), ⟨k, false⟩ ∉ new

/-- What a run that sends `new` leaves to `next`. -/
structure Carries (s : Session β) (disk : Disk) (new : List Exchange) (next : Cache) : Prop where
  unknown : ∀ x ∈ new, ¬ s.cache.Knows x.key
  kept : ∀ key, s.Stands disk new key → s.cache.Knows key → next.Knows key

theorem carries_nil (s : Session β) (disk : Disk) : s.Carries disk [] s.cache :=
  ⟨List.forall_mem_nil _, fun _ _ hkey => hkey⟩

theorem log_applyPending {settled : Except Fault Unit} (h : s.applyPending provider.recorded w = (settled, mid, v)) :
    v.2 = w.2 := by
  unfold applyPending at h
  split at h
  · cases h
    rfl
  · dsimp only at h
    split at h
    · cases h
      rfl
    · next settings _ q _ =>
      cases h
      cases q.sameService s.pipeline with
      | true => rfl
      | false =>
        cases s.backend with
        | none => rfl
        | some b => rfl

theorem log_ensureBackend {service : Except Fault β} (h : s.ensureBackend provider.recorded w = (service, mid, v)) :
    v.2 = w.2 := by
  unfold ensureBackend at h
  split at h
  · cases h
    rfl
  · next selection _ =>
    split at h
    · cases h
      rfl
    · cases h
      rfl
    · rcases hcreate : provider.create selection s.pipeline.settings.defaultTag w.1 with ⟨created, u⟩
      rw [recorded_create hcreate] at h
      cases created with
      | ok b =>
        cases h
        rfl
      | error e =>
        cases h
        rfl

theorem status_conclude {report : Report} (h : (s.conclude report results).1.status = .idle) :
    ∀ x ∈ results, x.2.2 = none := by
  intro x hx
  cases hproblem : x.2.2 with
  | none => rfl
  | some p =>
    have hmem : (x.1.profile.tag, p) ∈ results.filterMap fun x => x.2.2.map fun p => (x.1.profile.tag, p) := by
      refine List.mem_filterMap.2 ⟨x, hx, ?_⟩
      rw [hproblem]
      rfl
    unfold conclude at h
    dsimp only at h
    rw [List.isEmpty_eq_false_iff.2 (List.ne_nil_of_mem hmem)] at h
    cases h

/-- What is known before a report is laid out. -/
theorem Drawn.carries (h : Drawn provider.recorded disk s w view r s' next v) :
    s'.cache = s.cache ∧ ∃ new, v.2 = w.2 ++ new ∧ s.Carries disk new next ∧
      (∀ x ∈ new, x.answered = true → next.Knows x.key) ∧
      (r.status = .idle → ∀ t ∈ s.docTexts disk, ∀ key ∈ s.pipeline.keys t, next.Knows key) := by
  cases h with
  | missing => exact ⟨rfl, [], (List.append_nil _).symm, carries_nil s disk, List.forall_mem_nil _, nofun⟩
  | refused hcompile hservice =>
    refine ⟨?_, [], ?_, carries_nil s disk, List.forall_mem_nil _, nofun⟩
    · unfold refusedBy
      split
      · rfl
      · rfl
    · rw [log_ensureBackend hservice, List.append_nil]
  | @checked root _ _ b u results c hcompile hservice hresults =>
    obtain ⟨new, hsends, hreaches, hquiet⟩ := sends_checkTexts hresults
    have hdocTexts : s.docTexts disk = s.checkedTexts root := by
      rw [docTexts, hcompile]
      rfl
    refine ⟨rfl, new, ?_, ⟨hsends.unknown, fun key hstands hkey => ?_⟩, hsends.answered, fun hidle t ht => ?_⟩
    · rw [hsends.log, log_ensureBackend hservice]
    · obtain ⟨t, ht, hmem, hfront⟩ := hstands (by rw [hcompile]; rfl)
      exact (hreaches t (hdocTexts ▸ ht)).knows hmem (fun hfailed => hsends.unknown _ hfailed hkey) hfront
    · exact (hreaches t (hdocTexts ▸ ht)).all (hquiet (status_conclude hidle))

/-- What was answered in a run that reports is remembered, and all of its document if nothing fails. Unless new settings
are put in force, nothing that was known is sent, and it stays known where no chunk in front of it fails. -/
theorem run_carries (h : s.run provider.recorded disk w = (out, s', w')) :
    ∃ new, w'.2 = w.2 ++ new ∧
      (out.isOk = true → ∀ x ∈ new, x.answered = true → s'.cache.Knows x.key) ∧
      (s.due = [] → s.Carries disk new s'.cache) ∧
      ∀ r, out = .ok r → r.status = .idle → ∀ t ∈ s'.docTexts disk, ∀ key ∈ s'.pipeline.keys t, s'.cache.Knows key := by
  have hcourse := run_course provider.recorded disk s w
  rw [h] at hcourse
  -- without new settings the run sees what stands there
  have hmid : ∀ {mid : Session β} {v : σ × List Exchange}, s.begun.applyPending provider.recorded w = (.ok (), mid, v) →
      s.due = [] → mid = s.begun := by
    intro mid v hsettled hdue
    obtain hstill | ⟨e, hgiven⟩ := applyPending_of_due (s := s.begun) hdue provider.recorded w
    · rw [hstill] at hsettled
      cases hsettled
      rfl
    · rw [hgiven] at hsettled
      cases hsettled
  cases hcourse with
  | unsettled hsettled =>
    have hlog := log_applyPending hsettled
    obtain rfl := applyPending_error hsettled
    refine ⟨[], ?_, nofun, fun _ => carries_nil s disk, nofun⟩
    rw [hlog, List.append_nil]
  | unserved hsettled hservice =>
    refine ⟨[], ?_, nofun, fun hdue => ?_, nofun⟩
    · rw [log_ensureBackend hservice, log_applyPending hsettled, List.append_nil]
    · rw [hmid hsettled hdue]
      exact carries_nil s disk
  | unsorted hsettled hdrawn _ =>
    obtain ⟨hcache, new, hlog, hcarries, -⟩ := hdrawn.carries
    refine ⟨new, ?_, nofun, fun hdue => ?_, nofun⟩
    · rw [hlog, log_applyPending hsettled]
    · obtain rfl := hmid hsettled hdue
      rw [hcache]
      exact ⟨hcarries.unknown, fun _ _ hkey => hkey⟩
  | @reported mid _ _ _ _ _ r r' _ hsettled hdrawn hfinish =>
    obtain ⟨-, new, hlog, hcarries, hanswered, hlearned⟩ := hdrawn.carries
    obtain ⟨hproject, hpipeline, -⟩ := hdrawn.unmoved
    obtain ⟨rows, -, rfl, rfl⟩ := finish_ok hfinish
    refine ⟨new, ?_, fun _ => hanswered, fun hdue => ?_, fun r' hr' hidle => ?_⟩
    · rw [hlog, log_applyPending hsettled]
    · obtain rfl := hmid hsettled hdue
      exact ⟨hcarries.unknown, hcarries.kept⟩
    · cases hr'
      unfold docTexts checkedTexts at hlearned ⊢
      dsimp only
      rw [hproject, hpipeline]
      exact hlearned hidle

/-- A service that keeps to its types is asked only by runs that report. -/
theorem Typed.exists_report (hs : s.Typed) (hp : provider.Typed) (h : s.run provider.recorded disk w = (out, s', w'))
    (hsent : w'.2 ≠ w.2) : ∃ r, out = .ok r := by
  have hcourse := run_course provider.recorded disk s w
  rw [h] at hcourse
  cases hcourse with
  | unsettled hsettled => exact absurd (log_applyPending hsettled) hsent
  | unserved hsettled hservice =>
    exact absurd ((log_ensureBackend hservice).trans (log_applyPending hsettled)) hsent
  | unsorted hsettled hdrawn hfinish =>
    obtain ⟨r, t, hfinished⟩ := (hs.applyPending hsettled).exists_finish hp.recorded hdrawn
    rw [hfinished] at hfinish
    cases hfinish
  | reported => exact ⟨_, rfl⟩

theorem seen_id (s : Session β) : s.seen id = s := by
  unfold seen
  rw [Option.map_id]
  rfl

/-- What a run sends. -/
def exchanged (provider : Provider σ β Selection) (disk : Disk) (s : Session β) (w : σ) : List Exchange :=
  (s.run provider.recorded disk (w, [])).2.2.2

/-- With the log a run goes as it goes without, and writes down what it sends. -/
theorem run_recorded (provider : Provider σ β Selection) (disk : Disk) (s : Session β) (w : σ) (log : List Exchange) :
    s.run provider.recorded disk (w, log) =
      ((s.run provider disk w).1, (s.run provider disk w).2.1, (s.run provider disk w).2.2,
        log ++ s.exchanged provider disk w) := by
  have hplain := run_seen (refines_recorded provider) disk s (w, [])
  have hlogged := run_seen (refines_prefixed provider log) disk s (w, [])
  simp only [seen_id, Prod.map_apply, id_eq, List.append_nil] at hplain hlogged
  rw [hlogged, hplain]
  rfl

end Session

end Proofreader
