import Proofreader.Proofs.Session.Private
import Proofreader.Proofs.Session.Typed

/-! A language that fails does not disturb the others: two runs from one session in which the service fails for different
languages report the same of all languages that it fails for in neither, and remember the same of them. -/

namespace Proofreader

namespace Session

variable {σ β : Type} {p q : Provider σ β Selection} {asked : String → β → σ → List CacheKey}
variable {answer answer' : List CacheKey → Except Fault (List Finding)} {last : Cache} {profile : Profile}
variable {chunk : Chunk} {chunks : List Chunk} {c c' : Checking σ β} {pipeline : Pipeline} {t : CheckedText}
variable {s mid mid' s' : Session β} {disk : Disk} {w w' u u' v v' : σ} {b b' : β} {r : Report}

theorem exists_checkChunk (last : Cache) (chunk : Chunk) (c : Checking σ β) (hp : p.Private asked answer)
    (hok : ∀ key keys, key.tag = profile.tag → ∃ fs, answer (key :: keys) = .ok fs) :
    ∃ fs c', checkChunk p last profile chunk c = (.ok fs, c') := by
  obtain ⟨b, w, hcheck, -⟩ := hp chunk.text profile c.backend c.world
  obtain ⟨fs, hfs⟩ := hok (profile.cacheKey chunk.text) (asked profile.tag c.backend c.world) rfl
  rw [hfs] at hcheck
  unfold checkChunk
  dsimp only
  split
  · exact ⟨_, _, rfl⟩
  · rw [hcheck]
    exact ⟨_, _, rfl⟩

theorem exists_checkChunks (last : Cache) (chunks : List Chunk) (c : Checking σ β) (hp : p.Private asked answer)
    (hok : ∀ key keys, key.tag = profile.tag → ∃ fs, answer (key :: keys) = .ok fs) :
    ∃ fs c', checkChunks p last profile chunks c = (.ok fs, c') := by
  induction chunks generalizing c with
  | nil => exact ⟨_, _, rfl⟩
  | cons chunk r ih =>
    obtain ⟨fs, c', hchunk⟩ := exists_checkChunk last chunk c hp hok
    obtain ⟨gs, c'', hrest⟩ := ih c'
    rw [checkChunks, hchunk]
    dsimp only
    rw [hrest]
    exact ⟨_, _, rfl⟩

/-- A language whose requests are all answered has no problem. -/
theorem checkText_ok (pipeline : Pipeline) (t : CheckedText) (c : Checking σ β) (hp : p.Private asked answer)
    (htyped : p.Typed) (hlast : last.Typed) (hnext : c.next.Typed)
    (hok : ∀ key keys, key.tag = t.profile.tag → ∃ fs, answer (key :: keys) = .ok fs) :
    (checkText pipeline p last t c).2.1 = none := by
  obtain ⟨fs, c', hgot⟩ := exists_checkChunks last (pipeline.chunker.chunks t) { c with calls := 0 } hp hok
  obtain ⟨-, hfs⟩ := typed_checkChunks (c := { c with calls := 0 }) htyped hlast hnext hgot
  obtain ⟨ds, hds, -⟩ := pipeline.mapper.exists_map t (pipeline.chunker.forced t) (hfs fs rfl)
  rw [checkText_eq hgot]
  unfold Pipeline.judge
  dsimp only
  rw [hds]

namespace EachAlone

variable {texts : List CheckedText} {results : List (CheckedText × LanguageResult × Option Problem)} {board : Board σ β}

theorem lookup (h : EachAlone asked pipeline p last texts c results board) (s : Session β) (tag : String) :
    (results.map fun x => (x.1.profile.tag, s.settle x.1 x.2.1 x.2.2)).lookup tag =
      (texts.find? fun t => decide (t.profile.tag = tag)).map fun t =>
        s.settle t (checkText pipeline p last t c).1 (checkText pipeline p last t c).2.1 := by
  rw [h.results, List.map_map]
  exact lookup_map (fun t : CheckedText => t.profile.tag) _ texts tag

end EachAlone

/-- What a run that has the service `b` reports of the languages, and what it leaves in the cache. -/
inductive Checked (p : Provider σ β Selection) (disk : Disk) (s : Session β) (b : β) (v : σ) :
    List (String × LanguageResult) → Cache → Prop
  | missing : (s.project.snapshot.compile disk).1 = none → Checked p disk s b v [] s.cache
  | checked {root : Node} {results : List (CheckedText × LanguageResult × Option Problem)} {c : Checking σ β} :
      (s.project.snapshot.compile disk).1 = some root →
      checkTexts s.pipeline p s.cache (s.checkedTexts root) ⟨[], 0, b, v⟩ = (results, c) →
      Checked p disk s b v (results.map fun x => (x.1.profile.tag, s.settle x.1 x.2.1 x.2.2)) c.next

theorem exists_run_checked (hs : s.Regular) (ht : s.Typed) (hp : p.Typed) (disk : Disk)
    (hpending : s.begun.applyPending p w = (.ok (), mid, u)) (hservice : mid.ensureBackend p u = (.ok b, mid', v)) :
    ∃ r s' v', s.run p disk w = (.ok r, s', v') ∧ Checked p disk mid b v r.languages s'.cache := by
  have hmid := hs.applyPending hpending
  have hcourse := run_course p disk s w
  rcases hrun : s.run p disk w with ⟨out, s', v'⟩
  rw [hrun] at hcourse
  dsimp only at hcourse
  cases hcourse with
  | unsettled h =>
    rw [hpending] at h
    cases h
  | unserved h herror =>
    rw [hpending] at h
    cases h
    rw [hservice] at herror
    cases herror
  | unsorted h hdrawn hfinish =>
    rw [hpending] at h
    cases h
    obtain ⟨r', s'', hok⟩ := (ht.applyPending hpending).exists_finish hp hdrawn
    rw [hfinish] at hok
    cases hok
  | reported h hdrawn hfinish =>
    rw [hpending] at h
    cases h
    obtain ⟨rows, -, rfl, rfl⟩ := finish_ok hfinish
    refine ⟨_, _, _, rfl, ?_⟩
    cases hdrawn with
    | missing hcompile => exact .missing (by rw [hcompile])
    | refused _ herror =>
      rw [hservice] at herror
      cases herror
    | @checked root warnings _ _ _ results c hcompile hb hresults =>
      rw [hservice] at hb
      cases hb
      obtain ⟨htexts, -⟩ := checkTexts_results hresults
      have hlanguages := languages_conclude mid (mid.docReport warnings root) (htexts ▸ hmid.nodup_tags root)
      dsimp only
      rw [hlanguages]
      exact .checked (by rw [hcompile]) hresults

theorem applyPending_same (h : s.applyPending p w = (.ok (), mid, u)) (h' : s.applyPending q w' = (.ok (), mid', u')) :
    mid' = { mid with backend := mid'.backend } := by
  unfold applyPending at h h'
  split at h
  · next hpending =>
    rw [hpending] at h'
    cases h
    cases h'
    rfl
  · next settings hpending =>
    rw [hpending] at h'
    dsimp only at h h'
    split at h
    · cases h
    · next pipeline hpipeline =>
      rw [hpipeline] at h'
      cases h
      cases h'
      rfl

theorem Checked.of_backend {ls : List (String × LanguageResult)} {cache : Cache} {o : Option β}
    (h : Checked p disk { s with backend := o } b v ls cache) : Checked p disk s b v ls cache := by
  cases h with
  | missing hnone => exact .missing hnone
  | checked hsome hresults => exact .checked hsome hresults

/-- What two runs tell and leave of a language that the service fails for in neither. -/
theorem Checked.isolated {ls ls' : List (String × LanguageResult)} {cache cache' : Cache} {tag : String}
    (hs : s.Regular) (ht : s.Typed) (h : Checked p disk s b v ls cache) (h' : Checked q disk s b' v' ls' cache')
    (hp : p.Private asked answer) (hq : q.Private asked answer') (htyped : p.Typed)
    (hok : ∀ key keys, key.tag = tag → ∃ fs, answer (key :: keys) = .ok fs)
    (hsame : ∀ key keys, key.tag = tag → answer (key :: keys) = answer' (key :: keys))
    (hasked : asked tag b v = asked tag b' v') :
    ls.lookup tag = ls'.lookup tag ∧ (∀ l, ls.lookup tag = some l → l.error = none ∧ l.stale = false) ∧
      ∀ key, key.tag = tag → cache.lookup key = cache'.lookup key := by
  cases h with
  | missing hnone =>
    cases h' with
    | missing => exact ⟨rfl, fun _ h => (nomatch h), fun _ _ => rfl⟩
    | checked hsome =>
      rw [hnone] at hsome
      cases hsome
  | @checked root results c hsome hresults =>
    cases h' with
    | missing hnone =>
      rw [hsome] at hnone
      cases hnone
    | @checked root' results' c' hsome' hresults' =>
      rw [hsome] at hsome'
      cases hsome'
      have halone := checkTexts_eachAlone hp (hs.nodup_tags root) hresults
      have halone' := checkTexts_eachAlone hq (hs.nodup_tags root) hresults'
      have hstart : (Checking.board ⟨[], 0, b, v⟩).Agrees asked tag (Checking.board ⟨[], 0, b', v'⟩) :=
        ⟨fun _ _ => rfl, hasked⟩
      rw [halone.lookup, halone'.lookup]
      cases hfind : (s.checkedTexts root).find? fun t => decide (t.profile.tag = tag) with
      | none =>
        have hnone : ∀ t ∈ s.checkedTexts root, t.profile.tag ≠ tag := by simpa using hfind
        have hboard := ((halone.others tag hnone).trans hstart).trans (halone'.others tag hnone).symm
        exact ⟨rfl, fun _ h => (nomatch h), hboard.lookup⟩
      | some t =>
        have hmem := List.mem_of_find?_eq_some hfind
        have htag : t.profile.tag = tag := by simpa using List.find?_some hfind
        subst htag
        obtain ⟨hresult, hproblem, hboard⟩ := checkText_alike s.pipeline s.cache hp hq hsame hstart
        have hnone := checkText_ok s.pipeline t ⟨[], 0, b, v⟩ hp htyped ht.cache Cache.typed_nil hok
        rw [Option.map_some, Option.map_some, ← hresult, ← hproblem, hnone]
        refine ⟨rfl, fun l hl => ?_, ?_⟩
        · cases hl
          rcases htext : checkText s.pipeline p s.cache t ⟨[], 0, b, v⟩ with ⟨result, problem, stop⟩
          exact (checkText_result htext).2
        · exact (((halone.own t hmem).trans hboard).trans (halone'.own t hmem).symm).lookup

/-- The service is there when the checks of a run begin. -/
def Served (p : Provider σ β Selection) (s : Session β) (w : σ) (b : β) (v : σ) : Prop :=
  ∃ mid mid' u, s.begun.applyPending p w = (.ok (), mid, u) ∧ mid.ensureBackend p u = (.ok b, mid', v)

/-- Whatever languages the service fails for in two runs, `F` in one and `G` in the other, both runs report the same of
every other language, without an error, and leave the same of it in the cache. The session may have any history, and
the service may have been asked for the languages in `F` and `G` before in any way. -/
theorem run_isolated (hs : s.Regular) (ht : s.Typed) {F G : Set String} (hp : p.Private asked answer)
    (hq : q.Private asked answer') (htyped : p.Typed) (htyped' : q.Typed)
    (hF : ∀ key keys, key.tag ∉ F → ∃ fs, answer (key :: keys) = .ok fs)
    (hsame : ∀ key keys, key.tag ∉ F → key.tag ∉ G → answer (key :: keys) = answer' (key :: keys))
    (hserved : s.Served p w b v) (hserved' : s.Served q w' b' v')
    (hasked : ∀ tag, tag ∉ F → tag ∉ G → asked tag b v = asked tag b' v') (disk : Disk) :
    ∃ r s₁ w₁ r' s₂ w₂, s.run p disk w = (.ok r, s₁, w₁) ∧ s.run q disk w' = (.ok r', s₂, w₂) ∧
      ∀ tag, tag ∉ F → tag ∉ G → r.languages.lookup tag = r'.languages.lookup tag ∧
        (∀ l, r.languages.lookup tag = some l → l.error = none ∧ l.stale = false) ∧
        ∀ key, key.tag = tag → s₁.cache.lookup key = s₂.cache.lookup key := by
  obtain ⟨mid, mid₁, u, hpending, hservice⟩ := hserved
  obtain ⟨mid', mid₂, u', hpending', hservice'⟩ := hserved'
  obtain ⟨r, s₁, w₁, hrun, hchecked⟩ := exists_run_checked hs ht htyped disk hpending hservice
  obtain ⟨r', s₂, w₂, hrun', hchecked'⟩ := exists_run_checked hs ht htyped' disk hpending' hservice'
  rw [applyPending_same hpending hpending'] at hchecked'
  refine ⟨r, s₁, w₁, r', s₂, w₂, hrun, hrun', fun tag hf hg => ?_⟩
  refine hchecked.isolated (hs.applyPending hpending) (ht.applyPending hpending) hchecked'.of_backend hp hq htyped ?_ ?_
    (hasked tag hf hg)
  · rintro key keys rfl
    exact hF key keys hf
  · rintro key keys rfl
    exact hsame key keys hf hg

end Session

theorem typed_tripping (failing : String) : (trippingService failing).Typed := by
  intro text profile t w fs t' w' h
  obtain ⟨t₁, w₁, hcheck, -⟩ := private_tripping failing text profile t w
  rw [hcheck] at h
  simp only [Tool.answer, trippingAnswer] at h
  split at h
  · next fs' hfs =>
    split at hfs
    · cases hfs
    · cases hfs
      cases h
      simpa [Tool.complete, Tool.orNoText, Json.isEmpty, spelled] using typed_spelled 0 1
  · cases h

def trippingRun (failing : String) : Except Fault Report × Session ToolState × List CacheKey :=
  wideSession.run (trippingService failing) threefoldDisk []

theorem verdicts_german : (trippingRun "de").1.toOption.map (·.verdicts) =
    some [("en", 1, none), ("de", 0, some "LanguageTool server unavailable: down"), ("fr", 1, none)] := by
  decide +kernel

theorem verdicts_french : (trippingRun "fr").1.toOption.map (·.verdicts) =
    some [("en", 1, none), ("de", 1, none), ("fr", 0, some "LanguageTool server unavailable: down")] := by
  decide +kernel

def bundledTool : ToolState := ⟨(bundledSettings 20).defaultTag, false⟩

theorem served_tripping (failing : String) : wideSession.Served (trippingService failing) [] bundledTool [] :=
  ⟨_, _, _, rfl, rfl⟩

theorem Session.run_isolated_tripping : ∃ r s₁ w₁ r' s₂ w₂,
    wideSession.run (trippingService "de") threefoldDisk [] = (.ok r, s₁, w₁) ∧
    r.verdicts = [("en", 1, none), ("de", 0, some "LanguageTool server unavailable: down"), ("fr", 1, none)] ∧
    wideSession.run (trippingService "fr") threefoldDisk [] = (.ok r', s₂, w₂) ∧
    r'.verdicts = [("en", 1, none), ("de", 1, none), ("fr", 0, some "LanguageTool server unavailable: down")] ∧
    r.languages.lookup "en" = r'.languages.lookup "en" ∧
    ∀ key, key.tag = "en" → s₁.cache.lookup key = s₂.cache.lookup key := by
  have hhistory := history_wide (trippingService "de")
  have hanswer : ∀ failing key keys, key.tag ≠ failing →
      Tool.answer (trippingAnswer failing) (key :: keys) = .ok [Tool.complete (spelled 0 1)] := by
    intro failing key keys hne
    simp [Tool.answer, trippingAnswer, hne]
  obtain ⟨r, s₁, w₁, r', s₂, w₂, hrun, hrun', hsame⟩ :=
    run_isolated (F := {"de"}) (G := {"fr"}) hhistory.regular (hhistory.typed (typed_tripping "de"))
      (private_tripping "de") (private_tripping "fr") (typed_tripping "de") (typed_tripping "fr")
      (fun key keys hkey => ⟨_, hanswer "de" key keys hkey⟩)
      (fun key keys hkey hkey' => (hanswer "de" key keys hkey).trans (hanswer "fr" key keys hkey').symm)
      (served_tripping "de") (served_tripping "fr") (fun _ _ _ => rfl) threefoldDisk
  have hgerman := verdicts_german
  have hfrench := verdicts_french
  unfold trippingRun at hgerman hfrench
  rw [hrun] at hgerman
  rw [hrun'] at hfrench
  have hgerman' : "en" ≠ "de" := by decide
  have hfrench' : "en" ≠ "fr" := by decide
  obtain ⟨hlookup, -, hcache⟩ := hsame "en" hgerman' hfrench'
  exact ⟨r, s₁, w₁, r', s₂, w₂, hrun, Option.some.inj hgerman, hrun', Option.some.inj hfrench, hlookup, hcache⟩

end Proofreader
