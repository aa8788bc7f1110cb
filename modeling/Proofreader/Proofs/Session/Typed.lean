import Proofreader.Proofs.Session.Check
import Proofreader.Proofs.Session.History
import Proofreader.Proofs.Session.Verdict

/-! What a run reports comes from its own checks or from what earlier runs have shown. So a service that keeps to its
types never leaves anything behind that cannot be put in order. -/

namespace Proofreader

theorem Mapper.rules_of_map {m : Mapper} {t : CheckedText} {splits : List Int} {fs : List Finding} {ds : List Diagnostic}
    (h : ∀ f ∈ fs, f.rule.IsText) (hmap : m.map t splits fs = .ok ds) : ∀ d ∈ ds, d.rule.IsText := by
  intro d hd
  obtain ⟨f, hf, hrule, -⟩ := shows_of_mem_map hmap d hd
  rw [hrule]
  exact h f hf

/-- A property that findings keep wherever they lie, and that has them name their rules by texts. -/
structure Finding.Naming (P : Finding → Prop) : Prop where
  shift : ∀ f n, P f → P (f.shift n)
  rule : ∀ f, P f → f.rule.IsText

theorem Finding.naming_typed : Naming Typed := ⟨fun _ n hf => hf.shift n, fun _ hf => hf.rule⟩

theorem Finding.naming_rule : Naming (·.rule.IsText) := ⟨fun _ _ hf => hf, fun _ hf => hf⟩

namespace Session

variable {σ β : Type} {provider : Provider σ β Selection} {log : List (Except Fault Report)} {s s' mid : Session β}
variable {disk : Disk} {w v : σ} {view : Snapshot} {r : Report} {next last : Cache} {pipeline : Pipeline}
variable {t : CheckedText} {texts : List CheckedText} {c c' : Checking σ β} {P : Finding → Prop}

theorem rules_of_checkText (hP : Finding.Naming P) (hp : provider.Gives P) (hlast : last.Holds P) (hnext : c.next.Holds P)
    {result : LanguageResult} {problem : Option Problem}
    (h : checkText pipeline provider last t c = (result, problem, c')) :
    c'.next.Holds P ∧ ∀ d ∈ result.diagnostics, d.rule.IsText := by
  rcases hgot : checkChunks provider last t.profile (pipeline.chunker.chunks t) { c with calls := 0 } with ⟨got, mid⟩
  obtain ⟨hmid, hfindings⟩ := hp.checkChunks (c := { c with calls := 0 }) hP.shift hlast hnext hgot
  rw [checkText_eq hgot] at h
  cases h
  refine ⟨hmid, fun d hd => ?_⟩
  obtain ⟨fs, ds, hfs, hmap, hd⟩ := of_mem_judge hd
  exact Mapper.rules_of_map (fun f hf => hP.rule f (hfindings fs hfs f hf)) hmap d hd

theorem rules_of_checkTexts (hP : Finding.Naming P) (hp : provider.Gives P) (hlast : last.Holds P) (hnext : c.next.Holds P)
    {results : List (CheckedText × LanguageResult × Option Problem)}
    (h : checkTexts pipeline provider last texts c = (results, c')) :
    c'.next.Holds P ∧ ∀ x ∈ results, ∀ d ∈ x.2.1.diagnostics, d.rule.IsText := by
  obtain ⟨hbehind, -, hresults⟩ := forall_checkTexts (I := (·.next.Holds P))
    (P := fun x => ∀ d ∈ x.2.1.diagnostics, d.rule.IsText)
    (fun _ _ _ _ _ _ hmid htext => rules_of_checkText hP hp hlast hmid htext) hnext h
  exact ⟨hbehind, hresults⟩

/-- Everything that was shown last satisfies `P`. -/
def Shown (s : Session β) (P : Diagnostic → Prop) : Prop := ∀ x ∈ s.previous, ∀ d ∈ x.2, P d

theorem Shown.lastGood {P : Diagnostic → Prop} (h : s.Shown P) (t : CheckedText) : ∀ d ∈ s.lastGood t, P d := by
  intro d hd
  unfold Session.lastGood at hd
  cases hl : s.previous.lookup t.key with
  | none =>
    rw [hl] at hd
    cases hd
  | some ds =>
    rw [hl] at hd
    exact h _ (mem_of_lookup hl) d hd

theorem Shown.settle {P : Diagnostic → Prop} (h : s.Shown P) {result : LanguageResult} (problem : Option Problem)
    (hresult : ∀ d ∈ result.diagnostics, P d) : ∀ d ∈ (s.settle t result problem).diagnostics, P d := by
  cases problem with
  | none => exact hresult
  | some p => exact h.lastGood t

/-- What all diagnostics of the checks of a run and of the runs before satisfy, all of its report satisfy, and all that
is kept for later runs. -/
theorem Drawn.shown {P : Diagnostic → Prop} (h : Drawn provider disk s w view r s' next v) (hs : s.Shown P)
    (hchecks : ∀ root warnings view b v results c, s.project.snapshot.compile disk = (some root, warnings, view) →
      checkTexts s.pipeline provider s.cache (s.checkedTexts root) ⟨[], 0, b, v⟩ = (results, c) →
      ∀ x ∈ results, ∀ d ∈ x.2.1.diagnostics, P d) :
    (∀ d ∈ r.languages.flatMap (·.2.diagnostics), P d) ∧ s'.Shown P := by
  cases h with
  | missing => exact ⟨List.forall_mem_nil _, hs⟩
  | @refused root warnings _ p _ hcompile _ =>
    constructor
    · intro d hd
      obtain ⟨l, hl, hd⟩ := List.mem_flatMap.1 hd
      obtain ⟨t, -, rfl⟩ := List.mem_map.1 (mem_of_mem_ofMembers hl)
      exact hs.lastGood t d hd
    · unfold refusedBy
      split
      · exact hs
      · exact hs
  | @checked root warnings _ b _ results c hcompile _ hresults =>
    have hsettled : ∀ x ∈ results, ∀ d ∈ (s.settle x.1 x.2.1 x.2.2).diagnostics, P d := fun x hx =>
      hs.settle x.2.2 (hchecks _ _ _ _ _ _ _ hcompile hresults x hx)
    constructor
    · intro d hd
      obtain ⟨l, hl, hd⟩ := List.mem_flatMap.1 hd
      obtain ⟨y, hy, rfl⟩ := List.mem_map.1 (mem_of_mem_ofMembers hl)
      obtain ⟨x, hx, rfl⟩ := List.mem_map.1 hy
      exact hsettled x hx d hd
    · intro y hy d hd
      obtain ⟨z, hz, rfl⟩ := List.mem_map.1 hy
      obtain ⟨x, hx, rfl⟩ := List.mem_map.1 hz
      exact hsettled x hx d hd

/-- Everything that is remembered is of its declared type. -/
structure Typed (s : Session β) : Prop where
  cache : s.cache.Typed
  previous : s.Shown (·.rule.IsText)

theorem Typed.applyPending (hs : s.Typed) (h : s.begun.applyPending provider w = (.ok (), mid, v)) : mid.Typed := by
  obtain rfl | ⟨settings, q, backend, hq, rfl⟩ := applyPending_ok h
  · exact ⟨hs.cache, hs.previous⟩
  · exact ⟨Cache.typed_nil, hs.previous⟩

theorem Typed.drawn (hs : s.Typed) (hp : provider.Typed) (h : Drawn provider disk s w view r s' next v) :
    (∀ d ∈ r.languages.flatMap (·.2.diagnostics), d.rule.IsText) ∧ s'.Typed ∧ next.Typed := by
  obtain ⟨hreport, hprevious⟩ := h.shown hs.previous fun _ _ _ _ _ _ _ _ hresults =>
    (rules_of_checkTexts Finding.naming_typed hp hs.cache (Cache.holds_nil _) hresults).2
  cases h with
  | missing => exact ⟨hreport, ⟨hs.cache, hprevious⟩, hs.cache⟩
  | refused =>
    refine ⟨hreport, ⟨?_, hprevious⟩, hs.cache⟩
    unfold refusedBy
    split
    · exact hs.cache
    · exact hs.cache
  | checked _ _ hresults =>
    exact ⟨hreport, ⟨hs.cache, hprevious⟩,
      (rules_of_checkTexts Finding.naming_typed hp hs.cache (Cache.holds_nil _) hresults).1⟩

/-- A report that has been drawn up can be laid out by file. -/
theorem Typed.exists_finish (hs : s.Typed) (hp : provider.Typed) (h : Drawn provider disk s w view r s' next v) :
    ∃ r' s'', s'.finish disk ⟨r, view⟩ = .ok (r', s'') :=
  ⟨_, _, finish_eq (byFile_eq (hs.drawn hp h).1)⟩

theorem Typed.course {out : Except Fault Report} (hs : s.Typed) (hp : provider.Typed)
    (h : Course provider disk s w out s' v) : s'.Typed := by
  cases h with
  | unsettled h =>
    rw [applyPending_error h]
    exact ⟨hs.cache, hs.previous⟩
  | unserved h _ =>
    have hmid := hs.applyPending h
    exact ⟨hmid.cache, hmid.previous⟩
  | unsorted h hdrawn =>
    have hdrawn' := (hs.applyPending h).drawn hp hdrawn
    exact ⟨hdrawn'.2.1.cache, hdrawn'.2.1.previous⟩
  | reported h hdrawn hfinish =>
    have hdrawn' := (hs.applyPending h).drawn hp hdrawn
    obtain ⟨rows, -, -, rfl⟩ := finish_ok hfinish
    exact ⟨hdrawn'.2.2, hdrawn'.2.1.previous⟩

theorem History.typed (h : History provider log s) (hp : provider.Typed) : s.Typed := by
  induction h with
  | create _ hs =>
    obtain ⟨q, -, rfl⟩ := create_ok hs
    exact ⟨Cache.typed_nil, List.forall_mem_nil _⟩
  | edit _ _ ih => exact ⟨ih.cache, ih.previous⟩
  | update settings _ ih => exact ⟨ih.cache, ih.previous⟩
  | run disk w _ ih => exact ih.course hp (run_course provider disk _ w)
  | close w _ ih => exact ⟨ih.cache, ih.previous⟩

end Session

/-- A service that is out of order when the world says so. -/
def moody : Provider Bool Unit Selection where
  create _ _ w := (.ok (), w)
  check _ _ _ w := (if w then .error (.problem (.general "gone" "GONE" [])) else .ok [spelled 0 2], (), w)
  close _ w := w

theorem typed_moody : moody.Typed := by
  intro text profile b w fs b' w' h
  cases w with
  | true => cases h
  | false =>
    cases h
    simp [typed_spelled]

end Proofreader
