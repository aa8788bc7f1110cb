import Proofreader.Mapping
import Proofreader.Proofs.Collections

/-! Findings that name everything by texts are mapped whatever spans they have; what is shown for them stands where
one of them projects to. -/

namespace Proofreader

namespace Json

def IsText (v : Json) : Prop := ∃ s, v = .str s

variable {v : Json}

theorem IsText.exists_isAmong (h : v.IsText) (texts : List String) : ∃ b, v.isAmong texts = .ok b := by
  obtain ⟨s, rfl⟩ := h
  exact ⟨_, rfl⟩

theorem IsText.exists_searched (h : v.IsText) : ∃ t, v.searched = .ok t := by
  obtain ⟨s, rfl⟩ := h
  exact ⟨_, rfl⟩

theorem IsText.exists_holds (h : v.IsText) (part : Text) : ∃ b, v.holds part = .ok b := by
  obtain ⟨s, rfl⟩ := h
  exact ⟨_, rfl⟩

theorem IsText.isSome_asText? (h : v.IsText) : v.asText?.isSome = true := by
  obtain ⟨s, rfl⟩ := h
  rfl

end Json

namespace Finding

/-- Everything but the span is of its declared type. -/
structure Typed (f : Finding) : Prop where
  rule : f.rule.IsText
  message : f.message.IsText
  replacements : ∀ v ∈ f.replacements, v.IsText
  category : f.category.IsText
  issue : f.issue.IsText

variable {f : Finding}

theorem Typed.shift (h : f.Typed) (n : Int) : (f.shift n).Typed :=
  ⟨h.rule, h.message, h.replacements, h.category, h.issue⟩

theorem Typed.exists_isSpelling (h : f.Typed) : ∃ b, f.isSpelling = .ok b := by
  obtain ⟨misspelled, hissue⟩ := h.issue.exists_isAmong ["misspelling"]
  obtain ⟨typo, hcategory⟩ := h.category.exists_isAmong ["TYPOS"]
  obtain ⟨name, hname⟩ := h.rule.exists_searched
  unfold isSpelling
  rw [hissue, hcategory, hname]
  cases misspelled <;> cases typo <;> exact ⟨_, rfl⟩

end Finding

/-- What the findings in a chunk satisfy wherever they lie, the findings in the text satisfy. -/
theorem Chunk.of_mem_translate {P : Finding → Prop} (hshift : ∀ f n, P f → P (f.shift n)) {c : Chunk} {fs : List Finding}
    (h : ∀ f ∈ fs, P f) {g : Finding} (hg : g ∈ c.translate fs) : P g := by
  obtain ⟨f, hf, rfl⟩ := List.mem_map.1 hg
  exact hshift f _ (h f (List.mem_filter.1 hf).1)

theorem Chunk.typed_of_mem_translate {c : Chunk} {fs : List Finding} (h : ∀ f ∈ fs, f.Typed) {g : Finding}
    (hg : g ∈ c.translate fs) : g.Typed :=
  of_mem_translate (fun _ n hf => hf.shift n) h hg

theorem exists_holdsToken {v : Json} (h : v.IsText) (token : Text) : ∃ b, holdsToken v token = .ok b := by
  unfold holdsToken
  split
  · obtain ⟨t, ht⟩ := h.exists_searched
    rw [ht]
    exact ⟨_, rfl⟩
  · exact h.exists_holds token

/-- Diagnostics whose rules are named by texts can be put in order. -/
theorem Diagnostic.sorted_eq {ds : List Diagnostic} (h : ∀ d ∈ ds, d.rule.IsText) : sorted ds = .ok (ds.mergeSort le) :=
  if_pos (List.all_eq_true.2 fun d hd => (h d hd).isSome_asText?)

/-- What has been put in order is in the one order that there is. -/
theorem Diagnostic.eq_of_sorted {ds es : List Diagnostic} (h : sorted ds = .ok es) : es = ds.mergeSort le := by
  unfold sorted at h
  split at h
  · cases h
    rfl
  · split at h
    · cases h
      rfl
    · cases h

namespace Mapper

variable {m : Mapper} {t : CheckedText} {splits : List Int} {f : Finding} {fs : List Finding}

theorem exists_keep (m : Mapper) (t : CheckedText) (splits : List Int) (h : f.Typed) :
    ∃ b, m.keep t splits f = .ok b := by
  obtain ⟨spelling, hspelling⟩ := h.exists_isSpelling
  obtain ⟨disabled, hdisabled⟩ := h.rule.exists_isAmong t.profile.disabled
  unfold keep
  rw [hspelling, hdisabled]
  dsimp only [bind, Except.bind]
  split
  · exact ⟨_, rfl⟩
  · cases disabled <;> exact ⟨_, rfl⟩

theorem exists_suggestions (m : Mapper) (h : f.Typed) : ∃ vs, m.suggestions f = .ok vs := by
  refine exists_filterM fun v hv => ?_
  obtain ⟨b, hb⟩ := exists_anyM fun token (_ : token ∈ m.tokens) => exists_holdsToken (h.replacements v hv) token
  rw [hb]
  exact ⟨_, rfl⟩

/-- What is shown for a finding names its rule and stands where its span projects to. -/
def Shows (t : CheckedText) (f : Finding) (d : Diagnostic) : Prop :=
  d.rule = f.rule ∧ ∃ ls, t.map.project f.offset f.stop = .ok ls ∧ d.location ∈ ls

theorem shows_of_mem_diagnose {ds : List Diagnostic} (h : m.diagnose t splits f = .ok ds) :
    ∀ d ∈ ds, Shows t f d := by
  unfold diagnose at h
  obtain ⟨kept, -, h⟩ := exists_of_bind h
  cases kept with
  | false =>
    cases h
    exact List.forall_mem_nil _
  | true =>
    cases hproject : t.map.project f.offset f.stop with
    | error e =>
      rw [hproject] at h
      cases h
      exact List.forall_mem_nil _
    | ok ls =>
      rw [hproject] at h
      obtain ⟨vs, -, h⟩ := exists_of_bind h
      cases h
      intro d hd
      obtain ⟨l, hl, rfl⟩ := List.mem_map.1 hd
      exact ⟨rfl, ls, hproject, hl⟩

/-- Only findings are shown. -/
theorem shows_of_mem_map {ds : List Diagnostic} (h : m.map t splits fs = .ok ds) : ∀ d ∈ ds, ∃ f ∈ fs, Shows t f d := by
  unfold map at h
  obtain ⟨dss, hdss, h⟩ := exists_of_bind h
  intro d hd
  rw [Diagnostic.eq_of_sorted h, List.mem_mergeSort] at hd
  obtain ⟨ds, hds, hd⟩ := List.mem_flatten.1 hd
  obtain ⟨f, hf, hdiagnose⟩ := exists_of_mem_mapM hdss hds
  exact ⟨f, hf, shows_of_mem_diagnose hdiagnose d hd⟩

theorem exists_diagnose (m : Mapper) (t : CheckedText) (splits : List Int) (h : f.Typed) :
    ∃ ds, m.diagnose t splits f = .ok ds := by
  obtain ⟨kept, hkept⟩ := m.exists_keep t splits h
  obtain ⟨vs, hvs⟩ := m.exists_suggestions h
  unfold diagnose
  rw [hkept]
  cases kept with
  | false => exact ⟨[], rfl⟩
  | true =>
    dsimp only [bind, Except.bind]
    cases t.map.project f.offset f.stop with
    | error e => exact ⟨[], rfl⟩
    | ok ls =>
      dsimp only
      rw [hvs]
      exact ⟨_, rfl⟩

/-- No typed finding makes the mapping fail, and only findings are shown. -/
theorem exists_map (m : Mapper) (t : CheckedText) (splits : List Int) (h : ∀ f ∈ fs, f.Typed) :
    ∃ ds, m.map t splits fs = .ok ds ∧ ∀ d ∈ ds, ∃ f ∈ fs, Shows t f d := by
  obtain ⟨dss, hdss⟩ := exists_mapM fun f hf => m.exists_diagnose t splits (h f hf)
  have hrules : ∀ d ∈ dss.flatten, d.rule.IsText := by
    intro d hd
    obtain ⟨ds, hds, hd⟩ := List.mem_flatten.1 hd
    obtain ⟨f, hf, hdiagnose⟩ := exists_of_mem_mapM hdss hds
    rw [(shows_of_mem_diagnose hdiagnose d hd).1]
    exact (h f hf).rule
  have hmap : m.map t splits fs = .ok (dss.flatten.mergeSort Diagnostic.le) := by
    unfold map
    rw [hdss]
    exact Diagnostic.sorted_eq hrules
  exact ⟨_, hmap, shows_of_mem_map hmap⟩

end Mapper

end Proofreader
