import Mathlib.Data.List.Perm.Basic
import Proofreader.Proofs.Mapping.Answers

/-! Under a profile that allows more, the same findings show less: all that is gone is what was shown for a finding on a
word that only this profile allows, or of a rule that only this profile disables. -/

namespace Proofreader

/-- All of `ds` is in `es` but for diagnostics with `P`, and nothing else is. -/
def Loses (P : Diagnostic → Prop) (ds es : List Diagnostic) : Prop := ∃ gone, (es ++ gone).Perm ds ∧ ∀ d ∈ gone, P d

namespace Loses

variable {P Q : Diagnostic → Prop} {ds ds' es es' : List Diagnostic}

theorem refl (P : Diagnostic → Prop) (ds : List Diagnostic) : Loses P ds ds :=
  ⟨[], .of_eq (List.append_nil ds), List.forall_mem_nil _⟩

/-- Everything may be gone. -/
theorem all (h : ∀ d ∈ ds, P d) : Loses P ds [] := ⟨ds, .refl _, h⟩

theorem imp (h : Loses P ds es) (hPQ : ∀ d, P d → Q d) : Loses Q ds es := by
  obtain ⟨gone, hperm, hgone⟩ := h
  exact ⟨gone, hperm, fun d hd => hPQ d (hgone d hd)⟩

theorem append (h : Loses P ds es) (h' : Loses P ds' es') : Loses P (ds ++ ds') (es ++ es') := by
  obtain ⟨gone, hperm, hgone⟩ := h
  obtain ⟨gone', hperm', hgone'⟩ := h'
  refine ⟨gone ++ gone', ?_, fun d hd => (List.mem_append.1 hd).elim (hgone d) (hgone' d)⟩
  have hswap : (es ++ es' ++ (gone ++ gone')).Perm (es ++ gone ++ (es' ++ gone')) := by
    rw [List.append_assoc, List.append_assoc]
    refine List.Perm.append_left es ?_
    rw [← List.append_assoc, ← List.append_assoc]
    exact List.Perm.append_right gone' List.perm_append_comm
  exact hswap.trans (hperm.append hperm')

theorem of_perm (h : Loses P ds es) (hds : ds.Perm ds') (hes : es'.Perm es) : Loses P ds' es' := by
  obtain ⟨gone, hperm, hgone⟩ := h
  exact ⟨gone, ((hes.append_right gone).trans hperm).trans hds, hgone⟩

theorem flatMap {α : Type} {f g : α → List Diagnostic} {l : List α} (h : ∀ x ∈ l, Loses P (f x) (g x)) :
    Loses P (l.flatMap f) (l.flatMap g) := by
  induction l with
  | nil => exact .refl P []
  | cons x r ih =>
    rw [List.flatMap_cons, List.flatMap_cons]
    exact (h x List.mem_cons_self).append (ih fun y hy => h y (List.mem_cons_of_mem _ hy))

end Loses

/-- The second profile is for the same language, and allows and disables all that the first one does. -/
structure Profile.Within (p p' : Profile) : Prop where
  tag : p'.tag = p.tag
  dictionary : ∀ word ∈ p.dictionary, word ∈ p'.dictionary
  disabled : ∀ rule ∈ p.disabled, rule ∈ p'.disabled

def CheckedText.under (t : CheckedText) (p : Profile) : CheckedText := { t with profile := p }

theorem Json.isAmong_str (s : String) (texts : List String) : (Json.str s).isAmong texts = .ok (texts.contains s) := rfl

namespace Mapper

/-- An allowed word is as it is written, or as it is written in any case. -/
def Matches (m : Mapper) (entry : String) (word : Text) : Prop :=
  if m.caseSensitive then entry = String.ofList word else Text.fold entry.toList = Text.fold word

variable {m : Mapper} {t : CheckedText} {p : Profile} {splits : List Int} {f : Finding} {fs : List Finding} {word : Text}

theorem allows_iff : m.allows p word = true ↔ ∃ entry ∈ p.dictionary, m.Matches entry word := by
  unfold allows Matches
  split
  · simp
  · simp

/-- A finding on a word that only the profile `p` allows, or of a rule that only `p` disables. -/
def Silenced (m : Mapper) (t : CheckedText) (p : Profile) (f : Finding) : Prop :=
  (f.isSpelling = .ok true ∧ m.allows p (t.text.slice f.offset f.stop) = true ∧
      m.allows t.profile (t.text.slice f.offset f.stop) = false) ∨
    (f.rule.isAmong p.disabled = .ok true ∧ f.rule.isAmong t.profile.disabled = .ok false)

theorem keep_eq (splits : List Int) {spelling disabled : Bool} (hspelling : f.isSpelling = .ok spelling)
    (hdisabled : f.rule.isAmong t.profile.disabled = .ok disabled) : m.keep t splits f =
      .ok (!(spelling && m.allows t.profile (t.text.slice f.offset f.stop)) && !disabled && isPlaced t splits f) := by
  unfold keep
  rw [hspelling, hdisabled]
  dsimp only [bind, Except.bind]
  cases spelling && m.allows t.profile (t.text.slice f.offset f.stop) <;> cases disabled <;> rfl

/-- A profile that allows more keeps a finding as it was kept or silences it. -/
theorem keep_under (splits : List Int) (h : t.profile.Within p) (hf : f.Typed) :
    m.keep (t.under p) splits f = m.keep t splits f ∨
    (m.keep (t.under p) splits f = .ok false ∧ m.Silenced t p f) := by
  obtain ⟨spelling, hspelling⟩ := hf.exists_isSpelling
  obtain ⟨disabled, hdisabled⟩ := hf.rule.exists_isAmong t.profile.disabled
  obtain ⟨disabled', hdisabled'⟩ := hf.rule.exists_isAmong p.disabled
  have hkeep := keep_eq (m := m) splits hspelling hdisabled
  have hkeep' := keep_eq (m := m) (t := t.under p) splits hspelling hdisabled'
  have hallows : m.allows t.profile (t.text.slice f.offset f.stop) = true →
      m.allows p (t.text.slice f.offset f.stop) = true := by
    rw [allows_iff, allows_iff]
    exact fun ⟨entry, hentry, hmatches⟩ => ⟨entry, h.dictionary entry hentry, hmatches⟩
  have hmore : disabled = true → disabled' = true := by
    obtain ⟨rule, hrule⟩ := hf.rule
    rw [hrule, Json.isAmong_str, Except.ok.injEq] at hdisabled hdisabled'
    rw [← hdisabled, ← hdisabled', List.contains_iff_mem, List.contains_iff_mem]
    exact h.disabled rule
  change m.keep (t.under p) splits f = .ok (!(spelling && m.allows p (t.text.slice f.offset f.stop)) && !disabled' &&
    isPlaced t splits f) at hkeep'
  unfold Silenced
  rw [hkeep, hkeep', hspelling, hdisabled, hdisabled']
  generalize m.allows t.profile (t.text.slice f.offset f.stop) = allowed at hallows ⊢
  generalize m.allows p (t.text.slice f.offset f.stop) = allowed' at hallows ⊢
  by_cases hword : spelling = true ∧ allowed' = true ∧ allowed = false
  · obtain ⟨rfl, rfl, rfl⟩ := hword
    exact Or.inr ⟨rfl, Or.inl ⟨rfl, rfl, rfl⟩⟩
  by_cases hrule : disabled' = true ∧ disabled = false
  · obtain ⟨rfl, rfl⟩ := hrule
    exact Or.inr ⟨by rw [Bool.not_true, Bool.and_false, Bool.false_and], Or.inr ⟨rfl, rfl⟩⟩
  -- neither is new, so the finding is judged as before
  refine Or.inl ?_
  have hsame : disabled' = disabled := by
    cases disabled with
    | true => exact hmore rfl
    | false => exact Bool.eq_false_iff.2 fun he => hrule ⟨he, rfl⟩
  have hspelled : (spelling && allowed') = (spelling && allowed) := by
    cases spelling with
    | false => rfl
    | true =>
      cases allowed with
      | true => exact hallows rfl
      | false => exact Bool.eq_false_iff.2 fun he => hword ⟨rfl, he, rfl⟩
  rw [hsame, hspelled]

/-- So a finding shows the same or, silenced, nothing. -/
theorem diagnose_under (splits : List Int) (h : t.profile.Within p) (hf : f.Typed) {ds : List Diagnostic}
    (hds : m.diagnose t splits f = .ok ds) :
    ∃ es, m.diagnose (t.under p) splits f = .ok es ∧ Loses (fun d => Shows t f d ∧ m.Silenced t p f) ds es := by
  obtain hsame | ⟨hnone, hsilenced⟩ := keep_under (m := m) splits h hf
  · have htag : (t.under p).profile.tag = t.profile.tag := h.tag
    refine ⟨ds, ?_, .refl _ ds⟩
    rw [← hds]
    unfold diagnose
    rw [hsame, htag]
    rfl
  · refine ⟨[], ?_, .all fun d hd => ⟨shows_of_mem_diagnose hds d hd, hsilenced⟩⟩
    unfold diagnose
    rw [hnone]
    rfl

/-- Findings that are diagnosed one by one are mapped to all their diagnostics, in order. -/
theorem map_eq (hfs : ∀ f ∈ fs, f.Typed) : m.map t splits fs =
    .ok ((fs.flatMap fun f => (m.diagnose t splits f).toOption.getD []).mergeSort Diagnostic.le) := by
  have hdiagnose : ∀ f ∈ fs, m.diagnose t splits f = .ok ((m.diagnose t splits f).toOption.getD []) := by
    intro f hf
    obtain ⟨ds, hds⟩ := m.exists_diagnose t splits (hfs f hf)
    rw [hds]
    rfl
  have hrules : ∀ d ∈ fs.flatMap fun f => (m.diagnose t splits f).toOption.getD [], d.rule.IsText := by
    intro d hd
    obtain ⟨f, hf, hd⟩ := List.mem_flatMap.1 hd
    rw [(shows_of_mem_diagnose (hdiagnose f hf) d hd).1]
    exact (hfs f hf).rule
  unfold map
  rw [mapM_eq hdiagnose]
  exact Diagnostic.sorted_eq hrules

theorem map_under (splits : List Int) (h : t.profile.Within p) (hfs : ∀ f ∈ fs, f.Typed) :
    ∃ ds es, m.map t splits fs = .ok ds ∧ m.map (t.under p) splits fs = .ok es ∧
      Loses (fun d => ∃ f ∈ fs, Shows t f d ∧ m.Silenced t p f) ds es := by
  have hloses : Loses (fun d => ∃ f ∈ fs, Shows t f d ∧ m.Silenced t p f)
      (fs.flatMap fun f => (m.diagnose t splits f).toOption.getD [])
      (fs.flatMap fun f => (m.diagnose (t.under p) splits f).toOption.getD []) := by
    refine .flatMap fun f hf => ?_
    obtain ⟨ds, hds⟩ := m.exists_diagnose t splits (hfs f hf)
    obtain ⟨es, hes, hloses⟩ := diagnose_under splits h (hfs f hf) hds
    rw [hds, hes]
    exact hloses.imp fun d hd => ⟨f, hf, hd⟩
  exact ⟨_, _, map_eq hfs, map_eq hfs, hloses.of_perm (List.mergeSort_perm _ _).symm (List.mergeSort_perm _ _)⟩

end Mapper

end Proofreader
