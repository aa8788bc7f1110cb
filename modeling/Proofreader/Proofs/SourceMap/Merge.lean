import Mathlib.Tactic.Common
import Proofreader.Proofs.Text.Basic
import Proofreader.SourceMap

/-! Merged locations. Each is joined from the ones that were given; where those follow each other in one file, the
merged ones hold the same text. -/

namespace Proofreader

namespace Location

/-- The location begins and ends with some of `ls`, and they cover what lies between. -/
structure Joins (ls : List Location) (l : Location) : Prop where
  valid : l.Valid
  begins : ∃ k ∈ ls, k.file = l.file ∧ k.start = l.start
  ends : ∃ k ∈ ls, k.file = l.file ∧ k.stop = l.stop
  covered : ∀ i, l.start ≤ i → i < l.stop → ∃ k ∈ ls, k.file = l.file ∧ k.start ≤ i ∧ i < k.stop

variable {ls : List Location} {l c : Location}

theorem joins_of_mem (h : l ∈ ls) (hv : l.Valid) : l.Joins ls :=
  ⟨hv, ⟨l, h, rfl, rfl⟩, ⟨l, h, rfl, rfl⟩, fun _ hi hj => ⟨l, h, rfl, hi, hj⟩⟩

/-- Two locations that overlap or touch make one. -/
theorem Joins.extend (hc : c.Joins ls) (hl : l.Joins ls) (hfile : l.file = c.file) (h : l.start ≤ c.stop) :
    Joins ls { c with stop := max c.stop l.stop } where
  valid := Nat.le_trans hc.valid (Nat.le_max_left _ _)
  begins := hc.begins
  ends := by
    rcases Nat.le_total c.stop l.stop with hle | hle
    · obtain ⟨k, hk, hkf, hks⟩ := hl.ends
      exact ⟨k, hk, hkf.trans hfile, hks.trans (Nat.max_eq_right hle).symm⟩
    · obtain ⟨k, hk, hkf, hks⟩ := hc.ends
      exact ⟨k, hk, hkf, hks.trans (Nat.max_eq_left hle).symm⟩
  covered := by
    intro i hi hj
    by_cases hic : i < c.stop
    · exact hc.covered i hi hic
    · change i < max c.stop l.stop at hj
      obtain ⟨k, hk, hkf, hki⟩ := hl.covered i (by omega) (by omega)
      exact ⟨k, hk, hkf.trans hfile, hki⟩

end Location

variable {ls ks : List Location} {l c : Location} {file : FileId}

theorem joins_of_mem_mergeSorted (hc : c.Joins ks ∧ c.file = file) (hls : ∀ k ∈ ls, k.Joins ks ∧ k.file = file)
    (h : l ∈ mergeSorted c ls) : l.Joins ks ∧ l.file = file := by
  induction ls generalizing c with
  | nil =>
    rw [mergeSorted, List.mem_singleton] at h
    exact h ▸ hc
  | cons k r ih =>
    have hk := hls k List.mem_cons_self
    have hr : ∀ k ∈ r, k.Joins ks ∧ k.file = file := fun k hk => hls k (List.mem_cons_of_mem _ hk)
    rw [mergeSorted] at h
    split at h
    · next hle => exact ih ⟨hc.1.extend hk.1 (hk.2.trans hc.2.symm) hle, hc.2⟩ hr h
    · rcases List.mem_cons.1 h with rfl | h
      · exact hc
      · exact ih hk hr h

/-- What is sorted lies in what is merged. -/
theorem exists_mem_mergeSorted (hsorted : (c :: ls).Pairwise fun l k => l.start ≤ k.start) (h : l ∈ c :: ls) :
    ∃ k ∈ mergeSorted c ls, k.start ≤ l.start ∧ l.stop ≤ k.stop := by
  induction ls generalizing c l with
  | nil =>
    rw [List.mem_singleton.1 h]
    exact ⟨c, List.mem_singleton_self c, Nat.le_refl _, Nat.le_refl _⟩
  | cons k r ih =>
    obtain ⟨hc, hr⟩ := List.pairwise_cons.1 hsorted
    have hck := hc k List.mem_cons_self
    have hcr : ∀ j ∈ r, c.start ≤ j.start := fun j hj => hc j (List.mem_cons_of_mem _ hj)
    rw [mergeSorted]
    split
    · next hle =>
      have hjoined : ({ c with stop := max c.stop k.stop } :: r).Pairwise fun l k => l.start ≤ k.start :=
        List.pairwise_cons.2 ⟨hcr, (List.pairwise_cons.1 hr).2⟩
      obtain ⟨j, hj, hstart, hstop⟩ := ih hjoined List.mem_cons_self
      dsimp only at hstart hstop
      rcases List.mem_cons.1 h with rfl | h
      · exact ⟨j, hj, hstart, by omega⟩
      · rcases List.mem_cons.1 h with rfl | h
        · exact ⟨j, hj, by omega, by omega⟩
        · exact ih hjoined (List.mem_cons_of_mem _ h)
    · rcases List.mem_cons.1 h with rfl | h
      · exact ⟨l, List.mem_cons_self, Nat.le_refl _, Nat.le_refl _⟩
      · obtain ⟨j, hj, hin⟩ := ih hr h
        exact ⟨j, List.mem_cons_of_mem _ hj, hin⟩

theorem joins_of_mem_mergeSort (hv : ∀ k ∈ ls, k.Valid) (h : l ∈ (ls.filter (·.file = file)).mergeSort Location.before) :
    l.Joins ls ∧ l.file = file := by
  rw [List.mem_mergeSort, List.mem_filter, decide_eq_true_eq] at h
  exact ⟨Location.joins_of_mem h.1 (hv l h.1), h.2⟩

/-- The locations of one file are merged in the order of their starts. -/
theorem pairwise_start_mergeSort (ls : List Location) (file : FileId) :
    ((ls.filter (·.file = file)).mergeSort Location.before).Pairwise fun l k => l.start ≤ k.start := by
  refine (List.pairwise_mergeSort ?_ ?_ _).imp fun {l k} hlk => ?_
  · simp only [Location.before, Bool.or_eq_true, Bool.and_eq_true, decide_eq_true_eq]
    omega
  · simp only [Location.before, Bool.or_eq_true, Bool.and_eq_true, decide_eq_true_eq]
    omega
  · simp only [Location.before, Bool.or_eq_true, Bool.and_eq_true, decide_eq_true_eq] at hlk
    omega

/-- A merged location is joined from the ones that were given. -/
theorem joins_of_mem_mergeLocations (hv : ∀ k ∈ ls, k.Valid) (h : l ∈ mergeLocations ls) : l.Joins ls := by
  obtain ⟨file, -, h⟩ := List.mem_flatMap.1 h
  have hsorted : ∀ k ∈ (ls.filter (·.file = file)).mergeSort Location.before, k.Joins ls ∧ k.file = file :=
    fun k => joins_of_mem_mergeSort hv
  split at h
  · cases h
  · next k r heq =>
    rw [heq] at hsorted
    exact (joins_of_mem_mergeSorted (hsorted k List.mem_cons_self) (fun j hj => hsorted j (List.mem_cons_of_mem _ hj)) h).1

/-- Each location lies in a merged one. -/
theorem exists_mem_mergeLocations (hv : ∀ k ∈ ls, k.Valid) (h : l ∈ ls) :
    ∃ k ∈ mergeLocations ls, k.file = l.file ∧ k.start ≤ l.start ∧ l.stop ≤ k.stop := by
  have hjoins : ∀ k ∈ (ls.filter (·.file = l.file)).mergeSort Location.before, k.Joins ls ∧ k.file = l.file :=
    fun k => joins_of_mem_mergeSort hv
  have hsorted := pairwise_start_mergeSort ls l.file
  have hmem : l ∈ (ls.filter (·.file = l.file)).mergeSort Location.before := by
    rw [List.mem_mergeSort, List.mem_filter]
    exact ⟨h, decide_eq_true rfl⟩
  obtain ⟨c, r, heq⟩ := List.exists_cons_of_ne_nil (List.ne_nil_of_mem hmem)
  rw [heq] at hjoins hsorted hmem
  obtain ⟨k, hk, hin⟩ := exists_mem_mergeSorted hsorted hmem
  have hfile := (joins_of_mem_mergeSorted (hjoins c List.mem_cons_self) (fun j hj => hjoins j (List.mem_cons_of_mem _ hj)) hk).2
  refine ⟨k, List.mem_flatMap.2 ⟨l.file, List.mem_eraseDups.2 (List.mem_map_of_mem h), ?_⟩, hfile, hin⟩
  rw [heq]
  exact hk

/-- Locations of one file, each behind the one before. -/
structure InLine (file : FileId) (ls : List Location) : Prop where
  file : ∀ l ∈ ls, l.file = file
  valid : ∀ l ∈ ls, l.Valid
  ordered : ls.Pairwise fun l k => l.stop ≤ k.start

namespace InLine

theorem tail (h : InLine file (c :: ls)) : InLine file ls :=
  ⟨fun l hl => h.file l (List.mem_cons_of_mem _ hl), fun l hl => h.valid l (List.mem_cons_of_mem _ hl),
    (List.pairwise_cons.1 h.ordered).2⟩

theorem sorted (h : InLine file ls) : ls.Pairwise fun l k => l.before k = true := by
  refine h.ordered.imp_of_mem fun {l k} hl hk hlk => ?_
  have hlv := h.valid l hl
  have hkv := h.valid k hk
  simp only [Location.Valid] at hlv hkv
  simp only [Location.before, Bool.or_eq_true, Bool.and_eq_true, decide_eq_true_eq]
  omega

theorem files (h : InLine file ls) (hne : ls ≠ []) : (ls.map (·.file)).eraseDups = [file] := by
  obtain ⟨l, r, rfl⟩ := List.exists_cons_of_ne_nil hne
  have hnone : (r.map (·.file)).filter (fun f => !f == l.file) = [] := by
    refine List.filter_eq_nil_iff.2 fun f hf => ?_
    obtain ⟨k, hk, rfl⟩ := List.mem_map.1 hf
    simp [h.file k (List.mem_cons_of_mem _ hk), h.file l List.mem_cons_self]
  rw [List.map_cons, List.eraseDups_cons, hnone, h.file l List.mem_cons_self]
  rfl

/-- Merging keeps the text that ranges in line hold. -/
theorem slices_mergeSorted (h : InLine file (c :: ls)) (source : Text) :
    (mergeSorted c ls).flatMap (fun l => source.extract l.start l.stop) =
      (c :: ls).flatMap fun l => source.extract l.start l.stop := by
  induction ls generalizing c with
  | nil => rfl
  | cons k r ih =>
    have hcv := h.valid c (by simp)
    have hkv := h.valid k (by simp)
    obtain ⟨hck, hr⟩ := List.pairwise_cons.1 h.ordered
    have hck' := hck k List.mem_cons_self
    simp only [Location.Valid] at hcv hkv
    rw [mergeSorted]
    split
    · next hle =>
      have hmax : max c.stop k.stop = k.stop := Nat.max_eq_right (by omega)
      have htouch : k.start = c.stop := by omega
      rw [hmax, ih]
      · simp only [List.flatMap_cons]
        rw [← Text.extract_append_extract source hcv (htouch ▸ hkv), htouch, List.append_assoc]
      · refine ⟨fun l hl => ?_, fun l hl => ?_, ?_⟩
        · rcases List.mem_cons.1 hl with rfl | hl
          · exact h.file c (by simp)
          · exact h.file l (by simp [hl])
        · rcases List.mem_cons.1 hl with rfl | hl
          · exact Nat.le_trans hcv (Nat.le_trans hck' hkv)
          · exact h.valid l (by simp [hl])
        · exact List.pairwise_cons.2 (List.pairwise_cons.1 hr)
    · simp only [List.flatMap_cons, ih h.tail]

/-- Ranges in line need no sorting. -/
theorem mergeLocations_cons {l : Location} {r : List Location} (h : InLine file (l :: r)) :
    mergeLocations (l :: r) = mergeSorted l r := by
  have hall : (l :: r).filter (·.file = file) = l :: r := List.filter_eq_self.2 fun k hk => by simpa using h.file k hk
  have hsort : (l :: r).mergeSort Location.before = l :: r := List.mergeSort_of_pairwise h.sorted
  rw [mergeLocations, h.files (List.cons_ne_nil l r), List.flatMap_singleton, hall, hsort]

/-- Ranges in line keep their text when they are merged. -/
theorem slices_mergeLocations (h : InLine file ls) (source : Text) :
    (mergeLocations ls).flatMap (fun l => source.extract l.start l.stop) =
      ls.flatMap fun l => source.extract l.start l.stop := by
  cases ls with
  | nil => rfl
  | cons l r =>
    rw [h.mergeLocations_cons]
    exact h.slices_mergeSorted source

end InLine

theorem SourceMap.project_eq_ok {m : SourceMap} {a b : Int} {ls : List Location} : m.project a b = .ok ls ↔
    m.overlapping a b ≠ [] ∧ mergeLocations ((m.overlapping a b).map (·.project a b)) = ls := by
  unfold project
  split <;> simp_all

end Proofreader
