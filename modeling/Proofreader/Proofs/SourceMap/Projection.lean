import Proofreader.Proofs.Collections
import Proofreader.Proofs.SourceMap.Merge
import Proofreader.Proofs.SourceMap.Tiling

/-! Whatever integers a span has, it projects to locations that can be made and that lie in the sources of the
entries that it overlaps. -/

namespace Proofreader

/-- What holds of the location of an entry: it is a place, and as long as the entry if that is exact. -/
structure Entry.Placed (e : Entry) : Prop where
  valid : e.location.Valid
  length : e.exact = true → e.location.start + (e.stop - e.start) = e.location.stop

/-! The projection once more, with the check that every location passes when it is made. -/

def Entry.checkedProject (e : Entry) (a b : Int) : Except RangeError Location :=
  if e.exact then
    let low := max a e.start
    let shift := (e.location.start : Int) - e.start
    Location.ofInts e.location.file (low + shift) (max low (min b e.stop) + shift)
  else .ok e.location

def checkedMergeSorted : Location → List Location → Except RangeError (List Location)
  | current, [] => .ok [current]
  | current, l :: r =>
    if l.start ≤ current.stop then do
      let joined ← Location.ofInts current.file current.start (max (current.stop : Int) l.stop)
      checkedMergeSorted joined r
    else do
      let rest ← checkedMergeSorted l r
      return current :: rest

def checkedMergeLocations (ls : List Location) : Except RangeError (List Location) := do
  let merged ← (ls.map (·.file)).eraseDups.mapM fun file =>
    match (ls.filter (·.file = file)).mergeSort Location.before with
    | [] => .ok []
    | l :: r => checkedMergeSorted l r
  return merged.flatten

def SourceMap.checkedProject (m : SourceMap) (a b : Int) : Except RangeError (Except Unmapped (List Location)) :=
  match m.overlapping a b with
  | [] => .ok (.error ⟨a, b⟩)
  | entries => do
    let projected ← entries.mapM (·.checkedProject a b)
    return .ok (← checkedMergeLocations projected)

namespace Entry

variable {e : Entry} {a b : Int}

/-- An entry that a span overlaps projects inside its own location. -/
theorem Placed.project (h : e.Placed) (hlt : e.start < e.stop) (ha : a < e.stop) :
    (e.project a b).file = e.location.file ∧ e.location.start ≤ (e.project a b).start ∧
      (e.project a b).Valid ∧ (e.project a b).stop ≤ e.location.stop := by
  unfold Entry.project
  split
  · next hexact =>
    have hlength := h.length hexact
    simp only [Location.Valid, true_and]
    omega
  · exact ⟨rfl, Nat.le_refl _, h.valid, Nat.le_refl _⟩

/-- The low end is cut off at the entry, so its place is none before the place of the entry. -/
theorem checkedProject_eq (e : Entry) (a b : Int) : e.checkedProject a b = .ok (e.project a b) := by
  unfold checkedProject Entry.project
  split
  · dsimp only
    rw [Location.ofInts, if_pos (by omega)]
  · rfl

end Entry

/-- Ranges that are joined end behind their start. -/
theorem checkedMergeSorted_eq {c : Location} {ls : List Location} (hc : c.Valid) (hls : ∀ l ∈ ls, l.Valid) :
    checkedMergeSorted c ls = .ok (mergeSorted c ls) := by
  induction ls generalizing c with
  | nil => rfl
  | cons l r ih =>
    have hr : ∀ k ∈ r, k.Valid := fun k hk => hls k (List.mem_cons_of_mem _ hk)
    rw [checkedMergeSorted, mergeSorted]
    split
    · have hjoined : Location.Valid { c with stop := max c.stop l.stop } := Nat.le_trans hc (Nat.le_max_left _ _)
      have hmade : Location.ofInts c.file c.start (max (c.stop : Int) l.stop) =
          .ok { c with stop := max c.stop l.stop } := by
        rw [Location.Valid] at hc
        rw [Location.ofInts, if_pos (by omega)]
        congr 2
        omega
      rw [hmade]
      exact ih hjoined hr
    · rw [ih (hls l List.mem_cons_self) hr]
      rfl

theorem checkedMergeLocations_eq {ls : List Location} (h : ∀ l ∈ ls, l.Valid) :
    checkedMergeLocations ls = .ok (mergeLocations ls) := by
  rw [checkedMergeLocations, mapM_eq fun file _ => ?_, mergeLocations, List.flatMap_def]
  · rfl
  · have hsorted : ∀ l ∈ (ls.filter (·.file = file)).mergeSort Location.before, l.Valid := fun l hl =>
      h l (List.mem_filter.1 (List.mem_mergeSort.1 hl)).1
    cases hfile : (ls.filter (·.file = file)).mergeSort Location.before with
    | nil => rfl
    | cons l r =>
      rw [hfile] at hsorted
      exact checkedMergeSorted_eq (hsorted l List.mem_cons_self) fun k hk => hsorted k (List.mem_cons_of_mem _ hk)

namespace SourceMap

variable {m : SourceMap} {a b : Int} {e : Entry}

theorem Tiled.lt_stop_of_mem_overlapping (h : m.Tiled) (he : e ∈ m.overlapping a b) :
    e ∈ m.entries.toList ∧ e.start < e.stop ∧ a < e.stop := by
  obtain ⟨hmem, hover⟩ := mem_overlapping h he
  refine ⟨hmem, (Tiling.entry_bounds h hmem).2.1, ?_⟩
  rcases hover with hcovers | hmeets
  · simp only [Entry.covers, Bool.and_eq_true, decide_eq_true_eq] at hcovers
    exact hcovers.2
  · simp only [Entry.meets, Bool.and_eq_true, decide_eq_true_eq] at hmeets
    exact hmeets.2

/-- An overlapped entry projects to a place inside its own. -/
theorem Tiled.project_entry (h : m.Tiled) (hplaced : ∀ e ∈ m.entries.toList, e.Placed) (he : e ∈ m.overlapping a b) :
    (e.project a b).file = e.location.file ∧ e.location.start ≤ (e.project a b).start ∧
      (e.project a b).Valid ∧ (e.project a b).stop ≤ e.location.stop := by
  obtain ⟨hmem, hlt, ha⟩ := h.lt_stop_of_mem_overlapping he
  exact (hplaced e hmem).project hlt ha

/-- A span projects to what joins the places of its parts. -/
theorem Tiled.joins_of_project {ls : List Location} {l : Location} (h : m.Tiled)
    (hplaced : ∀ e ∈ m.entries.toList, e.Placed) (hls : m.project a b = .ok ls) (hl : l ∈ ls) :
    l.Joins ((m.overlapping a b).map (·.project a b)) := by
  obtain ⟨-, rfl⟩ := project_eq_ok.1 hls
  refine joins_of_mem_mergeLocations (fun k hk => ?_) hl
  obtain ⟨e, he, rfl⟩ := List.mem_map.1 hk
  exact (h.project_entry hplaced he).2.2.1

/-- No check fails, whatever the span. -/
theorem Tiled.checkedProject_eq (h : m.Tiled) (hplaced : ∀ e ∈ m.entries.toList, e.Placed) (a b : Int) :
    m.checkedProject a b = .ok (m.project a b) := by
  have hvalid : ∀ l ∈ (m.overlapping a b).map (·.project a b), l.Valid := by
    intro l hl
    obtain ⟨e, he, rfl⟩ := List.mem_map.1 hl
    exact (h.project_entry hplaced he).2.2.1
  unfold checkedProject project
  cases hover : m.overlapping a b with
  | nil => rfl
  | cons e r =>
    rw [hover] at hvalid
    dsimp only
    rw [mapM_eq fun e _ => e.checkedProject_eq a b]
    dsimp only [bind, Except.bind]
    rw [checkedMergeLocations_eq hvalid]
    rfl

end SourceMap

/-- The location lies in what `ks` cover together, and so do its ends. -/
structure Location.Inside (ks : List Location) (l : Location) : Prop where
  valid : l.Valid
  covered : ∀ i, l.start ≤ i → i < l.stop → ∃ k ∈ ks, k.file = l.file ∧ k.start ≤ i ∧ i < k.stop
  begins : ∃ k ∈ ks, k.file = l.file ∧ k.start ≤ l.start ∧ l.start ≤ k.stop
  ends : ∃ k ∈ ks, k.file = l.file ∧ k.start ≤ l.stop ∧ l.stop ≤ k.stop

/-- A span that projects at all projects to locations inside the sources that it overlaps. -/
theorem SourceMap.Tiled.inside_of_project {m : SourceMap} {a b : Int} {ls : List Location} (h : m.Tiled)
    (hplaced : ∀ e ∈ m.entries.toList, e.Placed) (hls : m.project a b = .ok ls) {l : Location} (hl : l ∈ ls) :
    l.Inside ((m.overlapping a b).map (·.location)) := by
  have hprojected : ∀ k ∈ (m.overlapping a b).map (·.project a b), ∃ e ∈ m.overlapping a b, k.file = e.location.file ∧
      e.location.start ≤ k.start ∧ k.Valid ∧ k.stop ≤ e.location.stop := by
    intro k hk
    obtain ⟨e, he, rfl⟩ := List.mem_map.1 hk
    exact ⟨e, he, h.project_entry hplaced he⟩
  have hjoins := h.joins_of_project hplaced hls hl
  refine ⟨hjoins.valid, fun i hi hj => ?_, ?_, ?_⟩
  · obtain ⟨k, hk, hkf, hki, hkj⟩ := hjoins.covered i hi hj
    obtain ⟨e, he, hf, hstart, -, hstop⟩ := hprojected k hk
    exact ⟨e.location, List.mem_map_of_mem he, hf.symm.trans hkf, by omega, by omega⟩
  · obtain ⟨k, hk, hkf, hks⟩ := hjoins.begins
    obtain ⟨e, he, hf, hstart, hvalid, hstop⟩ := hprojected k hk
    rw [Location.Valid] at hvalid
    exact ⟨e.location, List.mem_map_of_mem he, hf.symm.trans hkf, by omega, by omega⟩
  · obtain ⟨k, hk, hkf, hks⟩ := hjoins.ends
    obtain ⟨e, he, hf, hstart, hvalid, hstop⟩ := hprojected k hk
    rw [Location.Valid] at hvalid
    exact ⟨e.location, List.mem_map_of_mem he, hf.symm.trans hkf, by omega, by omega⟩

end Proofreader
