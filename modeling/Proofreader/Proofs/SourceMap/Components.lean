import Mathlib
import Proofreader.Proofs.Collections
import Proofreader.Proofs.SourceMap.Written

/-! What merging and projecting come to. Merged ranges are the connected parts of what the given ones cover, file by
file, and there is one list of these only: so the order of the ranges does not matter, and merging twice is merging
once. A span projects to the connected parts of what its entries contribute. -/

namespace Proofreader

variable {ls ks js : List Location} {l k j : Location} {file : FileId} {i : Nat}

namespace Location

/-- The two ranges share a point; their ends belong to them. -/
structure Touches (l k : Location) : Prop where
  file : l.file = k.file
  start : l.start ≤ k.stop
  stop : k.start ≤ l.stop

theorem Touches.symm (h : l.Touches k) : k.Touches l := ⟨h.file.symm, h.stop, h.start⟩

/-- The whole of `l` lies in `k`. -/
structure Within (l k : Location) : Prop where
  file : l.file = k.file
  start : k.start ≤ l.start
  stop : l.stop ≤ k.stop

/-- A chain of ranges of `ls`, each of which touches the next, leads from one to the other. -/
def Linked (ls : List Location) : Location → Location → Prop :=
  Relation.ReflTransGen fun l k => l ∈ ls ∧ k ∈ ls ∧ l.Touches k

/-- A point of the file lies in one of the ranges. -/
def Reached (ls : List Location) (file : FileId) (i : Nat) : Prop :=
  ∃ l ∈ ls, l.file = file ∧ l.start ≤ i ∧ i ≤ l.stop

/-- The character between the points `i` and `i + 1` lies in one of the ranges. -/
def Covered (ls : List Location) (file : FileId) (i : Nat) : Prop :=
  ∃ l ∈ ls, l.file = file ∧ l.start ≤ i ∧ i < l.stop

end Location

open Location

/-- The ranges in `ks` are the connected parts of what those in `ls` cover, for one file after the other in the order in
which the files first appear, and in the order of their places in a file. -/
structure Components (ls ks : List Location) : Prop where
  valid : ∀ k ∈ ks, k.Valid
  files : (ks.map (·.file)).eraseDups = (ls.map (·.file)).eraseDups
  grouped : ks = (ls.map (·.file)).eraseDups.flatMap fun file => ks.filter (·.file = file)
  apart : ks.Pairwise fun k j => k.file = j.file → k.stop < j.start
  reached : ∀ file i, Reached ks file i ↔ Reached ls file i
  covered : ∀ file i, Covered ks file i ↔ Covered ls file i

namespace Components

/-- Parts that touch are the same part. -/
theorem eq_of_touches (h : Components ls ks) (hk : k ∈ ks) (hj : j ∈ ks) (ht : k.Touches j) : k = j := by
  have hsymm : Std.Symm fun k j : Location => k.Touches j → k = j := ⟨fun _ _ h ht => (h ht.symm).symm⟩
  refine List.Pairwise.forall_of_forall (R := fun k j => k.Touches j → k = j) ?_ ?_ hk hj ht
  · intro _ _ _
    rfl
  · refine h.apart.imp fun {k j} hkj ht => ?_
    have := hkj ht.file
    have := ht.stop
    omega

/-- Every given range lies in a part. -/
theorem exists_within (h : Components ls ks) (hl : l ∈ ls) (hv : l.Valid) : ∃ k ∈ ks, l.Within k := by
  obtain ⟨k, hk, hfile, hstart, hstop⟩ := (h.reached l.file l.start).2 ⟨l, hl, rfl, Nat.le_refl _, hv⟩
  refine ⟨k, hk, hfile.symm, hstart, ?_⟩
  by_contra hlt
  -- the range goes on behind the part, so that another part begins there
  obtain ⟨j, hj, hjf, hjs, hje⟩ := (h.covered l.file k.stop).2 ⟨l, hl, rfl, hstop, by omega⟩
  have hkv := h.valid k hk
  rw [Valid] at hkv
  obtain rfl := h.eq_of_touches hk hj ⟨hfile.trans hjf.symm, by omega, hjs⟩
  omega

/-- A part is a part of any other such list. -/
theorem mem_of_mem (h : Components ls ks) (g : Components ls js) (hk : k ∈ ks) : k ∈ js := by
  have hkv := h.valid k hk
  rw [Valid] at hkv
  obtain ⟨j, hj, hjf, hjs, hje⟩ :=
    (g.reached k.file k.start).2 ((h.reached k.file k.start).1 ⟨k, hk, rfl, Nat.le_refl _, hkv⟩)
  have same : ∀ i, (Covered ks k.file i ↔ Covered js k.file i) := by
    intro i
    rw [h.covered, g.covered]
  have hstart : j.start = k.start := by
    by_contra hne
    obtain ⟨m, hm, hmf, hms, hme⟩ := (same (k.start - 1)).2 ⟨j, hj, hjf, by omega, by omega⟩
    obtain rfl := h.eq_of_touches hm hk ⟨hmf, by omega, by omega⟩
    omega
  have hstop : j.stop = k.stop := by
    rcases Nat.lt_trichotomy j.stop k.stop with hlt | heq | hlt
    · obtain ⟨m, hm, hmf, hms, hme⟩ := (same j.stop).1 ⟨k, hk, rfl, hje.trans' (by omega), hlt⟩
      obtain rfl := g.eq_of_touches hm hj ⟨hmf.trans hjf.symm, hms, by omega⟩
      omega
    · exact heq
    · obtain ⟨m, hm, hmf, hms, hme⟩ := (same k.stop).2 ⟨j, hj, hjf, by omega, hlt⟩
      obtain rfl := h.eq_of_touches hm hk ⟨hmf, hms, by omega⟩
      omega
  obtain rfl : j = k := by
    cases j
    cases k
    simp_all
  exact hj

theorem nodup (h : Components ls ks) : ks.Nodup := by
  refine h.apart.imp_of_mem fun {k j} hk _ hkj he => ?_
  have hv := h.valid k hk
  rw [Valid] at hv
  have := hkj (congrArg _ he)
  rw [← he] at this
  omega

/-- There is one list of the connected parts. -/
theorem unique (h : Components ls ks) (g : Components ls js) : ks = js := by
  rw [h.grouped, g.grouped]
  refine List.flatMap_congr fun file _ => ?_
  have hmem : ∀ k, k ∈ ks.filter (·.file = file) ↔ k ∈ js.filter (·.file = file) := by
    intro k
    rw [List.mem_filter, List.mem_filter]
    exact and_congr_left fun _ => ⟨h.mem_of_mem g, g.mem_of_mem h⟩
  have hperm := (List.perm_ext_iff_of_nodup (h.nodup.filter _) (g.nodup.filter _)).2 hmem
  have hsorted : ∀ {js : List Location}, Components ls js →
      (js.filter (·.file = file)).Pairwise fun k j => k.stop < j.start := by
    intro js g
    refine (g.apart.filter _).imp_of_mem fun {k j} hk hj hkj => hkj ?_
    rw [List.mem_filter, decide_eq_true_eq] at hk hj
    exact hk.2.trans hj.2.symm
  refine hperm.eq_of_pairwise (fun k j hk hj hkj hjk => ?_) (hsorted h) (hsorted g)
  have hkv := h.valid k (List.mem_filter.1 hk).1
  rw [Valid] at hkv
  have hjv := g.valid j (List.mem_filter.1 hj).1
  rw [Valid] at hjv
  omega

/-- What a chain leads to lies in the part in which it begins. -/
theorem within_of_linked (h : Components ls ks) (hv : ∀ l ∈ ls, l.Valid) (hl : l ∈ ls) (hlinked : Linked ls l k) :
    ∃ j ∈ ks, l.Within j ∧ k.Within j := by
  induction hlinked with
  | refl =>
    obtain ⟨j, hj, hlj⟩ := h.exists_within hl (hv l hl)
    exact ⟨j, hj, hlj, hlj⟩
  | @tail m k _ hstep ih =>
    obtain ⟨-, hk, htouches⟩ := hstep
    obtain ⟨j, hj, hlj, hmj⟩ := ih
    obtain ⟨j', hj', hkj⟩ := h.exists_within hk (hv k hk)
    have htouch : j.Touches j' := by
      refine ⟨hmj.file.symm.trans (htouches.file.trans hkj.file), ?_, ?_⟩
      · exact (hmj.start.trans htouches.start).trans hkj.stop
      · exact (hkj.start.trans htouches.stop).trans hmj.stop
    obtain rfl := h.eq_of_touches hj hj' htouch
    exact ⟨j, hj, hlj, hkj⟩

end Components

/-- The ranges of a chain reach every point from where it begins to where it ends. -/
theorem Location.Linked.reaches (h : Linked ls l k) (hi : l.start ≤ i) (hk : i ≤ k.stop) :
    ∃ m, Linked ls l m ∧ m.file = l.file ∧ m.start ≤ i ∧ i ≤ m.stop := by
  have hfile : ∀ {m}, Linked ls l m → m.file = l.file := by
    intro m hm
    induction hm with
    | refl => rfl
    | tail _ hstep ih => exact hstep.2.2.file.symm.trans ih
  induction h with
  | refl => exact ⟨l, .refl, rfl, hi, hk⟩
  | @tail m k hm hstep ih =>
    by_cases hbefore : i ≤ m.stop
    · exact ih hbefore
    · have := hstep.2.2.stop
      exact ⟨k, hm.tail hstep, hfile (hm.tail hstep), by omega, hk⟩

namespace Components

/-- In a part, a chain that begins before a range comes to touch it: as long as it ends before the range, another range
covers what lies behind it. -/
theorem linked_of_within (h : Components ls ks) (hv : ∀ l ∈ ls, l.Valid) (hl : l ∈ ls) (hk : k ∈ ls) (hj : j ∈ ks)
    (hlj : l.Within j) (hkj : k.Within j) (hle : l.start ≤ k.start) : Linked ls l k := by
  have hkv := hv k hk
  rw [Valid] at hkv
  have hreach : ∀ m ∈ ls, Linked ls l m → Linked ls l k := by
    intro m hm hlm
    induction hn : k.start - m.stop using Nat.strong_induction_on generalizing m with
    | _ n ih =>
      by_cases hbefore : k.start ≤ m.stop
      · obtain ⟨p, hlp, hpf, hps, hpe⟩ := hlm.reaches hle hbefore
        have hpk : p.Touches k := ⟨hpf.trans (hlj.file.trans hkj.file.symm), hps.trans hkv, hpe⟩
        have hp : p ∈ ls := by
          rcases Relation.ReflTransGen.cases_tail hlp with rfl | ⟨_, -, hstep⟩
          · exact hl
          · exact hstep.2.1
        exact hlp.tail ⟨hp, hk, hpk⟩
      · obtain ⟨j', hj', hlj', hmj⟩ := h.within_of_linked hv hl hlm
        have hsame : j' = j := by
          have hlv := hv l hl
          rw [Valid] at hlv
          refine h.eq_of_touches hj' hj ⟨hlj'.file.symm.trans hlj.file, ?_, ?_⟩
          · exact (hlj'.start.trans hlv).trans hlj.stop
          · exact (hlj.start.trans hlv).trans hlj'.stop
        rw [hsame] at hmj
        have hmv := hv m hm
        rw [Valid] at hmv
        have hms := hmj.start
        have hke := hkj.stop
        obtain ⟨p, hp, hpf, hps, hpe⟩ := (h.covered j.file m.stop).1 ⟨j, hj, rfl, by omega, by omega⟩
        have hmp : m.Touches p := ⟨hmj.file.trans hpf.symm, by omega, hps⟩
        exact ih (k.start - p.stop) (by omega) p hp (hlm.tail ⟨hm, hp, hmp⟩) rfl
  exact hreach l hl .refl

/-- Two ranges lie in one part if a chain of ranges that touch leads from one to the other, and only then. -/
theorem linked_iff (h : Components ls ks) (hv : ∀ l ∈ ls, l.Valid) (hl : l ∈ ls) (hk : k ∈ ls) :
    Linked ls l k ↔ ∃ j ∈ ks, l.Within j ∧ k.Within j := by
  constructor
  · exact h.within_of_linked hv hl
  · rintro ⟨j, hj, hlj, hkj⟩
    rcases Nat.le_total l.start k.start with hle | hle
    · exact h.linked_of_within hv hl hk hj hlj hkj hle
    · have hsymm : Std.Symm fun l k : Location => l ∈ ls ∧ k ∈ ls ∧ l.Touches k :=
        ⟨fun _ _ ⟨hl, hk, ht⟩ => ⟨hk, hl, ht.symm⟩⟩
      have hlinked := h.linked_of_within hv hk hl hj hkj hlj hle
      exact Relation.ReflTransGen.stdSymm.symm _ _ hlinked

end Components

/-! ### Merging -/

/-- What the ranges of one file are merged to. -/
def mergedIn (ls : List Location) (file : FileId) : List Location :=
  match (ls.filter (·.file = file)).mergeSort Location.before with
  | [] => []
  | l :: r => mergeSorted l r

theorem mergeLocations_eq (ls : List Location) :
    mergeLocations ls = (ls.map (·.file)).eraseDups.flatMap (mergedIn ls) := rfl

theorem le_of_mem_mergeSorted (hsorted : (k :: ls).Pairwise fun l k => l.start ≤ k.start) (h : l ∈ mergeSorted k ls) :
    k.start ≤ l.start := by
  induction ls generalizing k with
  | nil =>
    rw [mergeSorted, List.mem_singleton] at h
    rw [h]
  | cons j r ih =>
    obtain ⟨hk, hr⟩ := List.pairwise_cons.1 hsorted
    rw [mergeSorted] at h
    split at h
    · have hjoined : ({ k with stop := max k.stop j.stop } :: r).Pairwise fun l k => l.start ≤ k.start :=
        List.pairwise_cons.2 ⟨fun i hi => hk i (List.mem_cons_of_mem _ hi), (List.pairwise_cons.1 hr).2⟩
      have hle := ih hjoined h
      exact hle
    · rcases List.mem_cons.1 h with rfl | h
      · exact Nat.le_refl _
      · exact (hk j List.mem_cons_self).trans (ih hr h)

/-- The range that is being joined ends before the next one that is kept begins. -/
theorem apart_mergeSorted (hsorted : (k :: ls).Pairwise fun l k => l.start ≤ k.start) :
    (mergeSorted k ls).Pairwise fun l k => l.stop < k.start := by
  induction ls generalizing k with
  | nil => exact List.pairwise_singleton _ _
  | cons j r ih =>
    obtain ⟨hk, hr⟩ := List.pairwise_cons.1 hsorted
    rw [mergeSorted]
    split
    · apply ih
      exact List.pairwise_cons.2 ⟨fun i hi => hk i (List.mem_cons_of_mem _ hi), (List.pairwise_cons.1 hr).2⟩
    · next hlt =>
      refine List.pairwise_cons.2 ⟨fun l hl => ?_, ih hr⟩
      have := le_of_mem_mergeSorted hr hl
      omega

theorem file_of_mem_mergedIn (hv : ∀ k ∈ ls, k.Valid) (h : l ∈ mergedIn ls file) : l.file = file := by
  have hsorted : ∀ k ∈ (ls.filter (·.file = file)).mergeSort Location.before, k.Joins ls ∧ k.file = file :=
    fun k => joins_of_mem_mergeSort hv
  unfold mergedIn at h
  split at h
  · cases h
  · next k r heq =>
    rw [heq] at hsorted
    exact (joins_of_mem_mergeSorted (hsorted k List.mem_cons_self) (fun j hj => hsorted j (List.mem_cons_of_mem _ hj)) h).2

theorem mergedIn_ne_nil (h : file ∈ ls.map (·.file)) : mergedIn ls file ≠ [] := by
  obtain ⟨l, hl, rfl⟩ := List.mem_map.1 h
  have hmem : l ∈ (ls.filter (·.file = l.file)).mergeSort Location.before := by
    rw [List.mem_mergeSort, List.mem_filter]
    exact ⟨hl, decide_eq_true rfl⟩
  unfold mergedIn
  split
  · next heq =>
    rw [heq] at hmem
    cases hmem
  · next k r heq =>
    have hsorted := pairwise_start_mergeSort ls l.file
    rw [heq] at hsorted
    obtain ⟨j, hj, -⟩ := exists_mem_mergeSorted hsorted List.mem_cons_self
    exact List.ne_nil_of_mem hj

theorem apart_mergedIn (ls : List Location) (file : FileId) : (mergedIn ls file).Pairwise fun k j => k.stop < j.start := by
  have hsorted := pairwise_start_mergeSort ls file
  unfold mergedIn
  split
  · exact .nil
  · next k r heq =>
    rw [heq] at hsorted
    exact apart_mergeSorted hsorted

/-- Merging gives the connected parts of what is covered. -/
theorem components_mergeLocations (hv : ∀ l ∈ ls, l.Valid) : Components ls (mergeLocations ls) where
  valid k hk := (joins_of_mem_mergeLocations hv hk).valid
  files := by
    rw [mergeLocations_eq]
    apply eraseDups_map_flatMap (nodup_eraseDups _)
    · intro file hfile
      exact mergedIn_ne_nil (List.mem_eraseDups.1 hfile)
    · intro file _ k hk
      exact file_of_mem_mergedIn hv hk
  grouped := by
    have hgroup : ∀ file ∈ (ls.map (·.file)).eraseDups, (mergeLocations ls).filter (·.file = file) = mergedIn ls file :=
      fun file hfile => filter_flatMap (nodup_eraseDups _) hfile fun _ _ _ hk => file_of_mem_mergedIn hv hk
    rw [List.flatMap_congr hgroup, mergeLocations_eq]
  apart := by
    rw [mergeLocations_eq, List.pairwise_flatMap]
    constructor
    · intro file _
      refine (apart_mergedIn ls file).imp ?_
      intro k j h _
      exact h
    · refine (nodup_eraseDups (ls.map (·.file))).imp ?_
      intro f g hne k hk j hj hfile
      rw [file_of_mem_mergedIn hv hk, file_of_mem_mergedIn hv hj] at hfile
      exact absurd hfile hne
  reached file i := by
    constructor
    · rintro ⟨k, hk, hfile, hstart, hstop⟩
      have hjoins := joins_of_mem_mergeLocations hv hk
      rcases Nat.lt_or_ge i k.stop with hlt | hge
      · obtain ⟨l, hl, hlf, hls, hle⟩ := hjoins.covered i hstart hlt
        exact ⟨l, hl, hlf.trans hfile, hls, Nat.le_of_lt hle⟩
      · obtain ⟨l, hl, hlf, hle⟩ := hjoins.ends
        have hlv := hv l hl
        rw [Location.Valid] at hlv
        exact ⟨l, hl, hlf.trans hfile, by omega, by omega⟩
    · rintro ⟨l, hl, hfile, hstart, hstop⟩
      obtain ⟨k, hk, hkf, hks, hke⟩ := exists_mem_mergeLocations hv hl
      exact ⟨k, hk, hkf.trans hfile, hks.trans hstart, hstop.trans hke⟩
  covered file i := by
    constructor
    · rintro ⟨k, hk, hfile, hstart, hstop⟩
      obtain ⟨l, hl, hlf, hls, hle⟩ := (joins_of_mem_mergeLocations hv hk).covered i hstart hstop
      exact ⟨l, hl, hlf.trans hfile, hls, hle⟩
    · rintro ⟨l, hl, hfile, hstart, hstop⟩
      obtain ⟨k, hk, hkf, hks, hke⟩ := exists_mem_mergeLocations hv hl
      exact ⟨k, hk, hkf.trans hfile, hks.trans hstart, hstop.trans_le hke⟩

/-- Merging gives the only list of the connected parts. -/
theorem mergeLocations_eq_iff (hv : ∀ l ∈ ls, l.Valid) : mergeLocations ls = ks ↔ Components ls ks := by
  constructor
  · rintro rfl
    exact components_mergeLocations hv
  · exact (components_mergeLocations hv).unique

/-- The parts are their own connected parts. -/
theorem Components.self (h : Components ls ks) : Components ks ks :=
  ⟨h.valid, rfl, h.files ▸ h.grouped, h.apart, fun _ _ => Iff.rfl, fun _ _ => Iff.rfl⟩

theorem mergeLocations_mergeLocations (hv : ∀ l ∈ ls, l.Valid) : mergeLocations (mergeLocations ls) = mergeLocations ls := by
  have hparts := components_mergeLocations hv
  exact (mergeLocations_eq_iff hparts.valid).2 hparts.self

/-- Only the order of the files matters. -/
theorem mergeLocations_perm (hv : ∀ l ∈ ls, l.Valid) (hperm : js.Perm ls)
    (hfiles : (js.map (·.file)).eraseDups = (ls.map (·.file)).eraseDups) : mergeLocations js = mergeLocations ls := by
  have hparts := components_mergeLocations hv
  have hmem : ∀ l, l ∈ js ↔ l ∈ ls := fun l => hperm.mem_iff
  refine (mergeLocations_eq_iff fun l hl => hv l ((hmem l).1 hl)).2 ?_
  refine ⟨hparts.valid, hparts.files.trans hfiles.symm, hfiles ▸ hparts.grouped, hparts.apart, ?_, ?_⟩
  · intro file i
    rw [hparts.reached]
    simp only [Reached, hmem]
  · intro file i
    rw [hparts.covered]
    simp only [Covered, hmem]

/-! ### Projecting -/

/-- The location that comes with the call is one. -/
def Writing.Placed : Writing → Prop
  | .entry _ l _ _ => l.Valid
  | .gap _ => True

namespace Entry

variable {e : Entry} {a b : Int}

/-- Whether the entry shares characters with the span. An empty or inverted span is taken for the place that it begins at. -/
def overlaps (e : Entry) (a b : Int) : Bool := if a < b then e.meets a b else e.covers a

/-- `l` is what the entry contributes to the span: from an exact one the source of the characters that they share, which
may be none, and from any other the whole source. -/
structure Contributes (e : Entry) (a b : Int) (l : Location) : Prop where
  file : l.file = e.location.file
  start : e.exact = true → (l.start : Int) = e.location.start + (max a e.start - e.start)
  stop : e.exact = true → a < b → (l.stop : Int) = e.location.start + (min b e.stop - e.start)
  empty : e.exact = true → b ≤ a → l.stop = l.start
  whole : e.exact = false → l = e.location

theorem contributes_project (hlt : e.start < e.stop) (h : e.overlaps a b = true) : e.Contributes a b (e.project a b) := by
  cases hexact : e.exact with
  | false =>
    have hproject : e.project a b = e.location := by simp [project, hexact]
    have habsurd : e.exact ≠ true := by simp [hexact]
    rw [hproject]
    exact ⟨rfl, fun h => absurd h habsurd, fun h => absurd h habsurd, fun h => absurd h habsurd, fun _ => rfl⟩
  | true =>
    have hspan : a < (e.stop : Int) ∧ (a < b → (e.start : Int) < b) ∧ (b ≤ a → (e.start : Int) ≤ a) := by
      unfold overlaps at h
      split at h
      · simp only [meets, Bool.and_eq_true, decide_eq_true_eq] at h
        omega
      · simp only [covers, Bool.and_eq_true, decide_eq_true_eq] at h
        omega
    constructor
    · simp [project, hexact]
    · intro _
      simp only [project, hexact, if_true]
      omega
    · intro _ hab
      simp only [project, hexact, if_true]
      omega
    · intro _ hba
      simp only [project, hexact, if_true]
      omega
    · intro hfalse
      rw [hexact] at hfalse
      cases hfalse

end Entry

namespace SourceMap

variable {ws : List Writing} {m : SourceMap} {e : Entry} {a b : Int}

/-- What was written to a map comes from somewhere, and as much of it as was written if it is a copy. -/
theorem Records.placed (h : m.Records ws) (hws : ∀ w ∈ ws, w.Placed) (he : e ∈ m.entries.toList) : e.Placed := by
  have hcontent : e.content ∈ ws.filterMap Writing.content? := by
    rw [← h.entries]
    exact List.mem_map_of_mem he
  obtain ⟨w, hw, hentry⟩ := List.mem_filterMap.1 hcontent
  have hplaced := hws w hw
  have hlt := (Tiling.entry_bounds h.tiled he).2.1
  cases w with
  | gap length => cases hentry
  | entry length l exact placeholder =>
    simp only [Writing.content?] at hentry
    split at hentry
    · next htaken =>
      simp only [Entry.content, Option.some.injEq, Prod.mk.injEq] at hentry
      obtain ⟨hlength, rfl, rfl, -⟩ := hentry
      refine ⟨hplaced, fun hexact => ?_⟩
      have hcopy := htaken.2 hexact
      simp only [Writing.Placed, Location.Valid, Location.length] at hplaced hcopy
      omega
    · cases hentry

theorem Tiled.nodup_entries (h : m.Tiled) : m.entries.toList.Nodup := by
  refine (Tiling.entries_ordered h).imp_of_mem fun {e f} he _ hef hne => ?_
  have hlt := (Tiling.entry_bounds h he).2.1
  rw [← hne] at hef
  omega

/-- A lookup finds the entries that overlap the span, whatever the span is. -/
theorem Tiled.overlapping_eq_filter (h : m.Tiled) (a b : Int) :
    m.overlapping a b = m.entries.toList.filter (·.overlaps a b) := by
  by_cases hab : a < b
  · rw [h.overlapping_eq hab]
    simp only [Entry.overlaps, if_pos hab]
  · rw [overlapping, if_pos (by omega)]
    simp only [Entry.overlaps, if_neg hab]
    have hnodup : (m.entries.toList.filter (·.covers a)).Nodup := h.nodup_entries.filter _
    cases hat : m.entryAt a with
    | none =>
      refine (List.filter_eq_nil_iff.2 fun e he hcovers => ?_).symm
      rw [h.entryAt_eq_some.2 ⟨he, hcovers⟩] at hat
      cases hat
    | some e =>
      refine (List.perm_singleton.1 ((List.perm_ext_iff_of_nodup hnodup (by simp : [e].Nodup)).2 fun f => ?_)).symm
      rw [List.mem_filter, ← h.entryAt_eq_some, hat, List.mem_singleton, Option.some.injEq]
      exact eq_comm

/-- What a map makes of a span. -/
structure Projects (m : SourceMap) (a b : Int) : Prop where
  /-- No location is refused when it is made. -/
  checked : m.checkedProject a b = .ok (m.project a b)
  fails_iff : m.project a b = .error ⟨a, b⟩ ↔ ∀ e ∈ m.entries.toList, e.overlaps a b = false
  merges : (∃ e ∈ m.entries.toList, e.overlaps a b = true) →
    m.project a b = .ok (mergeLocations ((m.entries.toList.filter (·.overlaps a b)).map (·.project a b)))
  contributes : ∀ e ∈ m.entries.toList, e.overlaps a b = true →
    e.Contributes a b (e.project a b) ∧ (e.project a b).Valid
  covered : 0 ≤ a → a < b → b ≤ m.length → m.touchesGap a b = false → ∀ i : Int, a ≤ i → i < b →
    ∃ e ∈ m.entries.toList, e.overlaps a b = true ∧ e.covers i = true

theorem Records.projects (h : m.Records ws) (hws : ∀ w ∈ ws, w.Placed) (a b : Int) : m.Projects a b where
  checked := h.tiled.checkedProject_eq (fun _ he => h.placed hws he) a b
  fails_iff := by
    have hnone : m.overlapping a b = [] ↔ ∀ e ∈ m.entries.toList, e.overlaps a b = false := by
      rw [h.tiled.overlapping_eq_filter, List.filter_eq_nil_iff]
      simp only [Bool.not_eq_true]
    rw [← hnone]
    unfold project
    split
    · next heq => simp [heq]
    · next hne =>
      simp only [reduceCtorEq, false_iff]
      exact hne
  merges := by
    rintro ⟨e, he, hover⟩
    rw [project_eq_ok, h.tiled.overlapping_eq_filter]
    exact ⟨List.ne_nil_of_mem (List.mem_filter.2 ⟨he, hover⟩), rfl⟩
  contributes := by
    intro e he hover
    have hmem : e ∈ m.overlapping a b := by
      rw [h.tiled.overlapping_eq_filter, List.mem_filter]
      exact ⟨he, hover⟩
    refine ⟨Entry.contributes_project (Tiling.entry_bounds h.tiled he).2.1 hover, ?_⟩
    exact (h.tiled.project_entry (fun _ he => h.placed hws he) hmem).2.2.1
  covered := by
    intro ha hab hb htouch i hai hib
    rcases Tiling.covered h.tiled (i := i.toNat) (by omega) with ⟨e, he, hei⟩ | ⟨g, hg, hgi⟩
    · refine ⟨e, he, ?_, ?_⟩
      · simp only [Entry.overlaps, if_pos hab, Entry.meets, Bool.and_eq_true, decide_eq_true_eq]
        omega
      · simp only [Entry.covers, Bool.and_eq_true, decide_eq_true_eq]
        omega
    · rw [h.tiled.touchesGap_iff.2 ⟨g, hg, by omega, by omega⟩] at htouch
      cases htouch

end SourceMap

/-- Ranges are merged to the connected parts of what they cover, which determine the result: ranges lie in one of them
if a chain of ranges that touch connects them, merging again changes nothing, and neither does another order of the ranges
of a file. A span fails to project just if no entry overlaps it, and else projects to the connected parts of what each of
these contributes; they hold every character of a span without gaps. -/
theorem merges_and_projects (hls : ∀ l ∈ ls, l.Valid) {ws : List Writing} (hws : ∀ w ∈ ws, w.Placed) (a b : Int) :
    (∀ ks, mergeLocations ls = ks ↔ Components ls ks) ∧
    (∀ l ∈ ls, ∀ k ∈ ls, Linked ls l k ↔ ∃ j ∈ mergeLocations ls, l.Within j ∧ k.Within j) ∧
    mergeLocations (mergeLocations ls) = mergeLocations ls ∧
    (∀ js : List Location, js.Perm ls → (js.map (·.file)).eraseDups = (ls.map (·.file)).eraseDups →
      mergeLocations js = mergeLocations ls) ∧
    (SourceMap.ofWritings ws).Projects a b := by
  refine ⟨fun ks => mergeLocations_eq_iff hls, ?_, mergeLocations_mergeLocations hls, ?_, ?_⟩
  · intro l hl k hk
    exact (components_mergeLocations hls).linked_iff hls hl hk
  · intro js
    exact mergeLocations_perm hls
  · exact (SourceMap.records_ofWritings ws).projects hws a b

/-- Ranges of two files in turn: nested, touching, equal and empty ones. -/
def scattered : List Location :=
  [⟨"notes", 7, 9⟩, ⟨"main", 8, 9⟩, ⟨"notes", 0, 3⟩, ⟨"main", 2, 2⟩, ⟨"notes", 1, 2⟩, ⟨"notes", 7, 9⟩, ⟨"notes", 3, 5⟩]

/-- A copy of a part of the notes and a placeholder for all of them, with a gap between. -/
def quoting : List Writing :=
  [.entry 3 ⟨"notes", 4, 7⟩ true false, .gap 2, .entry 1 ⟨"notes", 7, 30⟩ false true]

/-- What a span has of the copy touches the source of the placeholder, and an empty span has an empty place. -/
theorem merges_and_projects_quoting : (∀ l ∈ scattered, l.Valid) ∧ (∀ w ∈ quoting, w.Placed) ∧
    Components scattered [⟨"notes", 0, 5⟩, ⟨"notes", 7, 9⟩, ⟨"main", 2, 2⟩, ⟨"main", 8, 9⟩] ∧
    (SourceMap.ofWritings quoting).project 1 6 = .ok [⟨"notes", 5, 30⟩] ∧
    (SourceMap.ofWritings quoting).project 4 5 = .error ⟨4, 5⟩ := by
  have hls : ∀ l ∈ scattered, l.Valid := by
    simp [scattered, Location.Valid]
  have hws : ∀ w ∈ quoting, w.Placed := by
    simp [quoting, Writing.Placed, Location.Valid]
  have hmap : SourceMap.ofWritings quoting =
      ⟨#[⟨0, 3, ⟨"notes", 4, 7⟩, true, false⟩, ⟨5, 6, ⟨"notes", 7, 30⟩, false, true⟩], #[⟨3, 5⟩], 6⟩ := by decide
  obtain ⟨hcomponents, -, -, -, hspan⟩ := merges_and_projects hls hws 1 6
  obtain ⟨-, -, -, -, hgap⟩ := merges_and_projects hls hws 4 5
  refine ⟨hls, hws, (hcomponents _).1 (by cbv), ?_, ?_⟩
  · rw [hspan.merges ⟨⟨5, 6, ⟨"notes", 7, 30⟩, false, true⟩, by rw [hmap]; simp, by decide⟩, hmap]
    cbv
  · rw [hgap.fails_iff, hmap]
    decide

end Proofreader
