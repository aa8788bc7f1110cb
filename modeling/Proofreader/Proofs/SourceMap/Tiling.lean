import Mathlib.Tactic.Common
import Proofreader.Proofs.Search
import Proofreader.SourceMap

/-! Entries and separators of a map, taken together in order, cover what was written so far without a
gap and without an overlap. Both ways to write keep this, and all that is looked up in a map rests on it. -/

namespace Proofreader

/-- The entries and gaps cover the characters from the first bound up to the second, once each. -/
inductive Tiling : Nat → List Entry → List Gap → Nat → Prop
  | nil (a : Nat) : Tiling a [] [] a
  | entry {e : Entry} {es : List Entry} {gs : List Gap} {b : Nat} :
      e.start < e.stop → Tiling e.stop es gs b → Tiling e.start (e :: es) gs b
  | gap {g : Gap} {es : List Entry} {gs : List Gap} {b : Nat} :
      g.start < g.stop → Tiling g.stop es gs b → Tiling g.start es (g :: gs) b

namespace Tiling

variable {a b c : Nat} {es fs : List Entry} {gs hs : List Gap}

theorem append (h : Tiling a es gs b) (k : Tiling b fs hs c) : Tiling a (es ++ fs) (gs ++ hs) c := by
  induction h with
  | nil => exact k
  | entry he _ ih => exact entry he (ih k)
  | gap hg _ ih => exact gap hg (ih k)

theorem le (h : Tiling a es gs b) : a ≤ b := by
  induction h with
  | nil => exact Nat.le_refl _
  | entry he _ ih => omega
  | gap hg _ ih => omega

theorem entry_bounds (h : Tiling a es gs b) {e : Entry} (he : e ∈ es) :
    a ≤ e.start ∧ e.start < e.stop ∧ e.stop ≤ b := by
  induction h with
  | nil => simp at he
  | @entry f fs gs b hf hr ih =>
    have := hr.le
    rcases List.mem_cons.1 he with rfl | he
    · exact ⟨Nat.le_refl _, hf, this⟩
    · obtain ⟨h1, h2, h3⟩ := ih he
      exact ⟨by omega, h2, h3⟩
  | gap hg _ ih =>
    obtain ⟨h1, h2, h3⟩ := ih he
    exact ⟨by omega, h2, h3⟩

theorem gap_bounds (h : Tiling a es gs b) {g : Gap} (hg : g ∈ gs) :
    a ≤ g.start ∧ g.start < g.stop ∧ g.stop ≤ b := by
  induction h with
  | nil => simp at hg
  | entry he _ ih =>
    obtain ⟨h1, h2, h3⟩ := ih hg
    exact ⟨by omega, h2, h3⟩
  | @gap k es gs b hk hr ih =>
    have := hr.le
    rcases List.mem_cons.1 hg with rfl | hg
    · exact ⟨Nat.le_refl _, hk, this⟩
    · obtain ⟨h1, h2, h3⟩ := ih hg
      exact ⟨by omega, h2, h3⟩

theorem entries_ordered (h : Tiling a es gs b) : es.Pairwise fun e f => e.stop ≤ f.start := by
  induction h with
  | nil => exact List.Pairwise.nil
  | entry _ hr ih => exact List.pairwise_cons.2 ⟨fun f hf => (hr.entry_bounds hf).1, ih⟩
  | gap _ _ ih => exact ih

theorem gaps_ordered (h : Tiling a es gs b) : gs.Pairwise fun g k => g.stop ≤ k.start := by
  induction h with
  | nil => exact List.Pairwise.nil
  | entry _ _ ih => exact ih
  | gap _ hr ih => exact List.pairwise_cons.2 ⟨fun k hk => (hr.gap_bounds hk).1, ih⟩

theorem disjoint (h : Tiling a es gs b) {e : Entry} {g : Gap} (he : e ∈ es) (hg : g ∈ gs) :
    e.stop ≤ g.start ∨ g.stop ≤ e.start := by
  induction h with
  | nil => simp at he
  | entry _ hr ih =>
    rcases List.mem_cons.1 he with rfl | he
    · exact Or.inl (hr.gap_bounds hg).1
    · exact ih he hg
  | gap _ hr ih =>
    rcases List.mem_cons.1 hg with rfl | hg
    · exact Or.inr (hr.entry_bounds he).1
    · exact ih he hg

theorem covered (h : Tiling a es gs b) {i : Nat} (hi : a ≤ i ∧ i < b) :
    (∃ e ∈ es, e.start ≤ i ∧ i < e.stop) ∨ (∃ g ∈ gs, g.start ≤ i ∧ i < g.stop) := by
  induction h with
  | nil => omega
  | @entry e es gs b _ _ ih =>
    by_cases hlt : i < e.stop
    · exact Or.inl ⟨e, by simp, hi.1, hlt⟩
    · rcases ih ⟨by omega, hi.2⟩ with ⟨f, hf, hb⟩ | hg
      · exact Or.inl ⟨f, by simp [hf], hb⟩
      · exact Or.inr hg
  | @gap g es gs b _ _ ih =>
    by_cases hlt : i < g.stop
    · exact Or.inr ⟨g, by simp, hi.1, hlt⟩
    · rcases ih ⟨by omega, hi.2⟩ with he | ⟨k, hk, hb⟩
      · exact Or.inl he
      · exact Or.inr ⟨k, by simp [hk], hb⟩

/-- Two entries in a row without a gap between them adjoin. -/
theorem adjoin {e : Entry} (h : Tiling a (e :: es) gs b)
    (hgap : ∀ g ∈ gs, ¬ (a ≤ g.start ∧ g.stop ≤ e.start)) : a = e.start := by
  cases h with
  | entry => rfl
  | gap hg hr => exact absurd ⟨Nat.le_refl _, (hr.entry_bounds List.mem_cons_self).1⟩ (hgap _ List.mem_cons_self)

/-- Behind its first entry a tiling goes on. -/
theorem tail {e : Entry} (h : Tiling a (e :: es) gs b) :
    ∃ ks, ks ⊆ gs ∧ Tiling e.stop es ks b := by
  generalize hfs : e :: es = fs at h
  induction h with
  | nil => cases hfs
  | entry _ hr _ =>
    cases hfs
    exact ⟨_, List.Subset.refl _, hr⟩
  | gap _ _ ih =>
    obtain ⟨ks, hks, ht⟩ := ih hfs
    exact ⟨ks, fun k hk => List.mem_cons_of_mem _ (hks hk), ht⟩

end Tiling

namespace SourceMap

/-- What every map that is only written to promises. -/
def Tiled (m : SourceMap) : Prop := Tiling 0 m.entries.toList m.gaps.toList m.length

theorem tiled_empty : empty.Tiled := .nil 0

theorem Tiled.push {m : SourceMap} (h : m.Tiled) {n : Nat} (hn : 0 < n) (l : Location) (exact placeholder : Bool) :
    (m.push n l exact placeholder).Tiled := by
  have tail : Tiling m.length [⟨m.length, m.length + n, l, exact, placeholder⟩] [] (m.length + n) :=
    .entry (e := ⟨m.length, m.length + n, l, exact, placeholder⟩) (Nat.lt_add_of_pos_right hn) (.nil _)
  simpa [Tiled, SourceMap.push] using h.append tail

theorem Tiled.addGap {m : SourceMap} (h : m.Tiled) (n : Nat) : (m.addGap n).Tiled := by
  unfold SourceMap.addGap
  split
  · exact h
  · next hn =>
    have tail : Tiling m.length [] [⟨m.length, m.length + n⟩] (m.length + n) :=
      .gap (g := ⟨m.length, m.length + n⟩) (Nat.lt_add_of_pos_right (Nat.pos_of_ne_zero hn)) (.nil _)
    simpa [Tiled] using h.append tail

end SourceMap

end Proofreader

/-! ### Lookups

What they find is told by a plain scan of the entries. -/

namespace Proofreader

namespace Entry

/-- Whether the entry shares characters with the span from `a` up to `b`. -/
def meets (e : Entry) (a b : Int) : Bool := (e.start : Int) < b && a < (e.stop : Int)

end Entry

namespace SourceMap

variable {m : SourceMap}

theorem Tiled.starts_ordered (h : m.Tiled) : m.entries.toList.Pairwise fun e f => e.start ≤ f.start := by
  refine (Tiling.entries_ordered h).imp_of_mem fun {e f} he _ hef => ?_
  have := (Tiling.entry_bounds h he).2.1
  omega

/-- The entries split at an offset; the search finds where. -/
theorem Tiled.split_entries (h : m.Tiled) (a : Int) : ∃ as bs, m.entries.toList = as ++ bs ∧
    (∀ e ∈ as, (e.start : Int) ≤ a) ∧ (∀ e ∈ bs, a < (e.start : Int)) ∧ m.entriesFrom a = as.length := by
  have hmono : m.entries.toList.Pairwise fun e f => decide ((f.start : Int) ≤ a) = true → decide ((e.start : Int) ≤ a) = true := by
    refine h.starts_ordered.imp fun {e f} hef hf => ?_
    rw [decide_eq_true_eq] at hf ⊢
    omega
  obtain ⟨as, bs, heq, ha, hb⟩ := exists_split hmono
  exact ⟨as, bs, heq, fun e he => by simpa using ha e he, fun e he => by simpa using hb e he, firstFailure_toList heq ha hb⟩

theorem mem_of_entryAt {a : Int} {e : Entry} (h : m.entryAt a = some e) :
    e ∈ m.entries.toList ∧ e.covers a = true := by
  unfold entryAt at h
  split at h
  · cases h
  · rw [Option.filter_eq_some_iff] at h
    exact ⟨Array.mem_toList_iff.2 (Array.mem_of_getElem? h.1), h.2⟩

/-- What the search passes over ends before the span begins. -/
theorem Tiled.split_reached (h : m.Tiled) (a : Int) : ∃ front rest, m.entries.toList = front ++ rest ∧
    front.length = m.entriesFrom a - 1 ∧ ∀ e ∈ front, (e.stop : Int) ≤ a := by
  obtain ⟨as, bs, heq, ha, -, hn⟩ := h.split_entries a
  rcases as.eq_nil_or_concat with rfl | ⟨front, last, rfl⟩
  · exact ⟨[], bs, heq, by simp [hn], nofun⟩
  · rw [List.concat_eq_append, List.append_assoc, List.singleton_append] at heq
    refine ⟨front, last :: bs, heq, by simp [hn], fun e he => ?_⟩
    have hordered := Tiling.entries_ordered h
    rw [heq, List.pairwise_append] at hordered
    have hstop := hordered.2.2 e he last List.mem_cons_self
    have hlast := ha last (by simp)
    omega

/-- A span that is not empty overlaps the entries that it shares characters with. -/
theorem Tiled.overlapping_eq (h : m.Tiled) {a b : Int} (hab : a < b) :
    m.overlapping a b = m.entries.toList.filter (·.meets a b) := by
  obtain ⟨front, rest, heq, hlen, hfront⟩ := h.split_reached a
  have hrest : rest.Pairwise fun e f => decide ((f.start : Int) < b) = true → decide ((e.start : Int) < b) = true := by
    have hordered := h.starts_ordered
    rw [heq, List.pairwise_append] at hordered
    refine hordered.2.1.imp fun {e f} hef hf => ?_
    rw [decide_eq_true_eq] at hf ⊢
    omega
  have hnone : front.filter (·.meets a b) = [] := by
    refine List.filter_eq_nil_iff.2 fun e he hmeets => ?_
    simp only [Entry.meets, Bool.and_eq_true, decide_eq_true_eq] at hmeets
    have := hfront e he
    omega
  unfold overlapping
  rw [if_neg (by omega), ← hlen, heq, List.drop_left]
  dsimp only
  rw [takeWhile_eq_filter hrest, List.filter_filter, List.filter_append, hnone, List.nil_append]
  exact List.filter_congr fun e _ => Bool.and_comm _ _

/-- An empty span overlaps the entry that it lies in, if there is one. -/
theorem mem_overlapping (h : m.Tiled) {a b : Int} {e : Entry} (he : e ∈ m.overlapping a b) :
    e ∈ m.entries.toList ∧ (e.covers a = true ∨ e.meets a b = true) := by
  by_cases hab : a < b
  · rw [h.overlapping_eq hab, List.mem_filter] at he
    exact ⟨he.1, Or.inr he.2⟩
  · rw [overlapping, if_pos (by omega), Option.mem_toList] at he
    have hcovers := mem_of_entryAt he
    exact ⟨hcovers.1, Or.inl hcovers.2⟩

end SourceMap

end Proofreader
