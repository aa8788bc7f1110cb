import Mathlib.Data.List.Basic
import Proofreader.Proofs.SourceMap.Merge
import Proofreader.Proofs.SourceMap.Tiling

/-! What a span without separators projects to when all that it overlaps is copied from one file, in order: the
slices of the file at the projected places make up the text of the span. -/

namespace Proofreader

namespace Entry

variable {e : Entry} {a b : Nat}

theorem meets_natCast : e.meets a b = true ↔ e.start < b ∧ a < e.stop := by
  simp [meets]

theorem project_exact (h : e.exact = true) (hmeets : e.start < b ∧ a < e.stop) (hab : a < b) (hlt : e.start < e.stop) :
    e.project a b = ⟨e.location.file, e.location.start + (max a e.start - e.start),
      e.location.start + (min b e.stop - e.start)⟩ := by
  simp only [project, h, if_true, Location.mk.injEq, true_and]
  omega

/-- The entry copies the text that `source` has at its location. -/
structure Copies (text source : Text) (e : Entry) : Prop where
  exact : e.exact = true
  length : e.location.start + (e.stop - e.start) = e.location.stop
  copy : source.extract e.location.start e.location.stop = text.extract e.start e.stop

/-- A part of an entry copies the same part of its source. -/
theorem Copies.part {text source : Text} (h : e.Copies text source) {x y : Nat} (hx : e.start ≤ x) (hxy : x ≤ y)
    (hy : y ≤ e.stop) :
    source.extract (e.location.start + (x - e.start)) (e.location.start + (y - e.start)) = text.extract x y := by
  have hlength := h.length
  have hsource := source.extract_extract e.location.start (b := e.location.stop) (c := x - e.start) (d := y - e.start)
    (by omega)
  have htext := text.extract_extract e.start (b := e.stop) (c := x - e.start) (d := y - e.start) (by omega)
  rw [← hsource, h.copy, htext]
  congr 1 <;> omega

/-- The entry copies a part of `file`, and the span from `a` up to `b` meets it. -/
structure Cut (text source : Text) (file : FileId) (a b : Nat) (e : Entry) : Prop where
  copies : e.Copies text source
  file : e.location.file = file
  lt : e.start < e.stop
  meets : e.start < b ∧ a < e.stop

namespace Cut

variable {text source : Text} {file : FileId} {f : Entry}

theorem project (h : e.Cut text source file a b) (hab : a < b) : e.project a b = ⟨file,
    e.location.start + (max a e.start - e.start), e.location.start + (min b e.stop - e.start)⟩ := by
  rw [project_exact h.copies.exact h.meets hab h.lt, h.file]

/-- What such an entry projects to holds the text that the span has of it. -/
theorem slice (h : e.Cut text source file a b) (hab : a < b) :
    source.extract (e.project a b).start (e.project a b).stop = text.extract (max a e.start) (min b e.stop) := by
  have hlt := h.lt
  have hmeets := h.meets
  rw [h.project hab]
  exact h.copies.part (by omega) (by omega) (by omega)

theorem valid (h : e.Cut text source file a b) (hab : a < b) : (e.project a b).Valid := by
  have hlt := h.lt
  have hmeets := h.meets
  rw [h.project hab, Location.Valid]
  dsimp only
  omega

theorem follows (he : e.Cut text source file a b) (hf : f.Cut text source file a b) (hab : a < b)
    (h : e.location.stop ≤ f.location.start) : (e.project a b).stop ≤ (f.project a b).start := by
  have hlt := he.lt
  have hlength := he.copies.length
  rw [he.project hab, hf.project hab]
  dsimp only
  omega

/-- In order, such entries project to places in line. -/
theorem inLine {es : List Entry} (h : ∀ e ∈ es, e.Cut text source file a b) (hab : a < b)
    (hordered : es.Pairwise fun e f => e.location.stop ≤ f.location.start) : InLine file (es.map (·.project a b)) := by
  refine ⟨fun l hl => ?_, fun l hl => ?_, ?_⟩
  · obtain ⟨e, he, rfl⟩ := List.mem_map.1 hl
    rw [(h e he).project hab]
  · obtain ⟨e, he, rfl⟩ := List.mem_map.1 hl
    exact (h e he).valid hab
  · rw [List.pairwise_map]
    exact hordered.imp_of_mem fun {e f} he hf hef => (h e he).follows (h f hf) hab hef

end Cut

end Entry

/-- The entries that a span meets cut the text between them, as long as the span meets no gap. -/
theorem Tiling.flatMap_extract {c d a b : Nat} {es : List Entry} {gs : List Gap} (h : Tiling c es gs d)
    (hgap : ∀ g ∈ gs, ¬ (g.start < b ∧ a < g.stop)) (text : Text) :
    (es.filter (·.meets a b)).flatMap (fun e => text.extract (max a e.start) (min b e.stop)) =
      text.extract (max a c) (min b d) := by
  induction h with
  | nil c => exact (text.extract_eq_nil (by omega)).symm
  | @entry e es gs d he hr ih =>
    have hd := hr.le
    by_cases hmeets : e.start < b ∧ a < e.stop
    · have hkeep : (e :: es).filter (·.meets a b) = e :: es.filter (·.meets a b) :=
        List.filter_cons_of_pos (Entry.meets_natCast.2 hmeets)
      rw [hkeep, List.flatMap_cons, ih hgap]
      by_cases hb : b ≤ e.stop
      · rw [text.extract_eq_nil (a := max a e.stop) (by omega), List.append_nil]
        congr 1
        omega
      · have hmin : min b e.stop = e.stop := by omega
        have hmax : max a e.stop = e.stop := by omega
        rw [hmin, hmax]
        exact text.extract_append_extract (by omega) (by omega)
    · have hdrop : (e :: es).filter (·.meets a b) = es.filter (·.meets a b) :=
        List.filter_cons_of_neg fun h => hmeets (Entry.meets_natCast.1 h)
      rw [hdrop, ih hgap]
      by_cases hb : b ≤ e.start
      · rw [text.extract_eq_nil (by omega), text.extract_eq_nil (by omega)]
      · congr 1
        omega
  | @gap g es gs d hg hr ih =>
    have hd := hr.le
    have hmiss := hgap g List.mem_cons_self
    rw [ih fun k hk => hgap k (List.mem_cons_of_mem _ hk)]
    by_cases hb : b ≤ g.start
    · rw [text.extract_eq_nil (by omega), text.extract_eq_nil (by omega)]
    · congr 1
      omega

namespace SourceMap

variable {m : SourceMap} {text source : Text} {file : FileId} {a b : Nat}

/-- A span inside the text that meets no gap meets an entry. -/
theorem Tiled.exists_meets (h : m.Tiled) (hab : a < b) (hb : b ≤ m.length)
    (hgap : ∀ g ∈ m.gaps.toList, ¬ (g.start < b ∧ a < g.stop)) : m.entries.toList.filter (·.meets a b) ≠ [] := by
  intro hnil
  rcases Tiling.covered h (i := a) ⟨Nat.zero_le a, by omega⟩ with ⟨e, he, hea⟩ | ⟨g, hg, hga⟩
  · exact List.filter_eq_nil_iff.1 hnil e he (Entry.meets_natCast.2 ⟨by omega, hea.2⟩)
  · exact hgap g hg ⟨by omega, hga.2⟩

theorem Tiled.project_of_meets (h : m.Tiled) (hab : a < b) (hne : m.entries.toList.filter (·.meets a b) ≠ []) :
    m.project a b = .ok (mergeLocations ((m.entries.toList.filter (·.meets a b)).map (·.project a b))) := by
  rw [project_eq_ok, h.overlapping_eq (a := a) (b := b) (by omega)]
  exact ⟨hne, rfl⟩

theorem Tiled.project_slices (h : m.Tiled) (hab : a < b) (hb : b ≤ m.length)
    (hgap : ∀ g ∈ m.gaps.toList, ¬ (g.start < b ∧ a < g.stop))
    (hcopy : ∀ e ∈ m.entries.toList, e.start < b → a < e.stop → e.Copies text source ∧ e.location.file = file)
    (hordered : (m.entries.toList.filter (·.meets a b)).Pairwise fun e f => e.location.stop ≤ f.location.start) :
    ∃ ls, m.project a b = .ok ls ∧ (∀ l ∈ ls, l.file = file) ∧
      ls.flatMap (fun l => source.extract l.start l.stop) = text.extract a b := by
  have hcut : ∀ e ∈ m.entries.toList.filter (·.meets a b), e.Cut text source file a b := by
    intro e he
    obtain ⟨hmem, hmeets⟩ := List.mem_filter.1 he
    have hspan := Entry.meets_natCast.1 hmeets
    obtain ⟨hcopies, hfile⟩ := hcopy e hmem hspan.1 hspan.2
    exact ⟨hcopies, hfile, (Tiling.entry_bounds h hmem).2.1, hspan⟩
  have hline := Entry.Cut.inLine hcut hab hordered
  refine ⟨_, h.project_of_meets hab (h.exists_meets hab hb hgap), fun l hl => ?_, ?_⟩
  · obtain ⟨k, hk, hkf, -⟩ := (joins_of_mem_mergeLocations hline.valid hl).begins
    exact hkf.symm.trans (hline.file k hk)
  · rw [hline.slices_mergeLocations, List.flatMap_map, List.flatMap_congr fun e he => (hcut e he).slice hab,
      Tiling.flatMap_extract h hgap text]
    congr 1 <;> omega

end SourceMap

end Proofreader
