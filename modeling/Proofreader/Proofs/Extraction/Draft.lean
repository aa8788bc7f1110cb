import Mathlib.Data.List.Forall2
import Proofreader.Extraction
import Proofreader.Proofs.SourceMap.Tiling
import Proofreader.Proofs.Text.Basic

/-! A draft keeps its text, its map, its pieces and its page breaks in step. Writing a separator and
writing a piece keep `Faithful` each on their own; `Sound` also says where separators may stand, and it is kept
only because a separator is never written without the piece that follows it. -/

namespace Proofreader

/-- The entry stands for the piece, whose text is what the entry covers. -/
structure Entry.Renders (t : Text) (e : Entry) (p : Piece) : Prop where
  text : t.extract e.start e.stop = p.text
  location : e.location = p.location
  exact : e.exact = p.exact
  placeholder : e.placeholder = p.placeholder

namespace Draft

/-- Whether a separator stands before the next prose. -/
def due (d : Draft) : Bool := d.pendingGap && 0 < d.map.length

def settled (d : Draft) : Draft := { d with pendingGap := false, pendingPage := false }

/-- Whether a blank may follow: there is prose that does not end with one. -/
def takesBlank (d : Draft) : Bool := 0 < d.map.length && !d.text.back?.any isBlank

@[simp] theorem settled_map (d : Draft) : d.settled.map = d.map := rfl
@[simp] theorem settled_pieces (d : Draft) : d.settled.pieces = d.pieces := rfl
@[simp] theorem settled_pageBreaks (d : Draft) : d.settled.pageBreaks = d.pageBreaks := rfl
@[simp] theorem settled_takesBlank (d : Draft) : d.settled.takesBlank = d.takesBlank := rfl

theorem addPiece_text (d : Draft) (p : Piece) : (d.addPiece p).text.toList = d.text.toList ++ p.text := by
  simp [addPiece]

theorem addPiece_entries (d : Draft) (p : Piece) : (d.addPiece p).map.entries.toList =
    d.map.entries.toList ++ [⟨d.map.length, d.map.length + p.text.length, p.location, p.exact, p.placeholder⟩] := by
  simp [addPiece, SourceMap.push]

theorem addPiece_pieces (d : Draft) (p : Piece) : (d.addPiece p).pieces.toList = d.pieces.toList ++ [p] := by
  simp [addPiece]

@[simp] theorem addPiece_gaps (d : Draft) (p : Piece) : (d.addPiece p).map.gaps = d.map.gaps := rfl
@[simp] theorem addPiece_pageBreaks (d : Draft) (p : Piece) : (d.addPiece p).pageBreaks = d.pageBreaks := rfl
@[simp] theorem addPiece_length (d : Draft) (p : Piece) :
    (d.addPiece p).map.length = d.map.length + p.text.length := rfl

theorem writeGap_text (d : Draft) : d.writeGap.text.toList = d.text.toList ++ separatorText := by
  simp [writeGap]

theorem writeGap_gaps (d : Draft) :
    d.writeGap.map.gaps.toList = d.map.gaps.toList ++ [⟨d.map.length, d.map.length + 2⟩] := by
  simp [writeGap, SourceMap.addGap, separatorText]

theorem writeGap_pageBreaks (d : Draft) : d.writeGap.pageBreaks.toList =
    d.pageBreaks.toList ++ (if d.pendingPage then [d.map.length + 2] else []) := by
  cases h : d.pendingPage <;> simp [writeGap, SourceMap.addGap, separatorText, h]

@[simp] theorem writeGap_pieces (d : Draft) : d.writeGap.pieces = d.pieces := rfl
@[simp] theorem writeGap_length (d : Draft) : d.writeGap.map.length = d.map.length + 2 := rfl

theorem append_eq (d : Draft) (p : Piece) : d.append p =
    if d.due && Text.isBlankRun p.text then d
    else
      let e := (if d.due then d.writeGap else d).settled
      if Text.isBlankRun p.text && !e.takesBlank then e else e.addPiece p := by
  simp only [append, due, takesBlank, settled]
  congr 3
  simp [Nat.pos_iff_ne_zero]

/-- Everything that a piece can do to a draft. -/
theorem append_cases (d : Draft) (p : Piece) :
    (d.due = true ∧ Text.isBlankRun p.text = true ∧ d.append p = d) ∨
    (d.due = false ∧ Text.isBlankRun p.text = true ∧ d.takesBlank = false ∧ d.append p = d.settled) ∨
    (d.due = false ∧ (Text.isBlankRun p.text = true → d.takesBlank = true) ∧
      d.append p = d.settled.addPiece p) ∨
    (d.due = true ∧ Text.isBlankRun p.text = false ∧ d.append p = d.writeGap.settled.addPiece p) := by
  rw [append_eq]
  cases hd : d.due <;> cases hb : Text.isBlankRun p.text
  · exact Or.inr (Or.inr (Or.inl ⟨rfl, by simp, by simp⟩))
  · cases ht : d.takesBlank
    · exact Or.inr (Or.inl ⟨rfl, rfl, rfl, by simp [ht]⟩)
    · exact Or.inr (Or.inr (Or.inl ⟨rfl, fun _ => rfl, by simp [ht]⟩))
  · exact Or.inr (Or.inr (Or.inr ⟨rfl, rfl, by simp⟩))
  · exact Or.inl ⟨rfl, rfl, by simp⟩

/-- Text, map, pieces and page breaks in step. -/
structure Faithful (d : Draft) : Prop where
  tiled : d.map.Tiled
  length : d.map.length = d.text.toList.length
  renders : List.Forall₂ (Entry.Renders d.text.toList) d.map.entries.toList d.pieces.toList
  separators : ∀ g ∈ d.map.gaps.toList, Text.extract d.text.toList g.start g.stop = separatorText
  breaksIncrease : d.pageBreaks.toList.Pairwise (· < ·)
  breaksFollow : ∀ b ∈ d.pageBreaks.toList, ∃ g ∈ d.map.gaps.toList, g.stop = b

/-- Where separators may stand as well: prose is on both sides of each. -/
structure Sound (d : Draft) : Prop extends d.Faithful where
  inner : ∀ g ∈ d.map.gaps.toList, 0 < g.start ∧ g.stop < d.map.length
  apart : d.map.gaps.toList.Pairwise fun g k => g.stop < k.start

theorem sound_start (profile : Profile) : (start profile).Sound where
  tiled := SourceMap.tiled_empty
  length := rfl
  renders := .nil
  separators := by simp [start, SourceMap.empty]
  breaksIncrease := by simp [start]
  breaksFollow := by simp [start]
  inner := by simp [start, SourceMap.empty]
  apart := by simp [start, SourceMap.empty]

theorem Faithful.settled {d : Draft} (h : d.Faithful) : d.settled.Faithful :=
  ⟨h.tiled, h.length, h.renders, h.separators, h.breaksIncrease, h.breaksFollow⟩

theorem Sound.settled {d : Draft} (h : d.Sound) : d.settled.Sound :=
  ⟨h.toFaithful.settled, h.inner, h.apart⟩

theorem Sound.separate {d : Draft} (h : d.Sound) (page : Bool) : (d.separate page).Sound :=
  ⟨⟨h.tiled, h.length, h.renders, h.separators, h.breaksIncrease, h.breaksFollow⟩, h.inner, h.apart⟩

theorem Faithful.entry_le {d : Draft} (h : d.Faithful) {e : Entry} (he : e ∈ d.map.entries.toList) :
    e.stop ≤ d.text.toList.length :=
  h.length ▸ (h.tiled.entry_bounds he).2.2

theorem Faithful.gap_le {d : Draft} (h : d.Faithful) {g : Gap} (hg : g ∈ d.map.gaps.toList) :
    g.stop ≤ d.text.toList.length :=
  h.length ▸ (h.tiled.gap_bounds hg).2.2

/-- What is written later leaves the text below an entry as it was. -/
theorem Faithful.renders_append {d : Draft} (h : d.Faithful) (t : Text) :
    List.Forall₂ (Entry.Renders (d.text.toList ++ t)) d.map.entries.toList d.pieces.toList := by
  have hb := (List.forall₂_and_left _ _).2 ⟨fun e he => h.entry_le he, h.renders⟩
  refine hb.imp fun e p ⟨hle, hr⟩ => ⟨?_, hr.location, hr.exact, hr.placeholder⟩
  rw [Text.extract_append_of_le t e.start hle]
  exact hr.text

theorem Faithful.separators_append {d : Draft} (h : d.Faithful) (t : Text) {g : Gap}
    (hg : g ∈ d.map.gaps.toList) : Text.extract (d.text.toList ++ t) g.start g.stop = separatorText := by
  rw [Text.extract_append_of_le t g.start (h.gap_le hg)]
  exact h.separators g hg

theorem Faithful.addPiece {d : Draft} (h : d.Faithful) {p : Piece} (hp : p.text ≠ []) :
    (d.addPiece p).Faithful where
  tiled := h.tiled.push (List.length_pos_iff.2 hp) _ _ _
  length := by rw [addPiece_text, addPiece_length, List.length_append, h.length]
  renders := by
    have hlast : Entry.Renders (d.text.toList ++ p.text)
        ⟨d.map.length, d.map.length + p.text.length, p.location, p.exact, p.placeholder⟩ p :=
      ⟨by rw [h.length]; exact Text.extract_append_right _ _, rfl, rfl, rfl⟩
    rw [addPiece_text, addPiece_entries, addPiece_pieces]
    exact List.rel_append (h.renders_append p.text) (.cons hlast .nil)
  separators := by
    intro g hg
    rw [addPiece_text]
    exact h.separators_append p.text hg
  breaksIncrease := h.breaksIncrease
  breaksFollow := h.breaksFollow

theorem Faithful.writeGap {d : Draft} (h : d.Faithful) : d.writeGap.Faithful where
  tiled := h.tiled.addGap _
  length := by rw [writeGap_text, writeGap_length, List.length_append, h.length]; rfl
  renders := by
    rw [writeGap_text]
    exact h.renders_append separatorText
  separators := by
    intro g hg
    rw [writeGap_text]
    rw [writeGap_gaps, List.mem_append, List.mem_singleton] at hg
    rcases hg with hg | rfl
    · exact h.separators_append separatorText hg
    · rw [h.length]
      exact Text.extract_append_right _ separatorText
  breaksIncrease := by
    rw [writeGap_pageBreaks, List.pairwise_append]
    refine ⟨h.breaksIncrease, by split <;> simp, fun b hb c hc => ?_⟩
    obtain ⟨g, hg, rfl⟩ := h.breaksFollow b hb
    have := (h.tiled.gap_bounds hg).2.2
    split at hc
    · rw [List.mem_singleton] at hc
      omega
    · simp at hc
  breaksFollow := by
    intro b hb
    rw [writeGap_pageBreaks, List.mem_append] at hb
    rw [writeGap_gaps]
    rcases hb with hb | hb
    · obtain ⟨g, hg, rfl⟩ := h.breaksFollow b hb
      exact ⟨g, List.mem_append_left _ hg, rfl⟩
    · split at hb
      · rw [List.mem_singleton] at hb
        exact ⟨_, List.mem_append_right _ (List.mem_singleton_self _), hb.symm⟩
      · simp at hb

theorem Sound.addPiece {d : Draft} (h : d.Sound) {p : Piece} (hp : p.text ≠ []) : (d.addPiece p).Sound where
  toFaithful := h.toFaithful.addPiece hp
  inner := by
    intro g hg
    have := h.inner g hg
    rw [addPiece_length]
    omega
  apart := h.apart

/-- The piece behind a separator makes it an inner one again. -/
theorem Sound.addPiece_writeGap {d : Draft} (h : d.Sound) (hd : 0 < d.map.length) {p : Piece} (hp : p.text ≠ []) :
    (d.writeGap.settled.addPiece p).Sound where
  toFaithful := h.toFaithful.writeGap.settled.addPiece hp
  inner := by
    intro g hg
    have := List.length_pos_iff.2 hp
    rw [addPiece_length, settled_map, writeGap_length]
    rw [addPiece_gaps, settled_map, writeGap_gaps, List.mem_append, List.mem_singleton] at hg
    rcases hg with hg | rfl
    · have := h.inner g hg
      omega
    · simp only
      omega
  apart := by
    rw [addPiece_gaps, settled_map, writeGap_gaps, List.pairwise_append]
    refine ⟨h.apart, List.pairwise_singleton _ _, fun g hg k hk => ?_⟩
    rw [List.mem_singleton] at hk
    subst hk
    exact (h.inner g hg).2

theorem length_pos_of_due {d : Draft} (h : d.due = true) : 0 < d.map.length := by
  simp only [due, Bool.and_eq_true, decide_eq_true_eq] at h
  exact h.2

theorem Sound.append {d : Draft} (h : d.Sound) {p : Piece} (hp : p.text ≠ []) : (d.append p).Sound := by
  rcases d.append_cases p with ⟨-, -, he⟩ | ⟨-, -, -, he⟩ | ⟨-, -, he⟩ | ⟨hdue, -, he⟩
  · rw [he]
    exact h
  · rw [he]
    exact h.settled
  · rw [he]
    exact h.settled.addPiece hp
  · rw [he]
    exact h.addPiece_writeGap (length_pos_of_due hdue) hp

end Draft

end Proofreader
