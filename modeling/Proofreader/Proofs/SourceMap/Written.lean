import Mathlib.Data.List.Induction
import Proofreader.Proofs.SourceMap.Projection

/-! Maps as they come about: by calls that add a stretch with a source or one without, some of which are refused. The
stretches of such a map cover it once each, in order, so that a search by halving finds what a scan of all of them
would find. -/

namespace Proofreader

/-- A call that writes to a map, whatever its length is. -/
inductive Writing where
  | entry (length : Int) (location : Location) (exact placeholder : Bool)
  | gap (length : Int)

/-- What an entry says apart from where it stands. -/
def Entry.content (e : Entry) : Nat × Location × Bool × Bool := (e.stop - e.start, e.location, e.exact, e.placeholder)

def Gap.length (g : Gap) : Nat := g.stop - g.start

namespace Writing

/-- A length below zero is as good as none. A call that is refused leaves the map as it is. -/
def applyTo (m : SourceMap) : Writing → SourceMap
  | entry length location exact placeholder =>
    match m.add length.toNat location exact placeholder with
    | .ok written => written
    | .error _ => m
  | gap length => m.addGap length.toNat

/-- The entry that is asked for, unless the call is refused. -/
def content? : Writing → Option (Nat × Location × Bool × Bool)
  | entry length location exact placeholder =>
    if 0 < length ∧ (exact = true → length = location.length) then some (length.toNat, location, exact, placeholder)
    else none
  | gap _ => none

/-- The gap that is asked for, if it has a length. -/
def gap? : Writing → Option Nat
  | entry _ _ _ _ => none
  | gap length => if 0 < length then some length.toNat else none

/-- An entry is added that there can be, and a call for any other is refused. -/
theorem add_cases (m : SourceMap) (length : Int) (l : Location) (exact placeholder : Bool) :
    (0 < length ∧ (entry length l exact placeholder).content? = some (length.toNat, l, exact, placeholder) ∧
      m.add length.toNat l exact placeholder = .ok (m.push length.toNat l exact placeholder)) ∨
    ((entry length l exact placeholder).content? = none ∧ ∃ e, m.add length.toNat l exact placeholder = .error e) := by
  unfold SourceMap.add
  by_cases htaken : 0 < length ∧ (exact = true → length = l.length)
  · left
    obtain ⟨hpos, hexact⟩ := htaken
    have hsome : ¬ length.toNat = 0 := by omega
    have hcopy : ¬ (exact = true ∧ length.toNat ≠ l.length) := by
      rintro ⟨he, hne⟩
      have := hexact he
      omega
    rw [if_neg hsome, if_neg hcopy]
    exact ⟨hpos, if_pos ⟨hpos, hexact⟩, rfl⟩
  · right
    refine ⟨if_neg htaken, ?_⟩
    by_cases hnone : length.toNat = 0
    · rw [if_pos hnone]
      exact ⟨_, rfl⟩
    · have hcopy : exact = true ∧ length.toNat ≠ l.length := by
        have himp := not_and.1 htaken (by omega)
        rw [Classical.not_imp] at himp
        exact ⟨himp.1, by omega⟩
      rw [if_neg hnone, if_pos hcopy]
      exact ⟨_, rfl⟩

theorem refused_iff (m : SourceMap) (length : Int) (l : Location) (exact placeholder : Bool) :
    (∃ e, m.add length.toNat l exact placeholder = .error e) ↔ (entry length l exact placeholder).content? = none := by
  rcases add_cases m length l exact placeholder with ⟨-, hentry, hadd⟩ | ⟨hentry, e, hadd⟩
  · simp [hentry, hadd]
  · simp [hentry, hadd]

/-- A call adds an entry, or a gap, or nothing. -/
theorem applyTo_cases (m : SourceMap) (w : Writing) :
    (∃ n l exact placeholder, 0 < n ∧ w.content? = some (n, l, exact, placeholder) ∧ w.gap? = none ∧
      applyTo m w = m.push n l exact placeholder) ∨
    (∃ n, 0 < n ∧ w.content? = none ∧ w.gap? = some n ∧ applyTo m w = m.addGap n) ∨
    (w.content? = none ∧ w.gap? = none ∧ applyTo m w = m) := by
  cases w with
  | entry length l exact placeholder =>
    rcases add_cases m length l exact placeholder with ⟨hpos, hentry, hadd⟩ | ⟨hentry, e, hadd⟩
    · left
      exact ⟨length.toNat, l, exact, placeholder, by omega, hentry, rfl, by simp only [applyTo, hadd]⟩
    · right
      right
      exact ⟨hentry, rfl, by simp only [applyTo, hadd]⟩
  | gap length =>
    right
    by_cases hpos : 0 < length
    · left
      exact ⟨length.toNat, by omega, rfl, if_pos hpos, rfl⟩
    · right
      have hnone : length.toNat = 0 := by omega
      refine ⟨rfl, if_neg hpos, ?_⟩
      simp only [applyTo, SourceMap.addGap, if_pos hnone]

end Writing

namespace SourceMap

/-- The map that some calls have written, beginning with the empty one. -/
def ofWritings (ws : List Writing) : SourceMap := ws.foldl Writing.applyTo .empty

/-- The map holds what the calls have asked for and not been refused, in their order and without holes. -/
structure Records (ws : List Writing) (m : SourceMap) : Prop where
  tiled : m.Tiled
  entries : m.entries.toList.map Entry.content = ws.filterMap Writing.content?
  gaps : m.gaps.toList.map Gap.length = ws.filterMap Writing.gap?

theorem addGap_pos (m : SourceMap) {n : Nat} (h : 0 < n) :
    m.addGap n = { m with gaps := m.gaps.push ⟨m.length, m.length + n⟩, length := m.length + n } := by
  rw [addGap, if_neg (by omega)]

variable {ws : List Writing} {m : SourceMap} {a b : Int}

theorem Records.step (h : m.Records ws) (w : Writing) : (w.applyTo m).Records (ws ++ [w]) := by
  rcases w.applyTo_cases m with ⟨n, l, exact, placeholder, hn, hentry, hgap, happly⟩ | ⟨n, hn, hentry, hgap, happly⟩ |
    ⟨hentry, hgap, happly⟩
  · rw [happly]
    refine ⟨h.tiled.push hn l exact placeholder, ?_, ?_⟩
    · simp [SourceMap.push, h.entries, List.filterMap_append, hentry, Entry.content]
    · simp [SourceMap.push, h.gaps, List.filterMap_append, hgap]
  · rw [happly]
    refine ⟨h.tiled.addGap n, ?_, ?_⟩
    · simp [m.addGap_pos hn, h.entries, List.filterMap_append, hentry]
    · simp [m.addGap_pos hn, h.gaps, List.filterMap_append, hgap, Gap.length]
  · rw [happly]
    refine ⟨h.tiled, ?_, ?_⟩
    · simp [h.entries, List.filterMap_append, hentry]
    · simp [h.gaps, List.filterMap_append, hgap]

theorem ofWritings_snoc (ws : List Writing) (w : Writing) : ofWritings (ws ++ [w]) = w.applyTo (ofWritings ws) := by
  simp [ofWritings]

theorem records_ofWritings (ws : List Writing) : (ofWritings ws).Records ws := by
  induction ws using List.reverseRecOn with
  | nil => exact ⟨tiled_empty, rfl, rfl⟩
  | append_singleton ws w ih =>
    rw [ofWritings_snoc]
    exact ih.step w

/-! ### Searches and scans -/

/-- Of the entries that begin at or before an offset only the last one can reach it. -/
theorem Tiled.entryAt_eq_some (h : m.Tiled) {e : Entry} :
    m.entryAt a = some e ↔ e ∈ m.entries.toList ∧ e.covers a = true := by
  refine ⟨mem_of_entryAt, ?_⟩
  rintro ⟨he, hcovers⟩
  have hspan := hcovers
  simp only [Entry.covers, Bool.and_eq_true, decide_eq_true_eq] at hspan
  obtain ⟨as, bs, heq, has, hbs, hn⟩ := h.split_entries a
  have hmem : e ∈ as := by
    rw [heq] at he
    rcases List.mem_append.1 he with he | he
    · exact he
    · have := hbs e he
      omega
  have hordered := Tiling.entries_ordered h
  rw [heq] at hordered
  rcases as.eq_nil_or_concat with rfl | ⟨front, last, rfl⟩
  · cases hmem
  · rw [List.concat_eq_append] at heq hmem hordered has hn
    have hlast : e = last := by
      rcases List.mem_append.1 hmem with hfront | hlast
      · have hstart := has last (by simp)
        have hstop := (List.pairwise_append.1 (List.pairwise_append.1 hordered).1).2.2 e hfront last (by simp)
        omega
      · exact List.mem_singleton.1 hlast
    have hget : m.entries[front.length]? = some last := by
      simp [← Array.getElem?_toList, heq]
    simp only [entryAt, hn, List.length_append, List.length_singleton, hget, Option.filter_some, ← hlast, hcovers, if_true]

/-- The gaps split before an offset; the search finds where. -/
theorem Tiled.split_gaps (h : m.Tiled) (b : Int) : ∃ as bs, m.gaps.toList = as ++ bs ∧
    (∀ g ∈ as, (g.start : Int) < b) ∧ (∀ g ∈ bs, b ≤ (g.start : Int)) ∧ m.gapsBefore b = as.length := by
  have hmono : m.gaps.toList.Pairwise fun g k => decide ((k.start : Int) < b) = true → decide ((g.start : Int) < b) = true := by
    refine (Tiling.gaps_ordered h).imp_of_mem fun {g k} hg _ hgk hk => ?_
    have hlt := (Tiling.gap_bounds h hg).2.1
    rw [decide_eq_true_eq] at hk ⊢
    omega
  obtain ⟨as, bs, heq, has, hbs⟩ := exists_split hmono
  refine ⟨as, bs, heq, ?_, ?_, firstFailure_toList heq has hbs⟩
  · intro g hg
    simpa using has g hg
  · intro g hg
    simpa using hbs g hg

/-- Of the gaps that begin before the span ends the last one reaches furthest. -/
theorem Tiled.touchesGap_iff (h : m.Tiled) :
    m.touchesGap a b = true ↔ ∃ g ∈ m.gaps.toList, (g.start : Int) < b ∧ a < (g.stop : Int) := by
  obtain ⟨as, bs, heq, has, hbs, hn⟩ := h.split_gaps b
  have hbefore : ∀ g ∈ m.gaps.toList, (g.start : Int) < b → g ∈ as := by
    intro g hg hstart
    rw [heq] at hg
    rcases List.mem_append.1 hg with hg | hg
    · exact hg
    · have := hbs g hg
      omega
  rcases as.eq_nil_or_concat with rfl | ⟨front, last, rfl⟩
  · simp only [touchesGap, hn, List.length_nil, Bool.false_eq_true, false_iff]
    rintro ⟨g, hg, hstart, -⟩
    cases hbefore g hg hstart
  · rw [List.concat_eq_append] at heq hbefore has hn
    have hget : m.gaps[front.length]? = some last := by
      simp [← Array.getElem?_toList, heq]
    have hlast : last ∈ m.gaps.toList := by simp [heq]
    simp only [touchesGap, hn, List.length_append, List.length_singleton, hget, Option.any_some, decide_eq_true_eq]
    constructor
    · intro hstop
      exact ⟨last, hlast, has last (by simp), hstop⟩
    · rintro ⟨g, hg, hstart, hstop⟩
      rcases List.mem_append.1 (hbefore g hg hstart) with hfront | hg
      · have hordered := Tiling.gaps_ordered h
        rw [heq] at hordered
        have hle := (List.pairwise_append.1 (List.pairwise_append.1 hordered).1).2.2 g hfront last (by simp)
        have hlt := (Tiling.gap_bounds h hlast).2.1
        omega
      · exact List.mem_singleton.1 hg ▸ hstop

/-- Whatever was written and refused, a map holds what was asked for and could be there, and its entries and gaps tile
what is covered. Each lookup finds what a scan of all of them does: the entry at an offset, the entries that a span shares
characters with, or the one that an empty or inverted span begins in, and whether a span shares characters with a gap. -/
theorem lookups_scan (ws : List Writing) (a b : Int) :
    (∀ length l exact placeholder, (∃ e, (ofWritings ws).add (Int.toNat length) l exact placeholder = .error e) ↔
      (Writing.entry length l exact placeholder).content? = none) ∧
    (ofWritings ws).entries.toList.map Entry.content = ws.filterMap Writing.content? ∧
    (ofWritings ws).gaps.toList.map Gap.length = ws.filterMap Writing.gap? ∧
    Tiling 0 (ofWritings ws).entries.toList (ofWritings ws).gaps.toList (ofWritings ws).length ∧
    (∀ e, (ofWritings ws).entryAt a = some e ↔
      e ∈ (ofWritings ws).entries.toList ∧ (e.start : Int) ≤ a ∧ a < (e.stop : Int)) ∧
    (a < b → (ofWritings ws).overlapping a b =
      (ofWritings ws).entries.toList.filter fun e => (e.start : Int) < b ∧ (e.stop : Int) > a) ∧
    (b ≤ a → (ofWritings ws).overlapping a b = ((ofWritings ws).entryAt a).toList) ∧
    ((ofWritings ws).touchesGap a b = true ↔
      ∃ g ∈ (ofWritings ws).gaps.toList, (g.start : Int) < b ∧ (g.stop : Int) > a) := by
  have hrecords := records_ofWritings ws
  have htiled := hrecords.tiled
  refine ⟨Writing.refused_iff (ofWritings ws), hrecords.entries, hrecords.gaps, htiled, ?_, ?_, ?_, htiled.touchesGap_iff⟩
  · intro e
    rw [htiled.entryAt_eq_some]
    simp [Entry.covers]
  · intro hab
    rw [htiled.overlapping_eq hab]
    simp [Entry.meets]
  · intro hba
    rw [overlapping, if_pos hba]

/-- A copy and a placeholder with a gap between them, and calls for an entry that is no copy, for one without characters
and for a gap below zero. -/
def refusals : List Writing :=
  [.entry 3 ⟨"main", 4, 7⟩ true false, .entry 2 ⟨"main", 7, 12⟩ true false, .gap 2, .gap (-1),
    .entry 0 ⟨"main", 12, 12⟩ false false, .entry 4 ⟨"main", 12, 30⟩ false true]

/-- A span from inside of the first entry to inside of the last one overlaps both and the gap between them. -/
theorem lookups_scan_refusals : ofWritings refusals =
      ⟨#[⟨0, 3, ⟨"main", 4, 7⟩, true, false⟩, ⟨5, 9, ⟨"main", 12, 30⟩, false, true⟩], #[⟨3, 5⟩], 9⟩ ∧
    (ofWritings refusals).overlapping 2 6 = (ofWritings refusals).entries.toList ∧
    (ofWritings refusals).touchesGap 2 6 = true := by
  have hmap : ofWritings refusals =
      ⟨#[⟨0, 3, ⟨"main", 4, 7⟩, true, false⟩, ⟨5, 9, ⟨"main", 12, 30⟩, false, true⟩], #[⟨3, 5⟩], 9⟩ := by decide
  obtain ⟨-, -, -, -, -, hoverlapping, -, htouches⟩ := lookups_scan refusals 2 6
  refine ⟨hmap, ?_, ?_⟩
  · rw [hoverlapping (by decide), hmap]
    decide
  · rw [htouches, hmap]
    exact ⟨⟨3, 5⟩, by simp, by decide, by decide⟩

end SourceMap

end Proofreader
