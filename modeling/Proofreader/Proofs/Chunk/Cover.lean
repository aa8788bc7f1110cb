import Mathlib
import Proofreader.Proofs.Chunk.Row
import Proofreader.Proofs.Collections

/-! Chunks cover their text. A page is cut from front to back, and each cut lies behind the one before and not beyond
the limit; so the chunks of a page stand in a row from its beginning to its end, and the rows of the pages make up
one row. All that is said of a split is read off that row. -/

namespace Proofreader

/-- A chunk that `c` cuts from a page of `t` that begins at `page`. -/
structure Chunk.Fits (c : Chunker) (t : Text) (page : Nat) (k : Chunk) : Prop where
  text : t.extract k.base k.stop = k.text
  size : k.text.length ≤ c.maxSize
  context : k.context = min c.lookback (k.start - page)
  page_le : page ≤ k.base
  soft : k.hard = false → k.start = page ∨ t.BlankBefore k.start

namespace Chunk

/-- What fits a page fits the whole. -/
theorem Fits.shift {c : Chunker} {t : Text} {s e : Nat} {k : Chunk} (h : k.Fits c (t.extract s e) 0)
    (hstop : s + k.stop ≤ e) : (k.shift s).Fits c t s where
  text := by
    have hpart := t.extract_extract s (c := k.base) hstop
    rw [h.text] at hpart
    rw [stop_shift]
    exact hpart.symm
  size := h.size
  context := by
    rw [start_shift, Nat.add_sub_cancel_left]
    exact h.context
  page_le := Nat.le_add_right _ _
  soft hard := by
    rw [start_shift]
    rcases h.soft hard with hstart | hblank
    · exact Or.inl (by omega)
    · exact Or.inr hblank.of_extract

end Chunk

/-! ### Pages -/

namespace Chunker

variable (c : Chunker)

theorem contextBefore_le (start : Nat) : c.contextBefore start ≤ start := Nat.min_le_right _ _

/-- How far a chunk reaches with its context. -/
theorem limit_sub (start : Nat) : c.limit start - (start - c.contextBefore start) = c.maxSize := by
  have hlookback := c.lookback_lt
  have hlt := c.lt_limit start
  simp only [limit, contextBefore] at hlt ⊢
  omega

/-- The next chunk of a page. -/
def chunkAt (page : Text) (start : Nat) (hard : Bool) : Chunk :=
  ⟨page.extract (start - c.contextBefore start) (c.stop page start).1, start - c.contextBefore start,
    c.contextBefore start, hard⟩

variable {c} {page : Text} {start : Nat} {hard : Bool}

theorem start_chunkAt : (c.chunkAt page start hard).start = start := Nat.sub_add_cancel (c.contextBefore_le start)

theorem stop_chunkAt (h : start < page.length) : (c.chunkAt page start hard).stop = (c.stop page start).1 := by
  have hlt := c.lt_stop page h
  simp only [Chunk.stop, chunkAt, Text.length_extract page (c.stop_le page start).1]
  omega

theorem fits_chunkAt (h : start < page.length) (hsoft : hard = false → start = 0 ∨ page.BlankBefore start) :
    (c.chunkAt page start hard).Fits c page 0 where
  text := by
    rw [stop_chunkAt h]
    rfl
  size := by
    obtain ⟨hpage, hlimit, -⟩ := c.stop_le page start
    have hreach := c.limit_sub start
    simp only [chunkAt, Text.length_extract page hpage]
    omega
  context := by
    rw [start_chunkAt]
    rfl
  page_le := Nat.zero_le _
  soft := by
    rw [start_chunkAt]
    exact hsoft

theorem splitFrom_of_lt (h : start < page.length) : c.splitFrom page start hard =
    c.chunkAt page start hard :: c.splitFrom page (c.stop page start).1 (c.stop page start).2 := by
  rw [splitFrom, if_pos h]
  rfl

/-- The chunks of a page stand in a row up to its end. -/
theorem row_splitFrom {start : Nat} {hard : Bool} (hle : start ≤ page.length)
    (hsoft : hard = false → start < page.length → start = 0 ∨ page.BlankBefore start) :
    Row (Chunk.Fits c page 0) start (c.splitFrom page start hard) page.length := by
  by_cases h : start < page.length
  · obtain ⟨hpage, -, hblank⟩ := c.stop_le page start
    have hlt := c.lt_stop page h
    rw [splitFrom_of_lt h]
    refine .cons start_chunkAt (fits_chunkAt h fun hhard => hsoft hhard h) ?_ ?_
    · rw [stop_chunkAt h]
      exact hlt
    · rw [stop_chunkAt h]
      exact row_splitFrom hpage fun hhard hend => Or.inr (hblank hhard hend)
  · rw [splitFrom, if_neg h]
    exact Nat.le_antisymm hle (Nat.le_of_not_lt h) ▸ .nil _
termination_by page.length - start

end Chunker

/-! ### The whole text -/

theorem mem_innerBreaks {length n : Nat} {breaks : List Int} :
    n ∈ innerBreaks length breaks ↔ (n : Int) ∈ breaks ∧ 0 < n ∧ n < length := by
  simp only [innerBreaks, List.mem_eraseDups, List.mem_mergeSort, List.mem_map, List.mem_filter, Bool.and_eq_true,
    decide_eq_true_eq]
  constructor
  · rintro ⟨b, ⟨hb, hpos, hlt⟩, rfl⟩
    have hcast : (b.toNat : Int) = b := Int.toNat_of_nonneg (Int.le_of_lt hpos)
    exact ⟨hcast.symm ▸ hb, by omega, by omega⟩
  · rintro ⟨hn, hpos, hlt⟩
    exact ⟨n, ⟨hn, by omega, by omega⟩, Int.toNat_natCast n⟩

theorem pairwise_innerBreaks (length : Nat) (breaks : List Int) : (innerBreaks length breaks).Pairwise (· < ·) := by
  refine pairwise_lt_eraseDups ((List.pairwise_mergeSort (fun a b c hab hbc => ?_) (fun a b => ?_) _).imp fun hab => ?_)
  · rw [decide_eq_true_eq] at hab hbc ⊢
    exact Nat.le_trans hab hbc
  · simpa using Nat.le_total a b
  · exact of_decide_eq_true hab

/-- The part from `s` up to `e` begins where the text or a page does and holds no break inside. -/
structure IsPage (length : Nat) (breaks : List Int) (s e : Nat) : Prop where
  le : s ≤ e
  stop_le : e ≤ length
  begins : s = 0 ∨ (s : Int) ∈ breaks ∧ 0 < s ∧ s < length
  unbroken : ∀ b ∈ breaks, 0 < b → b < length → ¬ ((s : Int) < b ∧ b < e)

theorem IsPage.of_innerBreaks {length s e : Nat} {breaks : List Int} (hse : s ≤ e) (he : e ≤ length)
    (hs : s = 0 ∨ s ∈ innerBreaks length breaks) (hno : ∀ b ∈ innerBreaks length breaks, ¬ (s < b ∧ b < e)) :
    IsPage length breaks s e := by
  refine ⟨hse, he, hs.imp_right fun hs => mem_innerBreaks.1 hs, fun b hb hpos hlt hbetween => ?_⟩
  have hcast : (b.toNat : Int) = b := Int.toNat_of_nonneg (Int.le_of_lt hpos)
  exact hno b.toNat (mem_innerBreaks.2 ⟨hcast.symm ▸ hb, by omega, by omega⟩) (by omega)

/-- What holds of the parts that are cut at increasing offsets, and of parts that follow each other together, holds of the
whole. -/
theorem join_cutAt {G : Nat → List Chunk → Nat → Prop}
    (happend : ∀ {a b d : Nat} {ks ls : List Chunk}, G a ks b → G b ls d → G a (ks ++ ls) d) {t : Text}
    {f : Nat × Text → List Chunk} {bs : List Nat} {a : Nat} (ha : a ≤ t.length) (hbs : bs.Pairwise (· < ·))
    (hin : ∀ b ∈ bs, a < b ∧ b < t.length)
    (hf : ∀ s e, s ≤ e → e ≤ t.length → s = a ∨ s ∈ bs → e = t.length ∨ e ∈ bs → (∀ b ∈ bs, ¬ (s < b ∧ b < e)) →
      G s (f (s, t.extract s e)) e) : G a ((cutAt (t.drop a) a bs).flatMap f) t.length := by
  induction bs generalizing a with
  | nil =>
    have hlast := hf a t.length ha (Nat.le_refl _) (Or.inl rfl) (Or.inl rfl) nofun
    rw [Text.extract, List.take_of_length_le (by simp)] at hlast
    simpa [cutAt] using hlast
  | cons b r ih =>
    obtain ⟨hab, hblt⟩ := hin b List.mem_cons_self
    obtain ⟨hbr, hr⟩ := List.pairwise_cons.1 hbs
    have hfirst : G a (f (a, t.extract a b)) b := by
      refine hf a b (by omega) (by omega) (Or.inl rfl) (Or.inr List.mem_cons_self) fun d hd hbetween => ?_
      rcases List.mem_cons.1 hd with rfl | hd
      · omega
      · have := hbr d hd
        omega
    have hrest : G b ((cutAt (t.drop b) b r).flatMap f) t.length := by
      refine ih (by omega) hr (fun d hd => ⟨hbr d hd, (hin d (List.mem_cons_of_mem _ hd)).2⟩)
        fun s e hse he hs hend hno => ?_
      have hbs : b ≤ s := by
        rcases hs with rfl | hs
        · exact Nat.le_refl _
        · exact Nat.le_of_lt (hbr s hs)
      refine hf s e hse he (Or.inr ?_) (hend.imp_right (List.mem_cons_of_mem _)) fun d hd hbetween => ?_
      · rcases hs with rfl | hs
        · exact List.mem_cons_self
        · exact List.mem_cons_of_mem _ hs
      · rcases List.mem_cons.1 hd with rfl | hd
        · omega
        · exact hno d hd hbetween
    have hdrop : (t.drop a).drop (b - a) = t.drop b := by
      rw [List.drop_drop]
      congr 1
      omega
    rw [cutAt, List.flatMap_cons, hdrop]
    exact happend hfirst hrest

/-- Each chunk lies in one page and fits it. -/
def Chunk.InPage (c : Chunker) (t : Text) (breaks : List Int) (k : Chunk) : Prop :=
  ∃ s e, IsPage t.length breaks s e ∧ k.stop ≤ e ∧ k.Fits c t s

/-- The chunks of a page stand in a row in the whole. -/
theorem Chunker.row_page (c : Chunker) {t : Text} {breaks : List Int} {s e : Nat} (hpage : IsPage t.length breaks s e) :
    Row (Chunk.InPage c t breaks) s ((c.splitPage (t.extract s e)).map (·.shift s)) e := by
  have hse := hpage.le
  have hlength : (t.extract s e).length = e - s := t.length_extract hpage.stop_le
  have hrow : Row (Chunk.Fits c (t.extract s e) 0) 0 (c.splitPage (t.extract s e)) (e - s) :=
    hlength ▸ Chunker.row_splitFrom (Nat.zero_le _) fun _ _ => Or.inl rfl
  have hshifted := hrow.shift (Q := Chunk.InPage c t breaks) s fun k hk hstop =>
    ⟨s, e, hpage, by rw [Chunk.stop_shift]; omega, hk.shift (by omega)⟩
  rwa [Nat.add_zero, Nat.add_sub_cancel' hse] at hshifted

theorem Chunker.row_split (c : Chunker) (t : Text) (breaks : List Int) :
    Row (Chunk.InPage c t breaks) 0 (c.split t breaks) t.length :=
  join_cutAt Row.append (Nat.zero_le _) (pairwise_innerBreaks t.length breaks) (fun _ hb => (mem_innerBreaks.1 hb).2)
    fun _ _ hse he hs _ hno => c.row_page (.of_innerBreaks hse he hs hno)

/-- An offset lies on the page that begins at `page`. -/
structure IsPageStart (length : Nat) (breaks : List Int) (offset page : Nat) : Prop where
  begins : page = 0 ∨ (page : Int) ∈ breaks ∧ 0 < page ∧ page < length
  le : page ≤ offset
  last : ∀ b ∈ breaks, 0 < b → b < length → b ≤ offset → b ≤ page

/-- The chunks of a text cover it exactly and within bounds. -/
structure Chunker.Covers (c : Chunker) (t : Text) (breaks : List Int) (chunks : List Chunk) : Prop where
  whole : chunks.flatMap Chunk.body = t
  first : ∀ k ∈ chunks.head?, k.start = 0
  chain : chunks.IsChain fun k l => l.start = k.stop
  body : ∀ k ∈ chunks, k.body ≠ []
  text : ∀ k ∈ chunks, t.extract k.base k.stop = k.text
  size : ∀ k ∈ chunks, k.text.length ≤ c.maxSize
  context : ∀ k ∈ chunks, ∃ page, IsPageStart t.length breaks k.start page ∧ k.context = min c.lookback (k.start - page)
  unbroken : ∀ k ∈ chunks, ∀ b ∈ breaks, 0 < b → b < t.length → ¬ ((k.base : Int) < b ∧ b < k.stop)
  owned : ∀ o < t.length, ∃! i : Nat, ∃ k, chunks[i]? = some k ∧ k.start ≤ o ∧ o < k.stop

theorem Chunker.covers_split (c : Chunker) (t : Text) (breaks : List Int) : c.Covers t breaks (c.split t breaks) := by
  have row := c.row_split t breaks
  refine ⟨?_, row.first, row.chain, fun k hk hbody => ?_, fun k hk => ?_, fun k hk => ?_, fun k hk => ?_,
    fun k hk b hb hpos hlt hbetween => ?_, fun o ho => row.owned (Nat.zero_le o) ho⟩
  · rw [row.flatMap_body fun k ⟨_, _, _, _, hfits⟩ => hfits.text]
    simp [Text.extract]
  · have hlt := (row.bounds hk).2.2.1
    rw [Chunk.body, List.drop_eq_nil_iff] at hbody
    simp only [Chunk.start, Chunk.stop] at hlt
    omega
  · obtain ⟨⟨s, e, hpage, hstop, hfits⟩, -⟩ := row.bounds hk
    exact hfits.text
  · obtain ⟨⟨s, e, hpage, hstop, hfits⟩, -⟩ := row.bounds hk
    exact hfits.size
  · obtain ⟨⟨s, e, hpage, hstop, hfits⟩, -, hlt, -⟩ := row.bounds hk
    have hle := hfits.page_le
    have hbase : k.base ≤ k.start := Nat.le_add_right _ _
    refine ⟨s, ⟨hpage.begins, by omega, fun b hb hpos hblt hbs => ?_⟩, hfits.context⟩
    have := hpage.unbroken b hb hpos hblt
    omega
  · obtain ⟨⟨s, e, hpage, hstop, hfits⟩, -⟩ := row.bounds hk
    have hle := hfits.page_le
    exact hpage.unbroken b hb hpos hlt (by omega)

/-- Every size and every lookback below it make a chunker, and its chunks cover any text with any page breaks. -/
theorem Chunker.split_covers {maxSize lookback : Int} (hsize : 0 < maxSize) (hnonneg : 0 ≤ lookback)
    (hlookback : lookback < maxSize) (window : Option Int) (t : Text) (breaks : List Int) :
    ∃ c, ofInts maxSize lookback window = .ok c ∧ c.maxSize = maxSize ∧ c.lookback = lookback ∧ c.window = window ∧
      c.Covers t breaks (c.split t breaks) := by
  refine ⟨⟨maxSize.toNat, lookback.toNat, window, by omega⟩, ?_, ?_, ?_, rfl, covers_split _ t breaks⟩
  · rw [ofInts, if_neg (by omega), dif_pos ⟨hnonneg, hlookback⟩]
  · exact Int.toNat_of_nonneg (Int.le_of_lt hsize)
  · exact Int.toNat_of_nonneg hnonneg

/-- Breaks out of order, doubled and outside of the text. -/
def raggedBreaks : List Int := [40, 18, -1, 18, 5]

def raggedText : Text := "One. Twoandthree\n\nfour five.".toList

/-- The window is too small for the cut between the two words of the second page. -/
theorem Chunker.split_covers_ragged :
    (Chunker.split ⟨8, 3, some 4, by decide⟩ raggedText raggedBreaks).map (fun k => (k.base, k.start, k.stop, k.hard)) =
      [(0, 0, 5, false), (5, 5, 13, false), (10, 13, 18, true), (18, 18, 23, false), (20, 23, 28, false)] ∧
    ∃ c, ofInts 8 3 (some 4) = .ok c ∧ c.maxSize = (8 : Int) ∧ c.lookback = (3 : Int) ∧ c.window = some 4 ∧
      c.Covers raggedText raggedBreaks (c.split raggedText raggedBreaks) :=
  ⟨by cbv, split_covers (by decide) (by decide) (by decide) _ _ _⟩

end Proofreader
