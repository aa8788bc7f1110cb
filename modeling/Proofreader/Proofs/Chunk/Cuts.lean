import Proofreader.Proofs.Chunk.Cover

/-! Every chunk ends where its page does or is cut best, and the next one says whether that cut was forced. So the hard
splits of a text are its forced cuts. -/

namespace Proofreader

/-- A page ends at `n`. -/
def IsPageEnd (length : Nat) (breaks : List Int) (n : Nat) : Prop := n = length ∨ (n : Int) ∈ breaks ∧ 0 < n ∧ n < length

namespace Chunk

/-- How far `c` lets the chunk reach. -/
def limit (c : Chunker) (k : Chunk) : Nat := k.start + (c.maxSize - k.context)

/-- Where the window begins in which `c` looks for the end of the chunk. -/
def low (c : Chunker) (k : Chunk) : Nat := c.window.elim k.start fun window => max k.start ((k.limit c : Int) - window).toNat

/-- The chunk is cut best, and `forced` says how. -/
def CutBest (c : Chunker) (t : Text) (k : Chunk) (forced : Bool) : Prop :=
  CutsBest t k.start (k.low c) (k.limit c) k.stop forced

/-- Neither a passage nor a word ends in the range in which the chunk may end. -/
def NoEnd (c : Chunker) (t : Text) (k : Chunk) : Prop :=
  t.passages k.start (k.low c) (k.limit c) = ∅ ∧ t.wordEnds k.start (k.low c) (k.limit c) = ∅

end Chunk

/-- Each chunk that does not end its page is cut at the best boundary, and the hard splits are the cuts that are forced. -/
structure Chunker.Cuts (c : Chunker) (t : Text) (breaks : List Int) (chunks : List Chunk) : Prop where
  first : ∀ k ∈ chunks.head?, k.hard = false
  last : ∀ k ∈ chunks.getLast?, k.stop = t.length
  next : chunks.IsChain fun k l => l.start = k.stop
  pageEnd : chunks.IsChain fun k l => IsPageEnd t.length breaks k.stop → l.hard = false
  best : chunks.IsChain fun k l => ¬ IsPageEnd t.length breaks k.stop → k.CutBest c t l.hard
  forced : ∀ n, n ∈ hardSplits chunks ↔ ∃ k ∈ chunks, k.stop = n ∧ ¬ IsPageEnd t.length breaks n ∧ k.NoEnd c t
  sorted : (hardSplits chunks).Pairwise (· < ·)

section Neighbours

variable {α : Type} {l : List α} {x : α}

/-- Next to every member but the last there is another one. -/
theorem mem_getLast?_or_exists_pair (hx : x ∈ l) : x ∈ l.getLast? ∨ ∃ y, [x, y] <:+: l := by
  induction l with
  | nil => cases hx
  | cons a l ih =>
    rcases List.mem_cons.1 hx with rfl | hx
    · cases l with
      | nil => exact Or.inl rfl
      | cons b l => exact Or.inr ⟨b, [], l, rfl⟩
    · have hne : l ≠ [] := List.ne_nil_of_mem hx
      rw [List.getLast?_cons_of_ne_nil hne]
      exact (ih hx).imp_right fun ⟨y, hy⟩ => ⟨y, hy.trans (List.suffix_cons a l).isInfix⟩

theorem mem_head?_or_exists_pair (hx : x ∈ l) : x ∈ l.head? ∨ ∃ y, [y, x] <:+: l := by
  have hreverse := mem_getLast?_or_exists_pair (List.mem_reverse.2 hx)
  rw [List.getLast?_reverse] at hreverse
  exact hreverse.imp_right fun ⟨y, hy⟩ => ⟨y, List.reverse_infix.1 hy⟩

theorem rel_of_pair {R : α → α → Prop} {y : α} (h : l.IsChain R) (hxy : [x, y] <:+: l) : R x y :=
  List.isChain_pair.1 <| List.IsChain.infix h hxy

end Neighbours

/-! ### One page -/

namespace CutsBest

variable {t : Text} {first last start low limit n : Nat} {forced : Bool}

theorem forced_iff (h : CutsBest t start low limit n forced) :
    forced = true ↔ t.passages start low limit = ∅ ∧ t.wordEnds start low limit = ∅ := by
  cases h with
  | passage h => exact ⟨nofun, fun he => absurd h.1 (he.1 ▸ Set.notMem_empty _)⟩
  | word _ h => exact ⟨nofun, fun he => absurd h.1 (he.2 ▸ Set.notMem_empty _)⟩
  | forced hp hw => exact ⟨fun _ => ⟨hp, hw⟩, fun _ => rfl⟩

/-- The best cut of a part is the best one in the whole. -/
theorem of_extract (h : CutsBest (t.extract first last) start low limit n forced) (hlimit : first + limit ≤ last) :
    CutsBest t (first + start) (first + low) (first + limit) (first + n) forced := by
  have hgreatest : ∀ {s s' : Set Nat}, (∀ m, m ∈ s' ↔ ∃ k ∈ s, m = first + k) → IsGreatest s n →
      IsGreatest s' (first + n) := by
    intro s s' hiff hs
    refine ⟨(hiff _).2 ⟨n, hs.1, rfl⟩, fun m hm => ?_⟩
    obtain ⟨k, hk, rfl⟩ := (hiff m).1 hm
    exact Nat.add_le_add_left (hs.2 hk) first
  have hempty : ∀ {s s' : Set Nat}, (∀ m, m ∈ s' ↔ ∃ k ∈ s, m = first + k) → s = ∅ → s' = ∅ := by
    rintro s s' hiff rfl
    refine Set.eq_empty_iff_forall_notMem.2 fun m hm => ?_
    obtain ⟨k, hk, -⟩ := (hiff m).1 hm
    exact hk
  have hpassages : ∀ m, m ∈ t.passages (first + start) (first + low) (first + limit) ↔
      ∃ k ∈ (t.extract first last).passages start low limit, m = first + k := fun _ => passages_extract hlimit
  have hwords : ∀ m, m ∈ t.wordEnds (first + start) (first + low) (first + limit) ↔
      ∃ k ∈ (t.extract first last).wordEnds start low limit, m = first + k := fun _ => wordEnds_extract hlimit
  cases h with
  | passage h => exact .passage (hgreatest hpassages h)
  | word hp h => exact .word (hempty hpassages hp) (hgreatest hwords h)
  | forced hp hw => exact .forced (hempty hpassages hp) (hempty hwords hw)

end CutsBest

namespace Chunk

theorem limit_shift (c : Chunker) (n : Nat) (k : Chunk) : (k.shift n).limit c = n + k.limit c := by
  rw [limit, limit, start_shift, Nat.add_assoc]
  rfl

theorem low_shift (c : Chunker) (n : Nat) (k : Chunk) : (k.shift n).low c = n + k.low c := by
  rw [low, low, limit_shift, start_shift]
  cases c.window with
  | none => rfl
  | some window =>
    simp only [Option.elim_some]
    omega

end Chunk

namespace Chunker

variable {c : Chunker} {t page : Text} {breaks : List Int} {start : Nat} {hard : Bool}

theorem limit_chunkAt : (c.chunkAt page start hard).limit c = c.limit start := by
  rw [Chunk.limit, start_chunkAt]
  rfl

theorem low_chunkAt : (c.chunkAt page start hard).low c = c.low start := by
  rw [Chunk.low, limit_chunkAt, start_chunkAt, low]
  cases c.window with
  | none => rfl
  | some window => rfl

/-- Of two chunks of a page that follow each other the first is cut best, and its limit lies inside the page. -/
theorem isChain_splitFrom (c : Chunker) (page : Text) (start : Nat) (hard : Bool) :
    ((c.splitFrom page start hard).IsChain fun k l =>
      k.start < k.stop ∧ k.limit c < page.length ∧ k.CutBest c page l.hard) ∧
      ∀ k ∈ (c.splitFrom page start hard).head?, k.hard = hard := by
  by_cases h : start < page.length
  · have hlt := c.lt_stop page h
    obtain ⟨hchain, hfirst⟩ := isChain_splitFrom c page (c.stop page start).1 (c.stop page start).2
    rw [splitFrom_of_lt h]
    refine ⟨List.isChain_cons.2 ⟨fun l hl => ?_, hchain⟩, fun k hk => Option.some.inj hk ▸ rfl⟩
    -- there is a next chunk only if this one stops before the page does
    have hpage : c.limit start < page.length := by
      by_contra hle
      have hstop : (c.stop page start).1 = page.length := by rw [stop, if_pos (Nat.le_of_not_lt hle)]
      rw [splitFrom, hstop, if_neg (Nat.lt_irrefl _)] at hl
      cases hl
    refine ⟨by rwa [start_chunkAt, stop_chunkAt h], limit_chunkAt.symm ▸ hpage, ?_⟩
    rw [Chunk.CutBest, limit_chunkAt, low_chunkAt, start_chunkAt, stop_chunkAt h, hfirst l hl]
    exact c.cutsBest_stop hpage
  · rw [splitFrom, if_neg h]
    exact ⟨.nil, fun k hk => by cases hk⟩
termination_by page.length - start

end Chunker

/-! ### The whole text -/

/-- `l` follows `k`, which ends its page or is cut best, and says whether that cut was forced. -/
def Chunk.Precedes (c : Chunker) (t : Text) (breaks : List Int) (k l : Chunk) : Prop :=
  (IsPageEnd t.length breaks k.stop → l.hard = false) ∧ (¬ IsPageEnd t.length breaks k.stop → k.CutBest c t l.hard)

/-- Chunks up to the end `b` of a page. -/
structure PageCuts (c : Chunker) (t : Text) (breaks : List Int) (ks : List Chunk) (b : Nat) : Prop where
  chain : ks.IsChain (Chunk.Precedes c t breaks)
  first : ∀ k ∈ ks.head?, k.hard = false
  last : ∀ k ∈ ks.getLast?, k.stop = b
  pageEnd : IsPageEnd t.length breaks b

namespace PageCuts

variable {c : Chunker} {t : Text} {breaks : List Int} {ks ls : List Chunk} {b d : Nat}

theorem append (h : PageCuts c t breaks ks b) (g : PageCuts c t breaks ls d) (hls : ls = [] → b = d) :
    PageCuts c t breaks (ks ++ ls) d := by
  refine ⟨List.isChain_append.2 ⟨h.chain, g.chain, fun k hk l hl => ?_⟩, fun k hk => ?_, fun k hk => ?_, g.pageEnd⟩
  · have hend : IsPageEnd t.length breaks k.stop := h.last k hk ▸ h.pageEnd
    exact ⟨fun _ => g.first l hl, fun hno => absurd hend hno⟩
  · rw [List.head?_append] at hk
    rcases Option.or_eq_some_iff.1 hk with hk | ⟨-, hk⟩
    · exact h.first k hk
    · exact g.first k hk
  · rw [List.getLast?_append] at hk
    rcases Option.or_eq_some_iff.1 hk with hk | ⟨hnone, hk⟩
    · exact g.last k hk
    · exact (h.last k hk).trans (hls (List.getLast?_eq_none_iff.1 hnone))

/-- The chunks of one page, moved to where it begins. -/
theorem of_page {s e : Nat} (hpage : IsPage t.length breaks s e) (hend : IsPageEnd t.length breaks e) :
    PageCuts c t breaks ((c.splitPage (t.extract s e)).map (·.shift s)) e := by
  have hlength : (t.extract s e).length = e - s := t.length_extract hpage.stop_le
  obtain ⟨hchain, hfirst⟩ := c.isChain_splitFrom (t.extract s e) 0 false
  refine ⟨?_, fun k hk => ?_, (c.row_page hpage).last, hend⟩
  · rw [List.isChain_map]
    refine hchain.imp fun k l ⟨hlt, hlimit, hbest⟩ => ?_
    have hle := hbest.le
    rw [hlength] at hlimit
    -- the cut lies inside the page, so no page ends there
    have hinside : ¬ IsPageEnd t.length breaks (k.shift s).stop := by
      have hstop := hpage.stop_le
      rw [Chunk.stop_shift]
      rintro (hn | ⟨hn, hpos, hlt'⟩)
      · omega
      · exact hpage.unbroken _ hn (by omega) (by omega) (by omega)
    refine ⟨fun h => absurd h hinside, fun _ => ?_⟩
    rw [Chunk.CutBest, Chunk.start_shift, Chunk.low_shift, Chunk.limit_shift, Chunk.stop_shift]
    exact hbest.of_extract (by omega)
  · rw [List.head?_map] at hk
    obtain ⟨l, hl, rfl⟩ := Option.map_eq_some_iff.1 hk
    exact hfirst l hl

theorem split (c : Chunker) (t : Text) (breaks : List Int) : PageCuts c t breaks (c.split t breaks) t.length := by
  refine (join_cutAt (G := fun a ks b => Row (Chunk.InPage c t breaks) a ks b ∧ PageCuts c t breaks ks b)
    (fun h g => ⟨h.1.append g.1, h.2.append g.2 fun hls => (hls ▸ g.1).eq_of_nil⟩) (Nat.zero_le _)
    (pairwise_innerBreaks t.length breaks) (fun _ hb => (mem_innerBreaks.1 hb).2) fun s e hse he hs hend hno => ?_).2
  have hpage := IsPage.of_innerBreaks hse he hs hno
  exact ⟨c.row_page hpage, of_page hpage (hend.imp_right mem_innerBreaks.1)⟩

end PageCuts

/-- Chunks end at the best boundaries, and hard splits are forced cuts. -/
theorem Chunker.split_cuts (c : Chunker) (t : Text) (breaks : List Int) : c.Cuts t breaks (c.split t breaks) := by
  have hrow := c.row_split t breaks
  have hcuts := PageCuts.split c t breaks
  have hchain := hcuts.chain
  refine ⟨hcuts.first, hcuts.last, hrow.chain, hchain.imp fun k l h => h.1, hchain.imp fun k l h => h.2, fun n => ?_, ?_⟩
  · simp only [hardSplits, List.mem_map, List.mem_filter]
    constructor
    · rintro ⟨l, ⟨hl, hhard⟩, rfl⟩
      rcases mem_head?_or_exists_pair hl with hhead | ⟨k, hpair⟩
      · rw [hcuts.first l hhead] at hhard
        cases hhard
      · obtain ⟨hsoft, hbest⟩ := rel_of_pair hchain hpair
        have hinside : ¬ IsPageEnd t.length breaks k.stop := fun hend => by
          rw [hsoft hend] at hhard
          cases hhard
        have hnext : l.start = k.stop := rel_of_pair (R := fun k l => l.start = k.stop) hrow.chain hpair
        exact ⟨k, hpair.subset List.mem_cons_self, hnext.symm, hnext ▸ hinside, (hbest hinside).forced_iff.1 hhard⟩
    · rintro ⟨k, hk, rfl, hinside, hno⟩
      rcases mem_getLast?_or_exists_pair hk with hlast | ⟨l, hpair⟩
      · exact absurd (Or.inl (hcuts.last k hlast)) hinside
      · have hbest := (rel_of_pair hchain hpair).2 hinside
        exact ⟨l, ⟨hpair.subset (by simp), hbest.forced_iff.2 hno⟩,
          rel_of_pair (R := fun k l => l.start = k.stop) hrow.chain hpair⟩
  · rw [hardSplits, List.pairwise_map]
    exact hrow.pairwise.sublist List.filter_sublist

end Proofreader
