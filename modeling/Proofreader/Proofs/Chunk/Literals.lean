import Proofreader.Proofs.Chunk.Words

/-! Checks for a fixed text, blanks and all, in chunks. What is found belongs to the chunk in whose body it begins, so an
occurrence is found once if it ends in that body too. One that straddles a cut is not found at all: the chunk before does
not see it, and the one behind leaves what begins in its context to the chunk before. -/

namespace Proofreader

/-- Where `w` occurs in `t`, also where occurrences overlap. -/
def places (w t : Text) : List Nat := (List.range t.length).filter fun o => w.isPrefixOf (t.drop o)

namespace Finding

def span (f : Finding) : Int × Int := (f.offset, f.length)

/-- The span of `w` at an offset. -/
def spanOf (w : Text) (offset : Nat) : Int × Int := (offset, w.length)

end Finding

/-- The spans of the findings are those of the occurrences of `w` in `t`, each once. -/
def Finds (w t : Text) (fs : List Finding) : Prop := (fs.map Finding.span).Perm ((places w t).map (Finding.spanOf w))

namespace Chunk

/-- The chunk holds `n` characters from `offset` on, its context included. -/
def Sees (k : Chunk) (offset n : Nat) : Prop := k.base ≤ offset ∧ offset + n ≤ k.stop

/-- The body of the chunk holds them. -/
def Owns (k : Chunk) (offset n : Nat) : Prop := k.start ≤ offset ∧ offset + n ≤ k.stop

instance (k : Chunk) (offset n : Nat) : Decidable (k.Owns offset n) := inferInstanceAs (Decidable (_ ∧ _))

end Chunk

/-- A chunk begins inside of the `n` characters from `offset` on. -/
def Straddles (chunks : List Chunk) (offset n : Nat) : Prop := ∃ k ∈ chunks, offset < k.start ∧ k.start < offset + n

/-- In chunks the occurrences of `w` in `t` are found that straddle no cut, each once, and nothing else. -/
structure FindsUncut (chunks : List Chunk) (w t : Text) (found : List Finding) : Prop where
  once : ∀ o, w <+: t.drop o → ¬ Straddles chunks o w.length → (found.map Finding.span).count (Finding.spanOf w o) = 1
  cut : ∀ o, Straddles chunks o w.length → Finding.spanOf w o ∉ found.map Finding.span
  only : ∀ f ∈ found, ∃ o, w <+: t.drop o ∧ f.span = Finding.spanOf w o

variable {t w : Text} {a b o : Nat} {k : Chunk} {ks : List Chunk} {fs : List Finding}

/-! ### Places -/

theorem mem_places (hw : w ≠ []) : o ∈ places w t ↔ w <+: t.drop o := by
  simp only [places, List.mem_filter, List.mem_range, List.isPrefixOf_iff_prefix]
  refine and_iff_right_of_imp fun h => ?_
  have hpos := List.length_pos_iff.2 hw
  have hlength := h.length_le
  rw [List.length_drop] at hlength
  omega

theorem nodup_places (w t : Text) : (places w t).Nodup := List.nodup_range.filter _

namespace Finding

theorem spanOf_injective (w : Text) : Function.Injective (spanOf w) := fun o p h => by
  simpa [spanOf] using h

end Finding

/-! ### One chunk -/

namespace Chunk

theorem map_span_translate (k : Chunk) (fs : List Finding) :
    (k.translate fs).map Finding.span =
      ((fs.map Finding.span).filter fun s : Int × Int => decide ((k.context : Int) ≤ s.1)).map
        fun s : Int × Int => (s.1 + (k.base : Int), s.2) := by
  rw [translate, List.map_map, List.filter_map, List.map_map]
  rfl

/-- What is found in a chunk and does not begin in its context, its body holds. -/
theorem perm_translate (hw : w ≠ []) (htext : t.extract k.base k.stop = k.text) (h : Finds w k.text fs) :
    ((k.translate fs).map Finding.span).Perm
      (((places w t).filter fun o => k.Owns o w.length).map (Finding.spanOf w)) := by
  rw [map_span_translate]
  refine ((h.filter _).map _).trans ?_
  rw [List.filter_map, List.map_map]
  have hmoves : ((fun s : Int × Int => (s.1 + (k.base : Int), s.2)) ∘ Finding.spanOf w) =
      Finding.spanOf w ∘ (k.base + ·) := by
    funext x
    simp [Finding.spanOf, Int.add_comm]
  rw [hmoves, ← List.map_map]
  refine List.Perm.map _ ((List.perm_ext_iff_of_nodup ?_ ((nodup_places w t).filter _)).2 fun o => ?_)
  · exact ((nodup_places w k.text).filter _).map fun x y hxy => Nat.add_left_cancel hxy
  · have hlocal : ∀ {x}, x ∈ places w k.text ↔ w <+: t.drop (k.base + x) ∧ k.base + x + w.length ≤ k.stop := by
      intro x
      rw [mem_places hw, ← htext, prefix_drop_extract hw]
    simp only [List.mem_map, List.mem_filter, hlocal, mem_places hw, Function.comp_apply, Finding.spanOf, decide_eq_true_eq,
      Int.ofNat_le]
    have hbegin : k.start = k.base + k.context := rfl
    constructor
    · rintro ⟨x, ⟨⟨hocc, hstop⟩, hcontext⟩, rfl⟩
      exact ⟨hocc, by omega, hstop⟩
    · rintro ⟨hocc, hstart, hstop⟩
      have hsum : k.base + (o - k.base) = o := by omega
      exact ⟨o - k.base, ⟨by rw [hsum]; exact ⟨hocc, hstop⟩, by omega⟩, hsum⟩

end Chunk

/-! ### Chunks in a row -/

namespace Row

variable {P : Chunk → Prop}

/-- Behind a chunk in a row another one begins, or the row ends. -/
theorem exists_start (h : Row P a ks b) (hk : k ∈ ks) : k.stop = b ∨ ∃ l ∈ ks, l.start = k.stop := by
  induction h with
  | nil => cases hk
  | @cons a b j ks _ _ _ hr ih =>
    rcases List.mem_cons.1 hk with rfl | hk
    · cases hr with
      | nil => exact Or.inl rfl
      | cons hnext => exact Or.inr ⟨_, List.mem_cons_of_mem _ List.mem_cons_self, hnext⟩
    · exact (ih hk).imp_right fun ⟨l, hl, hstart⟩ => ⟨l, List.mem_cons_of_mem _ hl, hstart⟩

theorem pairwise_le (h : Row P a ks b) : ks.Pairwise fun k l => k.stop ≤ l.start := by
  induction h with
  | nil => exact .nil
  | cons _ _ _ hr ih => exact List.pairwise_cons.2 ⟨fun l hl => (hr.bounds hl).2.1, ih⟩

/-- What straddles no cut lies in the body of a chunk. -/
theorem exists_owns_iff (h : Row P a ks b) {n : Nat} (ha : a ≤ o) (hb : o + n ≤ b) (hn : 0 < n) :
    (∃ k ∈ ks, k.Owns o n) ↔ ¬ Straddles ks o n := by
  constructor
  · rintro ⟨k, hk, hstart, hstop⟩ ⟨l, hl, hbegin, hinside⟩
    obtain ⟨i, hi, rfl⟩ := List.getElem_of_mem hk
    obtain ⟨j, hj, rfl⟩ := List.getElem_of_mem hl
    have hpairs := List.pairwise_iff_getElem.1 h.pairwise_le
    rcases Nat.lt_trichotomy i j with hij | rfl | hji
    · have := hpairs i j hi hj hij
      omega
    · omega
    · have hle := hpairs j i hj hi hji
      have hbody := (h.bounds hl).2.2.1
      omega
  · intro hno
    obtain ⟨i, ⟨k, hget, hstart, hstop⟩, -⟩ := h.owned ha (by omega : o < b)
    have hk := List.mem_of_getElem? hget
    refine ⟨k, hk, hstart, ?_⟩
    rcases h.exists_start hk with hend | ⟨l, hl, hnext⟩
    · omega
    · by_contra hlt
      exact hno ⟨l, hl, by omega, by omega⟩

/-- Chunks in a row find what their bodies hold. -/
theorem perm_flatMap_translate (hw : w ≠ []) {check : Text → List Finding} (hcheck : ∀ u, Finds w u (check u))
    (h : Row P a ks b) (htext : ∀ k, P k → t.extract k.base k.stop = k.text) :
    ((ks.flatMap fun k => k.translate (check k.text)).map Finding.span).Perm
      ((ks.flatMap fun k => (places w t).filter fun o => k.Owns o w.length).map (Finding.spanOf w)) := by
  rw [List.map_flatMap, List.map_flatMap]
  exact List.Perm.flatMap_left _ fun k hk => Chunk.perm_translate hw (htext k (h.bounds hk).1) (hcheck k.text)

/-- No two of their bodies hold the same. -/
theorem nodup_flatMap_owned (hw : w ≠ []) (h : Row P a ks b) :
    (ks.flatMap fun k => (places w t).filter fun o => k.Owns o w.length).Nodup := by
  have hpos := List.length_pos_iff.2 hw
  refine List.nodup_flatMap.2 ⟨fun k _ => (nodup_places w t).filter _, h.pairwise_le.imp fun {k l} hle o hk hl => ?_⟩
  have hkown : k.Owns o w.length := of_decide_eq_true (List.mem_filter.1 hk).2
  have hlown : l.Owns o w.length := of_decide_eq_true (List.mem_filter.1 hl).2
  have hkstop := hkown.2
  have hlstart := hlown.1
  omega

end Row

/-- A checker that looks for a fixed text finds in the chunks of a text each occurrence once that straddles no cut. -/
theorem Chunker.findsUncut_split (c : Chunker) (hw : w ≠ []) {check : Text → List Finding}
    (hcheck : ∀ u, Finds w u (check u)) (t : Text) (breaks : List Int) :
    FindsUncut (c.split t breaks) w t ((c.split t breaks).flatMap fun k => k.translate (check k.text)) := by
  have hrow := c.row_split t breaks
  have hpos := List.length_pos_iff.2 hw
  have hperm := hrow.perm_flatMap_translate hw hcheck fun k ⟨_, _, _, _, hfits⟩ => hfits.text
  have hmem : ∀ {o}, (o ∈ (c.split t breaks).flatMap fun k => (places w t).filter fun o => k.Owns o w.length) ↔
      w <+: t.drop o ∧ ¬ Straddles (c.split t breaks) o w.length := by
    intro o
    simp only [List.mem_flatMap, List.mem_filter, mem_places hw, decide_eq_true_eq]
    constructor
    · rintro ⟨k, hk, hocc, hown⟩
      have hbounds := hrow.bounds hk
      have hstart := hown.1
      exact ⟨hocc, (hrow.exists_owns_iff (Nat.zero_le o) (Nat.le_trans hown.2 hbounds.2.2.2) hpos).1 ⟨k, hk, hown⟩⟩
    · rintro ⟨hocc, hno⟩
      have hlength := hocc.length_le
      rw [List.length_drop] at hlength
      obtain ⟨k, hk, hown⟩ := (hrow.exists_owns_iff (Nat.zero_le o) (by omega) hpos).2 hno
      exact ⟨k, hk, hocc, hown⟩
  refine ⟨fun o hocc hno => ?_, fun o hcut hfound => ?_, fun f hf => ?_⟩
  · rw [hperm.count_eq]
    exact List.count_eq_one_of_mem ((hrow.nodup_flatMap_owned hw).map (Finding.spanOf_injective w))
      (List.mem_map_of_mem (hmem.2 ⟨hocc, hno⟩))
  · obtain ⟨p, hp, heq⟩ := List.mem_map.1 (hperm.mem_iff.1 hfound)
    rw [Finding.spanOf_injective w heq] at hp
    exact (hmem.1 hp).2 hcut
  · obtain ⟨p, hp, heq⟩ := List.mem_map.1 (hperm.mem_iff.1 (List.mem_map_of_mem hf))
    exact ⟨p, (hmem.1 hp).1, heq.symm⟩

/-! ### At the beginning of a chunk -/

/-- A rule that finds its text wherever it stands. -/
def LiteralRule.everywhere (rule : LiteralRule) (u : Text) : List Finding :=
  (places rule.find u).map
    (Finding.spanning ⟨0, 0, rule.id, rule.message, rule.replacements, rule.category, rule.issue⟩ rule.find)

theorem LiteralRule.finds_everywhere (rule : LiteralRule) (u : Text) : Finds rule.find u (rule.everywhere u) := by
  rw [Finds, everywhere, List.map_map]
  exact .refl _

/-- Two words with a blank between them, in a text that is cut between such words and also in the middle of a word. -/
def twoWords : LiteralRule := ⟨"a a".toList, none, .str "R", .str "M", [], .str "", .str "", 0, 0⟩

def wordsInRow : Text := "a a a a. a a bab a aabcdefghijk a a".toList

/-- The second chunk and the context of the third show the words at 9. -/
theorem Chunker.findsUncut_wordsInRow :
    (narrowChunker.split wordsInRow []).map (fun k => (String.ofList k.text, k.base, k.context, k.hard)) =
      [("a a a a. ", 0, 0, false), (" a. a a ", 5, 4, false), ("a a bab ", 9, 4, false), ("bab a ", 13, 4, false),
        ("b a aabcd", 15, 4, false), ("abcdefghi", 20, 4, true), ("fghijk a ", 25, 4, true), ("k a a", 30, 4, false)] ∧
    ((narrowChunker.split wordsInRow []).flatMap fun k => k.translate (twoWords.everywhere k.text)).map Finding.span =
      [(0, 3), (2, 3), (4, 3), (9, 3)] ∧
    FindsUncut (narrowChunker.split wordsInRow []) twoWords.find wordsInRow
      ((narrowChunker.split wordsInRow []).flatMap fun k => k.translate (twoWords.everywhere k.text)) :=
  ⟨by cbv, by cbv, narrowChunker.findsUncut_split (by decide) twoWords.finds_everywhere wordsInRow []⟩

/-- The fifth chunk shows the words at 17 from its context on; no chunk finds them, though no cut between them is forced. -/
theorem Chunker.not_forall_once : ¬ ∀ (c : Chunker) (w t : Text) (breaks : List Int) (check : Text → List Finding) (o : Nat),
    w ≠ [] → (∀ u, Finds w u (check u)) → w <+: t.drop o → (∃ k ∈ c.split t breaks, k.Sees o w.length) →
    (∀ n ∈ hardSplits (c.split t breaks), ¬ (o < n ∧ n < o + w.length)) →
    (((c.split t breaks).flatMap fun k => k.translate (check k.text)).map Finding.span).count (Finding.spanOf w o) = 1 := by
  intro h
  have hfifth : (narrowChunker.split wordsInRow [])[4]? = some ⟨"b a aabcd".toList, 15, 4, false⟩ := by cbv
  have hhard : hardSplits (narrowChunker.split wordsInRow []) = [24, 29] := by cbv
  have hcount : (((narrowChunker.split wordsInRow []).flatMap fun k =>
      k.translate (twoWords.everywhere k.text)).map Finding.span).count (Finding.spanOf twoWords.find 17) = 0 := by cbv
  have hone := h narrowChunker twoWords.find wordsInRow [] twoWords.everywhere 17 (by decide) twoWords.finds_everywhere
    (by decide) ⟨_, List.mem_of_getElem? hfifth, by decide, by decide⟩ (by rw [hhard]; decide)
  rw [hcount] at hone
  cases hone

end Proofreader
