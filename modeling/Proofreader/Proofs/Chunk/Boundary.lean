import Mathlib.Data.List.TakeWhile
import Mathlib.Order.Bounds.Basic
import Proofreader.Chunk
import Proofreader.Proofs.Text.Basic

/-! The best cut. Said of a text alone, a chunk ends at the last place up to its limit where a paragraph or a sentence
ends, else behind the last blank. The search meets sentence ends from left to right, and none begins inside another; so
the last one that it meets reaches furthest. Seen backwards from the limit the same cut comes first. -/

namespace Proofreader

namespace Text

/-- A paragraph break from `i` up to `n`. -/
def EndsParagraph (t : Text) (i n : Nat) : Prop := n = i + 2 ∧ t[i]? = some '\n' ∧ t[i + 1]? = some '\n'

/-- A sentence end from `i` up to `n`: a terminator, any closers and one blank. -/
structure EndsSentence (t : Text) (i n : Nat) : Prop where
  size : i + 2 ≤ n
  mark : t[i]?.any isTerminator = true
  closers : ∀ j, i < j → j + 1 < n → t[j]?.any isCloser = true
  blank : t[n - 1]?.any isBlank = true

/-- A paragraph or a sentence ends at `n`, and its end begins at `i`. -/
def EndsPassage (t : Text) (i n : Nat) : Prop := t.EndsParagraph i n ∨ t.EndsSentence i n

/-- Behind `start` and not behind `limit`, the ends of paragraphs and sentences whose ends begin from `low` on. -/
def passages (t : Text) (start low limit : Nat) : Set Nat :=
  {n | start < n ∧ n ≤ limit ∧ ∃ i, low ≤ i ∧ t.EndsPassage i n}

/-- In the same range, the places behind a blank. -/
def wordEnds (t : Text) (start low limit : Nat) : Set Nat :=
  {n | start < n ∧ n ≤ limit ∧ ∃ i, low ≤ i ∧ n = i + 1 ∧ t[i]?.any isBlank = true}

end Text

/-- The best cut of a chunk that begins at `start` and does not reach the end of its page, and whether it is forced. -/
inductive CutsBest (t : Text) (start low limit : Nat) : Nat → Bool → Prop
  | passage {n : Nat} : IsGreatest (t.passages start low limit) n → CutsBest t start low limit n false
  | word {n : Nat} : t.passages start low limit = ∅ → IsGreatest (t.wordEnds start low limit) n →
      CutsBest t start low limit n false
  | forced : t.passages start low limit = ∅ → t.wordEnds start low limit = ∅ → CutsBest t start low limit limit true

/-! ### The last place of a kind -/

/-- The last number of which `p` holds, if there is one. -/
structure IsLast (p : Nat → Prop) (o : Option Nat) : Prop where
  holds : ∀ n ∈ o, p n
  le : ∀ n, p n → ∃ m ∈ o, n ≤ m

namespace IsLast

variable {p q : Nat → Prop} {o o' : Option Nat} {n : Nat}

theorem unique (h : IsLast p o) (h' : IsLast p o') : o = o' := by
  refine Option.ext fun n => ⟨fun hn => ?_, fun hn => ?_⟩
  · obtain ⟨m, hm, hnm⟩ := h'.le n (h.holds n hn)
    obtain ⟨k, hk, hmk⟩ := h.le m (h'.holds m hm)
    obtain rfl := Option.mem_unique hk hn
    exact Nat.le_antisymm hnm hmk ▸ hm
  · obtain ⟨m, hm, hnm⟩ := h.le n (h'.holds n hn)
    obtain ⟨k, hk, hmk⟩ := h'.le m (h.holds m hm)
    obtain rfl := Option.mem_unique hk hn
    exact Nat.le_antisymm hnm hmk ▸ hm

theorem congr (h : IsLast p o) (hpq : ∀ n, p n ↔ q n) : IsLast q o :=
  ⟨fun n hn => (hpq n).1 (h.holds n hn), fun n hn => h.le n ((hpq n).2 hn)⟩

theorem none (h : ∀ n, ¬ p n) : IsLast p none := ⟨nofun, fun n hn => absurd hn (h n)⟩

theorem shift (h : IsLast p o) (k : Nat) : IsLast (fun n => ∃ m, p m ∧ n = k + m) (o.map (k + ·)) := by
  refine ⟨fun n hn => ?_, ?_⟩
  · obtain ⟨m, hm, rfl⟩ := Option.map_eq_some_iff.1 hn
    exact ⟨m, h.holds m hm, rfl⟩
  · rintro n ⟨m, hm, rfl⟩
    obtain ⟨l, hl, hle⟩ := h.le m hm
    exact ⟨k + l, Option.mem_map_of_mem _ hl, Nat.add_le_add_left hle k⟩

/-- The second kind counts only where there is none of the first. -/
theorem or (h : IsLast p o) (h' : IsLast q o') (hpq : ∀ n m, p n → q m → m ≤ n) :
    IsLast (fun n => p n ∨ q n) (o.or o') := by
  cases o with
  | none =>
    have hp : ∀ n, ¬ p n := fun n hn => by
      obtain ⟨m, hm, -⟩ := h.le n hn
      cases hm
    exact h'.congr fun n => (or_iff_right (hp n)).symm
  | some l =>
    refine ⟨fun n hn => Or.inl (h.holds n hn), ?_⟩
    rintro n (hn | hn)
    · exact h.le n hn
    · exact ⟨l, rfl, hpq l n (h.holds l rfl) hn⟩

theorem max? (l : List Nat) : IsLast (· ∈ l) l.max? := by
  refine ⟨fun n hn => List.max?_mem hn, fun n hn => ?_⟩
  cases hl : l.max? with
  | none => exact absurd hn (by simp [List.max?_eq_none_iff.1 hl])
  | some m => exact ⟨m, rfl, (List.max?_eq_some_iff.1 hl).2 n hn⟩

/-- Of the last places of two kinds the greater one is the last of both. -/
theorem max (h : IsLast p o) (h' : IsLast q o') {f : Nat → Bool} (hf : ∀ n, p n ∨ q n → f n = true) :
    IsLast (fun n => p n ∨ q n) ((o.toList ++ o'.toList).filter f).max? := by
  have hmem : ∀ {n}, n ∈ o.toList ++ o'.toList ↔ n ∈ o ∨ n ∈ o' := by simp
  have hholds : ∀ n ∈ o.toList ++ o'.toList, p n ∨ q n := fun n hn => (hmem.1 hn).imp (h.holds n) (h'.holds n)
  rw [List.filter_eq_self.2 fun n hn => hf n (hholds n hn)]
  obtain ⟨hmax, hle⟩ := max? (o.toList ++ o'.toList)
  refine ⟨fun n hn => hholds n (hmax n hn), ?_⟩
  rintro n (hn | hn)
  · obtain ⟨m, hm, hnm⟩ := h.le n hn
    obtain ⟨k, hk, hmk⟩ := hle m (hmem.2 (Or.inl hm))
    exact ⟨k, hk, Nat.le_trans hnm hmk⟩
  · obtain ⟨m, hm, hnm⟩ := h'.le n hn
    obtain ⟨k, hk, hmk⟩ := hle m (hmem.2 (Or.inr hm))
    exact ⟨k, hk, Nat.le_trans hnm hmk⟩

/-- Looking through a range from its end. -/
theorem find?_range (f : Nat → Bool) (n : Nat) : IsLast (fun i => i < n ∧ f i = true) ((List.range n).reverse.find? f) := by
  induction n with
  | zero => exact .none fun i hi => absurd hi.1 (Nat.not_lt_zero i)
  | succ n ih =>
    rw [List.range_succ, List.reverse_append, List.reverse_singleton, List.singleton_append, List.find?_cons]
    split
    · next hf =>
      refine ⟨fun i hi => ?_, fun i hi => ⟨n, rfl, Nat.le_of_lt_succ hi.1⟩⟩
      cases hi
      exact ⟨Nat.lt_succ_self n, hf⟩
    · next hf =>
      refine ih.congr fun i => and_congr_left fun hi => ⟨Nat.lt_succ_of_lt, fun hlt => ?_⟩
      exact Nat.lt_of_le_of_ne (Nat.le_of_lt_succ hlt) fun he => by simp [he, hf] at hi

theorem isGreatest {s : Set Nat} (h : IsLast (· ∈ s) (some n)) : IsGreatest s n := by
  refine ⟨h.holds n rfl, fun m hm => ?_⟩
  obtain ⟨k, hk, hle⟩ := h.le m hm
  cases hk
  exact hle

theorem eq_empty {s : Set Nat} (h : IsLast (· ∈ s) Option.none) : s = ∅ := by
  refine Set.eq_empty_iff_forall_notMem.2 fun n hn => ?_
  obtain ⟨m, hm, -⟩ := h.le n hn
  cases hm

end IsLast

/-! ### Ends of passages -/

section Passages

variable {t r : Text} {c : Char} {a b i n skip : Nat}

theorem Text.getElem?_extract_eq (t : Text) (a b i : Nat) : (t.extract a b)[i]? = if a + i < b then t[a + i]? else none := by
  split
  · next h => exact t.getElem?_extract h
  · next h =>
    refine List.getElem?_eq_none ?_
    simp only [extract, List.length_take]
    omega

/-- What holds of a character of a part holds of it in the whole. -/
theorem Text.any_extract {p : Char → Bool} : ((t.extract a b)[i]?).any p = true ↔ a + i < b ∧ t[a + i]?.any p = true := by
  rw [Text.getElem?_extract_eq]
  split
  · next h => exact (and_iff_right h).symm
  · next h => simp [h]

theorem Text.endsParagraph_extract : (t.extract a b).EndsParagraph i n ↔ t.EndsParagraph (a + i) (a + n) ∧ a + n ≤ b := by
  simp only [EndsParagraph, getElem?_extract_eq]
  constructor
  · rintro ⟨rfl, hi, hj⟩
    split at hj
    · next hlt =>
      rw [if_pos (by omega)] at hi
      exact ⟨⟨rfl, hi, hj⟩, by omega⟩
    · cases hj
  · rintro ⟨⟨hn, hi, hj⟩, hle⟩
    rw [if_pos (by omega), if_pos (by omega)]
    exact ⟨by omega, hi, hj⟩

theorem Text.endsSentence_extract : (t.extract a b).EndsSentence i n ↔ t.EndsSentence (a + i) (a + n) ∧ a + n ≤ b := by
  constructor
  · intro h
    have hsize := h.size
    obtain ⟨hlt, hblank⟩ := any_extract.1 h.blank
    have hlast : a + (n - 1) = a + n - 1 := by omega
    refine ⟨⟨by omega, (any_extract.1 h.mark).2, fun j hj hjn => ?_, hlast ▸ hblank⟩, by omega⟩
    have hcloser := (any_extract.1 (h.closers (j - a) (by omega) (by omega))).2
    rwa [Nat.add_sub_cancel' (by omega)] at hcloser
  · rintro ⟨h, hle⟩
    have hsize := h.size
    have hlast : a + (n - 1) = a + n - 1 := by omega
    refine ⟨by omega, any_extract.2 ⟨by omega, h.mark⟩, fun j hj hjn => ?_, any_extract.2 ⟨by omega, hlast ▸ h.blank⟩⟩
    exact any_extract.2 ⟨by omega, h.closers (a + j) (by omega) (by omega)⟩

theorem Text.endsPassage_extract : (t.extract a b).EndsPassage i n ↔ t.EndsPassage (a + i) (a + n) ∧ a + n ≤ b := by
  rw [EndsPassage, EndsPassage, endsParagraph_extract, endsSentence_extract, or_and_right]

theorem Text.EndsPassage.lt (h : t.EndsPassage i n) : i < n := by
  rcases h with h | h
  · exact h.1 ▸ Nat.lt_add_of_pos_right (Nat.succ_pos 1)
  · exact Nat.lt_of_succ_lt h.size

theorem isCloser_eq_false (h : isTerminator c = true ∨ isBlank c = true) : isCloser c = false := by
  by_contra hne
  simp only [isCloser, Bool.not_eq_false, Bool.or_eq_true, decide_eq_true_eq] at hne
  rcases hne with ((rfl | rfl) | rfl) | rfl <;> revert h <;> decide

theorem isBlank_of_isTerminator {c : Char} (h : isTerminator c = true) : isBlank c = false := by
  simp only [isTerminator, Bool.or_eq_true, decide_eq_true_eq] at h
  rcases h with (rfl | rfl) | rfl <;> decide

/-- Characters of a kind are taken up to the first that is not of it. -/
theorem length_takeWhile_eq {p : Char → Bool} (hall : ∀ j < n, t[j]?.any p = true) (hend : t[n]?.any p = false) :
    (t.takeWhile p).length = n := by
  induction t generalizing n with
  | nil =>
    cases n with
    | zero => rfl
    | succ n => simpa using hall 0 (Nat.succ_pos n)
  | cons c r ih =>
    cases n with
    | zero => simpa using hend
    | succ n =>
      have hc : p c = true := by simpa using hall 0 (Nat.succ_pos n)
      rw [List.takeWhile_cons_of_pos hc, List.length_cons]
      exact congrArg (· + 1) (ih (fun j hj => by simpa using hall (j + 1) (Nat.succ_lt_succ hj)) (by simpa using hend))

theorem any_takeWhile {p : Char → Bool} {j : Nat} (h : j < (t.takeWhile p).length) : t[j]?.any p = true := by
  have hmem : (t.takeWhile p)[j] ∈ t.takeWhile p := List.getElem_mem h
  rw [List.prefix_iff_getElem?.1 (List.takeWhile_prefix p) j h]
  exact List.mem_takeWhile_imp (p := p) hmem

theorem any_isCloser_eq_false {o : Option Char} (h : o.any isTerminator = true ∨ o.any isBlank = true) :
    o.any isCloser = false := by
  cases o with
  | none => rfl
  | some c => exact isCloser_eq_false h

/-- A sentence end at the head has the length that its closers give it. -/
theorem sentenceEnd?_iff : sentenceEnd? t = some n ↔ t.EndsSentence 0 n := by
  cases t with
  | nil => exact ⟨nofun, fun h => by simpa using h.mark⟩
  | cons c r =>
    simp only [sentenceEnd?, Bool.and_eq_true, List.head?_drop, Option.ite_none_right_eq_some, Option.some.injEq]
    constructor
    · rintro ⟨⟨hmark, hblank⟩, rfl⟩
      refine ⟨Nat.le_add_left _ _, hmark, fun j hj hjn => ?_, hblank⟩
      obtain ⟨k, rfl⟩ := Nat.exists_eq_succ_of_ne_zero (Nat.ne_of_gt hj)
      exact any_takeWhile (t := r) (by omega)
    · intro h
      obtain ⟨k, rfl⟩ : ∃ k, n = k + 2 := ⟨n - 2, by have := h.size; omega⟩
      have hblank : r[k]?.any isBlank = true := h.blank
      have hclosers : (r.takeWhile isCloser).length = k :=
        length_takeWhile_eq (fun j hj => h.closers (j + 1) (Nat.succ_pos j) (by omega))
          (any_isCloser_eq_false (Or.inr hblank))
      rw [hclosers]
      exact ⟨⟨h.mark, hblank⟩, rfl⟩

theorem endsSentence_succ : Text.EndsSentence (c :: r) (i + 1) (n + 1) ↔ Text.EndsSentence r i n := by
  have hlast : ∀ {n}, i + 2 ≤ n → n + 1 - 1 = n - 1 + 1 := by omega
  constructor
  · intro h
    have hsize : i + 2 ≤ n := Nat.le_of_succ_le_succ h.size
    have hblank := h.blank
    rw [hlast hsize] at hblank
    exact ⟨hsize, h.mark, fun j hj hjn => h.closers (j + 1) (by omega) (by omega), hblank⟩
  · intro h
    refine ⟨Nat.succ_le_succ h.size, h.mark, fun j hj hjn => ?_, ?_⟩
    · obtain ⟨k, rfl⟩ := Nat.exists_eq_succ_of_ne_zero (Nat.ne_of_gt (Nat.zero_lt_of_lt hj))
      exact h.closers k (by omega) (by omega)
    · rw [hlast h.size]
      exact h.blank

/-- Inside a sentence end no other one begins. -/
theorem Text.EndsSentence.le {j m : Nat} (h : t.EndsSentence i n) (g : t.EndsSentence j m) (hij : i < j) : n ≤ j := by
  by_contra hlt
  by_cases hj : j + 1 < n
  · have hcloser := h.closers j hij hj
    rw [any_isCloser_eq_false (Or.inl g.mark)] at hcloser
    cases hcloser
  · obtain rfl : j = n - 1 := by omega
    have hmark := g.mark
    have hblank := h.blank
    cases hc : t[n - 1]? with
    | none => simp [hc] at hmark
    | some c =>
      rw [hc] at hmark hblank
      exact absurd hblank (by simp [isBlank_of_isTerminator hmark])

/-- The sentence end that is met last reaches furthest of those that begin behind the skipped characters. -/
theorem isLast_lastSentence (skip : Nat) (t : Text) :
    IsLast (fun n => ∃ i, skip ≤ i ∧ t.EndsSentence i n) (lastSentence? skip t) := by
  induction t generalizing skip with
  | nil => exact .none fun n ⟨i, _, h⟩ => by simpa using h.mark
  | cons c r ih =>
    -- what the tail says of ends that begin behind the head
    have htail : ∀ k, IsLast (fun n => ∃ i, k + 1 ≤ i ∧ Text.EndsSentence (c :: r) i n) ((lastSentence? k r).map (· + 1)) := by
      intro k
      have hshift := (ih k).shift 1
      simp only [Nat.add_comm 1] at hshift
      refine hshift.congr fun n => ⟨?_, ?_⟩
      · rintro ⟨m, ⟨i, hi, h⟩, rfl⟩
        exact ⟨i + 1, Nat.succ_le_succ hi, endsSentence_succ.2 h⟩
      · rintro ⟨i, hi, h⟩
        have hsize := h.size
        obtain ⟨j, rfl⟩ : ∃ j, i = j + 1 := ⟨i - 1, by omega⟩
        obtain ⟨m, rfl⟩ : ∃ m, n = m + 1 := ⟨n - 1, by omega⟩
        exact ⟨m, ⟨j, Nat.le_of_succ_le_succ hi, endsSentence_succ.1 h⟩, rfl⟩
    cases skip with
    | succ skip => exact htail skip
    | zero =>
      rw [lastSentence?]
      split
      · next m hm =>
        have hfirst := sentenceEnd?_iff.1 hm
        have hsize := hfirst.size
        have honly : ∀ n, Text.EndsSentence (c :: r) 0 n → n = m := fun n hn =>
          Option.some.inj ((sentenceEnd?_iff.2 hn).symm.trans hm)
        have hhead : IsLast (fun n => Text.EndsSentence (c :: r) 0 n) (some m) :=
          ⟨fun n hn => Option.mem_some_iff.1 hn ▸ hfirst, fun n hn => ⟨m, rfl, Nat.le_of_eq (honly n hn)⟩⟩
        refine ((htail (m - 1)).or hhead ?_).congr fun n => ⟨?_, ?_⟩
        · rintro n k ⟨i, hi, h⟩ hk
          have := h.size
          have := honly k hk
          omega
        · rintro (⟨i, -, h⟩ | h)
          · exact ⟨i, Nat.zero_le i, h⟩
          · exact ⟨0, Nat.le_refl 0, h⟩
        · rintro ⟨i, -, h⟩
          rcases Nat.eq_zero_or_pos i with rfl | hi
          · exact Or.inr h
          · have := hfirst.le h hi
            exact Or.inl ⟨i, by omega, h⟩
      · next hnone =>
        refine (htail 0).congr fun n => ⟨fun ⟨i, _, h⟩ => ⟨i, Nat.zero_le i, h⟩, fun ⟨i, _, h⟩ => ⟨i, ?_, h⟩⟩
        refine Nat.pos_of_ne_zero ?_
        rintro rfl
        rw [sentenceEnd?_iff.2 h] at hnone
        cases hnone

theorem isLast_findLast {pattern : Text} (hp : pattern ≠ []) (t : Text) :
    IsLast (fun i => pattern <+: t.drop i) (Text.findLast pattern t) := by
  induction t with
  | nil =>
    have hnone : Text.findLast pattern [] = none := by simp [Text.findLast, hp]
    rw [hnone]
    exact .none fun i hi => hp (by simpa using hi)
  | cons c r ih =>
    have hhead : IsLast (fun i => i = 0 ∧ pattern <+: c :: r) (if pattern.isPrefixOf (c :: r) then some 0 else none) := by
      split
      · next h =>
        exact ⟨fun i hi => ⟨(Option.mem_some_iff.1 hi).symm, List.isPrefixOf_iff_prefix.1 h⟩,
          fun i hi => ⟨0, rfl, Nat.le_of_eq hi.1⟩⟩
      · next h => exact .none fun i hi => h (List.isPrefixOf_iff_prefix.2 hi.2)
    have htail := ih.shift 1
    simp only [Nat.add_comm 1] at htail
    refine (htail.or hhead fun n m _ hm => hm.1 ▸ Nat.zero_le n).congr fun i => ⟨?_, fun h => ?_⟩
    · rintro (⟨i, h, rfl⟩ | ⟨rfl, h⟩)
      · exact h
      · exact h
    · cases i with
      | zero => exact Or.inr ⟨rfl, h⟩
      | succ i => exact Or.inl ⟨i, h, rfl⟩

theorem endsParagraph_iff : t.EndsParagraph i n ↔ n = i + 2 ∧ ['\n', '\n'] <+: t.drop i := by
  refine and_congr_right fun _ => ?_
  rw [← List.head?_drop, ← List.head?_drop, ← List.drop_drop]
  rcases t.drop i with _ | ⟨c, _ | ⟨d, r⟩⟩
  · simp
  · simp
  · simp [eq_comm]

theorem isLast_paragraph (t : Text) :
    IsLast (fun n => ∃ i, t.EndsParagraph i n) ((Text.findLast ['\n', '\n'] t).map (· + 2)) := by
  have hlast := (isLast_findLast (List.cons_ne_nil '\n' ['\n']) t).shift 2
  simp only [Nat.add_comm 2] at hlast
  exact hlast.congr fun n => exists_congr fun i => by rw [endsParagraph_iff, and_comm]

end Passages

/-! ### The search -/

section Search

variable {t : Text} {start low limit n i : Nat}

/-- Passages that end in a part end where those do that stand there in the whole, and none of them ends too early. -/
theorem mem_passages_iff (hlow : start ≤ low) : n ∈ t.passages start low limit ↔
    ∃ m, (∃ i, (t.extract low limit).EndsPassage i m) ∧ n = low + m := by
  constructor
  · rintro ⟨-, hlimit, i, hi, h⟩
    have hle := h.lt
    refine ⟨n - low, ⟨i - low, Text.endsPassage_extract.2 ?_⟩, by omega⟩
    rw [Nat.add_sub_cancel' hi, Nat.add_sub_cancel' (by omega)]
    exact ⟨h, hlimit⟩
  · rintro ⟨m, ⟨i, h⟩, rfl⟩
    obtain ⟨h, hlimit⟩ := Text.endsPassage_extract.1 h
    have hlt := h.lt
    exact ⟨by omega, hlimit, low + i, Nat.le_add_right low i, h⟩

theorem isLast_lastPassage (t : Text) (hlow : start ≤ low) (limit : Nat) :
    IsLast (· ∈ t.passages start low limit) (lastPassage? t start low limit) := by
  have hparagraph := (isLast_paragraph (t.extract low limit)).shift low
  have hsentence := (isLast_lastSentence 0 (t.extract low limit)).shift low
  rw [Option.map_map] at hparagraph
  have hiff : ∀ n, (∃ m, (∃ i, (t.extract low limit).EndsParagraph i m) ∧ n = low + m) ∨
      (∃ m, (∃ i, 0 ≤ i ∧ (t.extract low limit).EndsSentence i m) ∧ n = low + m) ↔ n ∈ t.passages start low limit := by
    intro n
    rw [mem_passages_iff hlow, ← exists_or]
    refine exists_congr fun m => ?_
    rw [← or_and_right, ← exists_or]
    exact and_congr_left fun _ => exists_congr fun i => or_congr_right (and_iff_right (Nat.zero_le i))
  refine (hparagraph.max hsentence fun n hn => ?_).congr hiff
  obtain ⟨hstart, hlimit, -⟩ := (hiff n).1 hn
  simp [hstart, hlimit]

theorem isLast_lastWord (t : Text) (hlow : start ≤ low) (limit : Nat) :
    IsLast (· ∈ t.wordEnds start low limit) (lastWord? t start low limit) := by
  have hfound := (IsLast.find?_range (fun i => (t.extract low limit)[i]?.any isBlank && start < low + i + 1)
    (t.extract low limit).length).shift (low + 1)
  have hmoves : (low + 1 + ·) = (low + · + 1) := funext fun i => by omega
  rw [hmoves] at hfound
  refine hfound.congr fun n => ⟨?_, ?_⟩
  · rintro ⟨i, ⟨-, hi⟩, rfl⟩
    obtain ⟨hblank, hstart⟩ := Bool.and_eq_true_iff.1 hi
    obtain ⟨hlimit, hblank⟩ := Text.any_extract.1 hblank
    exact ⟨by omega, by omega, low + i, Nat.le_add_right low i, by omega, hblank⟩
  · rintro ⟨-, hlimit, i, hi, rfl, hblank⟩
    obtain ⟨k, rfl⟩ := Nat.exists_eq_add_of_le hi
    have hpart : (t.extract low limit)[k]?.any isBlank = true := Text.any_extract.2 ⟨by omega, hblank⟩
    refine ⟨k, ⟨?_, ?_⟩, by omega⟩
    · by_contra hge
      rw [List.getElem?_eq_none (Nat.le_of_not_lt hge)] at hpart
      cases hpart
    · rw [hpart, Bool.true_and, decide_eq_true_iff]
      omega

variable {first last : Nat}

/-- The passages of a part are those of the whole in the same range. -/
theorem passages_extract (hlimit : first + limit ≤ last) :
    n ∈ t.passages (first + start) (first + low) (first + limit) ↔
      ∃ m ∈ (t.extract first last).passages start low limit, n = first + m := by
  constructor
  · rintro ⟨hstart, hle, i, hi, h⟩
    obtain ⟨k, rfl⟩ := Nat.exists_eq_add_of_le (Nat.le_trans (Nat.le_add_right first low) hi)
    obtain ⟨m, rfl⟩ := Nat.exists_eq_add_of_le (Nat.le_trans (Nat.le_add_right first start) (Nat.le_of_lt hstart))
    exact ⟨m, ⟨by omega, by omega, k, by omega, Text.endsPassage_extract.2 ⟨h, by omega⟩⟩, rfl⟩
  · rintro ⟨m, ⟨hstart, hle, i, hi, h⟩, rfl⟩
    exact ⟨by omega, by omega, first + i, by omega, (Text.endsPassage_extract.1 h).1⟩

theorem wordEnds_extract (hlimit : first + limit ≤ last) :
    n ∈ t.wordEnds (first + start) (first + low) (first + limit) ↔
      ∃ m ∈ (t.extract first last).wordEnds start low limit, n = first + m := by
  constructor
  · rintro ⟨hstart, hle, i, hi, rfl, h⟩
    obtain ⟨k, rfl⟩ := Nat.exists_eq_add_of_le (Nat.le_trans (Nat.le_add_right first low) hi)
    exact ⟨k + 1, ⟨by omega, by omega, k, by omega, rfl, Text.any_extract.2 ⟨by omega, h⟩⟩, by omega⟩
  · rintro ⟨m, ⟨hstart, hle, i, hi, rfl, h⟩, rfl⟩
    exact ⟨by omega, by omega, first + i, by omega, by omega, (Text.any_extract.1 h).2⟩

theorem lastPassage?_extract (hlow : start ≤ low) (hlimit : first + limit ≤ last) :
    lastPassage? t (first + start) (first + low) (first + limit) =
      (lastPassage? (t.extract first last) start low limit).map (first + ·) := by
  have hpart := (isLast_lastPassage (t.extract first last) hlow limit).shift first
  exact (isLast_lastPassage t (Nat.add_le_add_left hlow first) _).unique
    (hpart.congr fun n => (passages_extract hlimit).symm)

theorem lastWord?_extract (hlow : start ≤ low) (hlimit : first + limit ≤ last) :
    lastWord? t (first + start) (first + low) (first + limit) =
      (lastWord? (t.extract first last) start low limit).map (first + ·) := by
  have hpart := (isLast_lastWord (t.extract first last) hlow limit).shift first
  exact (isLast_lastWord t (Nat.add_le_add_left hlow first) _).unique
    (hpart.congr fun n => (wordEnds_extract hlimit).symm)

end Search

namespace Chunker

variable {c : Chunker} {page : Text} {start n : Nat}

/-- A chunk that does not reach the end of its page is cut best. -/
theorem cutsBest_stop (c : Chunker) {page : Text} {start : Nat} (h : c.limit start < page.length) :
    CutsBest page start (c.low start) (c.limit start) (c.stop page start).1 (c.stop page start).2 := by
  have hpassage := isLast_lastPassage page (c.le_low start) (c.limit start)
  have hword := isLast_lastWord page (c.le_low start) (c.limit start)
  rw [stop, if_neg (Nat.not_le_of_lt h), boundary?]
  cases hp : lastPassage? page start (c.low start) (c.limit start) with
  | some n => exact .passage (hp ▸ hpassage).isGreatest
  | none =>
    rw [hp] at hpassage
    cases hw : lastWord? page start (c.low start) (c.limit start) with
    | some n => exact .word hpassage.eq_empty (hw ▸ hword).isGreatest
    | none => exact .forced hpassage.eq_empty (hw ▸ hword).eq_empty

end Chunker

end Proofreader
