import Proofreader.Proofs.Chunk.Cover

/-! Pages are cut on their own. With the offsets of the whole text a chunker sees nothing of it but the page; so a text
that is made of pages is split into what each of them is split into, moved to where the page begins. -/

namespace Proofreader

/-! ### Offsets of the whole text -/

namespace Chunker

/-- How much before `start` is context, on a page that begins at `first`. -/
def contextWithin (c : Chunker) (first start : Nat) : Nat := start - max first (start - c.lookback)

def limitWithin (c : Chunker) (first start : Nat) : Nat := start + (c.maxSize - c.contextWithin first start)

def lowWithin (c : Chunker) (first start : Nat) : Nat :=
  match c.window with
  | some window => max start (c.limitWithin first start - window).toNat
  | none => start

/-- Where the chunk that begins at `start` ends, on the page from `first` up to `last`, and whether that cut is forced. -/
def stopWithin (c : Chunker) (t : Text) (first last start : Nat) : Nat × Bool :=
  if last ≤ c.limitWithin first start then (last, false)
  else
    match (lastPassage? t start (c.lowWithin first start) (c.limitWithin first start)).or
        (lastWord? t start (c.lowWithin first start) (c.limitWithin first start)) with
    | some n => (n, false)
    | none => (c.limitWithin first start, true)

theorem lt_limitWithin (c : Chunker) (first start : Nat) : start < c.limitWithin first start := by
  have hlookback := c.lookback_lt
  simp only [limitWithin, contextWithin]
  omega

theorem lt_stopWithin (c : Chunker) (t : Text) (first : Nat) {last start : Nat} (h : start < last) :
    start < (c.stopWithin t first last start).1 := by
  unfold stopWithin
  split
  · exact h
  · split
    · next hn => exact (Option.or_eq_some_iff.1 hn).elim lt_of_lastPassage? fun hn => lt_of_lastWord? hn.2
    · exact c.lt_limitWithin first start

/-- The chunks of the page from `first` up to `last`, from `start` on. -/
def splitWithin (c : Chunker) (t : Text) (first last start : Nat) (hard : Bool) : List Chunk :=
  if start < last then
    let next := c.stopWithin t first last start
    let base := max first (start - c.lookback)
    ⟨t.extract base next.1, base, c.contextWithin first start, hard⟩ :: c.splitWithin t first last next.1 next.2
  else []
termination_by last - start
decreasing_by
  rename_i h
  have := c.lt_stopWithin t first h
  omega

variable {c : Chunker} {t : Text} {first last n : Nat}

theorem contextWithin_add : c.contextWithin first (first + n) = c.contextBefore n := by
  simp only [contextWithin, contextBefore]
  omega

theorem limitWithin_add : c.limitWithin first (first + n) = first + c.limit n := by
  rw [limitWithin, contextWithin_add, limit]
  omega

theorem lowWithin_add : c.lowWithin first (first + n) = first + c.low n := by
  unfold lowWithin low
  rw [limitWithin_add]
  cases c.window with
  | none => rfl
  | some window =>
    dsimp only
    omega

/-- The search for a cut stays inside the page. -/
theorem stopWithin_add (hfirst : first ≤ last) (hlast : last ≤ t.length) : c.stopWithin t first last (first + n) =
    (first + (c.stop (t.extract first last) n).1, (c.stop (t.extract first last) n).2) := by
  have hlength : (t.extract first last).length = last - first := t.length_extract hlast
  unfold stopWithin stop
  rw [limitWithin_add, lowWithin_add, hlength]
  by_cases hend : last ≤ first + c.limit n
  · rw [if_pos hend, if_pos (by omega)]
    dsimp only
    rw [Nat.add_sub_cancel' hfirst]
  · have hlimit : first + c.limit n ≤ last := by omega
    rw [if_neg hend, if_neg (by omega), lastPassage?_extract (c.le_low n) hlimit, lastWord?_extract (c.le_low n) hlimit,
      ← Option.map_or, boundary?]
    cases (lastPassage? (t.extract first last) n (c.low n) (c.limit n)).or
      (lastWord? (t.extract first last) n (c.low n) (c.limit n)) with
    | none => rfl
    | some m => rfl

theorem splitWithin_add (hfirst : first ≤ last) (hlast : last ≤ t.length) (n : Nat) (hard : Bool) :
    c.splitWithin t first last (first + n) hard = (c.splitFrom (t.extract first last) n hard).map (·.shift first) := by
  have hlength : (t.extract first last).length = last - first := t.length_extract hlast
  by_cases h : n < (t.extract first last).length
  · have hlt := c.lt_stop (t.extract first last) h
    have hle := (c.stop_le (t.extract first last) n).1
    have hbase : max first (first + n - c.lookback) = first + (n - c.contextBefore n) := by
      simp only [contextBefore]
      omega
    have hrest := splitWithin_add hfirst hlast (c.stop (t.extract first last) n).1 (c.stop (t.extract first last) n).2
    rw [splitWithin, if_pos (by omega), splitFrom_of_lt h, List.map_cons, ← hrest, stopWithin_add hfirst hlast, hbase,
      contextWithin_add]
    dsimp only
    rw [← t.extract_extract first (by omega : first + (c.stop (t.extract first last) n).1 ≤ last)]
    rfl
  · rw [splitWithin, if_neg (by omega), splitFrom, if_neg h]
    rfl
termination_by last - first - n

end Chunker

/-- Parts that are cut at increasing offsets go from each of them to the next one. -/
theorem cutAt_eq_zip {t : Text} {a : Nat} {bs : List Nat} (hbs : (a :: bs).Pairwise (· < ·)) :
    cutAt (t.drop a) a bs = ((a :: bs).zip (bs ++ [t.length])).map fun x => (x.1, t.extract x.1 x.2) := by
  induction bs generalizing a with
  | nil =>
    have hlast : t.extract a t.length = t.drop a := by
      rw [Text.extract, List.take_of_length_le (by simp)]
    rw [List.nil_append, List.zip_cons_cons, List.zip_nil_left, List.map_singleton, hlast]
    rfl
  | cons b r ih =>
    obtain ⟨hab, hr⟩ := List.pairwise_cons.1 hbs
    have hlt : a < b := hab b List.mem_cons_self
    have hdrop : (t.drop a).drop (b - a) = t.drop b := by
      rw [List.drop_drop, Nat.add_sub_cancel' (Nat.le_of_lt hlt)]
    rw [cutAt, hdrop, ih hr]
    rfl

theorem bounds_of_mem_zip {a e : Nat} {bs : List Nat} (hbs : (a :: bs).Pairwise (· < ·)) (hle : ∀ b ∈ a :: bs, b ≤ e) :
    ∀ x ∈ (a :: bs).zip (bs ++ [e]), x.1 ≤ x.2 ∧ x.2 ≤ e := by
  induction bs generalizing a with
  | nil => exact List.forall_mem_singleton.2 ⟨hle a List.mem_cons_self, Nat.le_refl e⟩
  | cons b r ih =>
    obtain ⟨hab, hr⟩ := List.pairwise_cons.1 hbs
    obtain ⟨-, hrest⟩ := List.forall_mem_cons.1 hle
    exact List.forall_mem_cons.2
      ⟨⟨Nat.le_of_lt (hab b List.mem_cons_self), hrest b List.mem_cons_self⟩, ih hr hrest⟩

/-- The whole text is split page by page, with its own offsets. -/
theorem Chunker.split_eq_splitWithin (c : Chunker) (t : Text) (breaks : List Int) :
    c.split t breaks = ((0 :: innerBreaks t.length breaks).zip (innerBreaks t.length breaks ++ [t.length])).flatMap
      fun x => c.splitWithin t x.1 x.2 x.1 false := by
  have hsorted : (0 :: innerBreaks t.length breaks).Pairwise (· < ·) :=
    List.pairwise_cons.2 ⟨fun b hb => (mem_innerBreaks.1 hb).2.1, pairwise_innerBreaks t.length breaks⟩
  have hinside : ∀ b ∈ 0 :: innerBreaks t.length breaks, b ≤ t.length :=
    List.forall_mem_cons.2 ⟨Nat.zero_le _, fun b hb => Nat.le_of_lt (mem_innerBreaks.1 hb).2.2⟩
  have hpages : pages t breaks = _ := cutAt_eq_zip (t := t) hsorted
  rw [split, hpages, List.flatMap_map]
  refine List.flatMap_congr fun x hx => ?_
  obtain ⟨hle, hstop⟩ := bounds_of_mem_zip hsorted hinside x hx
  exact (splitWithin_add hle hstop 0 false).symm

/-! ### Texts made of pages -/

/-- Where pages begin that follow each other from `a` on. -/
def pageStarts (a : Nat) : List Text → List Nat
  | [] => []
  | p :: r => a :: pageStarts (a + p.length) r

/-- The breaks inside the text stand where the pages meet; in any order, and what stands outside does not matter. -/
def BreaksAt (ps : List Text) (breaks : List Int) : Prop :=
  ∀ n : Nat, 0 < n → n < ps.flatten.length → ((n : Int) ∈ breaks ↔ n ∈ pageStarts 0 ps)

theorem length_pageStarts (a : Nat) (ps : List Text) : (pageStarts a ps).length = ps.length := by
  induction ps generalizing a with
  | nil => rfl
  | cons p r ih => exact congrArg (· + 1) (ih _)

theorem pageStarts_append (a : Nat) (ps qs : List Text) :
    pageStarts a (ps ++ qs) = pageStarts a ps ++ pageStarts (a + ps.flatten.length) qs := by
  induction ps generalizing a with
  | nil => rfl
  | cons p r ih =>
    rw [List.cons_append, pageStarts, pageStarts, ih, List.flatten_cons, List.length_append, Nat.add_assoc]
    rfl

theorem le_of_mem_pageStarts {ps : List Text} {a n : Nat} (h : n ∈ pageStarts a ps) : a ≤ n := by
  induction ps generalizing a with
  | nil => cases h
  | cons p r ih =>
    rcases List.mem_cons.1 h with rfl | h
    · exact Nat.le_refl _
    · have := ih h
      omega

/-- The offsets `bs` are those inside the text of the pages, from `a` on, at which pages begin. -/
def MeetAt (ps : List Text) (a : Nat) (bs : List Nat) : Prop :=
  ∀ n, n ∈ bs ↔ a < n ∧ n < a + ps.flatten.length ∧ n ∈ pageStarts a ps

namespace MeetAt

variable {p : Text} {r : List Text} {a : Nat} {bs : List Nat}

theorem of_nil (h : MeetAt ([] :: r) a bs) : MeetAt r a bs := by
  intro n
  refine (h n).trans ?_
  rw [pageStarts, List.mem_cons]
  constructor
  · rintro ⟨hlt, hstop, rfl | hn⟩
    · exact absurd hlt (Nat.lt_irrefl _)
    · exact ⟨hlt, hstop, hn⟩
  · rintro ⟨hlt, hstop, hn⟩
    exact ⟨hlt, hstop, Or.inr hn⟩

/-- Behind a page that is not empty all that counts is where the later pages begin. -/
theorem mem_iff (h : MeetAt (p :: r) a bs) (hp : p ≠ []) (n : Nat) :
    n ∈ bs ↔ n < a + p.length + r.flatten.length ∧ n ∈ pageStarts (a + p.length) r := by
  have hpos : 0 < p.length := List.length_pos_of_ne_nil hp
  rw [h n, pageStarts, List.mem_cons, List.flatten_cons, List.length_append, ← Nat.add_assoc]
  constructor
  · rintro ⟨hlt, hstop, rfl | hn⟩
    · exact absurd hlt (Nat.lt_irrefl _)
    · exact ⟨hstop, hn⟩
  · rintro ⟨hstop, hn⟩
    have hle := le_of_mem_pageStarts hn
    exact ⟨by omega, hstop, Or.inr hn⟩

/-- The end of a page is an offset at which pages meet, unless nothing follows. -/
theorem end_mem (h : MeetAt (p :: r) a bs) (hp : p ≠ []) (hr : r.flatten ≠ []) : a + p.length ∈ bs := by
  obtain ⟨q, r, rfl⟩ := List.exists_cons_of_ne_nil (l := r) (by rintro rfl; exact hr rfl)
  have hlength := List.length_pos_of_ne_nil hr
  exact (h.mem_iff hp _).2 ⟨by omega, List.mem_cons_self⟩

/-- Behind a page that is not empty nothing follows, or the first offset is the end of the page. -/
theorem cases (h : MeetAt (p :: r) a bs) (hp : p ≠ []) (hbs : bs.Pairwise (· < ·)) :
    (bs = [] ∧ r.flatten = []) ∨
      ∃ later, bs = (a + p.length) :: later ∧ later.Pairwise (· < ·) ∧ MeetAt r (a + p.length) later := by
  cases bs with
  | nil => exact Or.inl ⟨rfl, not_not.1 fun hr => List.not_mem_nil (h.end_mem hp hr)⟩
  | cons b later =>
    obtain ⟨hfirst, hlater⟩ := List.pairwise_cons.1 hbs
    obtain ⟨hb, hstart⟩ := (h.mem_iff hp b).1 List.mem_cons_self
    have hle := le_of_mem_pageStarts hstart
    have hr : r.flatten ≠ [] := List.ne_nil_of_length_pos (by omega)
    obtain rfl : b = a + p.length := by
      rcases List.mem_cons.1 (h.end_mem hp hr) with he | hend
      · exact he.symm
      · have := hfirst _ hend
        omega
    refine Or.inr ⟨later, rfl, hlater, fun n => ⟨fun hn => ?_, fun ⟨hlt, hstop, hn⟩ => ?_⟩⟩
    · obtain ⟨hlt, hn'⟩ := (h.mem_iff hp n).1 (List.mem_cons_of_mem _ hn)
      exact ⟨hfirst n hn, hlt, hn'⟩
    · exact (List.mem_cons.1 ((h.mem_iff hp n).2 ⟨hstop, hn⟩)).resolve_left (Nat.ne_of_gt hlt)

end MeetAt

/-- A text that is cut where its pages meet falls into these pages, those that are empty left out. -/
theorem flatMap_cutAt_flatten {α : Type} {f : Nat × Text → List α} (hempty : ∀ a, f (a, []) = []) (ps : List Text)
    {a : Nat} {bs : List Nat} (hbs : bs.Pairwise (· < ·)) (h : MeetAt ps a bs) :
    (cutAt ps.flatten a bs).flatMap f = ((pageStarts a ps).zip ps).flatMap f := by
  induction ps generalizing a bs with
  | nil =>
    obtain rfl : bs = [] := List.eq_nil_iff_forall_not_mem.2 fun n hn => nomatch ((h n).1 hn).2.2
    rw [List.flatten_nil, cutAt, List.flatMap_singleton, hempty]
    rfl
  | cons p r ih =>
    rw [pageStarts, List.zip_cons_cons, List.flatMap_cons]
    obtain rfl | hp := eq_or_ne p []
    · rw [hempty, List.nil_append]
      exact ih hbs h.of_nil
    · rcases h.cases hp hbs with ⟨rfl, hr⟩ | ⟨later, rfl, hlater, hmeet⟩
      · have hnone : MeetAt r (a + p.length) [] := fun n => by
          rw [hr]
          simp only [List.not_mem_nil, List.length_nil, false_iff]
          omega
        have hrest := ih .nil hnone
        rw [hr, cutAt, List.flatMap_singleton, hempty] at hrest
        rw [List.flatten_cons, hr, List.append_nil, cutAt, List.flatMap_singleton, ← hrest, List.append_nil]
      · rw [cutAt, Nat.add_sub_cancel_left, List.flatten_cons, List.take_left, List.drop_left, List.flatMap_cons,
          ih hlater hmeet]

theorem Chunk.shift_zero (k : Chunk) : k.shift 0 = k := by rw [shift, Nat.zero_add]

namespace Chunker

theorem splitPage_nil (c : Chunker) : c.splitPage [] = [] := by
  rw [splitPage, splitFrom]
  exact if_neg (Nat.not_lt_zero _)

theorem split_nil (c : Chunker) (page : Text) : c.split page [] = c.splitPage page := by
  have hbreaks : innerBreaks page.length [] = [] := List.eq_nil_iff_forall_not_mem.2 fun n hn => by
    cases (mem_innerBreaks.1 hn).1
  rw [split, pages, hbreaks, cutAt, List.flatMap_singleton]
  exact (List.map_congr_left fun k _ => k.shift_zero).trans (List.map_id _)

/-- The whole is split into what its pages are split into, each moved to where its page begins. -/
theorem split_flatten (c : Chunker) {ps : List Text} {breaks : List Int} (h : BreaksAt ps breaks) :
    c.split ps.flatten breaks = ((pageStarts 0 ps).zip ps).flatMap fun x => (c.split x.2 []).map (·.shift x.1) := by
  have hempty : ∀ a : Nat, (c.splitPage []).map (·.shift a) = [] := fun a => by
    rw [splitPage_nil, List.map_nil]
  have hpages := flatMap_cutAt_flatten (f := fun x => (c.splitPage x.2).map (·.shift x.1)) hempty ps (a := 0)
    (pairwise_innerBreaks ps.flatten.length breaks) fun n => by
      rw [mem_innerBreaks, Nat.zero_add]
      constructor
      · rintro ⟨hn, hpos, hlt⟩
        exact ⟨hpos, hlt, (h n hpos hlt).1 hn⟩
      · rintro ⟨hpos, hlt, hn⟩
        exact ⟨(h n hpos hlt).2 hn, hpos, hlt⟩
  simp only [split_nil]
  exact hpages

/-- The chunks of a page stand next to each other, and are the same whatever stands around the page. -/
theorem exists_split_append (c : Chunker) {pre post : List Text} {page : Text} {breaks : List Int}
    (h : BreaksAt (pre ++ page :: post) breaks) : ∃ front back, c.split (pre ++ page :: post).flatten breaks =
      front ++ (c.split page []).map (·.shift pre.flatten.length) ++ back := by
  rw [split_flatten c h, pageStarts_append, List.zip_append (length_pageStarts 0 pre), List.flatMap_append, Nat.zero_add]
  exact ⟨_, _, (List.append_assoc _ _ _).symm⟩

end Chunker

end Proofreader
