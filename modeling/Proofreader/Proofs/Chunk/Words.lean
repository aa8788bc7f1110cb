import Proofreader.Proofs.Chunk.Cover
import Proofreader.Proofs.Service.Occurrences

/-! Checks for single words see the same in chunks as in the whole. A cut that is not forced lies behind a blank, as
does the beginning of a page, so no word runs across the place where two chunks meet or where the context of a chunk
ends. -/

namespace Proofreader

/-- A word cannot run across `n`. -/
def Text.Parted (t : Text) (n : Nat) : Prop := n = 0 ∨ n = t.length ∨ t.BlankBefore n

/-- A finding that is `f` but for its span, which is that of an occurrence of `w`. -/
def Finding.spanning (f : Finding) (w : Text) (offset : Nat) : Finding := { f with offset := offset, length := w.length }

variable {t w : Text} {a b n o : Nat} {xs : List Nat} {k : Chunk} {ks : List Chunk}

theorem Text.Parted.not_across (h : t.Parted n) (hword : ∀ x ∈ w, isBlank x = false) (hocc : w <+: t.drop o) (ho : o < n) :
    o + w.length ≤ n := by
  have hlength := hocc.length_le
  rw [List.length_drop] at hlength
  rcases h with rfl | rfl | ⟨m, c, rfl, hc, hblank⟩
  · omega
  · omega
  · by_contra hacross
    have hlt : m - o < w.length := by omega
    obtain ⟨s, hs⟩ := hocc
    have hchar : (w ++ s)[m - o]? = some c := by
      rw [hs, List.getElem?_drop, Nat.add_sub_cancel' (by omega), hc]
    rw [List.getElem?_append_left hlt] at hchar
    rw [hword c (List.mem_of_getElem? hchar)] at hblank
    cases hblank

theorem prefix_drop_extract (hw : w ≠ []) :
    w <+: (t.extract a b).drop o ↔ w <+: t.drop (a + o) ∧ a + o + w.length ≤ b := by
  have hpos := List.length_pos_iff.2 hw
  rw [Text.drop_extract, Text.extract, List.prefix_take_iff]
  refine and_congr_right fun _ => ?_
  omega

/-- A scan of a chunk, where it does not begin in the context, is a scan of what the chunk owns. -/
theorem Scans.of_chunk (hw : w ≠ []) (hword : ∀ x ∈ w, isBlank x = false) (htext : t.extract k.base k.stop = k.text)
    (hstart : t.Parted k.start) (h : Scans w k.text 0 k.text.length xs) :
    Scans w t k.start k.stop ((xs.filter (k.context ≤ ·)).map (k.base + ·)) := by
  have hmem : ∀ o ∈ (xs.filter (k.context ≤ ·)).map (k.base + ·), ∃ x ∈ xs, k.context ≤ x ∧ k.base + x = o := by
    intro o ho
    obtain ⟨x, hx, rfl⟩ := List.mem_map.1 ho
    obtain ⟨hx, hcontext⟩ := List.mem_filter.1 hx
    exact ⟨x, hx, of_decide_eq_true hcontext, rfl⟩
  have hocc : ∀ {x}, w <+: k.text.drop x ↔ w <+: t.drop (k.base + x) ∧ k.base + x + w.length ≤ k.stop := by
    intro x
    rw [← htext]
    exact prefix_drop_extract hw
  have hbase : k.start = k.base + k.context := rfl
  have hstop : k.stop = k.base + k.text.length := rfl
  refine ⟨fun o ho => ?_, fun o ho => ?_, ?_, fun i hi hib hi' => ?_⟩
  · obtain ⟨x, hx, -, rfl⟩ := hmem o ho
    exact (hocc.1 (h.occurs x hx)).1
  · obtain ⟨x, hx, hcontext, rfl⟩ := hmem o ho
    exact ⟨by omega, (hocc.1 (h.occurs x hx)).2⟩
  · rw [List.pairwise_map]
    exact (h.apart.sublist List.filter_sublist).imp fun hxy => by omega
  · have hsum : k.base + (i - k.base) = i := by omega
    have hlocal : w <+: k.text.drop (i - k.base) := hocc.2 (by rw [hsum]; exact ⟨hi', hib⟩)
    obtain ⟨x, hx, hxi, hix⟩ := h.complete (i - k.base) (Nat.zero_le _) (by omega) hlocal
    -- an occurrence that began in the context would run across its end
    have hcontext : k.context ≤ x := by
      by_contra hbefore
      have := hstart.not_across hword (hocc.1 (h.occurs x hx)).1 (by omega)
      omega
    exact ⟨k.base + x, List.mem_map_of_mem (List.mem_filter.2 ⟨hx, decide_eq_true hcontext⟩), by omega, by omega⟩

/-- A chunk keeps of a scan what does not begin in its context. -/
theorem Chunk.translate_map (k : Chunk) (f : Finding) (w : Text) (xs : List Nat) :
    k.translate (xs.map (f.spanning w)) =
      ((xs.filter (k.context ≤ ·)).map (k.base + ·)).map (f.spanning w) := by
  rw [translate, List.filter_map, List.map_map, List.map_map]
  have hkeeps : (fun x : Nat => decide ((k.context : Int) ≤ (f.spanning w x).offset)) = fun x => decide (k.context ≤ x) := by
    funext x
    simp [Finding.spanning]
  have hmoves : (fun x : Nat => (f.spanning w x).shift k.base) = fun x => f.spanning w (k.base + x) := by
    funext x
    simp [Finding.spanning, Finding.shift, Int.add_comm]
  exact congrArg₂ List.map hmoves (congrArg (List.filter · xs) hkeeps)

/-- Chunks in a row find together what a scan of their part finds. -/
theorem Row.exists_scans {P : Chunk → Prop} (hw : w ≠ []) (hword : ∀ x ∈ w, isBlank x = false) {check : Text → List Finding}
    {f : Finding} (hcheck : ∀ u, ∃ xs, Scans w u 0 u.length xs ∧ check u = xs.map (f.spanning w))
    (h : Row P a ks b) (htext : ∀ k, P k → t.extract k.base k.stop = k.text) (hparted : ∀ k ∈ ks, t.Parted k.start)
    (hb : t.Parted b) : ∃ xs, Scans w t a b xs ∧ (ks.flatMap fun k => k.translate (check k.text)) = xs.map (f.spanning w) := by
  induction h with
  | nil a => exact ⟨[], .nil (Nat.le_refl a) hw, rfl⟩
  | @cons a b k ks hstart hk hlt hr ih =>
    obtain ⟨xs, hxs, hfound⟩ := hcheck k.text
    obtain ⟨ys, hys, hrest⟩ := ih (fun l hl => hparted l (List.mem_cons_of_mem _ hl)) hb
    have hstop : t.Parted k.stop := by
      cases hr with
      | nil => exact hb
      | cons hnext => exact hnext ▸ hparted _ (by simp)
    have hown := hxs.of_chunk hw hword (htext k hk) (hparted k List.mem_cons_self)
    rw [hstart] at hown
    refine ⟨_, hown.append hys (Nat.le_of_lt hlt) hr.le fun i hi => hstop.not_across hword hi, ?_⟩
    rw [List.flatMap_cons, hrest, hfound, Chunk.translate_map, List.map_append]

/-- Where no cut is forced and pages begin behind blanks, chunks begin behind blanks. -/
theorem Chunker.parted_start {c : Chunker} {breaks : List Int} (hbreaks : ∀ b ∈ breaks, 0 < b → b < t.length →
    t.BlankBefore b.toNat) (hk : k ∈ c.split t breaks) (hsoft : k.hard = false) : t.Parted k.start := by
  obtain ⟨⟨s, e, hpage, hstop, hfits⟩, -⟩ := (c.row_split t breaks).bounds hk
  rcases hfits.soft hsoft with hstart | hblank
  · rw [hstart]
    rcases hpage.begins with hzero | ⟨hmem, hpos, hlt⟩
    · exact Or.inl hzero
    · exact Or.inr (Or.inr (hbreaks s hmem (by omega) (by omega)))
  · exact Or.inr (Or.inr hblank)

/-- A checker that looks for one word finds in the chunks of a text what it finds in the text, each occurrence once and
in the same order, if no cut was forced and each page begins behind a blank. -/
theorem Chunker.flatMap_translate_split (c : Chunker) (hw : w ≠ []) (hword : ∀ x ∈ w, isBlank x = false)
    {check : Text → List Finding} {f : Finding}
    (hcheck : ∀ u, ∃ xs, Scans w u 0 u.length xs ∧ check u = xs.map (f.spanning w)) {breaks : List Int}
    (hbreaks : ∀ b ∈ breaks, 0 < b → b < t.length → t.BlankBefore b.toNat)
    (hsoft : ∀ k ∈ c.split t breaks, k.hard = false) :
    ((c.split t breaks).flatMap fun k => k.translate (check k.text)) = check t := by
  obtain ⟨xs, hxs, hfound⟩ := (c.row_split t breaks).exists_scans hw hword hcheck
    (fun k ⟨_, _, _, _, hfits⟩ => hfits.text) (fun k hk => parted_start hbreaks hk (hsoft k hk)) (Or.inr (Or.inl rfl))
  obtain ⟨ys, hys, hwhole⟩ := hcheck t
  rw [hfound, hwhole, hxs.unique hys]

/-- Rules that look for a fixed text are such checkers. -/
theorem LiteralRule.exists_scans (rule : LiteralRule) (h : rule.find ≠ []) (u : Text) :
    ∃ xs, Scans rule.find u 0 u.length xs ∧ rule.findings u =
      xs.map (Finding.spanning ⟨0, 0, rule.id, rule.message, rule.replacements, rule.category, rule.issue⟩ rule.find) :=
  ⟨_, scans_occurrences h u, rfl⟩

/-- A word that overlaps itself. -/
def doubled : LiteralRule := ⟨['a', 'a'], none, .str "R", .str "M", [], .str "", .str "", 0, 0⟩

def doubledText : Text := "aaaaa b. aaa aaaa\n\nbaa aaaaa".toList

def doubledBreaks : List Int := [19, 9, 0, 19]

def narrowChunker : Chunker := ⟨9, 4, none, by decide⟩

theorem all_soft_doubled : (narrowChunker.split doubledText doubledBreaks).all (!·.hard) = true := by cbv

theorem blankBefore_doubled : doubledText.BlankBefore 9 ∧ doubledText.BlankBefore 19 :=
  ⟨⟨8, ' ', by decide⟩, ⟨18, '\n', by decide⟩⟩

/-- The third chunk begins with context inside of a word, where the checker finds the word once more. -/
theorem Chunker.flatMap_translate_split_doubled :
    (narrowChunker.split doubledText doubledBreaks).map (fun k => (String.ofList k.text, k.base, k.context, k.hard)) =
      [("aaaaa b. ", 0, 0, false), ("aaa aaaa\n", 9, 0, false), ("aaa\n\n", 14, 4, false),
        ("baa aaaaa", 19, 0, false)] ∧
    ((narrowChunker.split doubledText doubledBreaks).flatMap fun k => k.translate (doubled.findings k.text)) =
      doubled.findings doubledText := by
  have hfind : doubled.find ≠ [] := List.cons_ne_nil _ _
  have hword : ∀ x ∈ doubled.find, isBlank x = false := by simp [doubled, isBlank]
  refine ⟨by cbv, narrowChunker.flatMap_translate_split hfind hword (doubled.exists_scans hfind) ?_ ?_⟩
  · intro b hb hpos _
    obtain ⟨hfirst, hsecond⟩ := blankBefore_doubled
    simp only [doubledBreaks, List.mem_cons, List.not_mem_nil, or_false] at hb
    rcases hb with rfl | rfl | rfl | rfl
    · exact hsecond
    · exact hfirst
    · omega
    · exact hsecond
  · intro k hk
    simpa using List.all_eq_true.1 all_soft_doubled k hk

end Proofreader
