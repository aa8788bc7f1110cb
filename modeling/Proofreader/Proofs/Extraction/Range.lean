import Proofreader.Proofs.Extraction.Apart
import Proofreader.Proofs.Extraction.Correspondence
import Proofreader.Proofs.Extraction.Prose
import Proofreader.Proofs.Style.Room

/-! Entries of a text and spans of them. A text gains its entries from one cue after the other, so their places are among
those of the stream, in its order. -/

namespace Proofreader

namespace Draft

/-- What a cue adds to the map. -/
def gain (d : Draft) : Cue → List Entry
  | .pause _ => []
  | .prose p =>
    if Text.isBlankRun p.text && (d.due || !d.takesBlank) then []
    else
      let start := d.map.length + if d.due then 2 else 0
      [⟨start, start + p.text.length, p.location, p.exact, p.placeholder⟩]

def gains (d : Draft) : List Cue → List Entry
  | [] => []
  | c :: cs => d.gain c ++ (d.heed c).gains cs

variable {d : Draft} {cs : List Cue}

theorem entries_heed (d : Draft) (c : Cue) : (d.heed c).map.entries.toList = d.map.entries.toList ++ d.gain c := by
  cases c with
  | pause page => exact (List.append_nil _).symm
  | prose p =>
    change (d.append p).map.entries.toList = _
    rcases d.append_cases p with ⟨hdue, hblank, he⟩ | ⟨hdue, hblank, htakes, he⟩ | ⟨hdue, hblank, he⟩ | ⟨hdue, hblank, he⟩
    · simp [he, gain, hdue, hblank]
    · simp [he, gain, hdue, hblank, htakes]
    · have hnot : (Text.isBlankRun p.text && (d.due || !d.takesBlank)) = false := by
        cases hb : Text.isBlankRun p.text with
        | false => rfl
        | true => simp [hdue, hblank hb]
      rw [he, addPiece_entries, gain, hnot, hdue]
      rfl
    · simp [he, gain, hdue, hblank, addPiece_entries, writeGap, SourceMap.addGap, separatorText]

theorem entries_hear (d : Draft) (cs : List Cue) :
    (d.hear cs).map.entries.toList = d.map.entries.toList ++ d.gains cs := by
  induction cs generalizing d with
  | nil => exact (List.append_nil _).symm
  | cons c cs ih =>
    change ((d.heed c).hear cs).map.entries.toList = _
    rw [ih, entries_heed, gains, List.append_assoc]

theorem gains_append (d : Draft) (cs ks : List Cue) : d.gains (cs ++ ks) = d.gains cs ++ (d.hear cs).gains ks := by
  induction cs generalizing d with
  | nil => rfl
  | cons c cs ih =>
    rw [List.cons_append, gains, gains, ih, List.append_assoc]
    rfl

/-- What is added comes from prose that is heard. -/
theorem exists_of_mem_gains {e : Entry} (he : e ∈ d.gains cs) :
    ∃ p, .prose p ∈ cs ∧ e.location = p.location ∧ e.exact = p.exact := by
  induction cs generalizing d with
  | nil => cases he
  | cons c cs ih =>
    rcases List.mem_append.1 he with he | he
    · cases c with
      | pause page => cases he
      | prose p =>
        simp only [gain] at he
        split at he
        · cases he
        · rw [List.mem_singleton.1 he]
          exact ⟨p, List.mem_cons_self, rfl, rfl⟩
    · obtain ⟨p, hp, hrest⟩ := ih he
      exact ⟨p, List.mem_cons_of_mem _ hp, hrest⟩

/-- What a stream adds comes from its pieces in the language. -/
theorem exists_piece_of_mem_gains {r : Resolver} {key : Language} {ss : List Segment} {e : Entry}
    (he : e ∈ d.gains (ss.map (Segment.cue r key))) :
    ∃ p, .piece p ∈ ss ∧ r.key p = key ∧ e.location = p.location ∧ e.exact = p.exact := by
  obtain ⟨p, hp, hsame⟩ := exists_of_mem_gains he
  obtain ⟨hmem, hkey⟩ := Segment.mem_of_prose_mem hp
  exact ⟨p, hmem, hkey, hsame⟩

/-- What is added has the places of the stream, in its order. -/
theorem gains_sublist (r : Resolver) (key : Language) (d : Draft) (ss : List Segment) :
    ((d.gains (ss.map (Segment.cue r key))).map (·.location)).Sublist (placesOf ss) := by
  induction ss generalizing d with
  | nil => exact .refl []
  | cons s ss ih =>
    have hfirst : ((d.gain (s.cue r key)).map (·.location)).Sublist (placesOf [s]) := by
      cases s with
      | separator l page => exact .refl []
      | piece p =>
        by_cases hown : r.key p = key
        · rw [Segment.cue_own hown, gain]
          split
          · exact List.nil_sublist _
          · exact .refl [p.location]
        · rw [Segment.cue_other hown]
          exact List.nil_sublist _
    rw [List.map_cons, gains, List.map_append, ← List.singleton_append, placesOf_append]
    exact hfirst.append (ih _)

end Draft

variable {table : Table} {r : Resolver} {language : Language} {root : Node} {t : CheckedText}

/-- The entries of a text are what a draft gains from the stream. -/
theorem entries_eq_gains (ht : t ∈ (extract table r language root).texts) : t.map.entries.toList =
    (Draft.start t.profile).gains ((root.segments table language).map (Segment.cue r t.key)) := by
  have hmap : t.map = (draftOf r t.profile (root.segments table language)).map :=
    congrArg CheckedText.map (eq_finish_of_mem_texts ht).1
  rw [hmap, draftOf, Draft.entries_hear]
  rfl

/-- The places of entries are those of the stream, in its order. -/
theorem places_sublist (ht : t ∈ (extract table r language root).texts) :
    (t.map.entries.toList.map (·.location)).Sublist (placesOf (root.segments table language)) := by
  rw [entries_eq_gains ht]
  exact Draft.gains_sublist r t.key _ _

end Proofreader

/-! ### Spans of exact entries

Each range that such a span projects to has its characters side by side in the span, in their
order; where there is a single range, they are all of the span. -/

namespace Proofreader

/-- The character at `i` of `file` is copied to offset `o` of the text. -/
structure Entry.CopiesAt (e : Entry) (file : FileId) (i o : Nat) : Prop where
  exact : e.exact = true
  has : e.location.Has file i
  offset : o + e.location.start = e.start + i

namespace SourceMap

/-- Every character of the span is copied. -/
def Copied (m : SourceMap) (a b : Nat) : Prop :=
  ∀ o, a ≤ o → o < b → ∃ e ∈ m.entries.toList, e.exact = true ∧ e.start ≤ o ∧ o < e.stop

/-- The characters of the location are copied to the text from `c` on. -/
def CopiesFrom (m : SourceMap) (l : Location) (c : Nat) : Prop :=
  ∀ i, l.start ≤ i → i < l.stop → ∃ e ∈ m.entries.toList, ∃ o, e.CopiesAt l.file i o ∧ o + l.start = c + i

/-- What holds of the map of a text whose document is read from each file once. -/
structure Orderly (m : SourceMap) : Prop where
  tiled : m.Tiled
  placed : ∀ e ∈ m.entries.toList, e.Placed
  precedes : m.entries.toList.Pairwise fun e f => e.location.Precedes f.location
  parted : PartedBy (m.entries.toList.map (·.location))

namespace Orderly

variable {m : SourceMap} {a b i j o u : Nat} {l : Location} {ls : List Location} {e f : Entry} {file : FileId}

/-- The offset is one of the entry. -/
theorem bounds (h : m.Orderly) (he : e ∈ m.entries.toList) (hi : e.CopiesAt file i o) : e.start ≤ o ∧ o < e.stop := by
  have hlength := (h.placed e he).length hi.exact
  have hoffset := hi.offset
  obtain ⟨-, hlow, hhigh⟩ := hi.has
  omega

/-- Around an entry the others stand on the side of their offsets. -/
theorem mem_cases (h : m.Orderly) {as bs : List Entry} (heq : m.entries.toList = as ++ e :: bs) (hf : f ∈ m.entries.toList)
    (hne : f ≠ e) : f.stop ≤ e.start ∧ f ∈ as ∨ e.stop ≤ f.start ∧ f ∈ bs := by
  have hordered := Tiling.entries_ordered h.tiled
  rw [heq] at hf hordered
  obtain ⟨-, hafter, hacross⟩ := List.pairwise_append.1 hordered
  rcases List.mem_append.1 hf with hf | hf
  · exact Or.inl ⟨hacross f hf e List.mem_cons_self, hf⟩
  · have hf := (List.mem_cons.1 hf).resolve_left hne
    exact Or.inr ⟨(List.pairwise_cons.1 hafter).1 f hf, hf⟩

/-- A character is copied to one offset. -/
theorem eq_of_copiesAt (h : m.Orderly) (he : e ∈ m.entries.toList) (hf : f ∈ m.entries.toList) (hi : e.CopiesAt file i o)
    (hj : f.CopiesAt file i u) : o = u := by
  obtain rfl := Entry.eq_of_has h.precedes he hf hi.has hj.has
  have hio := hi.offset
  have hju := hj.offset
  omega

/-- Characters that are copied come in the order of their places. -/
theorem lt_of_copiesAt (h : m.Orderly) (he : e ∈ m.entries.toList) (hf : f ∈ m.entries.toList) (hi : e.CopiesAt file i o)
    (hj : f.CopiesAt file j u) (hij : i < j) : o < u := by
  have hio := hi.offset
  have hju := hj.offset
  have hbe := h.bounds he hi
  have hbf := h.bounds hf hj
  by_cases hsame : e = f
  · subst hsame
    omega
  · obtain ⟨as, bs, heq⟩ := List.append_of_mem hf
    rcases h.mem_cases heq he hsame with ⟨hle, -⟩ | ⟨-, hmem⟩
    · omega
    · have hprecedes := h.precedes
      rw [heq] at hprecedes
      have hfe := (List.pairwise_cons.1 (List.pairwise_append.1 hprecedes).2.1).1 e hmem
      obtain ⟨hef, hei, hie⟩ := hi.has
      obtain ⟨hff, hfj, hjf⟩ := hj.has
      have := (hfe (hff.trans hef.symm)).2
      omega

/-- The character that is copied to an offset. -/
theorem copiesAt (h : m.Orderly) (he : e ∈ m.entries.toList) (hexact : e.exact = true) (hlow : e.start ≤ o)
    (hhigh : o < e.stop) : e.CopiesAt e.location.file (e.location.start + (o - e.start)) o := by
  have hlength := (h.placed e he).length hexact
  exact ⟨hexact, ⟨rfl, by omega, by omega⟩, by omega⟩

/-- Characters that adjoin in their file adjoin in a copied span: what stood between would be of another file, which takes
room in this one. -/
theorem adjoin (h : m.Orderly) (hcopied : m.Copied a b) (ha : a ≤ o) (hb : u < b) (he : e ∈ m.entries.toList)
    (hf : f ∈ m.entries.toList) (hi : e.CopiesAt file i o) (hj : f.CopiesAt file (i + 1) u) : u = o + 1 := by
  have hlt := h.lt_of_copiesAt he hf hi hj (Nat.lt_succ_self i)
  by_contra hne
  obtain ⟨g, hg, hexact, hlow, hhigh⟩ := hcopied (o + 1) (by omega) (by omega)
  have hk := h.copiesAt hg hexact hlow hhigh
  generalize g.location.start + (o + 1 - g.start) = k at hk
  by_cases hfile : g.location.file = file
  · rw [hfile] at hk
    rcases Nat.lt_trichotomy k i with hki | rfl | hki
    · have := h.lt_of_copiesAt hg he hk hi hki
      omega
    · have := h.eq_of_copiesAt hg he hk hi
      omega
    · rcases Nat.lt_or_eq_of_le hki with hki | rfl
      · have := h.lt_of_copiesAt hf hg hj hk hki
        omega
      · have := h.eq_of_copiesAt hg hf hk hj
        omega
  · have hbe := h.bounds he hi
    have hbf := h.bounds hf hj
    obtain ⟨as, bs, heq⟩ := List.append_of_mem hg
    have hge : e ∈ as := by
      rcases h.mem_cases heq he (fun hsame => hfile (hsame ▸ hi.has.1)) with ⟨-, hmem⟩ | ⟨hle, -⟩
      · exact hmem
      · omega
    have hgf : f ∈ bs := by
      rcases h.mem_cases heq hf (fun hsame => hfile (hsame ▸ hj.has.1)) with ⟨hle, -⟩ | ⟨-, hmem⟩
      · omega
      · exact hmem
    have hsublist : [e, g, f].Sublist m.entries.toList := by
      rw [heq]
      exact (List.singleton_sublist.2 hge).append ((List.singleton_sublist.2 hgf).cons_cons g)
    obtain ⟨hef, hei, hie⟩ := hi.has
    obtain ⟨hff, hfj, hjf⟩ := hj.has
    have := h.parted _ _ _ (hsublist.map Entry.location) (hef.trans hff.symm) (hef ▸ hfile)
    omega

/-- What a copied span meets is exact. -/
theorem exact_of_meets (h : m.Orderly) (hcopied : m.Copied a b) (hab : a < b) (he : e ∈ m.entries.toList)
    (hmeets : e.meets a b = true) : e.exact = true := by
  have hlt := (Tiling.entry_bounds h.tiled he).2.1
  rw [Entry.meets_natCast] at hmeets
  obtain ⟨f, hf, hexact, hlow, hhigh⟩ := hcopied (max a e.start) (by omega) (by omega)
  obtain ⟨as, bs, heq⟩ := List.append_of_mem he
  by_cases hsame : f = e
  · exact hsame ▸ hexact
  · rcases h.mem_cases heq hf hsame with ⟨hle, -⟩ | ⟨hle, -⟩ <;> omega

/-- Characters of a range of a copied span are copied in the span. -/
theorem exists_copiesAt (h : m.Orderly) (hcopied : m.Copied a b) (hab : a < b) (hls : m.project a b = .ok ls) (hl : l ∈ ls)
    (hi : l.Has file i) : ∃ o, a ≤ o ∧ o < b ∧ ∃ e ∈ m.entries.toList, e.CopiesAt file i o := by
  obtain ⟨e, he, hhas, hspan⟩ := h.tiled.exists_overlapping h.placed hls hl hi
  rw [h.tiled.overlapping_eq (by omega), List.mem_filter] at he
  have hexact := h.exact_of_meets hcopied hab he.1 he.2
  have hlow := hhas.2.1
  have hoffset := hspan hexact
  exact ⟨e.start + (i - e.location.start), by omega, by omega, e, he.1, hexact, hhas, by omega⟩

/-- The characters of a copied span are those of its ranges. -/
theorem exists_mem_of_copied (h : m.Orderly) (hcopied : m.Copied a b) (hls : m.project a b = .ok ls) (ha : a ≤ o) (hb : o < b) :
    ∃ l ∈ ls, ∃ i, l.Has l.file i ∧ ∃ e ∈ m.entries.toList, e.CopiesAt l.file i o := by
  obtain ⟨e, he, hexact, hlow, hhigh⟩ := hcopied o ha hb
  have hmem : e ∈ m.overlapping a b := by
    rw [h.tiled.overlapping_eq (by omega)]
    exact List.mem_filter.2 ⟨he, Entry.meets_natCast.2 ⟨by omega, by omega⟩⟩
  have hvalid : ∀ k ∈ (m.overlapping a b).map (·.project a b), k.Valid := fun k hk => by
    obtain ⟨f, hf, rfl⟩ := List.mem_map.1 hk
    exact (h.tiled.project_entry h.placed hf).2.2.1
  obtain ⟨l, hl, hfile, hstart, hstop⟩ := exists_mem_mergeLocations hvalid (List.mem_map_of_mem hmem)
  rw [(project_eq_ok.1 hls).2] at hl
  rw [Entry.project_exact hexact ⟨by omega, by omega⟩ (by omega) (by omega)] at hfile hstart hstop
  dsimp only at hfile hstart hstop
  have hcopies := h.copiesAt he hexact hlow hhigh
  rw [← hfile] at hcopies
  exact ⟨l, hl, _, ⟨rfl, by omega, by omega⟩, e, he, hcopies⟩

/-- Each range of a copied span is copied side by side. -/
theorem exists_copiesFrom (h : m.Orderly) (hcopied : m.Copied a b) (hab : a < b) (hls : m.project a b = .ok ls) (hl : l ∈ ls)
    (hlt : l.start < l.stop) : ∃ c, a ≤ c ∧ c + l.stop ≤ b + l.start ∧ m.CopiesFrom l c := by
  obtain ⟨c, hac, hcb, hfirst⟩ := h.exists_copiesAt hcopied hab hls hl ⟨rfl, Nat.le_refl _, hlt⟩
  have hnext : ∀ n, l.start + n < l.stop → c + n < b ∧ ∃ e ∈ m.entries.toList, e.CopiesAt l.file (l.start + n) (c + n) := by
    intro n
    induction n with
    | zero => exact fun _ => ⟨hcb, hfirst⟩
    | succ n ih =>
      intro hn
      obtain ⟨-, e, he, hi⟩ := ih (by omega)
      obtain ⟨o, -, hob, f, hf, hj⟩ := h.exists_copiesAt hcopied hab hls hl ⟨rfl, by omega, hn⟩
      obtain rfl := h.adjoin hcopied (by omega) hob he hf hi hj
      exact ⟨hob, f, hf, hj⟩
  refine ⟨c, hac, ?_, fun i hi hj => ?_⟩
  · have := (hnext (l.stop - 1 - l.start) (by omega)).1
    omega
  · obtain ⟨-, e, he, hcopies⟩ := hnext (i - l.start) (by omega)
    rw [Nat.add_sub_cancel' hi] at hcopies
    exact ⟨e, he, _, hcopies, by omega⟩

/-- A single range of a copied span is all of it. -/
theorem eq_of_single (h : m.Orderly) (hcopied : m.Copied a b) (hab : a < b) (hls : m.project a b = .ok [l]) {c : Nat}
    (hc : m.CopiesFrom l c) (hac : a ≤ c) (hcb : c + l.stop ≤ b + l.start) : c = a ∧ c + l.stop = b + l.start := by
  have hin : ∀ o, a ≤ o → o < b → c ≤ o ∧ o + l.start < c + l.stop := by
    intro o hao hob
    obtain ⟨k, hk, i, ⟨-, hi, hj⟩, e, he, hcopies⟩ := h.exists_mem_of_copied hcopied hls hao hob
    rw [List.mem_singleton] at hk
    subst hk
    obtain ⟨f, hf, u, hcopies', hu⟩ := hc i hi hj
    have := h.eq_of_copiesAt he hf hcopies hcopies'
    omega
  have hfirst := hin a (Nat.le_refl a) hab
  have hlast := hin (b - 1) (by omega) (by omega)
  omega

end Orderly

end SourceMap

open Markup

variable {lib : Library} {main : FileId} {root : Node} {table : Table} {r : Resolver} {language : Language} {t : CheckedText}

theorem orderly_of_mem_texts (honce : lib.ReadsOnce main) (hroot : (lib.read main).document = some root)
    (ht : t ∈ (extract table r language root).texts) : t.map.Orderly where
  tiled := (wellFormed_of_mem_texts ht).map_tiled
  placed e he := by
    obtain ⟨text, laidOut⟩ := Library.laidOut_read lib main hroot
    exact placed_of_mem_texts (fun n hn => laidOut.valid hn) ht he
  precedes := entries_precede honce hroot ht
  parted l m k h := by
    obtain ⟨text, visits, hvisits, hlaid⟩ := honce.exists_laid hroot
    have hspaced : Spaced main 0 (text.length + 1) (placesOf (root.segments table language)) :=
      spaced_segments (Nat.succ_pos _) (fun outer =>
        (hlaid.spaced hvisits outer).widen (Nat.le_refl 0) (Nat.le_succ _)) language
    exact hspaced.parted l m k (h.trans (places_sublist ht))

/-- What is copied is the text of the file. -/
theorem extract_of_copiesFrom (hroot : (lib.read main).document = some root) (ht : t ∈ (extract table r language root).texts)
    (ho : t.map.Orderly) {l : Location} {c : Nat} (hc : t.map.CopiesFrom l c) (hlt : l.start < l.stop) {source : Text}
    (hload : lib.load l.file = some source) :
    l.stop ≤ source.length ∧ source.extract l.start l.stop = t.text.extract c (c + (l.stop - l.start)) := by
  have hchar : ∀ i, l.start ≤ i → i < l.stop → ∃ d, source[i]? = some d ∧ t.text[c + (i - l.start)]? = some d := by
    intro i hi hj
    obtain ⟨e, he, o, hcopies, hsum⟩ := hc i hi hj
    obtain ⟨source', hload', hcopy⟩ := exists_copies hroot ht he hcopies.exact
    rw [hcopies.has.1, hload, Option.some.injEq] at hload'
    subst hload'
    have hoffset := hcopies.offset
    have hbounds := ho.bounds he hcopies
    have hlow := hcopies.has.2.1
    have hhigh := hcopies.has.2.2
    have hstop := (wellFormed_of_mem_texts ht).tiled.entry_bounds he
    have hsame := congrArg (·[o - e.start]?) hcopy.copy
    have hi' : e.location.start + (o - e.start) = i := by omega
    have ho' : e.start + (o - e.start) = c + (i - l.start) := by omega
    rw [Text.getElem?_extract _ (by omega), Text.getElem?_extract _ (by omega), hi', ho'] at hsame
    exact ⟨_, hsame.trans (List.getElem?_eq_getElem (by omega)), List.getElem?_eq_getElem (by omega)⟩
  refine ⟨?_, List.ext_getElem? fun k => ?_⟩
  · obtain ⟨d, hd, -⟩ := hchar (l.stop - 1) (by omega) (by omega)
    have := (List.getElem?_eq_some_iff.1 hd).1
    omega
  · by_cases hk : k < l.stop - l.start
    · obtain ⟨d, hd, hd'⟩ := hchar (l.start + k) (by omega) (by omega)
      rw [Nat.add_sub_cancel_left] at hd'
      rw [Text.getElem?_extract _ (by omega), Text.getElem?_extract _ (by omega), hd, hd']
    · have hnone : ∀ (u : Text) (p q : Nat), q - p ≤ k → (u.extract p q)[k]? = none := fun u p q hle =>
        List.getElem?_eq_none (Nat.le_trans (List.length_take_le _ _) hle)
      rw [hnone _ _ _ (Nat.le_of_not_lt hk), hnone _ _ _ (by omega)]

end Proofreader
