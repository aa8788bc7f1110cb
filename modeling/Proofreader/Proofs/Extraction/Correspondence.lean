import Proofreader.Proofs.Extraction.Prose
import Proofreader.Proofs.Markup.Library
import Proofreader.Proofs.SourceMap.Slices
import Proofreader.Proofs.Style.Order

/-! Texts correspond to their sources. Entries that no separator of the text parts come from pieces that no separator
of the stream parts, so within one file they come in the order of their places; exact ones are copies, and what a
span of them projects to holds the text of the span. -/

namespace Proofreader

/-- Where adjoining entries have nothing of `P` between their places, neither have entries without a gap between. -/
theorem pairwise_of_adjoining {α : Type} {xs : List α} {P : α → Prop} {z : List (Nat × Entry)} {c d : Nat} {gs : List Gap}
    (h : Tiling c (z.map Prod.snd) gs d)
    (hlink : z.IsChain fun x y => x.2.stop = y.2.start → ¬ Between xs P x.1 y.1)
    (hplaces : ∀ x ∈ z, ∀ s, xs[x.1]? = some s → ¬ P s) :
    z.Pairwise fun x y => (∀ g ∈ gs, ¬ (x.2.stop ≤ g.start ∧ g.stop ≤ y.2.start)) → ¬ Between xs P x.1 y.1 := by
  induction z generalizing c gs with
  | nil => exact .nil
  | cons x r ih =>
    obtain ⟨ks, hks, htail⟩ := h.tail
    have hrest := ih htail hlink.tail fun y hy => hplaces y (List.mem_cons_of_mem _ hy)
    have hlift : ∀ {u v : Nat × Entry}, (∀ g ∈ gs, ¬ (u.2.stop ≤ g.start ∧ g.stop ≤ v.2.start)) →
        ∀ g ∈ ks, ¬ (u.2.stop ≤ g.start ∧ g.stop ≤ v.2.start) := fun hg g hk => hg g (hks hk)
    refine List.pairwise_cons.2 ⟨fun y hy hgap => ?_, hrest.imp fun huv hg => huv (hlift hg)⟩
    cases r with
    | nil => cases hy
    | cons w r =>
      rw [List.map_cons] at htail
      have hfirst : ∀ {v : Nat × Entry}, w.2.start ≤ v.2.start →
          (∀ g ∈ gs, ¬ (x.2.stop ≤ g.start ∧ g.stop ≤ v.2.start)) → ¬ Between xs P x.1 w.1 := by
        intro v hv hg
        have hadjoin := htail.adjoin fun g hk hbounds => hlift hg g hk ⟨hbounds.1, Nat.le_trans hbounds.2 hv⟩
        exact (List.isChain_cons_cons.1 hlink).1 hadjoin
      rcases List.mem_cons.1 hy with rfl | hy
      · exact hfirst (Nat.le_refl _) hgap
      · have hw := htail.entry_bounds List.mem_cons_self
        have hordered := List.pairwise_cons.1 htail.entries_ordered
        have hwy := hordered.1 y.2 (List.mem_map_of_mem hy)
        intro hb
        rcases hb.split (k := w.1) with hb | ⟨s, hs, hp⟩ | hb
        · exact hfirst (by omega) hgap hb
        · exact hplaces w (by simp) s hs hp
        · refine (List.pairwise_cons.1 hrest).1 y hy (fun g hk hbounds => ?_) hb
          exact hlift hgap g hk ⟨by omega, hbounds.2⟩

namespace CheckedText

variable {r : Resolver} {ss : List Segment} {t : CheckedText}

namespace Keeps

/-- In a stream in order, entries of one file with no gap between them come in the order of their locations. -/
theorem follow (k : t.Keeps r ss) (w : t.WellFormed) (ord : InOrder ss) : t.map.entries.toList.Pairwise fun e f =>
    (∀ g ∈ t.map.gaps.toList, ¬ (e.stop ≤ g.start ∧ g.stop ≤ f.start)) → e.location.file = f.location.file →
      e.location.stop ≤ f.location.start := by
  have htiled := w.tiled
  have hincreasing := k.inOrder
  rw [← k.map_snd_zip] at htiled ⊢
  rw [← k.map_fst_zip, List.pairwise_map] at hincreasing
  have hfree := pairwise_of_adjoining (P := Segment.Parts r t.key) htiled (k.linked.imp fun x y hl => hl.1.1)
    fun x hx s hs hparts => by
      obtain ⟨p, hp, hkey, -⟩ := k.exists_piece hx
      rw [hp, Option.some.injEq] at hs
      subst hs
      exact hparts hkey
  rw [List.pairwise_map]
  refine (hfree.and hincreasing).imp_of_mem fun {x y} hx hy ⟨hxy, hlt⟩ hgap hfile => ?_
  obtain ⟨p, hp, -, hpr⟩ := k.exists_piece hx
  obtain ⟨q, hq, -, hqr⟩ := k.exists_piece hy
  rw [hpr.location, hqr.location] at hfile ⊢
  refine ord x.1 y.1 p q hlt hp hq (fun hb => hxy hgap (hb.imp fun s hs => ?_)) hfile
  cases s with
  | piece q => exact hs.elim
  | separator l page => trivial

end Keeps

end CheckedText

open Markup

variable {lib : Library} {asked chain : List FileId} {file : FileId} {text : Text} {root : Node} {level : Int}
variable {table : Table} {r : Resolver} {language : Language} {t : CheckedText} {main : FileId}

/-- The stream of a document is in order. -/
theorem Markup.LaidOut.inOrder (h : LaidOut lib asked chain file text root) :
    InOrder (root.segments (.checking level) language) := by
  have hstop := Nat.le_of_eq (congrArg Location.stop h.location)
  obtain ⟨visits, -, hlaid⟩ := h.laid
  exact (h.readFrom.flows (Nat.zero_le _) hstop hlaid.flows).inOrder

/-- An exact entry copies the text at its location in a file of the library. -/
theorem exists_copies (hroot : (lib.read main).document = some root)
    (ht : t ∈ (extract table r language root).texts) {e : Entry} (he : e ∈ t.map.entries.toList)
    (hexact : e.exact = true) : ∃ source, lib.load e.location.file = some source ∧ e.Copies t.text source := by
  obtain ⟨p, m, hm, hrenders, hfrom⟩ := exists_node_of_entry ht he
  obtain ⟨text, laidOut⟩ := Library.laidOut_read lib main hroot
  obtain ⟨f, source, -, hload, -, hread, -⟩ := laidOut.exists_readFrom hm
  obtain ⟨hverbatim, htext, -⟩ := hfrom.exact (hrenders.exact ▸ hexact)
  have hplaced := placed_of_mem_texts (fun n hn => laidOut.valid hn) ht he
  refine ⟨source, ?_, hexact, hplaced.length hexact, ?_⟩
  · rw [hrenders.location, hfrom.location, hread.file, hload]
  · rw [hrenders.location, hfrom.location, hrenders.text, htext, hread.verbatim hverbatim]

/-- What a span meets without a separator comes in order, as far as it stands in one file. -/
theorem ordered_of_meets (hroot : (lib.read main).document = some root)
    (ht : t ∈ (extract (.checking level) r language root).texts) {a b : Nat}
    (hgap : ∀ g ∈ t.map.gaps.toList, ¬ (g.start < b ∧ a < g.stop))
    (hfile : ∀ e ∈ t.map.entries.toList, e.start < b → a < e.stop → e.location.file = file) :
    (t.map.entries.toList.filter (·.meets a b)).Pairwise fun e f => e.location.stop ≤ f.location.start := by
  obtain ⟨text, laidOut⟩ := Library.laidOut_read lib main hroot
  have wellFormed := wellFormed_of_mem_texts ht
  have hfollow := (keeps_of_mem_texts ht).follow wellFormed laidOut.inOrder
  refine (hfollow.sublist List.filter_sublist).imp_of_mem fun {e f} he hf hef => ?_
  obtain ⟨he, hea⟩ := List.mem_filter.1 he
  obtain ⟨hf, hfa⟩ := List.mem_filter.1 hf
  have hea := Entry.meets_natCast.1 hea
  have hfa := Entry.meets_natCast.1 hfa
  refine hef (fun g hg hbetween => hgap g hg ?_) ((hfile e he hea.1 hea.2).trans (hfile f hf hfa.1 hfa.2).symm)
  have hlt := (wellFormed.tiled.gap_bounds hg).2.1
  omega

/-- In a text extracted for a check, exact entries are copies of their sources, and a span that touches no separator
and overlaps nothing but exact entries of one file projects to locations whose slices make up its text. -/
theorem extract_slices (hroot : (lib.read main).document = some root)
    (ht : t ∈ (extract (.checking level) r language root).texts) :
    (∀ e ∈ t.map.entries.toList, e.exact = true → ∃ source, lib.load e.location.file = some source ∧
      source.extract e.location.start e.location.stop = t.text.extract e.start e.stop) ∧
    ∀ (file : FileId) (a b : Nat), a < b → b ≤ t.text.length →
      (∀ g ∈ t.map.gaps.toList, ¬ (g.start < b ∧ a < g.stop)) →
      (∀ e ∈ t.map.entries.toList, e.start < b → a < e.stop → e.exact = true ∧ e.location.file = file) →
      ∃ source ls, lib.load file = some source ∧ t.map.project a b = .ok ls ∧ (∀ l ∈ ls, l.file = file) ∧
        ls.flatMap (fun l => source.extract l.start l.stop) = t.text.extract a b := by
  refine ⟨fun e he hexact => ?_, fun file a b hab hb hgap hspan => ?_⟩
  · obtain ⟨source, hload, hcopies⟩ := exists_copies hroot ht he hexact
    exact ⟨source, hload, hcopies.copy⟩
  · have wellFormed := wellFormed_of_mem_texts ht
    have tiled := wellFormed.map_tiled
    have hb' : b ≤ t.map.length := wellFormed.length ▸ hb
    obtain ⟨first, hfirst⟩ := List.exists_mem_of_ne_nil _ (tiled.exists_meets hab hb' hgap)
    obtain ⟨hmem, hmeets⟩ := List.mem_filter.1 hfirst
    have hmet := Entry.meets_natCast.1 hmeets
    obtain ⟨hexact, hfile⟩ := hspan first hmem hmet.1 hmet.2
    obtain ⟨source, hload, -⟩ := exists_copies hroot ht hmem hexact
    rw [hfile] at hload
    have hcopy : ∀ e ∈ t.map.entries.toList, e.start < b → a < e.stop →
        e.Copies t.text source ∧ e.location.file = file := by
      intro e he heb hea
      obtain ⟨hexact, hfile⟩ := hspan e he heb hea
      obtain ⟨source', hload', hcopies⟩ := exists_copies hroot ht he hexact
      rw [hfile, hload, Option.some.injEq] at hload'
      exact ⟨hload' ▸ hcopies, hfile⟩
    have hordered := ordered_of_meets hroot ht hgap fun e he heb hea => (hspan e he heb hea).2
    obtain ⟨ls, hproject, hls, hslices⟩ := tiled.project_slices hab hb' hgap hcopy hordered
    exact ⟨source, ls, hload, hproject, hls, hslices⟩

/-- A main file that includes another one before a paragraph with strong text. -/
def starred : Library :=
  ⟨[("main", "#include \"part\"\n\nOne *two*.".toList), ("part", "Zero.".toList)], fun _ path => String.ofList path⟩

theorem isSome_starred : (starred.read "main").document.isSome = true := by decide +kernel

def starredRoot : Node := (starred.read "main").document.get isSome_starred

def starredTexts : List CheckedText := (extract (.checking 1) mixedResolver defaultLanguage starredRoot).texts

theorem length_starredTexts : starredTexts.length = 1 := by decide +kernel

def starredText : CheckedText := starredTexts.get ⟨0, length_starredTexts ▸ Nat.one_pos⟩

/-- The delimiters around the strong text have no place in the text. -/
theorem extract_slices_starred : starredText.text = "Zero.\n\nOne two.".toList ∧
    starredText.map.entries.toList.map (·.location) =
      [⟨"part", 0, 5⟩, ⟨"main", 17, 20⟩, ⟨"main", 20, 21⟩, ⟨"main", 22, 25⟩, ⟨"main", 26, 27⟩] ∧
    ∃ source ls, starred.load "main" = some source ∧ starredText.map.project 7 14 = .ok ls ∧ (∀ l ∈ ls, l.file = "main") ∧
      ls.flatMap (fun l => source.extract l.start l.stop) = starredText.text.extract 7 14 :=
  ⟨by decide +kernel, by decide +kernel, (extract_slices (Option.some_get isSome_starred).symm (List.get_mem _ _)).2
    "main" 7 14 (by decide) (by decide +kernel) (by decide +kernel) (by decide +kernel)⟩

end Proofreader
