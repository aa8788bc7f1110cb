import Mathlib.Data.List.Nodup
import Proofreader.Proofs.Extraction.Cue
import Proofreader.Proofs.Extraction.Prose
import Proofreader.Proofs.Markup.Library
import Proofreader.Proofs.Style.Apart

/-! No source is checked twice. Where reading enters each file once, entries of all texts together have places apart,
those of one text in order, and spans with a source character in common overlap the entry that it belongs to. -/

namespace Proofreader

/-- The locations have no character in common. -/
def Location.Apart (l k : Location) : Prop := l.file = k.file → l.stop ≤ k.start ∨ k.stop ≤ l.start

/-- The character at `i` of `file` is one of the location. -/
def Location.Has (l : Location) (file : FileId) (i : Nat) : Prop := l.file = file ∧ l.start ≤ i ∧ i < l.stop

/-- Reading enters no file twice; one that is missing may be asked for again. -/
def Markup.Library.ReadsOnce (lib : Library) (main : FileId) : Prop :=
  ((lib.read main).asked.filter fun file => (lib.load file).isSome).Nodup

instance (lib : Markup.Library) (main : FileId) : Decidable (lib.ReadsOnce main) :=
  inferInstanceAs (Decidable (List.Nodup _))

namespace Location

variable {l k : Location} {file : FileId} {i : Nat}

theorem Precedes.apart (h : l.Precedes k) : l.Apart k := fun hfile => Or.inl (h hfile).2

theorem Apart.symm (h : l.Apart k) : k.Apart l := fun hfile => (h hfile.symm).symm

theorem Apart.not_has (h : l.Apart k) (hl : l.Has file i) : ¬ k.Has file i := by
  intro hk
  obtain ⟨hlf, hls, hli⟩ := hl
  obtain ⟨hkf, hks, hki⟩ := hk
  have := h (hlf.trans hkf.symm)
  omega

end Location

/-- A character is of one entry at most where each precedes the later ones. -/
theorem Entry.eq_of_has {es : List Entry} {e f : Entry} {file : FileId} {i : Nat}
    (h : es.Pairwise fun e f => e.location.Precedes f.location) (he : e ∈ es) (hf : f ∈ es)
    (hei : e.location.Has file i) (hfi : f.location.Has file i) : e = f := by
  by_contra hne
  have hsymm : Std.Symm fun e f : Entry => e.location.Apart f.location := ⟨fun _ _ h => h.symm⟩
  have hapart : es.Pairwise fun e f => e.location.Apart f.location := h.imp fun h => h.apart
  exact (hapart.forall he hf hne).not_has hei hfi

namespace SourceMap

variable {m : SourceMap} {a b : Int} {ls : List Location} {l : Location} {file : FileId} {i : Nat}

/-- A character that a span projects to is one of an entry that the span overlaps; in an exact entry it is the source
of a character of the span. -/
theorem Tiled.exists_overlapping (h : m.Tiled) (hplaced : ∀ e ∈ m.entries.toList, e.Placed)
    (hls : m.project a b = .ok ls) (hl : l ∈ ls) (hi : l.Has file i) : ∃ e ∈ m.overlapping a b, e.location.Has file i ∧
      (e.exact = true → a ≤ (e.start : Int) + (i - e.location.start) ∧ (e.start : Int) + (i - e.location.start) < b) := by
  have hjoins := h.joins_of_project hplaced hls hl
  obtain ⟨hfile, hstart, hstop⟩ := hi
  obtain ⟨k, hk, hkf, hki, hkj⟩ := hjoins.covered i hstart hstop
  obtain ⟨e, he, rfl⟩ := List.mem_map.1 hk
  obtain ⟨hef, hes, -, het⟩ := h.project_entry hplaced he
  refine ⟨e, he, ⟨hef.symm.trans (hkf.trans hfile), by omega, by omega⟩, fun hexact => ?_⟩
  simp only [Entry.project, hexact, if_true] at hki hkj
  omega

end SourceMap

namespace CheckedText.Keeps

variable {r : Resolver} {ss : List Segment} {t u : CheckedText} {e f : Entry}

theorem exists_place (k : t.Keeps r ss) (he : e ∈ t.map.entries.toList) :
    ∃ (i : Nat) (p : Piece), ss[i]? = some (.piece p) ∧ r.key p = t.key ∧ e.location = p.location := by
  rw [← k.map_snd_zip] at he
  obtain ⟨x, hx, rfl⟩ := List.mem_map.1 he
  obtain ⟨p, hp, hkey, hr⟩ := k.exists_piece hx
  exact ⟨x.1, p, hp, hkey, hr.location⟩

/-- Entries of a text come in the order of their places. -/
theorem precedes (k : t.Keeps r ss) (h : ss.Pairwise Segment.Precedes) :
    t.map.entries.toList.Pairwise fun e f => e.location.Precedes f.location := by
  have hincreasing := k.inOrder
  rw [← k.map_snd_zip, List.pairwise_map]
  rw [← k.map_fst_zip, List.pairwise_map] at hincreasing
  refine hincreasing.imp_of_mem fun {x y} hx hy hxy => ?_
  obtain ⟨p, hp, -, hpr⟩ := k.exists_piece hx
  obtain ⟨q, hq, -, hqr⟩ := k.exists_piece hy
  rw [hpr.location, hqr.location]
  exact precedes_of_lt h hp hq hxy

/-- Texts of two languages take different pieces of the stream. -/
theorem apart (k : t.Keeps r ss) (k' : u.Keeps r ss) (h : ss.Pairwise Segment.Precedes) (hne : t.key ≠ u.key)
    (he : e ∈ t.map.entries.toList) (hf : f ∈ u.map.entries.toList) : e.location.Apart f.location := by
  obtain ⟨i, p, hi, hp, hep⟩ := k.exists_place he
  obtain ⟨j, q, hj, hq, hfq⟩ := k'.exists_place hf
  rw [hep, hfq]
  rcases Nat.lt_trichotomy i j with hij | rfl | hij
  · exact (precedes_of_lt h hi hj hij).apart
  · rw [hi, Option.some.injEq, Segment.piece.injEq] at hj
    subst hj
    exact absurd (hp.symm.trans hq) hne
  · exact (precedes_of_lt h hj hi hij).apart.symm

end CheckedText.Keeps

open Markup

variable {lib : Library} {main : FileId} {root : Node} {table : Table} {r : Resolver} {language : Language}

/-- A document that is read from each file once lies in different files. -/
theorem Markup.Library.ReadsOnce.exists_laid (honce : lib.ReadsOnce main) (hroot : (lib.read main).document = some root) :
    ∃ text visits, (main :: visits).Nodup ∧ Laid lib visits [] main text 0 root.children text.length := by
  obtain ⟨text, laidOut⟩ := Library.laidOut_read lib main hroot
  obtain ⟨visits, hasked, hlaid⟩ := laidOut.laid
  have hloaded : ∀ f ∈ main :: visits, (lib.load f).isSome = true := by
    intro f hf
    rcases List.mem_cons.1 hf with rfl | hf
    · rw [laidOut.loaded]
      rfl
    · exact hlaid.isSome_load f hf
  refine ⟨text, visits, ?_, hlaid⟩
  rw [← List.filter_eq_self.2 hloaded]
  exact (hasked.filter _).nodup honce

/-- The stream of a document that is read from each file once keeps its pieces apart. -/
theorem Markup.Library.ReadsOnce.precedes (honce : lib.ReadsOnce main) (hroot : (lib.read main).document = some root) :
    (root.segments table language).Pairwise Segment.Precedes := by
  obtain ⟨text, visits, hvisits, hlaid⟩ := honce.exists_laid hroot
  obtain ⟨before, mid, after, he, hbefore, hafter, hmid⟩ := Node.segments_cases table language root
  rw [he]
  refine pairwise_between ?_ hbefore hafter
  rcases hmid with rfl | ⟨p, rfl, -⟩ | rfl
  · exact .nil
  · exact List.pairwise_singleton _ _
  · exact (hlaid.spread hvisits _).apart

section ReadsOnce

variable {t u : CheckedText} {a b c d : Int} {ls ks : List Location} {l k : Location} {file : FileId} {i : Nat}
variable (honce : lib.ReadsOnce main) (hroot : (lib.read main).document = some root)
include honce hroot

/-- Entries of a text come in the order of their places. -/
theorem entries_precede (ht : t ∈ (extract table r language root).texts) :
    t.map.entries.toList.Pairwise fun e f => e.location.Precedes f.location :=
  (keeps_of_mem_texts ht).precedes (honce.precedes hroot)

/-- The places of all entries are apart. -/
theorem entries_apart (table : Table) (r : Resolver) (language : Language) :
    ((extract table r language root).texts.flatMap (·.map.entries.toList)).Pairwise
      fun e f => e.location.Apart f.location := by
  have hkeys : ((extract table r language root).texts.map (·.key)).Nodup := nodup_keys
  rw [List.Nodup, List.pairwise_map] at hkeys
  refine List.pairwise_flatMap.2 ⟨fun t ht => (entries_precede honce hroot ht).imp fun h => h.apart, ?_⟩
  refine hkeys.imp_of_mem fun {t u} ht hu hne e he f hf => ?_
  exact (keeps_of_mem_texts ht).apart (keeps_of_mem_texts hu) (honce.precedes hroot) hne he hf

/-- Entries of two texts have no source character in common. -/
theorem eq_of_mem_texts (ht : t ∈ (extract table r language root).texts) (hu : u ∈ (extract table r language root).texts)
    {e f : Entry} (he : e ∈ t.map.entries.toList) (hf : f ∈ u.map.entries.toList) (hei : e.location.Has file i)
    (hfi : f.location.Has file i) : t = u := by
  have hkey : t.key = u.key := by
    by_contra hne
    exact ((keeps_of_mem_texts ht).apart (keeps_of_mem_texts hu) (honce.precedes hroot) hne he hf).not_has hei hfi
  exact List.inj_on_of_nodup_map nodup_keys ht hu hkey

/-- A source character of two spans is of an entry that both overlap. -/
theorem spans_meet (ht : t ∈ (extract table r language root).texts) (hu : u ∈ (extract table r language root).texts)
    (hls : t.map.project a b = .ok ls) (hks : u.map.project c d = .ok ks) (hl : l ∈ ls) (hk : k ∈ ks)
    (hli : l.Has file i) (hki : k.Has file i) :
    t = u ∧ ∃ e ∈ t.map.overlapping a b, e ∈ t.map.overlapping c d ∧ e.location.Has file i ∧
      (e.exact = true → ∃ o, a ≤ o ∧ o < b ∧ c ≤ o ∧ o < d) := by
  obtain ⟨text, laidOut⟩ := Library.laidOut_read lib main hroot
  have tiled : ∀ t ∈ (extract table r language root).texts, t.map.Tiled := fun t ht =>
    (wellFormed_of_mem_texts ht).map_tiled
  have placed : ∀ t ∈ (extract table r language root).texts, ∀ e ∈ t.map.entries.toList, e.Placed :=
    fun t ht e he => placed_of_mem_texts (fun n hn => laidOut.valid hn) ht he
  obtain ⟨e, he, hei, heo⟩ := (tiled t ht).exists_overlapping (placed t ht) hls hl hli
  obtain ⟨f, hf, hfi, hfo⟩ := (tiled u hu).exists_overlapping (placed u hu) hks hk hki
  have hemem := ((tiled t ht).lt_stop_of_mem_overlapping he).1
  have hfmem := ((tiled u hu).lt_stop_of_mem_overlapping hf).1
  obtain rfl := eq_of_mem_texts honce hroot ht hu hemem hfmem hei hfi
  obtain rfl := Entry.eq_of_has (entries_precede honce hroot ht) hemem hfmem hei hfi
  refine ⟨rfl, e, he, hf, hei, fun hexact => ?_⟩
  exact ⟨_, (heo hexact).1, (heo hexact).2, (hfo hexact).1, (hfo hexact).2⟩

end ReadsOnce

/-- Where reading enters each file once, the places of all entries are apart, those of one text come in order, and spans
that have a source character in common overlap the entry that it belongs to. -/
theorem extract_apart (honce : lib.ReadsOnce main) (hroot : (lib.read main).document = some root) (table : Table)
    (r : Resolver) (language : Language) :
    ((extract table r language root).texts.flatMap (·.map.entries.toList)).Pairwise
      (fun e f => e.location.Apart f.location) ∧
    (∀ t ∈ (extract table r language root).texts,
      t.map.entries.toList.Pairwise fun e f => e.location.Precedes f.location) ∧
    ∀ t ∈ (extract table r language root).texts, ∀ u ∈ (extract table r language root).texts, ∀ (a b c d : Int) ls ks,
      t.map.project a b = .ok ls → u.map.project c d = .ok ks → ∀ l ∈ ls, ∀ k ∈ ks, ∀ file i, l.Has file i →
        k.Has file i → t = u ∧ ∃ e ∈ t.map.overlapping a b, e ∈ t.map.overlapping c d ∧ e.location.Has file i ∧
          (e.exact = true → ∃ o, a ≤ o ∧ o < b ∧ c ≤ o ∧ o < d) := by
  refine ⟨entries_apart honce hroot table r language, fun t ht => entries_precede honce hroot ht, ?_⟩
  intro t ht u hu a b c d ls ks hls hks l hl k hk file i hli hki
  exact spans_meet honce hroot ht hu hls hks hl hk hli hki

/-- A main file with a formula, and with another file between its English and a paragraph that begins in German. -/
def woven : Library :=
  ⟨[("main", "I $x$.\n\n#include \"part\"\n\n#text(lang: \"de\")[Da] *it*".toList), ("part", "*So*".toList)],
    fun _ path => String.ofList path⟩

theorem readsOnce_woven : woven.ReadsOnce "main" := by decide +kernel

theorem isSome_woven : (woven.read "main").document.isSome = true := by decide +kernel

def wovenRoot : Node := (woven.read "main").document.get isSome_woven

def wovenTexts : List CheckedText := (extract (.checking 1) mixedResolver defaultLanguage wovenRoot).texts

theorem length_wovenTexts : wovenTexts.length = 2 := by decide +kernel

def wovenEnglish : CheckedText := wovenTexts.get ⟨0, length_wovenTexts ▸ Nat.two_pos⟩

theorem project_woven : wovenEnglish.map.project 0 3 = .ok [⟨"main", 0, 5⟩] ∧
    wovenEnglish.map.project 2 4 = .ok [⟨"main", 2, 6⟩] := by
  obtain ⟨hleft, hne, hright, hne'⟩ : (wovenEnglish.map.overlapping 0 3).map (·.project 0 3) =
        [⟨"main", 0, 1⟩, ⟨"main", 1, 2⟩, ⟨"main", 2, 5⟩] ∧ wovenEnglish.map.overlapping 0 3 ≠ [] ∧
      (wovenEnglish.map.overlapping 2 4).map (·.project 2 4) = [⟨"main", 2, 5⟩, ⟨"main", 5, 6⟩] ∧
        wovenEnglish.map.overlapping 2 4 ≠ [] := by decide +kernel
  have leftInLine : InLine "main" [⟨"main", 0, 1⟩, ⟨"main", 1, 2⟩, ⟨"main", 2, 5⟩] :=
    ⟨by decide, by simp [Location.Valid], by decide⟩
  have rightInLine : InLine "main" [⟨"main", 2, 5⟩, ⟨"main", 5, 6⟩] := ⟨by decide, by simp [Location.Valid], by decide⟩
  rw [SourceMap.project_eq_ok, SourceMap.project_eq_ok, hleft, hright, leftInLine.mergeLocations_cons,
    rightInLine.mergeLocations_cons]
  exact ⟨⟨hne, rfl⟩, hne', rfl⟩

/-- The two spans meet in the formula. -/
theorem extract_apart_woven : wovenTexts.map (fun t => String.ofList t.text) = ["I X.\n\nSo\n\nit", "Da"] ∧
    (wovenTexts.flatMap (·.map.entries.toList)).Pairwise (fun e f => e.location.Apart f.location) ∧
    (∀ t ∈ wovenTexts, t.map.entries.toList.Pairwise fun e f => e.location.Precedes f.location) ∧
    ∃ e ∈ wovenEnglish.map.overlapping 0 3, e ∈ wovenEnglish.map.overlapping 2 4 ∧ e.location.Has "main" 3 := by
  obtain ⟨hapart, horder, hmeet⟩ := extract_apart readsOnce_woven (Option.some_get isSome_woven).symm (.checking 1)
    mixedResolver defaultLanguage
  have hmem : wovenEnglish ∈ wovenTexts := List.get_mem _ _
  obtain ⟨-, e, he, hf, hi, -⟩ := hmeet _ hmem _ hmem 0 3 2 4 _ _ project_woven.1 project_woven.2 _
    (List.mem_singleton_self _) _ (List.mem_singleton_self _) "main" 3 ⟨rfl, by decide, by decide⟩
    ⟨rfl, by decide, by decide⟩
  exact ⟨by decide +kernel, hapart, horder, e, he, hf, hi⟩

end Proofreader
