import Proofreader.Proofs.Extraction.Range
import Proofreader.Proofs.Mapping.Answers
import Proofreader.Proofs.Project.Editing
import Proofreader.Proofs.Respelling.Drafts

/-! Quick fixes do what they say about their range. It is copied to one part of the span of the finding, all of it if there
is no other range, and letters that are put in its place stand, when the document is read again, in place of that part. The
rest of the span stays, and marks that have to do with the range can come to mean something else. -/

namespace Proofreader

open Markup

/-! ### The text that shows a slice -/

section Texts

variable {table : Table} {r : Resolver} {language : Language} {root root' : Node} {t : CheckedText}

/-- What a single draft makes of a stream is a text, if it has any prose. -/
theorem exists_text_of_draft {profile : Profile} (h : 0 < (draftOf r profile (root.segments table language)).map.length) :
    ∃ t ∈ (extract table r language root).texts, t.key = profile.language ∧
      t.text = (draftOf r profile (root.segments table language)).text.toList := by
  rcases Extracting.draftOf_cases profile (root.segments table language) with ⟨-, gap, page, he⟩ | ⟨d, gap, hd, he⟩
  · rw [he] at h
    exact absurd h (Nat.lt_irrefl 0)
  · have hmem := mem_of_lookup hd
    rw [he] at h ⊢
    exact ⟨d.finish, mem_texts.2 ⟨_, d, hmem, h, rfl⟩, (Extracting.run_tracks r _).profile _ d hmem, rfl⟩

namespace Markup.Respelling

variable {x : Respelling} {a : Nat} {ss ss' : List Segment} {key : Language} {d d' : Draft}

/-- What quotes nothing of the slice has no entry where the slice is. -/
theorem not_mem_gains (h : ∀ p, .piece p ∈ ss → ¬ x.Quotes p) {i : Nat} (hi : x.start ≤ i) (hj : i < x.stop) {e : Entry}
    (hs : x.Spot a i e) : e ∉ d.gains (ss.map (Segment.cue r key)) := by
  intro he
  obtain ⟨p, hmem, -, hlocation, hexact⟩ := Draft.exists_piece_of_mem_gains he
  exact h p hmem ⟨hexact ▸ hs.exact, i, hi, hj, hlocation ▸ hs.has⟩

/-- Drafts that hear the streams before and after go on alike behind the slice. -/
theorem Spliced.tandem (h : x.Neutral) (hspliced : x.Spliced table ss ss') (hne : ∀ p, .piece p ∈ ss → p.text ≠ [])
    (profile : Profile) (hspot : ∀ i, x.start ≤ i → i < x.stop →
      ∃ e ∈ (Draft.start profile).gains (ss.map (Segment.cue r profile.language)), x.Spot a i e) :
    ∃ w : Text, w.length = a ∧ Draft.Tandem (w ++ x.old) (w ++ x.new) (draftOf r profile ss) (draftOf r profile ss') := by
  obtain ⟨inner, ms, ms', pre, pre', post, post', hrun, rfl, rfl, hpre, hpost, kpre, kpost⟩ := hspliced.parts
  have hnepre : ∀ p, .piece p ∈ pre → p.text ≠ [] := fun p hp => hne p (by simp [hp])
  have hnepost : ∀ p, .piece p ∈ post → p.text ≠ [] := fun p hp => hne p (by simp [hp])
  have hbegun := (Draft.Tandem.start profile profile).hear r profile.language hpre hnepre
  have hsound : ((Draft.start profile).hear (pre.map (Segment.cue r profile.language))).Sound :=
    Draft.sound_hear (Draft.sound_start profile) fun p hp => hnepre p (Segment.mem_of_prose_mem hp).1
  have hspots : ∀ i, x.start ≤ i → i < x.stop →
      ∃ e ∈ ((Draft.start profile).hear (pre.map (Segment.cue r profile.language))).gains
        ((Node.segmentsOf table inner ms).map (Segment.cue r profile.language)), x.Spot a i e := by
    intro i hi hj
    obtain ⟨e, he, hs⟩ := hspot i hi hj
    simp only [List.map_append, Draft.gains_append, List.mem_append] at he
    refine ⟨e, ?_, hs⟩
    exact (he.resolve_right (not_mem_gains kpost hi hj hs)).resolve_left (not_mem_gains kpre hi hj hs)
  obtain ⟨w, hw, htandem⟩ := tandem_run h hrun hbegun hsound.length hspots
  refine ⟨w, hw, ?_⟩
  simp only [draftOf, List.map_append, Draft.hear_append]
  exact htandem.hear r profile.language hpost hnepost

/-- A text of the document before that shows all of the slice in one place has a counterpart after, with the letters in
that place. -/
theorem exists_respelled (h : x.Neutral) (hedited : x.Edited [root] [root']) (hcited : x.Uncited [root])
    (ht : t ∈ (extract table r language root).texts)
    (hspot : ∀ i, x.start ≤ i → i < x.stop → ∃ e ∈ t.map.entries.toList, x.Spot a i e) :
    ∃ t' ∈ (extract table r language root').texts, t'.key = t.key ∧
      t'.text = t.text.take a ++ x.new ++ t.text.drop (a + x.old.length) := by
  have hsingle : ∀ n : Node, Node.segmentsOf table language [n] = n.segments table language := fun n => by
    rw [Node.segmentsOf_eq, List.flatMap_singleton]
  obtain ⟨hfinish, hpos⟩ := eq_finish_of_mem_texts ht
  rw [entries_eq_gains ht] at hspot
  have hquotes : ∃ p, .piece p ∈ Node.segmentsOf table language [root] ∧ x.Quotes p := by
    by_contra hnone
    have hlt := Abreast.start_lt_stop h
    obtain ⟨e, he, hs⟩ := hspot x.start (Nat.le_refl _) hlt
    rw [hsingle] at hnone
    exact not_mem_gains (fun p hp hq => hnone ⟨p, hp, hq⟩) (Nat.le_refl _) hlt hs he
  have hspliced := hedited.spliced hcited hquotes
  rw [hsingle, hsingle] at hspliced
  obtain ⟨w, hw, htandem⟩ := hspliced.tandem h text_of_mem_segments t.profile hspot
  have hpos' : 0 < (draftOf r t.profile (root'.segments table language)).map.length := htandem.begun.2 hpos
  obtain ⟨t', ht', hkey, htext'⟩ := exists_text_of_draft hpos'
  obtain ⟨u, hu, hu'⟩ := htandem.text
  have htext : t.text = w ++ x.old ++ u := (congrArg CheckedText.text hfinish).trans hu
  refine ⟨t', ht', hkey, ?_⟩
  rw [htext', hu', htext, ← hw, List.append_assoc w x.old u, List.take_left, ← List.length_append, ← List.append_assoc w x.old u,
    List.drop_left]

end Markup.Respelling

end Texts

/-! ### Quick fixes -/

section Entries

variable {lib : Library} {main : FileId} {root : Node} {table : Table} {r : Resolver} {language : Language} {t : CheckedText}

/-- A character that is copied is shown by a node of the tree. Only citations show escapes and line ends. -/
theorem exists_node_of_copiesAt (hroot : (lib.read main).document = some root)
    (ht : t ∈ (extract table r language root).texts) {e : Entry} (he : e ∈ t.map.entries.toList) {file : FileId} {i o : Nat}
    (hcopies : e.CopiesAt file i o) : ∃ n ∈ Node.preorders root.children, n.verbatim = true ∧ n.location.Has file i ∧
      (n.kind = .citation ∨ ∀ c ∈ ['\\', '\n'], t.text[o]? ≠ some c) := by
  obtain ⟨text, laidOut⟩ := Library.laidOut_read lib main hroot
  obtain ⟨p, n, hn, hrenders, hfrom⟩ := exists_node_of_entry ht he
  obtain ⟨f, source, -, -, -, hread, -⟩ := laidOut.exists_readFrom hn
  obtain ⟨hverbatim, htext, -⟩ := hfrom.exact (hrenders.exact ▸ hcopies.exact)
  have hhas := hcopies.has
  refine ⟨n, ?_, hverbatim, hfrom.location ▸ hrenders.location ▸ hhas, (hread.plain hverbatim).imp_right fun hplain c hc hmem => ?_⟩
  · rw [Node.preorder_eq, ← Node.preorders_eq, List.mem_cons] at hn
    refine hn.resolve_left fun hself => ?_
    rw [hself, laidOut.root] at hverbatim
    cases hverbatim
  · have hplaced := (placed_of_mem_texts (fun n hn => laidOut.valid hn) ht he).length hcopies.exact
    have hoffset := hcopies.offset
    obtain ⟨-, hlow, hhigh⟩ := hhas
    have hinside : e.start + (o - e.start) < e.stop := by omega
    refine hplain c hc ?_
    rw [← htext, ← hrenders.text]
    refine List.mem_of_getElem? (i := o - e.start) ?_
    rw [Text.getElem?_extract _ hinside, Nat.add_sub_cancel' (by omega), hmem]

end Entries

namespace Mapper

variable {m : Mapper} {t : CheckedText} {splits : List Int} {f : Finding} {ds : List Diagnostic}

/-- There is a diagnostic for each range that the span of a finding projects to. -/
theorem project_of_diagnose (h : m.diagnose t splits f = .ok ds) (hne : ds ≠ []) :
    t.map.project f.offset f.stop = .ok (ds.map (·.location)) := by
  unfold diagnose at h
  obtain ⟨kept, -, h⟩ := exists_of_bind h
  cases kept with
  | false => exact absurd (Except.ok.inj h).symm hne
  | true =>
    cases hproject : t.map.project f.offset f.stop with
    | error e =>
      rw [hproject] at h
      exact absurd (Except.ok.inj h).symm hne
    | ok ls =>
      rw [hproject] at h
      obtain ⟨vs, -, h⟩ := exists_of_bind h
      cases h
      rw [List.map_map]
      exact congrArg Except.ok (List.map_id ls).symm

end Mapper

namespace Markup

/-- The library with another text for a file. -/
def Library.write (lib : Library) (file : FileId) (text : Text) : Library := { lib with files := putMember lib.files file text }

variable {lib : Library} {main file : FileId}

/-- A file that is there is read once at most. -/
theorem Library.ReadsOnce.count_le (h : lib.ReadsOnce main) (hload : (lib.load file).isSome = true) :
    (lib.read main).asked.count file ≤ 1 := by
  have hcount := List.nodup_iff_count_le_one.1 h file
  rwa [List.count_filter (by simpa using hload)] at hcount

/-- No mark has a part in the slice: it holds none, and the letters complete none that begins before it. -/
structure Unmarked (before old new after : Text) : Prop where
  plain : ∀ c ∈ ['*', '_', '[', ']'], c ∉ old
  name : NameOpen before → new.head?.any isKeyPart = true → old.head?.any isKeyPart = true
  label : LabelOpen before → new.all isKeyPart = true → (after.dropWhile isKeyPart).head? ≠ some '>'

theorem Respelling.respells_write {x : Respelling} (h : lib.load x.file = some (x.before ++ x.oldTail)) :
    x.Respells lib (lib.write x.file (x.before ++ x.newTail)) where
  resolve := rfl
  length := by
    have hkey : x.file ∈ lib.files.map Prod.fst := List.mem_map_of_mem (mem_of_lookup h)
    rw [← List.length_map Prod.fst, Library.write, keys_putMember, if_pos hkey, List.length_map]
  loaded := h
  loaded' := lookup_putMember_self _ _ _
  others f hf := lookup_putMember_of_ne _ hf _

end Markup

section Read

variable {lib : Library} {main : FileId} {root : Node} {table : Table} {r : Resolver} {language : Language} {t : CheckedText}
variable {x : Respelling} {c : Nat}

/-- What the text copies outside of citations has neither an escape nor a line end. -/
theorem notMem_of_copiesFrom (hroot : (lib.read main).document = some root) (ht : t ∈ (extract table r language root).texts)
    (hcited : x.Uncited [root]) (hc : t.map.CopiesFrom ⟨x.file, x.start, x.stop⟩ c)
    (hold : x.old = t.text.extract c (c + x.old.length)) : ∀ d ∈ ['\\', '\n'], d ∉ x.old := by
  intro d hd hmem
  obtain ⟨k, hk⟩ := List.mem_iff_getElem?.1 hmem
  have hlt := (List.getElem?_eq_some_iff.1 hk).1
  have hbelow : x.start + k < x.stop := Nat.add_lt_add_left hlt _
  obtain ⟨e, he, o, hcopies, ho⟩ := hc (x.start + k) (Nat.le_add_right _ _) hbelow
  obtain ⟨n, hn, -, hhas, hkind⟩ := exists_node_of_copiesAt hroot ht he hcopies
  rcases hkind with hcitation | hplain
  · exact hcited.children n hn hcitation _ (Nat.le_add_right _ _) hbelow hhas
  · dsimp only at ho
    obtain rfl : o = c + k := by omega
    rw [hold, Text.getElem?_extract _ (by omega)] at hk
    exact hplain d hd hk

/-- When the document is read again, the letters stand in the text where the slice stood. -/
theorem exists_text_write (honce : lib.ReadsOnce main) (hroot : (lib.read main).document = some root)
    (ht : t ∈ (extract table r language root).texts) (h : x.Neutral) (hload : lib.load x.file = some (x.before ++ x.oldTail))
    (hcited : x.Uncited [root]) (hc : t.map.CopiesFrom ⟨x.file, x.start, x.stop⟩ c) :
    ∃ root', ((lib.write x.file (x.before ++ x.newTail)).read main).document = some root' ∧
      ∃ t' ∈ (extract table r language root').texts, t'.key = t.key ∧
        t'.text = t.text.take c ++ x.new ++ t.text.drop (c + x.old.length) := by
  have hshown : ∀ i, x.start ≤ i → i < x.stop → ¬ x.Hidden i root.children := by
    intro i hi hj hidden
    obtain ⟨e, he, o, hcopies, -⟩ := hc i hi hj
    obtain ⟨n, hn, hverbatim, hhas, -⟩ := exists_node_of_copiesAt hroot ht he hcopies
    exact hidden n hn ⟨hverbatim, fun hcitation => hcited.children n hn hcitation i hi hj hhas, hhas⟩
  obtain ⟨root', hroot', hedited⟩ := Respelling.edited_read h (Respelling.respells_write hload) hroot
    (honce.count_le (by rw [hload]; rfl)) hshown
  refine ⟨root', hroot', Respelling.exists_respelled h hedited hcited ht fun i hi hj => ?_⟩
  obtain ⟨e, he, o, hcopies, ho⟩ := hc i hi hj
  have hoffset := hcopies.offset
  dsimp only at ho
  exact ⟨e, he, hcopies.exact, hcopies.has, by omega⟩

variable {l : Location} {source s : Text}

/-- Letters in place of a range of the source that the text copies. -/
theorem exists_text_of_copiesFrom (honce : lib.ReadsOnce main) (hroot : (lib.read main).document = some root)
    (ht : t ∈ (extract table r language root).texts) (hc : t.map.CopiesFrom l c) (hload : lib.load l.file = some source)
    (huncited : ∀ n ∈ root.preorder, n.kind = .citation → ∀ i, l.start ≤ i → i < l.stop → ¬ n.location.Has l.file i)
    (hstarts : Starts (source.extract l.start l.stop)) (hends : (source.extract l.start l.stop).getLast?.any isPlainLetter = true)
    (hne : s ≠ []) (hletters : ∀ d ∈ s, isPlainLetter d = true)
    (hunmarked : Unmarked (source.take l.start) (source.extract l.start l.stop) s (source.drop l.stop)) :
    l.stop ≤ source.length ∧ source.extract l.start l.stop = t.text.extract c (c + (l.stop - l.start)) ∧
    ∃ root', ((lib.write l.file (source.take l.start ++ s ++ source.drop l.stop)).read main).document = some root' ∧
      ∃ t' ∈ (extract table r language root').texts, t'.key = t.key ∧
        t'.text = t.text.take c ++ s ++ t.text.drop (c + (l.stop - l.start)) := by
  have hlt : l.start < l.stop := by
    by_contra hle
    exact hstarts.ne_nil (Text.extract_eq_nil _ (Nat.le_of_not_lt hle))
  obtain ⟨hstop, hslice⟩ := extract_of_copiesFrom hroot ht (orderly_of_mem_texts honce hroot ht) hc hlt hload
  refine ⟨hstop, hslice, ?_⟩
  have hold : (source.extract l.start l.stop).length = l.stop - l.start := Text.length_extract _ hstop
  have hwhole : source.take l.start ++ (source.extract l.start l.stop ++ source.drop l.stop) = source := by
    have hrest : source.drop l.stop = (source.drop l.start).drop (l.stop - l.start) := by
      rw [List.drop_drop, Nat.add_sub_cancel' (Nat.le_of_lt hlt)]
    rw [Text.extract, hrest, List.take_append_drop, List.take_append_drop]
  have hstart := List.length_take_of_le (Nat.le_trans (Nat.le_of_lt hlt) hstop)
  generalize hx : (⟨l.file, source.take l.start, source.extract l.start l.stop, s, source.drop l.stop⟩ : Respelling) = x
  have hxold : x.old = source.extract l.start l.stop := by rw [← hx]
  have hxstart : x.start = l.start := by rw [← hstart, ← hx]; rfl
  have hxstop : x.stop = l.stop := by
    change x.start + x.old.length = l.stop
    rw [hxold, hxstart, hold, Nat.add_sub_cancel' (Nat.le_of_lt hlt)]
  have hplace : (⟨x.file, x.start, x.stop⟩ : Location) = l := by rw [hxstart, hxstop, ← hx]
  have hcited : x.Uncited [root] := by
    intro n hn hkind i hi hj
    rw [Node.preorders_eq, List.flatMap_singleton] at hn
    rw [← hx]
    exact huncited n hn hkind i (hxstart ▸ hi) (hxstop ▸ hj)
  rw [← hplace] at hc
  have hplain := notMem_of_copiesFrom hroot ht hcited hc (by rw [hxold, hold, hslice])
  subst hx
  have hneutral : Respelling.Neutral ⟨l.file, source.take l.start, source.extract l.start l.stop, s, source.drop l.stop⟩ := by
    refine ⟨hstarts, hends, fun d hd => ?_, hne, hletters, hunmarked.name, hunmarked.label⟩
    have hmem : d ∈ ['*', '_', '[', ']'] ++ ['\\', '\n'] := hd
    exact (List.mem_append.1 hmem).elim (hunmarked.plain d) (hplain d)
  have hread := exists_text_write honce hroot ht hneutral (hload.trans (congrArg some hwhole.symm)) hcited hc
  dsimp only [Respelling.newTail] at hread
  rwa [hold, ← List.append_assoc] at hread

end Read

/-- Following a quick fix puts its value in place of the range that it is for. -/
theorem Shadow.changeAll_quickFix {file : FileId} {t : Text} {a b : Nat} (hab : a ≤ b) (hb : b ≤ t.length) (uri : String)
    (d : Json) (value : String) (first : Bool) :
    (Shadow.text (.ofText file t)).changeAll file
        (Editor.changesOf uri (Editor.quickFix uri d (Editor.range (.ofText file t) a b) (.str value) first)) =
      (.text (.ofText file (t.take a ++ value.toList ++ t.drop b)), none) := by
  have hchanges : Editor.changesOf uri (Editor.quickFix uri d (Editor.range (.ofText file t) a b) (.str value) first) =
      [.obj [("range", Editor.range (.ofText file t) a b), ("text", .str value)]] := by
    simp [Editor.changesOf, Editor.quickFix, Json.field, Json.get?, Json.items, List.lookup_cons]
  rw [hchanges, Shadow.changeAll, Shadow.change_range file hab hb value]
  rfl

section Fix

variable {lib : Library} {main : FileId} {root : Node} {table : Table} {r : Resolver} {language : Language} {t : CheckedText}
variable {m : Mapper} {splits : List Int} {f : Finding} {ds : List Diagnostic} {d : Diagnostic} {a b i : Nat} {source : Text}
variable {value : String}

end Fix

theorem Markup.starts_iff {t : Text} : Starts t ↔ t.head?.any isPlainLetter = true := by
  cases t with
  | nil => simp [Starts]
  | cons c r => simp [Starts]

instance (t : Text) : Decidable (Starts t) := decidable_of_iff _ starts_iff.symm

instance (m : SourceMap) (a b : Nat) : Decidable (m.Copied a b) :=
  decidable_of_iff (∀ o < b, a ≤ o → ∃ e ∈ m.entries.toList, e.exact = true ∧ e.start ≤ o ∧ o < e.stop)
    ⟨fun h o ha hb => h o hb ha, fun h o hb ha => h o ha hb⟩

instance (file : FileId) (ls : List Location) : Decidable (InLine file ls) :=
  decidable_of_iff ((∀ l ∈ ls, l.file = file) ∧ (∀ l ∈ ls, l.start ≤ l.stop) ∧ ls.Pairwise fun l k => l.stop ≤ k.start)
    ⟨fun ⟨hfile, hvalid, hordered⟩ => ⟨hfile, hvalid, hordered⟩, fun h => ⟨h.file, h.valid, h.ordered⟩⟩

/-- A finding with one suggestion, over `[a, b)` of the text of a document that is one file, and the range of one of its
diagnostics. `refit` is the text of the document when the quick fix for that one has been followed. -/
structure Trial where
  table : Table
  source : Text
  text : Text
  a : Nat
  b : Nat
  value : String
  range : Location
  refit : Text

namespace Trial

def library (x : Trial) : Library := ⟨[("a", x.source)], fun _ path => String.ofList path⟩

def texts (x : Trial) (lib : Library) : List CheckedText :=
  match (lib.read "a").document with
  | some root => (extract x.table mixedResolver defaultLanguage root).texts
  | none => []

def mapper : Mapper := ⟨[], true⟩

def finding (x : Trial) : Finding := ⟨x.a, x.b - x.a, .str "R", .str "M", [.str x.value], .str "TYPOS", .str ""⟩

def diagnostic (x : Trial) (t : CheckedText) : Diagnostic :=
  ⟨x.range, .str "R", .str "M", [.str x.value], .information, t.profile.tag⟩

def fixed (x : Trial) : Text := x.source.take x.range.start ++ x.value.toList ++ x.source.drop x.range.stop

/-- The ranges of the finding, unmerged. -/
def ranges (x : Trial) (t : CheckedText) : List Location := (t.map.overlapping x.a x.b).map (·.project x.a x.b)

/-- The finding is kept, and `range` is one of its ranges when those that touch are made one. -/
def Keeps (x : Trial) (t : CheckedText) : Prop :=
  (mapper.keep t [] x.finding).toOption = some true ∧ InLine "a" (x.ranges t) ∧
    x.range ∈ (x.ranges t).head?.elim [] (mergeSorted · (x.ranges t).tail)

instance (x : Trial) (t : CheckedText) : Decidable (x.Keeps t) := inferInstanceAs (Decidable (_ ∧ _ ∧ _))

/-- The fix for the diagnostic does not put the value in place of the span of the finding. -/
structure Misses (x : Trial) : Prop where
  once : x.library.ReadsOnce "a"
  letters : x.value.toList ≠ [] ∧ ∀ c ∈ x.value.toList, isPlainLetter c = true
  found : ∃ t ∈ x.texts x.library, t.text = x.text ∧ t.map.Copied x.a x.b ∧ Starts (t.text.extract x.a x.b) ∧
    (t.text.extract x.a x.b).getLast?.any isPlainLetter = true ∧
    ∃ ds, mapper.diagnose t [] x.finding = .ok ds ∧ x.diagnostic t ∈ ds ∧
      ∃ fix, Editor.quickFixes "file:///a" (Editor.diagnostic (.ofText "a" x.source) (x.diagnostic t)) = .ok [fix] ∧
        (Shadow.text (.ofText "a" x.source)).changeAll "a" (Editor.changesOf "file:///a" fix) = (.text (.ofText "a" x.fixed), none)
  misses : (x.texts (x.library.write "a" x.fixed)).map (·.text) = [x.refit] ∧
    x.refit ≠ x.text.take x.a ++ x.value.toList ++ x.text.drop x.b

theorem exists_diagnostic {x : Trial} {t : CheckedText} (h : x.Keeps t) :
    ∃ ds, mapper.diagnose t [] x.finding = .ok ds ∧ x.diagnostic t ∈ ds := by
  obtain ⟨hkeep, hin, hmem⟩ := h
  have hkeep : mapper.keep t [] x.finding = .ok true := by
    cases hk : mapper.keep t [] x.finding with
    | error e => rw [hk] at hkeep; cases hkeep
    | ok b => rw [hk] at hkeep; exact congrArg _ (Option.some.inj hkeep)
  have hproject : t.map.project x.finding.offset x.finding.stop = .ok (mergeLocations (x.ranges t)) := by
    have hstop : x.finding.stop = x.b := by
      simp only [Finding.stop, finding]
      omega
    rw [hstop]
    refine SourceMap.project_eq_ok.2 ⟨fun hnil => ?_, rfl⟩
    have hranges : x.ranges t = [] := congrArg (List.map _) hnil
    rw [hranges] at hmem
    cases hmem
  refine ⟨(mergeLocations (x.ranges t)).map fun l => ⟨l, .str "R", .str "M", [.str x.value], .information, t.profile.tag⟩, ?_, ?_⟩
  · unfold Mapper.diagnose
    rw [hkeep, hproject]
    rfl
  · refine List.mem_map.2 ⟨x.range, ?_, rfl⟩
    cases hranges : x.ranges t with
    | nil => rw [hranges] at hmem; cases hmem
    | cons l r =>
      rw [hranges] at hin hmem
      rw [hin.mergeLocations_cons]
      exact hmem

/-- A word that is in bold in part: of the word, only the part goes. -/
def bold : Trial :=
  ⟨.checking 1, "A *Teh*re word.\n".toList, "A Tehre word.".toList, 2, 7, "There", ⟨"a", 3, 6⟩, "A Therere word.".toList⟩

/-- Spans that are no single range, or that marks have to do with. -/
def elsewhere : List Trial := [
  bold,
  -- a letter in place of the blank: what follows is no emphasis
  ⟨.checking 1, "a _b_ c\n".toList, "a b c".toList, 0, 5, "x", ⟨"a", 0, 2⟩, "x_b_ c".toList⟩,
  -- marks that stand for themselves count where a mark is looked for that closes another
  ⟨.checking 1, "*a _b x * y_ c\n".toList, "a b x * y c".toList, 4, 9, "z", ⟨"a", 6, 11⟩, "*a b z c".toList⟩,
  ⟨.checking 1, "_a *b x _ y* c\n".toList, "a b x _ y c".toList, 4, 9, "z", ⟨"a", 6, 11⟩, "_a b z c".toList⟩,
  ⟨.checking 1, "#emph[x [a]b y] z\n".toList, "x [a]b y z".toList, 3, 6, "q", ⟨"a", 9, 12⟩, "x [q y] z".toList⟩,
  ⟨.checking 1, "#emph[x a[b y] z] w\n".toList, "x a[b y] z w".toList, 2, 5, "q", ⟨"a", 8, 11⟩, "x q y z] w".toList⟩,
  -- the letters complete a name or a label
  ⟨.checking 1, "see @äb now\n".toList, "see @äb now".toList, 5, 7, "ab", ⟨"a", 5, 7⟩, "see [1] now".toList⟩,
  ⟨.checking 1, "see #äb now\n".toList, "see #äb now".toList, 5, 7, "ab", ⟨"a", 5, 7⟩, "see now".toList⟩,
  ⟨.checking 1, "#set äb now\n".toList, "äb now".toList, 0, 2, "ab", ⟨"a", 5, 7⟩, "now".toList⟩,
  ⟨.checking 1, "<a b> c\n".toList, "<a b> c".toList, 1, 4, "ab", ⟨"a", 1, 4⟩, "c".toList⟩,
  -- a citation that is shown as it is written
  ⟨(Table.checking 1).set .citation .identity, "see #cite(<foo>) now\n".toList, "see #cite(<foo>) now".toList, 5, 14, "x",
    ⟨"a", 5, 14⟩, "see >) now".toList⟩]

theorem exists_keeps : ∀ x ∈ elsewhere, ∃ t ∈ x.texts x.library, t.text = x.text ∧ t.map.Copied x.a x.b ∧
    Starts (t.text.extract x.a x.b) ∧ (t.text.extract x.a x.b).getLast?.any isPlainLetter = true ∧ x.Keeps t := by
  decide +kernel

theorem range_le : ∀ x ∈ elsewhere, x.range.start ≤ x.range.stop ∧ x.range.stop ≤ x.source.length := by decide +kernel

end Trial

open Trial

end Proofreader
