import Proofreader.Proofs.Markup.Parser

/-! Reading a main file lays out its document and the documents of all files that it includes, each in the text
that the library has for the file. -/

namespace Proofreader.Markup

/-- The document in `file` as reading leaves it, while the files of `chain` include it. The files that it is read from
are among those that were asked for. -/
structure LaidOut (lib : Library) (asked : List FileId) (chain : List FileId) (file : FileId) (text : Text)
    (n : Node) : Prop where
  fresh : file ∉ chain
  loaded : lib.load file = some text
  root : n = ⟨.document, ⟨file, 0, text.length⟩, [], .unset, 0, false, n.children⟩
  level : BlockLevel n.children
  laid : ∃ visits, (file :: visits).Sublist asked ∧ Laid lib visits chain file text 0 n.children text.length

namespace LaidOut

variable {lib : Library} {asked chain : List FileId} {file : FileId} {text : Text} {n m : Node}

theorem location (h : LaidOut lib asked chain file text n) : n.location = ⟨file, 0, text.length⟩ := by
  rw [h.root]

theorem readFrom (h : LaidOut lib asked chain file text n) : ReadFrom file text n := by
  rw [h.root]
  exact ⟨rfl, Nat.zero_le _, nofun, nofun, by simp⟩

/-- Every node of a document stands in a file that was loaded and asked for, inside its text. -/
theorem exists_readFrom (h : LaidOut lib asked chain file text n) (hm : m ∈ n.preorder) :
    ∃ f t, lib.Leads file f ∧ lib.load f = some t ∧ f ∈ asked ∧ ReadFrom f t m ∧ m.location.stop ≤ t.length := by
  obtain ⟨visits, hasked, hlaid⟩ := h.laid
  rw [Node.preorder_eq, ← Node.preorders_eq, List.mem_cons] at hm
  rcases hm with rfl | hm
  · exact ⟨file, text, .main, h.loaded, hasked.subset List.mem_cons_self, h.readFrom,
      Nat.le_of_eq (congrArg Location.stop h.location)⟩
  · obtain ⟨f, t, hf, ht, hmem, hread⟩ := hlaid.exists_readFrom (Nat.le_refl _) .main h.loaded hm
    exact ⟨f, t, hf, ht, hasked.subset hmem, hread⟩

theorem valid (h : LaidOut lib asked chain file text n) (hm : m ∈ n.preorder) : m.location.Valid := by
  obtain ⟨f, t, -, -, -, hread, -⟩ := h.exists_readFrom hm
  exact hread.valid

end LaidOut

namespace Library

variable {lib : Library} {levels : Nat} {chain : List FileId} {file : FileId} {at? : Option Location} {scope : Scope}
variable {text : Text} {n : Node}

/-- The page on which `file` is read. -/
def page (lib : Library) (levels : Nat) (chain : List FileId) (file : FileId) : Page where
  file := file
  fetch path here scope :=
    let got := lib.readFile levels (file :: chain) (lib.resolve file path) (some here) scope
    ⟨got.document.elim [] (·.children), got.warnings, got.asked⟩

theorem readFile_eq (hc : file ∉ chain) (hl : lib.load file = some text) :
    lib.readFile (levels + 1) chain file at? scope =
      ⟨some ⟨.document, ⟨file, 0, text.length⟩, [], .unset, 0, false, (parse (lib.page levels chain file) text scope).1⟩,
        (parse (lib.page levels chain file) text scope).2.warnings,
        file :: (parse (lib.page levels chain file) text scope).2.asked⟩ := by
  have hcontains : chain.contains file = false := by simpa using hc
  unfold readFile
  rw [hcontains, hl, if_neg Bool.false_ne_true]
  dsimp only [page]

theorem readFile_of_mem (hc : file ∈ chain) :
    lib.readFile levels chain file at? scope = ⟨none, [cycleWarning file at?], []⟩ := by
  unfold readFile
  rw [if_pos (List.contains_iff_mem.2 hc)]

theorem readFile_of_missing (hc : file ∉ chain) (h : levels = 0 ∨ lib.load file = none) :
    lib.readFile levels chain file at? scope = ⟨none, [missingWarning file at?], [file]⟩ := by
  unfold readFile
  rw [if_neg (mt List.contains_iff_mem.1 hc)]
  split
  · next text hl =>
    rcases h with h | h
    · cases h
    · rw [h] at hl
      cases hl
  · rfl

/-- What reading without a document comes to: a cycle, no more levels or a missing file. -/
theorem exists_of_document (h : (lib.readFile levels chain file at? scope).document = some n) :
    file ∉ chain ∧ ∃ k text, levels = k + 1 ∧ lib.load file = some text := by
  unfold readFile at h
  split at h
  · cases h
  · next hc =>
    refine ⟨by simpa using hc, ?_⟩
    split at h
    · next k text hl => exact ⟨k, text, rfl, hl⟩
    · cases h

/-- What a page includes lies in another file of the library if what is read there is laid out. -/
theorem includes_page (h : ∀ {chain : List FileId} {file : FileId} {at? : Option Location} {scope : Scope} {n : Node},
      (lib.readFile levels chain file at? scope).document = some n →
        ∃ text, LaidOut lib (lib.readFile levels chain file at? scope).asked chain file text n)
    (chain : List FileId) (file : FileId) : (lib.page levels chain file).Includes lib chain := by
  intro path here scope
  cases hd : (lib.readFile levels (file :: chain) (lib.resolve file path) (some here) scope).document with
  | none => exact Or.inl (by simp [page, hd])
  | some m =>
    obtain ⟨t, ht⟩ := h hd
    obtain ⟨visits, hasked, hlaid⟩ := ht.laid
    refine Or.inr ?_
    simp only [page, hd, Option.elim_some]
    exact ⟨ht.level, _, t, visits, ⟨path, rfl⟩, ht.fresh, ht.loaded, hasked, hlaid⟩

/-- The document read in a file, with all that it includes, is laid out in its text. -/
theorem laidOut_readFile (h : (lib.readFile levels chain file at? scope).document = some n) :
    ∃ text, LaidOut lib (lib.readFile levels chain file at? scope).asked chain file text n := by
  induction levels generalizing chain file at? scope n with
  | zero =>
    obtain ⟨-, k, -, hk, -⟩ := exists_of_document h
    cases hk
  | succ levels ih =>
    obtain ⟨hc, -, text, -, hl⟩ := exists_of_document h
    obtain ⟨hlays, hlevel⟩ := lays_parse (includes_page ih chain file) text scope
    rw [readFile_eq hc hl] at h ⊢
    cases h
    have hend := (hlays.reaches.at (Cursor.at_start text scope)).le
    obtain ⟨visits, hasked, hlaid⟩ := hlays.laid
    exact ⟨text, hc, hl, rfl, hlevel, visits, hasked.cons_cons file, hlaid.widen (Nat.le_refl _) hend⟩

theorem laidOut_read (lib : Library) (main : FileId) (h : (lib.read main).document = some n) :
    ∃ text, LaidOut lib (lib.read main).asked [] main text n :=
  laidOut_readFile h

end Library

end Proofreader.Markup
