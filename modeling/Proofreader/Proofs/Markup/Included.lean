import Proofreader.Proofs.Markup.Asked
import Proofreader.Proofs.Markup.Includes

/-! The files that reading asks for are the main file and those that the includes of the document name: every include
is in the document, and none of them goes unasked unless its file is being read. -/

namespace Proofreader.Markup

namespace Cursor

theorem asked_close (t s : Cursor) : (t.close s).asked = t.asked := by
  unfold close
  split
  · rfl
  · rfl

theorem asked_undelimit (t : Cursor) (c : Char) : (t.undelimit c).asked = t.asked := by
  unfold undelimit
  split
  · rfl
  · rfl

end Cursor

theorem Passes.asked {s t : Cursor} (h : Passes s t) : t.asked = s.asked := by
  cases h with
  | spaces | heading | item | comment | label | line | pathless => rfl
  | set => exact asked_setRule _
  | call => exact Cursor.asked_arguments _
  | layout _ _ ht =>
    subst ht
    exact (Cursor.asked_skipContent _ _).trans (Cursor.asked_arguments _)

theorem Shows.asked {stop : Option Char} {s t : Cursor} {kind : Kind} (h : Shows stop s kind t) : t.asked = s.asked := by
  cases h with
  | space | text | linebreak | escape | math | citation => rfl
  | raw page =>
    unfold rawNode
    split
    · rfl
    · rfl
  | call => exact Cursor.asked_arguments _

namespace Library

/-- The node is an include in a file of the library, and `target` is the file that it names. -/
def Cites (lib : Library) (n : Node) (target : FileId) : Prop :=
  ∃ text, lib.load n.location.file = some text ∧ lib.Names n.location.file text n target

theorem Names.unique {lib : Library} {file target other : FileId} {source : Text} {n : Node}
    (h : lib.Names file source n target) (k : lib.Names file source n other) : target = other := by
  obtain ⟨tabs, path, htabs, -, hwritten, rfl⟩ := h.written
  obtain ⟨tabs', path', htabs', -, hwritten', rfl⟩ := k.written
  have hboth : tabs ++ '"' :: (path ++ ['"']) = tabs' ++ '"' :: (path' ++ ['"']) := by
    rw [← List.append_right_inj "#include".toList, ← List.append_assoc, ← List.append_assoc, ← hwritten, ← hwritten']
  have hpast : ∀ (tabs path : Text), (∀ c ∈ tabs, isTab c = true) →
      (tabs ++ '"' :: (path ++ ['"'])).dropWhile isTab = '"' :: (path ++ ['"']) := fun _ _ h => by
    rw [List.dropWhile_append_of_pos h]
    rfl
  have hrest := hpast tabs path htabs
  rw [hboth, hpast tabs' path' htabs'] at hrest
  rw [List.append_cancel_right (List.cons.inj hrest).2]

theorem Cites.unique {lib : Library} {n : Node} {target other : FileId} (h : lib.Cites n target) (k : lib.Cites n other) :
    target = other := by
  obtain ⟨text, hl, hnames⟩ := h
  obtain ⟨text', hl', hnames'⟩ := k
  rw [hl] at hl'
  cases hl'
  exact hnames.unique hnames'

/-- The files asked for are those that the includes among the nodes name, but for files that are being read. -/
structure Accounts (lib : Library) (reading : List FileId) (ns : List Node) (asked : List FileId) : Prop where
  named : ∀ f ∈ asked, ∃ n ∈ Node.preorders ns, lib.Cites n f
  asked : ∀ n ∈ Node.preorders ns, n.kind = .inclusion → ∃ f, lib.Cites n f ∧ (f ∈ asked ∨ f ∈ reading)
  childless : ∀ n ∈ ns, n.kind.isLeaf = true → n.children = []

/-- What an include of `target` comes to. -/
structure Accounted (lib : Library) (reading : List FileId) (target : FileId) (ns : List Node) (asked : List FileId) :
    Prop where
  named : ∀ f ∈ asked, f = target ∨ ∃ n ∈ Node.preorders ns, lib.Cites n f
  target : target ∈ asked ∨ target ∈ reading
  asked : ∀ n ∈ Node.preorders ns, n.kind = .inclusion → ∃ f, lib.Cites n f ∧ (f ∈ asked ∨ f ∈ reading)

namespace Accounts

variable {lib : Library} {reading : List FileId} {n : Node} {ns ms : List Node} {asked asked' : List FileId}

theorem nil : lib.Accounts reading [] [] := ⟨nofun, nofun, nofun⟩

theorem append (h : lib.Accounts reading ns asked) (k : lib.Accounts reading ms asked') :
    lib.Accounts reading (ns ++ ms) (asked ++ asked') := by
  have hpreorders := Node.preorders_append ns ms
  refine ⟨fun f hf => ?_, fun n hn hkind => ?_, fun n hn => ?_⟩
  · rw [hpreorders]
    rcases List.mem_append.1 hf with hf | hf
    · obtain ⟨n, hn, hcites⟩ := h.named f hf
      exact ⟨n, List.mem_append_left _ hn, hcites⟩
    · obtain ⟨n, hn, hcites⟩ := k.named f hf
      exact ⟨n, List.mem_append_right _ hn, hcites⟩
  · rw [hpreorders] at hn
    rcases List.mem_append.1 hn with hn | hn
    · obtain ⟨f, hcites, hf⟩ := h.asked n hn hkind
      exact ⟨f, hcites, hf.imp_left (List.mem_append_left _)⟩
    · obtain ⟨f, hcites, hf⟩ := k.asked n hn hkind
      exact ⟨f, hcites, hf.imp_left (List.mem_append_right _)⟩
  · rcases List.mem_append.1 hn with hn | hn
    · exact h.childless n hn
    · exact k.childless n hn

/-- A node that is no include asks for what its children ask for. -/
theorem node (h : lib.Accounts reading n.children asked) (hkind : n.kind ≠ .inclusion)
    (hleaf : n.kind.isLeaf = true → n.children = []) : lib.Accounts reading [n] asked := by
  refine ⟨fun f hf => ?_, fun m hm hm' => ?_, fun m hm => ?_⟩
  · obtain ⟨m, hm, hcites⟩ := h.named f hf
    exact ⟨m, Node.preorders_singleton n ▸ List.mem_cons_of_mem _ hm, hcites⟩
  · rw [Node.preorders_singleton] at hm
    rcases List.mem_cons.1 hm with rfl | hm
    · exact absurd hm' hkind
    · exact h.asked m hm hm'
  · rw [List.mem_singleton.1 hm]
    exact hleaf

/-- An include asks for the file that it names, and for what is read there. -/
theorem inclusion {target : FileId} (h : lib.Accounted reading target n.children asked) (hkind : n.kind = .inclusion)
    (hcites : lib.Cites n target) : lib.Accounts reading [n] asked := by
  refine ⟨fun f hf => ?_, fun m hm hm' => ?_, fun m hm hleaf => ?_⟩
  · rcases h.named f hf with rfl | ⟨m, hm, hcites'⟩
    · exact ⟨n, Node.preorders_singleton n ▸ List.mem_cons_self, hcites⟩
    · exact ⟨m, Node.preorders_singleton n ▸ List.mem_cons_of_mem _ hm, hcites'⟩
  · rw [Node.preorders_singleton] at hm
    rcases List.mem_cons.1 hm with rfl | hm
    · exact ⟨target, hcites, h.target⟩
    · exact h.asked m hm hm'
  · rw [List.mem_singleton.1 hm, hkind] at hleaf
    cases hleaf

/-- Nothing asks for a file at the spaces that are trimmed. -/
theorem trimSpaces (h : lib.Accounts reading ns asked) : lib.Accounts reading (Markup.trimSpaces ns) asked := by
  obtain ⟨before, after, he, hbefore, hafter⟩ := exists_trimSpaces ns
  have hspace : ∀ n ∈ ns, isSpaceNode n = true → n.preorder = [n] ∧ n.kind = .space := fun n hn hs => by
    have hkind : n.kind = .space := by simpa [isSpaceNode] using hs
    have hchildren := h.childless n hn (by rw [hkind]; rfl)
    exact ⟨by rw [Node.preorder_eq, hchildren, List.flatMap_nil], hkind⟩
  have hsub := trimSpaces_sublist ns
  have hkept : ∀ n ∈ Node.preorders ns, n.kind = .inclusion → n ∈ Node.preorders (Markup.trimSpaces ns) := by
    intro n hn hkind
    rw [Node.preorders_eq, List.mem_flatMap] at hn ⊢
    obtain ⟨m, hm, hn⟩ := hn
    refine ⟨m, ?_, hn⟩
    have hm' := hm
    rw [he, List.mem_append, List.mem_append] at hm'
    have hout : ¬ isSpaceNode m = true := fun hs => by
      obtain ⟨hself, hspace⟩ := hspace m hm hs
      rw [hself, List.mem_singleton] at hn
      rw [hn, hspace] at hkind
      cases hkind
    rcases hm' with (hm' | hm') | hm'
    · exact absurd (hbefore m hm') hout
    · exact hm'
    · exact absurd (hafter m hm') hout
  refine ⟨fun f hf => ?_, fun n hn hkind => ?_, fun n hn => h.childless n (hsub.subset hn)⟩
  · obtain ⟨n, hn, hcites⟩ := h.named f hf
    obtain ⟨text, -, hnames⟩ := id hcites
    exact ⟨n, hkept n hn hnames.kind, hcites⟩
  · exact h.asked n (Node.mem_preorders_of_sublist hsub hn) hkind

end Accounts

end Library

section Page

variable {lib : Library} {page : Page} {reading : List FileId} {source : Text} {s t : Cursor} {ns : List Node}

/-- What is read on a page accounts for what the page asks for. -/
theorem Read.accounts {stop : Option Char} (h : Read page stop s ns t) (hs : s.At source)
    (hl : lib.load page.file = some source)
    (hp : ∀ path here scope, lib.Accounted reading (lib.resolve page.file path) (page.fetch path here scope).nodes
      (page.fetch path here scope).asked) :
    ∃ asked, t.asked = s.asked ++ asked ∧ lib.Accounts reading ns asked := by
  induction h with
  | stay => exact ⟨[], (List.append_nil _).symm, .nil⟩
  | seq h k ih ih' =>
    obtain ⟨asked, hasked, hns⟩ := ih hs
    obtain ⟨later, hlater, hms⟩ := ih' (h.reaches.at hs)
    exact ⟨asked ++ later, by rw [hlater, hasked, List.append_assoc], hns.append hms⟩
  | trim _ ih =>
    obtain ⟨asked, hasked, hns⟩ := ih hs
    exact ⟨asked, hasked, hns.trimSpaces⟩
  | pass h => exact ⟨[], by rw [h.asked, List.append_nil], .nil⟩
  | leaf _ _ h => exact ⟨[], by rw [h.asked, List.append_nil], .node .nil h.ne_inclusion fun _ => rfl⟩
  | node _ hleaf hkind _ _ ih =>
    obtain ⟨asked, hasked, hns⟩ := ih hs
    exact ⟨asked, hasked, hns.node hkind fun h => absurd (hleaf.symm.trans h) Bool.false_ne_true⟩
  | @delimited _ s t u c ns _ _ _ hu ih =>
    obtain ⟨asked, hasked, hns⟩ := ih ((s.reaches_advance 1).at hs)
    refine ⟨asked, by rw [hu, t.asked_undelimit]; exact hasked, Library.Accounts.node hns ?_ fun h => ?_⟩
    · change (if c = '*' then Kind.strong else .emph) ≠ .inclusion
      split
      · exact nofun
      · exact nofun
    · change (if c = '*' then Kind.strong else .emph).isLeaf = true at h
      split at h
      · cases h
      · cases h
  | rule _ hv _ =>
    refine ⟨[], ?_, .nil⟩
    rw [List.append_nil, hv]
    exact Cursor.asked_arguments _
  | @content _ s t _ _ _ _ ih =>
    obtain ⟨asked, hasked, hns⟩ := ih (s.reaches_open.at hs)
    exact ⟨asked, (t.asked_close s).trans hasked, hns⟩
  | @text _ s v t scope _ _ hv _ _ _ _ ih =>
    have hargs : s.Reaches { v.advance 1 with depth := 0, scope := scope } :=
      ((hv ▸ (s.reaches_advance 5).trans (Cursor.reaches_arguments _)).trans (v.reaches_advance 1)).trans
        (.same rfl rfl rfl List.prefix_rfl)
    obtain ⟨asked, hasked, hns⟩ := ih (hargs.at hs)
    refine ⟨asked, (t.asked_close s).trans (hasked.trans ?_), .node hns nofun nofun⟩
    rw [hv]
    exact congrArg (· ++ asked) (Cursor.asked_arguments _)
  | textless _ hv _ _ =>
    refine ⟨[], ?_, .node .nil nofun nofun⟩
    rw [List.append_nil, hv]
    exact Cursor.asked_arguments _
  | @inclusion _ s v t path got hm hv hpath ht hgot =>
    obtain ⟨hquote, tabs, htabs, hextract⟩ := extract_include hs hm hv hpath ht
    have haccounted := hp path ⟨page.file, s.pos, t.pos⟩ s.scope
    rw [← hgot] at haccounted
    have hasked : t.asked = s.asked := by
      rw [ht, hv]
      rfl
    refine ⟨got.asked, congrArg (· ++ got.asked) hasked, .inclusion haccounted rfl ⟨source, hl, ?_⟩⟩
    exact ⟨rfl, ⟨tabs, path, htabs, hquote, hextract, rfl⟩, rfl⟩

end Page

namespace Library

variable {lib : Library} {main : FileId} {text : Text}

theorem accounted_readFile (levels : Nat) {chain : List FileId} {file : FileId} {at? : Option Location} {scope : Scope} :
    lib.Accounted chain file ((lib.readFile levels chain file at? scope).document.elim [] (·.children))
      (lib.readFile levels chain file at? scope).asked := by
  induction levels generalizing chain file at? scope with
  | zero =>
    by_cases hc : file ∈ chain
    · rw [readFile_of_mem hc]
      exact ⟨nofun, Or.inr hc, nofun⟩
    · rw [readFile_of_missing hc (Or.inl rfl)]
      exact ⟨fun f hf => Or.inl (List.mem_singleton.1 hf), Or.inl (List.mem_singleton_self _), nofun⟩
  | succ levels ih =>
    by_cases hc : file ∈ chain
    · rw [readFile_of_mem hc]
      exact ⟨nofun, Or.inr hc, nofun⟩
    · cases hl : lib.load file with
      | none =>
        rw [readFile_of_missing hc (Or.inr hl)]
        exact ⟨fun f hf => Or.inl (List.mem_singleton.1 hf), Or.inl (List.mem_singleton_self _), nofun⟩
      | some text =>
        have hpage : ∀ path here scope, lib.Accounted (file :: chain) (lib.resolve file path)
            ((lib.page levels chain file).fetch path here scope).nodes
            ((lib.page levels chain file).fetch path here scope).asked := fun _ _ _ => ih
        obtain ⟨asked, hasked, hns⟩ :=
          (read_parse (lib.page levels chain file) text scope).1.accounts (Cursor.at_start text scope) hl hpage
        have hasked : (parse (lib.page levels chain file) text scope).2.asked = asked := hasked
        rw [readFile_eq hc hl, hasked]
        refine ⟨fun f hf => ?_, Or.inl List.mem_cons_self, fun n hn hkind => ?_⟩
        · exact (List.mem_cons.1 hf).imp_right (hns.named f)
        · obtain ⟨f, hcites, hf⟩ := hns.asked n hn hkind
          refine ⟨f, hcites, ?_⟩
          rcases hf with hf | hf
          · exact Or.inl (List.mem_cons_of_mem _ hf)
          · rcases List.mem_cons.1 hf with rfl | hf
            · exact Or.inl List.mem_cons_self
            · exact Or.inr hf

/-- Without a document there is no text of the main file. -/
theorem load_of_document_eq_none (h : (lib.read main).document = none) : lib.load main = none := by
  cases hl : lib.load main with
  | none => rfl
  | some source =>
    obtain ⟨ns, ws, asked, hread, -⟩ : ∃ ns ws asked, lib.read main =
        ⟨some ⟨.document, ⟨main, 0, source.length⟩, [], .unset, 0, false, ns⟩, ws, asked⟩ ∧
          lib.Answers [] main source ns ws :=
      answers_readFile (open_nil lib) (Nat.le_refl _) List.not_mem_nil hl
    rw [hread] at h
    cases h

/-- A main file without a text is all that is asked for. -/
theorem read_of_missing (h : lib.load main = none) : lib.read main = ⟨none, [missingWarning main none], [main]⟩ :=
  readFile_of_missing List.not_mem_nil (Or.inr h)

/-- A document asks for its main file and for the files that its includes name. -/
theorem mem_asked_iff {root : Node} (h : (lib.read main).document = some root) (f : FileId) :
    f ∈ (lib.read main).asked ↔ f = main ∨ ∃ n ∈ root.preorder, lib.Cites n f := by
  have haccounted : lib.Accounted [] main ((lib.read main).document.elim [] (·.children)) (lib.read main).asked :=
    accounted_readFile _
  rw [h, Option.elim_some] at haccounted
  obtain ⟨source, hlaid⟩ := laidOut_read lib main h
  have hkind : root.kind ≠ .inclusion := by
    rw [hlaid.root]
    exact nofun
  rw [Node.preorder_eq, ← Node.preorders_eq]
  constructor
  · intro hf
    rcases haccounted.named f hf with hmain | ⟨n, hn, hcites⟩
    · exact Or.inl hmain
    · exact Or.inr ⟨n, List.mem_cons_of_mem _ hn, hcites⟩
  · rintro (rfl | ⟨n, hn, hcites⟩)
    · exact haccounted.target.resolve_right List.not_mem_nil
    · obtain ⟨_, _, hnames⟩ := id hcites
      rcases List.mem_cons.1 hn with rfl | hn
      · exact absurd hnames.kind hkind
      · obtain ⟨g, hcites', hg⟩ := haccounted.asked n hn hnames.kind
        rw [hcites.unique hcites']
        exact hg.resolve_right List.not_mem_nil

end Library

end Proofreader.Markup
