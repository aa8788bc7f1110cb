import Proofreader.Proofs.Collections
import Proofreader.Proofs.Style.Stream

/-! The pieces of a stream, separators left out, told from the nodes of the tree alone. A node that is dropped or
rewritten hides what is below it; apart from that each node is shown by itself, in the language that the nodes above it
hand down. So pieces depend on what is dropped and rewritten, and on no other rule. -/

namespace Proofreader

def Segment.piece? : Segment → Option Piece
  | .piece p => some p
  | .separator _ _ => none

/-- A stream without its separators. -/
def piecesOf (ss : List Segment) : List Piece := ss.filterMap Segment.piece?

@[simp] theorem piecesOf_nil : piecesOf [] = [] := rfl

@[simp] theorem piecesOf_append (xs ys : List Segment) : piecesOf (xs ++ ys) = piecesOf xs ++ piecesOf ys :=
  List.filterMap_append

@[simp] theorem piecesOf_cons_piece (p : Piece) (ss : List Segment) : piecesOf (.piece p :: ss) = p :: piecesOf ss := rfl

theorem piecesOf_separators {ss : List Segment} (h : ∀ x ∈ ss, x.IsSeparator) : piecesOf ss = [] := by
  refine List.filterMap_eq_nil_iff.2 ?_
  intro x hx
  have hsep := h x hx
  cases x with
  | piece p => exact hsep.elim
  | separator language page => rfl

namespace Table

/-- Nothing below the node is shown. -/
def masks (table : Table) (n : Node) : Bool :=
  (table.ruleFor n.kind).effect = .drop || (table.ruleFor n.kind).effect = .rewrite

/-- The tables drop the same kinds and rewrite the same kinds to the same tokens. What they do with the other kinds may
differ. -/
structure Alike (t u : Table) : Prop where
  drop : ∀ k, (t.ruleFor k).effect = .drop ↔ (u.ruleFor k).effect = .drop
  rewrite : ∀ k, (t.ruleFor k).effect = .rewrite ↔ (u.ruleFor k).effect = .rewrite
  token : ∀ k, (t.ruleFor k).effect = .rewrite → (t.ruleFor k).token = (u.ruleFor k).token

variable {t u : Table}

theorem Alike.masks_eq (h : t.Alike u) (n : Node) : t.masks n = u.masks n := by
  simp only [masks, h.drop, h.rewrite]

theorem mem_tokens {k : Kind} (hrewrite : (t.ruleFor k).effect = .rewrite) (htoken : (t.ruleFor k).token ≠ []) :
    (t.ruleFor k).token ∈ t.tokens := by
  refine List.mem_eraseDups.2 (List.mem_filterMap.2 ⟨k, k.mem_all, ?_⟩)
  rw [Rule.token?, if_pos ⟨hrewrite, htoken⟩]

end Table

namespace Node

mutual

/-- The nodes of a tree in document order, each with the nodes above it, the outermost first. A leaf has none below. -/
def lineage (above : List Node) : Node → List (List Node × Node)
  | ⟨kind, location, text, scope, level, verbatim, children⟩ =>
    let self : Node := ⟨kind, location, text, scope, level, verbatim, children⟩
    (above, self) :: if kind.isLeaf then [] else lineages (above ++ [self]) children

def lineages (above : List Node) : List Node → List (List Node × Node)
  | [] => []
  | n :: r => n.lineage above ++ lineages above r

end

/-- The language that some nodes hand down, one below the other. -/
def languageBelow (outer : Language) (above : List Node) : Language := above.foldl (fun l n => n.scope.within l) outer

/-- What a node below the others shows, unless one of these masks it: the token that it is rewritten to, if there is one, or
the text of a leaf that is not dropped, if it has one. -/
def shown? (table : Table) (outer : Language) : List Node × Node → Option Piece
  | (above, n) =>
    if above.any table.masks then none
    else
      let language := languageBelow outer (above ++ [n])
      match (table.ruleFor n.kind).effect with
      | .drop => none
      | .rewrite =>
        let token := (table.ruleFor n.kind).token
        if token = [] then none else some ⟨token, n.location, language, false, true⟩
      | _ =>
        if n.kind.isLeaf ∧ n.text ≠ [] then
          some ⟨n.text, n.location, language, n.verbatim && n.text.length = n.location.length, false⟩
        else none

variable {table : Table} {outer : Language} {above : List Node} {n : Node}

theorem lineages_eq (above ns : List Node) : lineages above ns = ns.flatMap (·.lineage above) := by
  induction ns with
  | nil => rfl
  | cons n r ih => rw [lineages, ih, List.flatMap_cons]

theorem lineage_eq (above : List Node) (n : Node) : n.lineage above =
    (above, n) :: if n.kind.isLeaf then [] else n.children.flatMap (·.lineage (above ++ [n])) := by
  cases n
  rw [lineage, lineages_eq]

/-- In a tree whose leaves have no children, these are all of its nodes. -/
theorem map_snd_lineage (h : ∀ m ∈ n.preorder, m.kind.isLeaf = true → m.children = []) (above : List Node) :
    (n.lineage above).map Prod.snd = n.preorder := by
  induction n using Node.induction generalizing above with
  | h n ih =>
    have hchildren : (if n.kind.isLeaf then [] else n.children.flatMap (·.lineage (above ++ [n]))) =
        n.children.flatMap (·.lineage (above ++ [n])) := by
      split
      · next hleaf => rw [h n n.mem_preorder_self hleaf, List.flatMap_nil]
      · rfl
    rw [lineage_eq, hchildren, preorder_eq, List.map_cons, List.map_flatMap]
    congr 1
    refine List.flatMap_congr fun c hc => ?_
    exact ih c hc (fun m hm => h m (mem_preorder_of_child hc hm)) _

theorem prefix_of_mem_lineage {x : List Node × Node} (h : x ∈ n.lineage above) : above <+: x.1 := by
  induction n using Node.induction generalizing above with
  | h n ih =>
    rw [lineage_eq] at h
    rcases List.mem_cons.1 h with rfl | h
    · exact List.prefix_refl _
    · split at h
      · cases h
      · obtain ⟨c, hc, h⟩ := List.mem_flatMap.1 h
        exact (List.prefix_append _ _).trans (ih c hc h)

/-- Below a node that masks it a whole tree shows nothing. -/
theorem filterMap_lineage_of_masked (h : above.any table.masks = true) :
    (n.lineage above).filterMap (shown? table outer) = [] := by
  refine List.filterMap_eq_nil_iff.2 ?_
  rintro ⟨ancestors, m⟩ hm
  obtain ⟨rest, rfl⟩ := prefix_of_mem_lineage hm
  have hany : (above ++ rest).any table.masks = true := by
    rw [List.any_append, h, Bool.true_or]
  simp only [shown?, hany, if_true]

theorem filterMap_below_of_masked (h : table.masks n = true) :
    (if n.kind.isLeaf then [] else n.children.flatMap (·.lineage (above ++ [n]))).filterMap (shown? table outer) = [] := by
  split
  · rfl
  · rw [List.filterMap_flatMap, List.flatMap_eq_nil_iff]
    intro c _
    exact filterMap_lineage_of_masked (by simp [h])

theorem languageBelow_snoc (outer : Language) (above : List Node) (n : Node) :
    languageBelow outer (above ++ [n]) = n.scope.within (languageBelow outer above) := by
  simp [languageBelow]

theorem piecesOf_opening : piecesOf (n.opening table outer) = [] :=
  piecesOf_separators fun _ hx => separator_of_mem_opening hx

theorem piecesOf_ending : piecesOf (n.ending outer) = [] :=
  piecesOf_separators fun _ hx => separator_of_mem_ending hx

/-- A node that masks nothing shows its own text, if it is a leaf. -/
theorem shown?_of_unmasked (h : above.any table.masks = false) (hn : table.masks n = false) :
    shown? table outer (above, n) =
      if n.kind.isLeaf ∧ n.text ≠ [] then
        some ⟨n.text, n.location, languageBelow outer (above ++ [n]), n.verbatim && n.text.length = n.location.length, false⟩
      else none := by
  simp only [Table.masks, Bool.or_eq_false_iff, decide_eq_false_iff_not] at hn
  simp only [shown?, h, Bool.false_eq_true, if_false]
  split
  · next heffect => exact absurd heffect hn.1
  · next heffect => exact absurd heffect hn.2
  · rfl

/-- What stands inside a node that masks nothing is what the node and those below it show. -/
theorem piecesOf_inside (h : above.any table.masks = false) (hn : table.masks n = false)
    (hc : ∀ c ∈ n.children, piecesOf (c.segments table (languageBelow outer (above ++ [n]))) =
      (c.lineage (above ++ [n])).filterMap (shown? table outer)) :
    piecesOf (n.inside table (languageBelow outer above)) = (n.lineage above).filterMap (shown? table outer) := by
  rw [lineage_eq, List.filterMap_cons, shown?_of_unmasked h hn, inside, ← languageBelow_snoc]
  by_cases hleaf : n.kind.isLeaf = true
  · by_cases htext : n.text = []
    · simp [hleaf, htext, ownPiece]
    · simp [hleaf, htext, ownPiece, piecesOf, Segment.piece?]
  · simp only [hleaf, Bool.false_eq_true, if_false, false_and]
    rw [segmentsOf_eq, List.filterMap_flatMap, piecesOf, List.filterMap_flatMap]
    exact List.flatMap_congr hc

/-- The pieces of a tree are what its nodes show. -/
theorem piecesOf_segments (h : above.any table.masks = false) :
    piecesOf (n.segments table (languageBelow outer above)) = (n.lineage above).filterMap (shown? table outer) := by
  induction n using Node.induction generalizing above with
  | h n ih =>
    have hunmasked : ∀ {ss : List Segment}, table.masks n = false →
        piecesOf ss = piecesOf (n.inside table (languageBelow outer above)) →
        piecesOf ss = (n.lineage above).filterMap (shown? table outer) := by
      intro ss hn hss
      rw [hss]
      refine piecesOf_inside h hn fun c hc => ih c hc ?_
      simp [h, hn]
    rw [segments_eq]
    cases heffect : (table.ruleFor n.kind).effect with
    | drop =>
      have hmasks : table.masks n = true := by simp [Table.masks, heffect]
      rw [lineage_eq, List.filterMap_cons, filterMap_below_of_masked hmasks]
      simp [shown?, h, heffect]
    | rewrite =>
      have hmasks : table.masks n = true := by simp [Table.masks, heffect]
      rw [lineage_eq, List.filterMap_cons, filterMap_below_of_masked hmasks]
      by_cases htoken : (table.ruleFor n.kind).token = []
      · simp [shown?, h, heffect, htoken]
      · simp [shown?, h, heffect, htoken, tokenPiece, languageBelow_snoc, piecesOf_ending]
    | unwrap => exact hunmasked (by simp [Table.masks, heffect]) rfl
    | paginateBefore =>
      refine hunmasked (by simp [Table.masks, heffect]) ?_
      simp [piecesOf_opening, piecesOf_ending]
    | identity =>
      refine hunmasked (by simp [Table.masks, heffect]) ?_
      simp [piecesOf_opening, piecesOf_ending]

/-- The pieces of a whole document, with no node above it. -/
theorem piecesOf_eq (table : Table) (outer : Language) (n : Node) :
    piecesOf (n.segments table outer) = (n.lineage []).filterMap (shown? table outer) := by
  have hnone : ([] : List Node).any table.masks = false := rfl
  exact piecesOf_segments hnone

theorem shown?_eq_of_alike {t u : Table} (h : t.Alike u) : shown? t outer = shown? u outer := by
  funext ⟨above, n⟩
  have habove : above.any t.masks = above.any u.masks := by
    congr 1
    exact funext h.masks_eq
  simp only [shown?, habove]
  have hdrop := h.drop n.kind
  have hrewrite := h.rewrite n.kind
  have htoken := h.token n.kind
  -- an effect that neither drops nor rewrites shows the node the same way, whichever it is
  cases ht : (t.ruleFor n.kind).effect <;> cases hu : (u.ruleFor n.kind).effect <;> simp_all

/-- A placeholder is a token of the table, and an exact piece is as long as its place. -/
theorem faithful_of_shown? {x : List Node × Node} {p : Piece} (h : shown? table outer x = some p) :
    (p.placeholder = true → p.text ∈ table.tokens) ∧ (p.exact = true → p.text.length = p.location.length) := by
  obtain ⟨above, n⟩ := x
  simp only [shown?] at h
  by_cases habove : above.any table.masks = true
  · simp [habove] at h
  · rw [if_neg habove] at h
    split at h
    · cases h
    · next hrewrite =>
      split at h
      · cases h
      · next htoken =>
        cases h
        exact ⟨fun _ => Table.mem_tokens hrewrite htoken, nofun⟩
    · split at h
      · cases h
        refine ⟨nofun, fun hexact => ?_⟩
        simp only [Bool.and_eq_true, decide_eq_true_eq] at hexact
        exact hexact.2
      · cases h

/-- The pieces of a document are what its nodes show, one by one in document order: the token of each node that is rewritten
below none that is dropped or rewritten, and the text of each leaf that is neither dropped nor rewritten nor below such a
node. So tables that drop and rewrite alike give the same pieces, whatever else their rules say; placeholders are tokens
of the table and exact pieces are as long as their places. -/
theorem pieces_shown (table : Table) (outer : Language) (n : Node) :
    piecesOf (n.segments table outer) = (n.lineage []).filterMap (shown? table outer) ∧
    ((∀ m ∈ n.preorder, m.kind.isLeaf = true → m.children = []) → (n.lineage []).map Prod.snd = n.preorder) ∧
    (∀ u, table.Alike u → piecesOf (n.segments u outer) = piecesOf (n.segments table outer)) ∧
    ∀ p ∈ piecesOf (n.segments table outer),
      (p.placeholder = true → p.text ∈ table.tokens) ∧ (p.exact = true → p.text.length = p.location.length) := by
  refine ⟨piecesOf_eq table outer n, fun h => map_snd_lineage h [], fun u h => ?_, fun p hp => ?_⟩
  · rw [piecesOf_eq, piecesOf_eq, shown?_eq_of_alike h]
  · rw [piecesOf_eq, List.mem_filterMap] at hp
    obtain ⟨x, -, hx⟩ := hp
    exact faithful_of_shown? hx

/-- A heading with a formula, a German phrase with a quotation, a term with a quotation and a block with a formula. -/
def paper : Node :=
  let leaf (kind : Kind) (start stop : Nat) (text : Text) (scope : Scope) : Node :=
    ⟨kind, ⟨"a", start, stop⟩, text, scope, 0, kind = .text, []⟩
  let around (kind : Kind) (start stop : Nat) (scope : Scope) (children : List Node) : Node :=
    ⟨kind, ⟨"a", start, stop⟩, [], scope, 2, false, children⟩
  around .document 0 30 .unset
    [around .heading 0 8 .unset [leaf .text 0 2 ['A', 'b'] .unset, leaf .mathInline 3 6 ['x'] .unset],
      around .strong 8 16 ⟨some "de", none⟩ [leaf .text 8 12 ['C'] .unset, leaf .citation 12 16 ['2'] ⟨none, some "AT"⟩],
      around .emph 16 22 .unset [leaf .text 16 18 ['d', 'e'] .unset, leaf .citation 18 22 ['3'] .unset],
      around .block 22 30 .unset [leaf .mathInline 22 25 ['y'] .unset]]

/-- Terms become a token and blocks are dropped. -/
def strict : Table := ((Table.checking 1).set .emph (.rewrite ['T'])).set .block { effect := .drop }

/-- The same, with pages before every heading and every strong phrase. -/
def paged : Table := (strict.set .heading (.paginateBefore 6)).set .strong (.paginateBefore 1)

theorem pieces_shown_paper :
    piecesOf (paper.segments strict ⟨"en", none⟩) =
      [⟨['A', 'b'], ⟨"a", 0, 2⟩, ⟨"en", none⟩, true, false⟩, ⟨['X'], ⟨"a", 3, 6⟩, ⟨"en", none⟩, false, true⟩,
        ⟨['C'], ⟨"a", 8, 12⟩, ⟨"de", none⟩, false, false⟩, ⟨['[', '1', ']'], ⟨"a", 12, 16⟩, ⟨"de", some "AT"⟩, false, true⟩,
        ⟨['T'], ⟨"a", 16, 22⟩, ⟨"en", none⟩, false, true⟩] ∧
    (paper.lineage []).map Prod.snd = paper.preorder ∧
    piecesOf (paper.segments paged ⟨"en", none⟩) = piecesOf (paper.segments strict ⟨"en", none⟩) := by
  obtain ⟨hshown, hall, halike, -⟩ := pieces_shown strict ⟨"en", none⟩ paper
  have hleaves : ∀ m ∈ paper.preorder, m.kind.isLeaf = true → m.children = [] := by
    simp [paper, preorder, preorders, Kind.isLeaf]
  have hpaged : strict.Alike paged := by
    constructor <;> intro k <;> cases k <;> decide
  exact ⟨hshown.trans (by decide +kernel), hall hleaves, halike paged hpaged⟩

end Node

end Proofreader
