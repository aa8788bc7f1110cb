import Mathlib.Data.List.Flatten
import Proofreader.Proofs.Markup.Library
import Proofreader.Proofs.Markup.Reading

/-! Where the nodes of a document come from. Each one has its place in the text of its own file, and what one file
contributes by itself stands side by side in it, whatever the file looks like. -/

namespace Proofreader

namespace Node

mutual

/-- The node and everything below it that was read from the same file, in document order; what an inclusion holds was
read from another one. -/
def own : Node → List Node
  | ⟨k, l, t, s, v, b, children⟩ => ⟨k, l, t, s, v, b, children⟩ :: if k = .inclusion then [] else owns children

def owns : List Node → List Node
  | [] => []
  | n :: r => n.own ++ owns r

end

/-- Whether nothing below the node was read from the same file. -/
def isEnd (n : Node) : Bool := n.children.isEmpty || n.kind = .inclusion

/-- The leaves of what was read from one file. -/
def ends (ns : List Node) : List Node := (owns ns).filter isEnd

theorem own_eq (n : Node) : n.own = n :: if n.kind = .inclusion then [] else owns n.children := by
  cases n
  rw [own]

theorem owns_eq (ns : List Node) : owns ns = ns.flatMap own := by
  induction ns with
  | nil => rfl
  | cons n r ih => rw [owns, ih, List.flatMap_cons]

theorem own_of_isEnd {n : Node} (h : n.isEnd = true) : n.own = [n] := by
  rw [isEnd, Bool.or_eq_true, List.isEmpty_iff, decide_eq_true_eq] at h
  rw [own_eq]
  rcases h with hnone | hkind
  · rw [hnone, owns, ite_self]
  · rw [if_pos hkind]

theorem own_of_not_isEnd {n : Node} (h : n.isEnd = false) : n.own = n :: owns n.children := by
  rw [isEnd, Bool.or_eq_false_iff, decide_eq_false_iff_not] at h
  rw [own_eq, if_neg h.2]

theorem ends_cons (n : Node) (ns : List Node) :
    ends (n :: ns) = (if n.isEnd = true then [n] else ends n.children) ++ ends ns := by
  rw [ends, owns, List.filter_append]
  cases h : n.isEnd with
  | true => rw [own_of_isEnd h, List.filter_cons_of_pos h, if_pos rfl, List.filter_nil, ends]
  | false => rw [own_of_not_isEnd h, List.filter_cons_of_neg (by simp [h]), if_neg Bool.false_ne_true, ends, ends]

/-- What was read from one file stands in the order of the document. -/
theorem own_sublist_preorder (n : Node) : n.own.Sublist n.preorder := by
  induction n using Node.induction with
  | h n ih =>
    rw [own_eq, preorder_eq]
    refine List.Sublist.cons_cons n ?_
    split
    · exact List.nil_sublist _
    · rw [owns_eq]
      exact .flatMap_right _ ih

theorem owns_sublist_preorders (ns : List Node) : (owns ns).Sublist (preorders ns) := by
  rw [owns_eq, preorders_eq]
  exact .flatMap_right _ fun n _ => n.own_sublist_preorder

/-- Every node was read from the file of the one at the top, or from one that an inclusion names. -/
theorem mem_own_or_exists {n m : Node} (h : m ∈ n.preorder) :
    m ∈ n.own ∨ ∃ p ∈ n.preorder, p.kind = .inclusion ∧ m ∈ owns p.children := by
  induction n using Node.induction with
  | h n ih =>
    rw [preorder_eq, List.mem_cons, List.mem_flatMap] at h
    rcases h with rfl | ⟨c, hc, hm⟩
    · exact Or.inl (own_eq m ▸ List.mem_cons_self)
    · rcases ih c hc hm with hown | ⟨p, hp, hinclusion⟩
      · have howns : m ∈ owns n.children := by
          rw [owns_eq]
          exact List.mem_flatMap.2 ⟨c, hc, hown⟩
        by_cases hkind : n.kind = .inclusion
        · exact Or.inr ⟨n, mem_preorder_self n, hkind, howns⟩
        · rw [own_eq, if_neg hkind]
          exact Or.inl (List.mem_cons_of_mem _ howns)
      · exact Or.inr ⟨p, mem_preorder_of_child hc hp, hinclusion⟩

end Node

namespace Markup

namespace Laid

variable {lib : Library} {visits chain : List FileId} {file : FileId} {text : Text} {a b : Nat} {m : Node} {ns : List Node}

/-- What was read from the file stands between the bounds, and takes room there. -/
theorem mem_owns (h : Laid lib visits chain file text a ns b) (hm : m ∈ Node.owns ns) :
    m.location.file = file ∧ a ≤ m.location.start ∧ m.location.start < m.location.stop ∧ m.location.stop ≤ b := by
  induction h with
  | nil => cases hm
  | own hn hlt ha hstop hc hr ihc ihr =>
    have hac := hc.le
    have hcb := hr.le
    rw [Node.owns, Node.own_eq, List.cons_append, List.mem_cons, List.mem_append] at hm
    rcases hm with rfl | hm | hm
    · exact ⟨hn.file, ha, hlt, by omega⟩
    · split at hm
      · cases hm
      · obtain ⟨hfile, hstart, hroom, hend⟩ := ihc hm
        exact ⟨hfile, by omega, hroom, by omega⟩
    · obtain ⟨hfile, hstart, hroom, hend⟩ := ihr hm
      exact ⟨hfile, by omega, hroom, hend⟩
  | inclusion hn hlt hkind ha hstop _ _ _ _ hr _ ihr =>
    have hcb := hr.le
    rw [Node.owns, Node.own_eq, if_pos hkind, List.cons_append, List.mem_cons, List.nil_append] at hm
    rcases hm with rfl | hm
    · exact ⟨hn.file, ha, hlt, by omega⟩
    · obtain ⟨hfile, hstart, hroom, hend⟩ := ihr hm
      exact ⟨hfile, by omega, hroom, hend⟩

theorem mem_ends (h : Laid lib visits chain file text a ns b) (hm : m ∈ Node.ends ns) :
    a ≤ m.location.start ∧ m.location.stop ≤ b := by
  obtain ⟨-, hstart, -, hend⟩ := h.mem_owns ((List.mem_filter.1 hm).1)
  exact ⟨hstart, hend⟩

/-- The leaves that were read from the file stand side by side in it. -/
theorem pairwise_ends (h : Laid lib visits chain file text a ns b) :
    (Node.ends ns).Pairwise fun l r => l.location.stop ≤ r.location.start := by
  induction h with
  | nil => exact List.Pairwise.nil
  | @own _ _ _ _ _ _ _ _ n _ _ _ _ hstop hc hr ihc ihr =>
    rw [Node.ends_cons]
    refine List.pairwise_append.2 ⟨?_, ihr, fun l hl r hr' => ?_⟩
    · split
      · exact List.pairwise_singleton _ n
      · exact ihc
    · have hafter := (hr.mem_ends hr').1
      split at hl
      · rw [List.mem_singleton.1 hl]
        exact Nat.le_trans hstop hafter
      · exact Nat.le_trans (hc.mem_ends hl).2 hafter
  | @inclusion _ _ _ _ _ _ _ _ _ _ n _ _ _ hkind _ hstop _ _ _ _ hr _ ihr =>
    have hend : n.isEnd = true := Bool.or_eq_true_iff.2 (Or.inr (decide_eq_true hkind))
    rw [Node.ends_cons, if_pos hend]
    refine List.pairwise_append.2 ⟨List.pairwise_singleton _ n, ihr, fun l hl r hr' => ?_⟩
    rw [List.mem_singleton.1 hl]
    exact Nat.le_trans hstop (hr.mem_ends hr').1

/-- Every node takes room, and what it holds is laid out again. -/
theorem exists_children (h : Laid lib visits chain file text a ns b) (hm : m ∈ Node.preorders ns) :
    m.location.start < m.location.stop ∧
      ∃ visits chain file text a b, Laid lib visits chain file text a m.children b := by
  induction h with
  | nil => cases hm
  | own _ hlt _ _ hc _ ihc ihr | inclusion _ hlt _ _ _ _ _ _ hc _ ihc ihr =>
    rw [Node.preorders, Node.preorder_eq, ← Node.preorders_eq, List.cons_append, List.mem_cons, List.mem_append] at hm
    rcases hm with rfl | hm | hm
    · exact ⟨hlt, _, _, _, _, _, _, hc⟩
    · exact ihc hm
    · exact ihr hm

end Laid

/-- Nodes that render text themselves have no children. -/
def Childless (ns : List Node) : Prop := ∀ n ∈ Node.preorders ns, n.kind.isLeaf = true → n.children = []

namespace Childless

variable {n : Node} {ns ms : List Node}

theorem nil : Childless [] := nofun

theorem append (h : Childless ns) (k : Childless ms) : Childless (ns ++ ms) := by
  intro n hn
  rw [Node.preorders_append, List.mem_append] at hn
  exact hn.elim (h n) (k n)

theorem sublist (h : Childless ns) (hs : ms.Sublist ns) : Childless ms :=
  fun n hn => h n (Node.mem_preorders_of_sublist hs hn)

theorem node (h : Childless n.children) (hleaf : n.kind.isLeaf = true → n.children = []) : Childless [n] := by
  intro m hm
  rw [Node.preorders_singleton] at hm
  rcases List.mem_cons.1 hm with rfl | hm
  · exact hleaf
  · exact h m hm

end Childless

/-- Reading gives children to no leaf if what it includes has none. -/
theorem Read.childless {page : Page} {stop : Option Char} {s t : Cursor} {ns : List Node} (h : Read page stop s ns t)
    (hp : ∀ path here scope, Childless (page.fetch path here scope).nodes) : Childless ns := by
  induction h with
  | stay | pass | rule => exact .nil
  | seq _ _ ih ih' => exact ih.append ih'
  | trim _ ih => exact ih.sublist (trimSpaces_sublist _)
  | leaf => exact .node .nil fun _ => rfl
  | node _ hleaf _ _ _ ih => exact .node ih fun h => absurd (hleaf.symm.trans h) Bool.false_ne_true
  | delimited _ _ _ _ ih =>
    refine .node ih fun h => ?_
    unfold branch at h
    dsimp only at h
    split at h
    · cases h
    · cases h
  | content _ _ _ ih => exact ih
  | text _ _ _ _ _ _ ih => exact .node ih nofun
  | textless => exact .node .nil nofun
  | inclusion _ _ _ _ hgot => exact .node (hgot ▸ hp _ _ _) nofun

namespace Library

variable {lib : Library}

theorem childless_readFile (levels : Nat) {chain : List FileId} {file : FileId} {at? : Option Location} {scope : Scope} :
    Childless ((lib.readFile levels chain file at? scope).document.elim [] (·.children)) := by
  induction levels generalizing chain file at? scope with
  | zero =>
    by_cases hc : file ∈ chain
    · rw [readFile_of_mem hc]
      exact .nil
    · rw [readFile_of_missing hc (Or.inl rfl)]
      exact .nil
  | succ levels ih =>
    by_cases hc : file ∈ chain
    · rw [readFile_of_mem hc]
      exact .nil
    · cases hl : lib.load file with
      | none =>
        rw [readFile_of_missing hc (Or.inr hl)]
        exact .nil
      | some text =>
        rw [readFile_eq hc hl]
        exact (read_parse (lib.page levels chain file) text scope).1.childless fun _ _ _ => ih

/-- The place of a node in the text of its file: inside, a copy of the text if the node is marked as one, and not empty
where the node renders text. -/
structure Placed (text : Text) (n : Node) : Prop where
  ordered : n.location.start ≤ n.location.stop
  inside : n.location.stop ≤ text.length
  verbatim : n.verbatim = true → n.text = text.extract n.location.start n.location.stop
  leaf : n.kind.isLeaf = true → n.location.start < n.location.stop ∧ n.children = []

/-- What one parse of a file leaves below a node: all of it stands in one file, in the order of the document, and its
leaves stand side by side. -/
structure Parsed (p : Node) : Prop where
  file : ∃ file, ∀ n ∈ Node.owns p.children, n.location.file = file
  ordered : (Node.owns p.children).Sublist p.preorder
  apart : (Node.ends p.children).Pairwise fun l r => l.location.stop ≤ r.location.start

/-- Whatever the files hold, every node has a place in its own file, and every node but the root comes from the parse of
the main file or of a file that is included. -/
theorem read_placed (lib : Library) (main : FileId) {root : Node} (h : (lib.read main).document = some root) :
    (∀ n ∈ root.preorder, ∃ text, lib.load n.location.file = some text ∧ Placed text n) ∧
    (∀ p ∈ root.preorder, Parsed p) ∧
    (∀ n ∈ root.preorder, n = root ∨ ∃ p ∈ root.preorder, (p = root ∨ p.kind = .inclusion) ∧ n ∈ Node.owns p.children) := by
  obtain ⟨source, hlaid⟩ := laidOut_read lib main h
  obtain ⟨visits, -, hchildren⟩ := hlaid.laid
  have hkind : root.kind = .document := by rw [hlaid.root]
  have hbelow : ∀ {n : Node}, n ∈ root.preorder → n = root ∨ n ∈ Node.preorders root.children := fun hn => by
    rwa [Node.preorder_eq, ← Node.preorders_eq, List.mem_cons] at hn
  refine ⟨fun n hn => ?_, fun p hp => ?_, fun n hn => ?_⟩
  · obtain ⟨file, text, -, hload, -, hread, hinside⟩ := hlaid.exists_readFrom hn
    refine ⟨text, hread.file ▸ hload, hread.valid, hinside, hread.verbatim, fun hleaf => ?_⟩
    rcases hbelow hn with rfl | hn
    · rw [hkind] at hleaf
      cases hleaf
    · have hchildless : Childless ((lib.read main).document.elim [] (·.children)) := childless_readFile _
      rw [h] at hchildless
      exact ⟨(hchildren.exists_children hn).1, hchildless n hn hleaf⟩
  · obtain ⟨visits, chain, file, text, a, b, hlaid⟩ : ∃ visits chain file text a b,
        Laid lib visits chain file text a p.children b := by
      rcases hbelow hp with rfl | hp
      · exact ⟨_, _, _, _, _, _, hchildren⟩
      · exact (hchildren.exists_children hp).2
    refine ⟨⟨file, fun n hn => (hlaid.mem_owns hn).1⟩, ?_, hlaid.pairwise_ends⟩
    rw [Node.preorder_eq, ← Node.preorders_eq]
    exact (Node.owns_sublist_preorders _).cons p
  · rcases Node.mem_own_or_exists hn with hown | ⟨p, hp, hinclusion, hmem⟩
    · rw [Node.own_eq, if_neg (by rw [hkind]; exact nofun)] at hown
      exact (List.mem_cons.1 hown).imp_right fun hmem => ⟨root, Node.mem_preorder_self root, Or.inl rfl, hmem⟩
    · exact Or.inr ⟨p, hp, Or.inr hinclusion, hmem⟩

/-- Content blocks, strong text, arguments, a string and a raw block that nothing closes. -/
def ragged : Library where
  files := [("a", "= Ab\n*So /* x */ #include \"b\" #emph[da #link(\"u".toList), ("b", "Ei #strong[@key ```\nroh".toList)]
  resolve := fun _ path => String.ofList path

/-- The places of the leaves of a parse. -/
def endPlaces (n : Node) : List (Kind × Nat × Nat) :=
  (Node.ends n.children).map fun m => (m.kind, m.location.start, m.location.stop)

theorem read_placed_ragged : ∃ root, (ragged.read "a").document = some root ∧
    endPlaces root = [(.text, 2, 4), (.text, 6, 8), (.space, 8, 9), (.space, 16, 17), (.inclusion, 17, 29), (.space, 29, 30),
      (.text, 36, 38)] ∧
    (root.preorder.filter (·.kind = .inclusion)).map endPlaces =
      [[(.text, 0, 2), (.space, 2, 3), (.citation, 11, 15), (.space, 15, 16), (.rawBlock, 16, 23)]] ∧
    (∀ n ∈ root.preorder, ∃ text, ragged.load n.location.file = some text ∧ Placed text n) ∧
    (∀ p ∈ root.preorder, Parsed p) ∧
    ∀ n ∈ root.preorder, n = root ∨ ∃ p ∈ root.preorder, (p = root ∨ p.kind = .inclusion) ∧ n ∈ Node.owns p.children := by
  have hsome : (ragged.read "a").document.isSome = true := by decide +kernel
  obtain ⟨root, hroot⟩ := Option.isSome_iff_exists.1 hsome
  have hmain : (ragged.read "a").document.map endPlaces = some [(.text, 2, 4), (.text, 6, 8), (.space, 8, 9),
      (.space, 16, 17), (.inclusion, 17, 29), (.space, 29, 30), (.text, 36, 38)] := by decide +kernel
  have hincluded : (ragged.read "a").document.map (fun root => (root.preorder.filter (·.kind = .inclusion)).map endPlaces) =
      some [[(.text, 0, 2), (.space, 2, 3), (.citation, 11, 15), (.space, 15, 16), (.rawBlock, 16, 23)]] := by
    decide +kernel
  rw [hroot] at hmain hincluded
  exact ⟨root, hroot, Option.some.inj hmain, Option.some.inj hincluded, ragged.read_placed "a" hroot⟩

end Library

end Markup

end Proofreader
