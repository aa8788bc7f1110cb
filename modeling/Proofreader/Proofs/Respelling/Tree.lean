import Mathlib.Data.List.DropRight
import Proofreader.Proofs.Extraction.Apart
import Proofreader.Proofs.Respelling.Runs

/-! Documents before and after a slice is respelled. They are the same outside a run of text nodes that shows the slice;
after, a single node has the text of the run with the letters in it. -/

namespace Proofreader

namespace Node

mutual

/-- The node without the places of its content. -/
def bare : Node → Node
  | ⟨kind, _, text, scope, level, _, children⟩ => ⟨kind, ⟨"", 0, 0⟩, text, scope, level, false, bares children⟩

def bares : List Node → List Node
  | [] => []
  | n :: r => n.bare :: bares r

end

theorem bares_eq (ns : List Node) : bares ns = ns.map bare := by
  induction ns with
  | nil => rfl
  | cons n r ih => rw [bares, ih, List.map_cons]

theorem bare_eq (n : Node) : n.bare = ⟨n.kind, ⟨"", 0, 0⟩, n.text, n.scope, n.level, false, n.children.map bare⟩ := by
  cases n
  rw [bare, bares_eq]

end Node

namespace Markup

/-- Nodes that differ in nothing but the places of their content. -/
def Same (ns ns' : List Node) : Prop := ns.map Node.bare = ns'.map Node.bare

namespace Same

variable {ns ns' ms ms' : List Node} {n n' : Node}

theorem refl (ns : List Node) : Same ns ns := rfl

theorem append (h : Same ns ns') (k : Same ms ms') : Same (ns ++ ms) (ns' ++ ms') := by
  rw [Same, List.map_append, List.map_append, h, k]

theorem cons (h : n.bare = n'.bare) (k : Same ns ns') : Same (n :: ns) (n' :: ns') := by
  rw [Same, List.map_cons, List.map_cons, h, k]

theorem eq_nil_iff (h : Same ns ns') : ns = [] ↔ ns' = [] := by
  have := congrArg List.length h
  rw [List.length_map, List.length_map] at this
  rw [← List.length_eq_zero_iff, ← List.length_eq_zero_iff, this]

theorem kind (h : n.bare = n'.bare) : n.kind = n'.kind := by
  rw [n.bare_eq, n'.bare_eq] at h
  exact (Node.mk.injEq .. ▸ h).1

theorem isSpaceNode_bare (n : Node) : isSpaceNode n.bare = isSpaceNode n := by
  rw [n.bare_eq]
  rfl

theorem dropWhile (h : Same ns ns') : Same (ns.dropWhile isSpaceNode) (ns'.dropWhile isSpaceNode) := by
  have hdrop := congrArg (List.dropWhile isSpaceNode) h
  have hspace : isSpaceNode ∘ Node.bare = isSpaceNode := funext isSpaceNode_bare
  rwa [List.dropWhile_map, List.dropWhile_map, hspace] at hdrop

theorem reverse (h : Same ns ns') : Same ns.reverse ns'.reverse := by
  rw [Same, List.map_reverse, List.map_reverse, h]

theorem trimSpaces (h : Same ns ns') : Same (trimSpaces ns) (trimSpaces ns') := h.dropWhile.reverse.dropWhile.reverse

end Same

namespace Respelling

variable (x : Respelling)

/-- Where the slice begins. -/
def start : Nat := x.before.length

/-- Where the slice ends. -/
def stop : Nat := x.before.length + x.old.length

/-- The node has the text at offset `i` of the file verbatim. -/
def Shows (n : Node) (i : Nat) : Prop := n.verbatim = true ∧ n.kind ≠ .citation ∧ n.location.Has x.file i

/-- No node has the text at offset `i` of the file verbatim. -/
def Hidden (i : Nat) (ns : List Node) : Prop := ∀ n ∈ Node.preorders ns, ¬ x.Shows n i

/-- No node shows anything of the slice. -/
def Blind (ns : List Node) : Prop := ∀ i, x.start ≤ i → i < x.stop → x.Hidden i ns

/-- Part of the slice is not shown. -/
def Misses (ns : List Node) : Prop := ∃ i, x.start ≤ i ∧ i < x.stop ∧ x.Hidden i ns

variable {x} {ns ms : List Node} {i : Nat}

namespace Hidden

theorem nil : x.Hidden i [] := nofun

theorem append (h : x.Hidden i ns) (k : x.Hidden i ms) : x.Hidden i (ns ++ ms) := by
  intro n hn
  rw [Node.preorders_append, List.mem_append] at hn
  exact hn.elim (h n) (k n)

theorem sublist (h : x.Hidden i ns) (hs : ms.Sublist ns) : x.Hidden i ms :=
  fun n hn => h n (Node.mem_preorders_of_sublist hs hn)

/-- A node hides what it does not show itself and its children hide. -/
theorem single {n : Node} (hn : ¬ x.Shows n i) (h : x.Hidden i n.children) : x.Hidden i [n] := by
  intro m hm
  rw [Node.preorders_singleton] at hm
  rcases List.mem_cons.1 hm with rfl | hm
  · exact hn
  · exact h m hm

theorem around {n : Node} (hn : n.verbatim = false) (h : x.Hidden i n.children) : x.Hidden i [n] :=
  single (fun hs => by rw [hs.1] at hn; cases hn) h

end Hidden

theorem Blind.nil : x.Blind [] := fun _ _ _ => .nil

theorem Blind.append (h : x.Blind ns) (k : x.Blind ms) : x.Blind (ns ++ ms) :=
  fun i hi hj => (h i hi hj).append (k i hi hj)

/-- Text and space nodes of the file that follow each other from offset `a` and have the text together. -/
inductive Leaves (file : FileId) (scope : Scope) : Nat → List Node → Text → Prop
  | nil (a : Nat) : Leaves file scope a [] []
  | cons {a : Nat} {kind : Kind} {t u : Text} {ns : List Node} : kind = .text ∨ kind = .space → t ≠ [] →
      Leaves file scope (a + t.length) ns u →
      Leaves file scope a (⟨kind, ⟨file, a, a + t.length⟩, t, scope, 0, true, []⟩ :: ns) (t ++ u)

/-- Leaves of which each has part of the slice, from text to text, and the text node that takes their place. -/
structure Run (x : Respelling) (r r' : List Node) : Prop where
  leaves : ∃ scope head tail location, head.length ≤ x.start ∧
    Leaves x.file scope (x.start - head.length) r (head ++ x.old ++ tail) ∧
    r' = [⟨.text, location, head ++ x.new ++ tail, scope, 0, true, []⟩]
  first : ∃ n ∈ r.head?, n.kind = .text
  last : ∃ n ∈ r.getLast?, n.kind = .text
  meets : ∀ n ∈ r, x.start < n.location.stop ∧ n.location.start < x.stop

/-- The two nodes are the same apart from their children and the place of their content. -/
structure Shell (n n' : Node) : Prop where
  kind : n'.kind = n.kind
  text : n'.text = n.text
  scope : n'.scope = n.scope
  level : n'.level = n.level

/-- Nodes with the run that shows the slice, and the nodes that take their place. -/
inductive Edited (x : Respelling) : List Node → List Node → Prop
  | run {r r' : List Node} : x.Run r r' → Edited x r r'
  | within {n n' : Node} : Shell n n' → n.kind.isLeaf = false → Edited x n.children n'.children → Edited x [n] [n']
  | after {pre pre' ns ns' : List Node} : Same pre pre' → x.Blind pre → Edited x ns ns' → Edited x (pre ++ ns) (pre' ++ ns')
  | before {ns ns' post post' : List Node} : Edited x ns ns' → Same post post' → x.Blind post →
      Edited x (ns ++ post) (ns' ++ post')

section DropWhile

variable {α : Type} {p : α → Bool} {l m : List α}

theorem dropWhile_append_of_nil (h : l.dropWhile p = []) (m : List α) : (l ++ m).dropWhile p = m.dropWhile p := by
  rw [List.dropWhile_append, h, List.isEmpty_nil, if_pos rfl]

theorem dropWhile_append_of_ne_nil (h : l.dropWhile p ≠ []) (m : List α) :
    (l ++ m).dropWhile p = l.dropWhile p ++ m := by
  rw [List.dropWhile_append, if_neg (by simpa using h)]

theorem rdropWhile_append_of_nil (l : List α) (h : m.rdropWhile p = []) : (l ++ m).rdropWhile p = l.rdropWhile p := by
  rw [List.rdropWhile, List.reverse_eq_nil_iff] at h
  rw [List.rdropWhile, List.reverse_append, dropWhile_append_of_nil h, List.rdropWhile]

theorem rdropWhile_append_of_ne_nil (l : List α) (h : m.rdropWhile p ≠ []) :
    (l ++ m).rdropWhile p = l ++ m.rdropWhile p := by
  rw [List.rdropWhile, Ne, List.reverse_eq_nil_iff] at h
  rw [List.rdropWhile, List.reverse_append, dropWhile_append_of_ne_nil h, List.reverse_append, List.reverse_reverse,
    List.rdropWhile]

end DropWhile

theorem Blind.sublist (h : x.Blind ns) (hs : ms.Sublist ns) : x.Blind ms := fun i hi hj => (h i hi hj).sublist hs

namespace Run

variable {r r' : List Node}

theorem exists_node (h : x.Run r r') : ∃ n, r' = [n] ∧ n.kind = .text := by
  obtain ⟨scope, head, tail, location, -, -, hr'⟩ := h.leaves
  exact ⟨_, hr', rfl⟩

theorem dropWhile (h : x.Run r r') : r.dropWhile isSpaceNode = r ∧ r'.dropWhile isSpaceNode = r' := by
  obtain ⟨n, hr', hn⟩ := h.exists_node
  obtain ⟨m, hm, hkind⟩ := h.first
  obtain ⟨ms, rfl⟩ := List.head?_eq_some_iff.1 hm
  rw [hr', List.dropWhile_cons_of_neg (by simp [isSpaceNode, hkind]), List.dropWhile_cons_of_neg (by simp [isSpaceNode, hn])]
  exact ⟨rfl, rfl⟩

theorem rdropWhile (h : x.Run r r') : r.rdropWhile isSpaceNode = r ∧ r'.rdropWhile isSpaceNode = r' := by
  obtain ⟨n, hr', hn⟩ := h.exists_node
  obtain ⟨m, hm, hkind⟩ := h.last
  obtain ⟨ms, rfl⟩ := List.getLast?_eq_some_iff.1 hm
  rw [hr', List.rdropWhile_concat_neg _ _ _ (by simp [isSpaceNode, hkind])]
  exact ⟨rfl, by simp [List.rdropWhile, isSpaceNode, hn]⟩

end Run

namespace Edited

variable {ns' ms' : List Node}

theorem ne_nil (h : x.Edited ns ns') : ns ≠ [] ∧ ns' ≠ [] := by
  induction h with
  | run hrun =>
    obtain ⟨n, hr', -⟩ := hrun.exists_node
    obtain ⟨m, hm, -⟩ := hrun.first
    exact ⟨fun hnil => by simp [hnil] at hm, hr' ▸ List.cons_ne_nil _ _⟩
  | within => exact ⟨List.cons_ne_nil _ _, List.cons_ne_nil _ _⟩
  | after _ _ _ ih => exact ⟨List.append_ne_nil_of_right_ne_nil _ ih.1, List.append_ne_nil_of_right_ne_nil _ ih.2⟩
  | before _ _ _ ih => exact ⟨List.append_ne_nil_of_left_ne_nil ih.1 _, List.append_ne_nil_of_left_ne_nil ih.2 _⟩

theorem not_isSpaceNode {n n' : Node} (h : Shell n n') (hn : n.kind.isLeaf = false) :
    isSpaceNode n = false ∧ isSpaceNode n' = false := by
  have hkind : n.kind ≠ .space := fun he => by rw [he] at hn; cases hn
  simp [isSpaceNode, h.kind, hkind]

theorem dropWhile (h : x.Edited ns ns') : x.Edited (ns.dropWhile isSpaceNode) (ns'.dropWhile isSpaceNode) := by
  induction h with
  | run hrun =>
    rw [hrun.dropWhile.1, hrun.dropWhile.2]
    exact .run hrun
  | within hshell hn hchildren =>
    obtain ⟨hspace, hspace'⟩ := not_isSpaceNode hshell hn
    rw [List.dropWhile_cons_of_neg (by simp [hspace]), List.dropWhile_cons_of_neg (by simp [hspace'])]
    exact .within hshell hn hchildren
  | @after pre pre' ns ns' hsame hblind _ ih =>
    by_cases hnil : pre.dropWhile isSpaceNode = []
    · rw [dropWhile_append_of_nil hnil, dropWhile_append_of_nil (hsame.dropWhile.eq_nil_iff.1 hnil)]
      exact ih
    · have hnil' := mt hsame.dropWhile.eq_nil_iff.2 hnil
      rw [dropWhile_append_of_ne_nil hnil, dropWhile_append_of_ne_nil hnil']
      exact .after hsame.dropWhile (hblind.sublist (List.dropWhile_sublist _)) (by assumption)
  | before _ hsame hblind ih =>
    rw [dropWhile_append_of_ne_nil ih.ne_nil.1, dropWhile_append_of_ne_nil ih.ne_nil.2]
    exact .before ih hsame hblind

theorem rdropWhile (h : x.Edited ns ns') : x.Edited (ns.rdropWhile isSpaceNode) (ns'.rdropWhile isSpaceNode) := by
  induction h with
  | run hrun =>
    rw [hrun.rdropWhile.1, hrun.rdropWhile.2]
    exact .run hrun
  | within hshell hn hchildren =>
    obtain ⟨hspace, hspace'⟩ := not_isSpaceNode hshell hn
    simp only [List.rdropWhile_singleton, hspace, hspace', Bool.false_eq_true, if_false]
    exact .within hshell hn hchildren
  | after hsame hblind _ ih =>
    rw [rdropWhile_append_of_ne_nil _ ih.ne_nil.1, rdropWhile_append_of_ne_nil _ ih.ne_nil.2]
    exact .after hsame hblind ih
  | @before ns ns' post post' hedited hsame hblind ih =>
    have htail : Same (post.rdropWhile isSpaceNode) (post'.rdropWhile isSpaceNode) := hsame.reverse.dropWhile.reverse
    by_cases hnil : post.rdropWhile isSpaceNode = []
    · rw [rdropWhile_append_of_nil _ hnil, rdropWhile_append_of_nil _ (htail.eq_nil_iff.1 hnil)]
      exact ih
    · have hnil' := mt htail.eq_nil_iff.2 hnil
      rw [rdropWhile_append_of_ne_nil _ hnil, rdropWhile_append_of_ne_nil _ hnil']
      exact .before hedited htail (hblind.sublist (List.rdropWhile_prefix _ _).sublist)

theorem trimSpaces (h : x.Edited ns ns') : x.Edited (trimSpaces ns) (trimSpaces ns') := h.dropWhile.rdropWhile

end Edited

/-- What is made of the nodes before and of the nodes after keeps what they have in common, and shows nothing more. -/
structure Congruent (x : Respelling) (w w' : List Node → List Node) : Prop where
  same : ∀ {ns ns'}, Same ns ns' → Same (w ns) (w' ns')
  edited : ∀ {ns ns'}, x.Edited ns ns' → x.Edited (w ns) (w' ns')
  hidden : ∀ {i ns}, x.Hidden i ns → x.Hidden i (w ns)

namespace Congruent

theorem refl : x.Congruent id id := ⟨id, id, id⟩

theorem comp {v v' w w' : List Node → List Node} (hv : x.Congruent v v') (hw : x.Congruent w w') :
    x.Congruent (v ∘ w) (v' ∘ w') :=
  ⟨fun h => hv.same (hw.same h), fun h => hv.edited (hw.edited h), fun h => hv.hidden (hw.hidden h)⟩

theorem trimSpaces : x.Congruent trimSpaces trimSpaces :=
  ⟨Same.trimSpaces, Edited.trimSpaces, fun h => h.sublist (trimSpaces_sublist _)⟩

theorem around {kind : Kind} (hkind : kind.isLeaf = false) (l l' : Location) (scope : Scope) (level : Int) :
    x.Congruent (fun ns => [⟨kind, l, [], scope, level, false, ns⟩]) fun ns => [⟨kind, l', [], scope, level, false, ns⟩] where
  same h := .cons (by rw [Node.bare_eq, Node.bare_eq, h]) (.refl [])
  edited h := .within ⟨rfl, rfl, rfl, rfl⟩ hkind h
  hidden h := .around rfl h

end Congruent

/-- One node that stands alone is all there is. -/
def Alone (ns : List Node) : Prop := ∃ n, ns = [n] ∧ standsAlone n.kind = true

theorem alone_append {pre ns : List Node} (hpre : pre ≠ []) (hns : ns ≠ []) : ¬ Alone (pre ++ ns) := by
  rintro ⟨n, hn, -⟩
  have := congrArg List.length hn
  have hpre := List.length_pos_iff.2 hpre
  have hns := List.length_pos_iff.2 hns
  rw [List.length_append, List.length_singleton] at this
  omega

theorem alone_of_same {ns ns' : List Node} (h : Same ns ns') (ha : Alone ns) : Alone ns' := by
  obtain ⟨n, rfl, hn⟩ := ha
  rcases ns' with _ | ⟨n', _ | ⟨m, r⟩⟩
  · exact absurd (h.eq_nil_iff.2 rfl) (List.cons_ne_nil _ _)
  · exact ⟨n', rfl, Same.kind (List.cons.inj h).1 ▸ hn⟩
  · exact absurd (congrArg List.length h) (by simp)

theorem not_alone_leaves {file : FileId} {scope : Scope} {a : Nat} {u : Text} (h : Leaves file scope a ns u) : ¬ Alone ns := by
  rintro ⟨n, rfl, hn⟩
  cases h with
  | cons hkind => rcases hkind with rfl | rfl <;> cases hn

theorem Edited.alone {ns' : List Node} (h : x.Edited ns ns') : Alone ns ↔ Alone ns' := by
  induction h with
  | run hrun =>
    obtain ⟨scope, head, tail, location, -, hleaves, -⟩ := hrun.leaves
    obtain ⟨n, rfl, hn⟩ := hrun.exists_node
    exact iff_of_false (not_alone_leaves hleaves) (by simp [Alone, hn, standsAlone])
  | within hshell => simp [Alone, hshell.kind]
  | @after pre pre' ns ns' hsame _ hedited ih =>
    by_cases hnil : pre = []
    · rw [hnil, hsame.eq_nil_iff.1 hnil]
      exact ih
    · exact iff_of_false (alone_append hnil hedited.ne_nil.1)
        (alone_append (mt hsame.eq_nil_iff.2 hnil) hedited.ne_nil.2)
  | @before ns ns' post post' hedited hsame _ ih =>
    by_cases hnil : post = []
    · rw [hnil, hsame.eq_nil_iff.1 hnil, List.append_nil, List.append_nil]
      exact ih
    · exact iff_of_false (alone_append hedited.ne_nil.1 hnil)
        (alone_append hedited.ne_nil.2 (mt hsame.eq_nil_iff.2 hnil))

/-- A node around the nodes of a paragraph, unless there are none or one stands alone. -/
def asParagraph (node : List Node → Node) : List Node → List Node
  | [] => []
  | [only] => if standsAlone only.kind then [only] else [node [only]]
  | ns => [node ns]

theorem paragraph_eq (page : Page) (deeper : Deeper) (stop : Option Char) (s : Cursor) :
    paragraph page deeper stop s =
      (asParagraph (fun children => ⟨.paragraph, ⟨page.file, s.pos, (deeper.inline .paragraph stop s).2.trimmedEnd s⟩, [],
        s.scope, 0, false, children⟩) (Markup.trimSpaces (deeper.inline .paragraph stop s).1),
        (deeper.inline .paragraph stop s).2) := by
  unfold paragraph
  generalize deeper.inline .paragraph stop s = inner
  dsimp only
  rcases Markup.trimSpaces inner.1 with _ | ⟨only, _ | ⟨n, r⟩⟩
  · rfl
  · dsimp only [asParagraph]
    split
    · rfl
    · rfl
  · rfl

theorem asParagraph_self {node : List Node → Node} (h : ns = [] ∨ Alone ns) : asParagraph node ns = ns := by
  rcases h with rfl | ⟨n, rfl, hn⟩
  · rfl
  · exact if_pos hn

theorem asParagraph_node {node : List Node → Node} (h : ¬ (ns = [] ∨ Alone ns)) : asParagraph node ns = [node ns] := by
  unfold asParagraph
  split
  · exact absurd (Or.inl rfl) h
  · next only => exact if_neg fun halone => h (Or.inr ⟨only, rfl, halone⟩)
  · rfl

theorem Congruent.asParagraph (l l' : Location) (scope : Scope) : x.Congruent
    (asParagraph fun ns => ⟨.paragraph, l, [], scope, 0, false, ns⟩)
    (asParagraph fun ns => ⟨.paragraph, l', [], scope, 0, false, ns⟩) := by
  have haround : x.Congruent (fun ns => [⟨.paragraph, l, [], scope, 0, false, ns⟩])
      fun ns => [⟨.paragraph, l', [], scope, 0, false, ns⟩] := .around rfl l l' scope 0
  refine ⟨fun {ns ns'} h => ?_, fun {ns ns'} h => ?_, fun {i ns} h => ?_⟩
  · have hiff : (ns = [] ∨ Alone ns) ↔ (ns' = [] ∨ Alone ns') :=
      or_congr h.eq_nil_iff ⟨alone_of_same h, alone_of_same (Eq.symm h)⟩
    by_cases hself : ns = [] ∨ Alone ns
    · rw [asParagraph_self hself, asParagraph_self (hiff.1 hself)]
      exact h
    · rw [asParagraph_node hself, asParagraph_node (mt hiff.2 hself)]
      exact haround.same h
  · have hiff : (ns = [] ∨ Alone ns) ↔ (ns' = [] ∨ Alone ns') :=
      or_congr (iff_of_false h.ne_nil.1 h.ne_nil.2) h.alone
    by_cases hself : ns = [] ∨ Alone ns
    · rw [asParagraph_self hself, asParagraph_self (hiff.1 hself)]
      exact h
    · rw [asParagraph_node hself, asParagraph_node (mt hiff.2 hself)]
      exact haround.edited h
  · by_cases hself : ns = [] ∨ Alone ns
    · rw [asParagraph_self hself]
      exact h
    · rw [asParagraph_node hself]
      exact haround.hidden h

end Respelling

end Markup

end Proofreader
