import Mathlib.Tactic.Common
import Proofreader.Document.Node

/-! Induction over document trees, and the nodes of a tree in document order. -/

namespace Proofreader.Node

/-- What holds of a node when it holds of its children holds of every node. -/
theorem induction {P : Node → Prop} (h : ∀ n : Node, (∀ c ∈ n.children, P c) → P n) : ∀ n, P n
  | ⟨kind, location, text, scope, level, verbatim, children⟩ =>
    h ⟨kind, location, text, scope, level, verbatim, children⟩ fun c hc =>
      have : sizeOf c < sizeOf children := List.sizeOf_lt_of_mem hc
      induction h c
termination_by n => sizeOf n
decreasing_by
  simp only [Node.mk.sizeOf_spec]
  omega

theorem preorders_eq (ns : List Node) : preorders ns = ns.flatMap preorder := by
  induction ns with
  | nil => rfl
  | cons n r ih => rw [preorders, ih, List.flatMap_cons]

theorem preorder_eq (n : Node) : n.preorder = n :: n.children.flatMap preorder := by
  cases n
  rw [preorder, preorders_eq]

theorem preorders_append (ns ms : List Node) : preorders (ns ++ ms) = preorders ns ++ preorders ms := by
  simp only [preorders_eq, List.flatMap_append]

theorem preorders_singleton (n : Node) : preorders [n] = n :: preorders n.children := by
  rw [preorders_eq, preorders_eq, List.flatMap_singleton, preorder_eq]

theorem mem_preorders_of_sublist {ns ms : List Node} (h : ms.Sublist ns) {n : Node} (hn : n ∈ preorders ms) :
    n ∈ preorders ns := by
  rw [preorders_eq, List.mem_flatMap] at hn ⊢
  exact hn.imp fun m hm => ⟨h.subset hm.1, hm.2⟩

theorem mem_preorder_self (n : Node) : n ∈ n.preorder := by
  rw [preorder_eq]
  exact List.mem_cons_self

theorem mem_preorder_of_child {n c m : Node} (hc : c ∈ n.children) (hm : m ∈ c.preorder) : m ∈ n.preorder := by
  rw [preorder_eq]
  exact List.mem_cons_of_mem _ (List.mem_flatMap.2 ⟨c, hc, hm⟩)

end Proofreader.Node
