import Proofreader.Proofs.Document.Tree
import Proofreader.Style.Segment

/-! Where the pieces of a stream come from: each stands for a node of the tree, as its own text or as the
token that its rule writes. -/

namespace Proofreader

/-- The piece stands for the node; it is exact only if it is the node's own verbatim text. -/
structure Piece.From (p : Piece) (n : Node) : Prop where
  location : p.location = n.location
  text : p.text ≠ []
  exact : p.exact = true → n.verbatim = true ∧ p.text = n.text ∧ p.text.length = n.location.length

def Segment.IsSeparator : Segment → Prop
  | .piece _ => False
  | .separator _ _ => True

namespace Node

variable {table : Table} {outer : Language} {n : Node} {p : Piece}

theorem segmentsOf_eq (table : Table) (outer : Language) (ns : List Node) :
    segmentsOf table outer ns = ns.flatMap (·.segments table outer) := by
  induction ns with
  | nil => rfl
  | cons n r ih => rw [segmentsOf, ih, List.flatMap_cons]

/-- What stands inside a node that is rendered. -/
def inside (table : Table) (outer : Language) (n : Node) : List Segment :=
  if n.kind.isLeaf then n.ownPiece (n.scope.within outer)
  else segmentsOf table (n.scope.within outer) n.children

/-- The separator that ends a paragraph. -/
def ending (outer : Language) (n : Node) : List Segment :=
  if n.kind.isBlock then [.separator (n.scope.within outer) false] else []

/-- The separator that begins a page. -/
def opening (table : Table) (outer : Language) (n : Node) : List Segment :=
  if (table.ruleFor n.kind).paginates n.kind n.level then [.separator (n.scope.within outer) true] else []

theorem segments_eq (table : Table) (outer : Language) (n : Node) : n.segments table outer =
    match (table.ruleFor n.kind).effect with
    | .drop => []
    | .rewrite =>
      if (table.ruleFor n.kind).token.isEmpty then []
      else n.tokenPiece (n.scope.within outer) (table.ruleFor n.kind).token :: n.ending outer
    | .unwrap => n.inside table outer
    | _ => n.opening table outer ++ n.inside table outer ++ n.ending outer := by
  cases n
  rw [segments]
  rfl

theorem ownPiece_cases {language : Language} :
    n.ownPiece language = [] ∨ ∃ p, n.ownPiece language = [.piece p] ∧ p.From n := by
  unfold ownPiece
  split
  · exact Or.inl rfl
  · next hn =>
    refine Or.inr ⟨_, rfl, rfl, by simpa using hn, fun he => ?_⟩
    simp only [Bool.and_eq_true, decide_eq_true_eq] at he
    exact ⟨he.1, rfl, he.2⟩

theorem separator_of_mem_opening {x : Segment} (h : x ∈ n.opening table outer) : x.IsSeparator := by
  unfold opening at h
  split at h
  · rw [List.mem_singleton.1 h]
    trivial
  · cases h

theorem separator_of_mem_ending {x : Segment} (h : x ∈ n.ending outer) : x.IsSeparator := by
  unfold ending at h
  split at h
  · rw [List.mem_singleton.1 h]
    trivial
  · cases h

/-- Between separators stands nothing, a piece for the node, or the stream of its children. -/
theorem segments_cases (table : Table) (outer : Language) (n : Node) : ∃ before mid after,
    n.segments table outer = before ++ mid ++ after ∧ (∀ x ∈ before, x.IsSeparator) ∧ (∀ x ∈ after, x.IsSeparator) ∧
      (mid = [] ∨ (∃ p, mid = [.piece p] ∧ p.From n) ∨ mid = segmentsOf table (n.scope.within outer) n.children) := by
  have hinside : n.inside table outer = [] ∨ (∃ p, n.inside table outer = [.piece p] ∧ p.From n) ∨
      n.inside table outer = segmentsOf table (n.scope.within outer) n.children := by
    unfold inside
    split
    · rw [← or_assoc]
      exact Or.inl ownPiece_cases
    · exact Or.inr (Or.inr rfl)
  rw [segments_eq]
  split
  · exact ⟨[], [], [], rfl, nofun, nofun, Or.inl rfl⟩
  · split
    · exact ⟨[], [], [], rfl, nofun, nofun, Or.inl rfl⟩
    · next ht =>
      refine ⟨[], [_], _, rfl, nofun, fun x hx => separator_of_mem_ending hx, Or.inr (Or.inl ⟨_, rfl, ?_⟩)⟩
      exact ⟨rfl, by simpa using ht, by simp⟩
  · exact ⟨[], n.inside table outer, [], by simp, nofun, nofun, hinside⟩
  · exact ⟨_, _, _, rfl, fun x hx => separator_of_mem_opening hx, fun x hx => separator_of_mem_ending hx, hinside⟩

/-- A piece of a stream stands for the node itself or comes from one of its children. -/
theorem piece_cases (h : .piece p ∈ n.segments table outer) :
    p.From n ∨ ∃ c ∈ n.children, .piece p ∈ c.segments table (n.scope.within outer) := by
  obtain ⟨before, mid, after, he, hbefore, hafter, hmid⟩ := segments_cases table outer n
  rw [he] at h
  rcases List.mem_append.1 h with h | h
  · rcases List.mem_append.1 h with h | h
    · exact (hbefore _ h).elim
    · rcases hmid with rfl | ⟨q, rfl, hq⟩ | rfl
      · cases h
      · rw [List.mem_singleton, Segment.piece.injEq] at h
        exact Or.inl (h ▸ hq)
      · rw [segmentsOf_eq, List.mem_flatMap] at h
        exact Or.inr h
  · exact (hafter _ h).elim

/-- Every piece of a stream stands for a node of the tree. -/
theorem exists_from (h : .piece p ∈ n.segments table outer) : ∃ m ∈ n.preorder, p.From m := by
  induction n using Node.induction generalizing outer with
  | h n ih =>
    rcases piece_cases h with hp | ⟨c, hc, hp⟩
    · exact ⟨n, n.mem_preorder_self, hp⟩
    · obtain ⟨m, hm, hp⟩ := ih c hc hp
      exact ⟨m, mem_preorder_of_child hc hm, hp⟩

end Node

end Proofreader

/-! ### Languages

The language of a node does not depend on the nodes around it when its scope says all that theirs do: flattening
hands down the language of a parent, and a child whose scope sets as much overrides all of it. -/

namespace Proofreader

namespace Scope

/-- The language under the scope, with `base` for what it leaves open. -/
def upon (s : Scope) (base : Language) : Language :=
  match s.lang with
  | some code => ⟨code, s.region⟩
  | none => ⟨base.code, s.region.or base.region⟩

/-- Nothing is set to an empty name. -/
structure Proper (s : Scope) : Prop where
  lang : s.lang ≠ some ""
  region : s.region ≠ some ""

/-- What `outer` sets is set in `inner`, to the same or anew. A language takes its region along. -/
def Refines (outer inner : Scope) : Prop :=
  inner.lang = none → outer.lang = none ∧ (inner.region = none → outer.region = none)

variable {s outer inner : Scope}

theorem proper_unset : unset.Proper := ⟨nofun, nofun⟩

theorem Refines.refl (s : Scope) : s.Refines s := fun h => ⟨h, id⟩

theorem Refines.trans (h : outer.Refines s) (k : s.Refines inner) : outer.Refines inner := by
  intro hlang
  obtain ⟨hs, hregion⟩ := k hlang
  obtain ⟨houter, hrest⟩ := h hs
  exact ⟨houter, fun hr => hrest (hregion hr)⟩

theorem upon_unset (base : Language) : unset.upon base = base := by
  simp [upon, unset]

/-- Inside a scope that it refines, a scope leaves open what it leaves open alone. -/
theorem within_upon (hs : s.Proper) (h : outer.Refines s) (base : Language) : s.within (outer.upon base) = s.upon base := by
  obtain ⟨lang, region⟩ := s
  cases lang with
  | some code =>
    have hcode : code ≠ "" := fun he => hs.lang (congrArg some he)
    simp [within, upon, Option.filter, hcode]
  | none =>
    obtain ⟨hlang, hregion⟩ := h rfl
    cases region with
    | some region =>
      have hne : region ≠ "" := fun he => hs.region (congrArg some he)
      simp [within, upon, Option.filter, hne, hlang]
    | none => simp [within, upon, hlang, hregion rfl]

end Scope

namespace Node

mutual

/-- The stream of a tree whose nodes stand in the language that `language` has for their own scopes. -/
def segmentsBy (table : Table) (language : Scope → Language) (n : Node) : List Segment :=
  match n with
  | ⟨kind, location, text, scope, level, verbatim, children⟩ =>
    let self : Node := ⟨kind, location, text, scope, level, verbatim, []⟩
    let own := language scope
    let after := if kind.isBlock then [Segment.separator own false] else []
    let inside := if kind.isLeaf then self.ownPiece own else segmentsOfBy table language children
    let rule := table.ruleFor kind
    match rule.effect with
    | .drop => []
    | .rewrite => if rule.token.isEmpty then [] else self.tokenPiece own rule.token :: after
    | .unwrap => inside
    | _ => (if rule.paginates kind level then [.separator own true] else []) ++ inside ++ after

def segmentsOfBy (table : Table) (language : Scope → Language) : List Node → List Segment
  | [] => []
  | n :: r => n.segmentsBy table language ++ segmentsOfBy table language r

end

/-- A tree inside `outer` whose scopes refine each other on every way down. -/
inductive Nested : (outer : Scope) → Node → Prop
  | node {outer : Scope} {n : Node} : outer.Refines n.scope → n.scope.Proper → (∀ c ∈ n.children, Nested n.scope c) →
      Nested outer n

variable {outer inner : Scope} {n : Node}

theorem Nested.widen (h : Nested inner n) (ho : outer.Refines inner) : Nested outer n := by
  cases h with
  | node hn hproper hc => exact .node (ho.trans hn) hproper hc

theorem segmentsOf_eq_segmentsOfBy {table : Table} {language : Scope → Language} {around : Language} {ns : List Node}
    (h : ∀ n ∈ ns, n.segments table around = n.segmentsBy table language) :
    segmentsOf table around ns = segmentsOfBy table language ns := by
  induction ns with
  | nil => rw [segmentsOf, segmentsOfBy]
  | cons n r ih =>
    rw [segmentsOf, segmentsOfBy, h n List.mem_cons_self, ih fun m hm => h m (List.mem_cons_of_mem n hm)]

/-- The pieces of a tree with nested scopes are in the languages of their own nodes. -/
theorem segments_eq_segmentsBy (table : Table) (base : Language) (h : Nested outer n) :
    n.segments table (outer.upon base) = n.segmentsBy table (·.upon base) := by
  induction h with
  | @node outer n hn hproper _ ih =>
    obtain ⟨kind, location, text, scope, level, verbatim, children⟩ := n
    have hlanguage : scope.within (outer.upon base) = scope.upon base := Scope.within_upon hproper hn base
    have hinside := segmentsOf_eq_segmentsOfBy ih
    rw [segments, segmentsBy, hlanguage]
    exact hinside ▸ rfl

end Node

end Proofreader
