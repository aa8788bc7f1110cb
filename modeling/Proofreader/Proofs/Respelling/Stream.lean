import Proofreader.Proofs.Extraction.Prose
import Proofreader.Proofs.Respelling.Files

/-! The stream of a document after a slice is respelled. It has the same segments up to the run that shows the slice and
again behind it, and a single piece in place of the run. -/

namespace Proofreader

/-- The segment without the place of its piece. -/
def Segment.bare : Segment → Segment
  | .piece p => .piece { p with location := ⟨"", 0, 0⟩, exact := false }
  | .separator l page => .separator l page

namespace Node

variable {table : Table} {outer : Language} {n n' : Node}

theorem ownPiece_bare (n : Node) (language : Language) :
    n.bare.ownPiece language = (n.ownPiece language).map Segment.bare := by
  rw [bare_eq]
  unfold ownPiece
  dsimp only
  split
  · rfl
  · simp [Segment.bare]

/-- The stream of a node without places is its stream without places. -/
theorem segments_bare (table : Table) (outer : Language) (n : Node) :
    n.bare.segments table outer = (n.segments table outer).map Segment.bare := by
  induction n using Node.induction generalizing outer with
  | h n ih =>
    have hopening : n.bare.opening table outer = (n.opening table outer).map Segment.bare := by
      rw [bare_eq]
      unfold opening
      dsimp only
      split <;> rfl
    have hending : n.bare.ending outer = (n.ending outer).map Segment.bare := by
      rw [bare_eq]
      unfold ending
      dsimp only
      split <;> rfl
    have hinside : n.bare.inside table outer = (n.inside table outer).map Segment.bare := by
      have hown := n.ownPiece_bare (n.scope.within outer)
      have hchildren : segmentsOf table (n.scope.within outer) (n.children.map bare) =
          (segmentsOf table (n.scope.within outer) n.children).map Segment.bare := by
        rw [segmentsOf_eq, segmentsOf_eq, List.flatMap_map, List.map_flatMap]
        exact List.flatMap_congr fun c hc => ih c hc _
      rw [bare_eq] at hown ⊢
      unfold inside
      dsimp only
      split
      · exact hown
      · exact hchildren
    have hkind : n.bare.kind = n.kind := by rw [bare_eq]
    have htoken : ∀ token, n.bare.tokenPiece (n.bare.scope.within outer) token =
        (n.tokenPiece (n.scope.within outer) token).bare := fun token => by
      rw [bare_eq]
      rfl
    rw [segments_eq table outer n.bare, segments_eq table outer n, hopening, hending, hinside, hkind]
    split
    · rfl
    · split
      · rfl
      · rw [htoken, List.map_cons]
    · rfl
    · rw [List.map_append, List.map_append]

end Node

namespace Markup

/-- Streams that differ in nothing but places. -/
def Alike (ss ss' : List Segment) : Prop := ss.map Segment.bare = ss'.map Segment.bare

variable {ss ss' us us' : List Segment}

theorem Alike.refl (ss : List Segment) : Alike ss ss := rfl

theorem Alike.append (h : Alike ss ss') (k : Alike us us') : Alike (ss ++ us) (ss' ++ us') := by
  rw [Alike, List.map_append, List.map_append, h, k]

theorem Same.alike {ns ns' : List Node} (h : Same ns ns') (table : Table) (outer : Language) :
    Alike (Node.segmentsOf table outer ns) (Node.segmentsOf table outer ns') := by
  have hstream : ∀ ms : List Node, (Node.segmentsOf table outer ms).map Segment.bare =
      (ms.map Node.bare).flatMap (·.segments table outer) := fun ms => by
    rw [Node.segmentsOf_eq, List.map_flatMap, List.flatMap_map]
    exact List.flatMap_congr fun n _ => (n.segments_bare table outer).symm
  rw [Alike, hstream, hstream, h]

theorem segmentsOf_append (table : Table) (outer : Language) (ns ms : List Node) :
    Node.segmentsOf table outer (ns ++ ms) = Node.segmentsOf table outer ns ++ Node.segmentsOf table outer ms := by
  simp only [Node.segmentsOf_eq, List.flatMap_append]

namespace Respelling

variable (x : Respelling)

/-- The piece is a copy of a part of the file that has some of the slice. -/
def Quotes (p : Piece) : Prop := p.exact = true ∧ ∃ i, x.start ≤ i ∧ i < x.stop ∧ p.location.Has x.file i

/-- No citation has anything of the slice. -/
def Uncited (ns : List Node) : Prop :=
  ∀ n ∈ Node.preorders ns, n.kind = .citation → ∀ i, x.start ≤ i → i < x.stop → ¬ n.location.Has x.file i

/-- The streams before and after: alike but for the run that shows the slice. -/
structure Spliced (table : Table) (ss ss' : List Segment) : Prop where
  parts : ∃ inner r r' pre pre' post post', x.Run r r' ∧ ss = pre ++ Node.segmentsOf table inner r ++ post ∧
    ss' = pre' ++ Node.segmentsOf table inner r' ++ post' ∧ Alike pre pre' ∧ Alike post post' ∧
    (∀ p, .piece p ∈ pre → ¬ x.Quotes p) ∧ ∀ p, .piece p ∈ post → ¬ x.Quotes p

variable {x} {table : Table} {outer : Language} {ns ns' : List Node}

theorem Uncited.sublist {ms : List Node} (h : x.Uncited ns) (hs : ms.Sublist ns) : x.Uncited ms :=
  fun n hn => h n (Node.mem_preorders_of_sublist hs hn)

theorem Uncited.children {n : Node} (h : x.Uncited [n]) : x.Uncited n.children := fun m hm => h m (by
  rw [Node.preorders_singleton]
  exact List.mem_cons_of_mem _ hm)

/-- What nodes that show nothing of the slice contribute quotes nothing of it. -/
theorem not_quotes (h : x.Blind ns) (hcited : x.Uncited ns) {p : Piece} (hp : .piece p ∈ Node.segmentsOf table outer ns) :
    ¬ x.Quotes p := by
  rintro ⟨hexact, i, hi, hj, hhas⟩
  rw [Node.segmentsOf_eq, List.mem_flatMap] at hp
  obtain ⟨n, hn, hp⟩ := hp
  obtain ⟨m, hm, hfrom⟩ := Node.exists_from hp
  have hmem : m ∈ Node.preorders ns := by
    rw [Node.preorders_eq, List.mem_flatMap]
    exact ⟨n, hn, hm⟩
  rw [hfrom.location] at hhas
  exact h i hi hj m hmem ⟨(hfrom.exact hexact).1, fun hcitation => hcited m hmem hcitation i hi hj hhas, hhas⟩

namespace Spliced

theorem before (h : x.Spliced table ss ss') (hus : Alike us us') (hquotes : ∀ p, .piece p ∈ us → ¬ x.Quotes p) :
    x.Spliced table (us ++ ss) (us' ++ ss') := by
  obtain ⟨inner, r, r', pre, pre', post, post', hrun, rfl, rfl, hpre, hpost, kpre, kpost⟩ := h.parts
  refine ⟨inner, r, r', us ++ pre, us' ++ pre', post, post', hrun, by simp, by simp, hus.append hpre, hpost, ?_, kpost⟩
  exact fun p hp => (List.mem_append.1 hp).elim (hquotes p) (kpre p)

theorem after (h : x.Spliced table ss ss') (hus : Alike us us') (hquotes : ∀ p, .piece p ∈ us → ¬ x.Quotes p) :
    x.Spliced table (ss ++ us) (ss' ++ us') := by
  obtain ⟨inner, r, r', pre, pre', post, post', hrun, rfl, rfl, hpre, hpost, kpre, kpost⟩ := h.parts
  refine ⟨inner, r, r', pre, pre', post ++ us, post' ++ us', hrun, by simp, by simp, hpre, hpost.append hus, kpre, ?_⟩
  exact fun p hp => (List.mem_append.1 hp).elim (kpost p) (hquotes p)

end Spliced

theorem not_quotes_of_separators (h : ∀ s ∈ ss, s.IsSeparator) (p : Piece) (hp : .piece p ∈ ss) : ¬ x.Quotes p := (h _ hp).elim

/-- What surrounds the children is the same for both nodes. -/
theorem Shell.spliced {n n' : Node} (h : Shell n n') (hleaf : n.kind.isLeaf = false)
    (hquotes : ∃ p, .piece p ∈ n.segments table outer ∧ x.Quotes p)
    (hchildren : ∀ outer, (∃ p, .piece p ∈ Node.segmentsOf table outer n.children ∧ x.Quotes p) →
      x.Spliced table (Node.segmentsOf table outer n.children) (Node.segmentsOf table outer n'.children)) :
    x.Spliced table (n.segments table outer) (n'.segments table outer) := by
  have hopening : n'.opening table outer = n.opening table outer := by
    simp only [Node.opening, h.kind, h.level, h.scope]
  have hending : n'.ending outer = n.ending outer := by
    simp only [Node.ending, h.kind, h.scope]
  have hinside : n.inside table outer = Node.segmentsOf table (n.scope.within outer) n.children := by
    simp [Node.inside, hleaf]
  have hinside' : n'.inside table outer = Node.segmentsOf table (n.scope.within outer) n'.children := by
    simp [Node.inside, hleaf, h.kind, h.scope]
  have kopening : ∀ p, .piece p ∈ n.opening table outer → ¬ x.Quotes p :=
    not_quotes_of_separators fun _ => Node.separator_of_mem_opening
  have kending : ∀ p, .piece p ∈ n.ending outer → ¬ x.Quotes p :=
    not_quotes_of_separators fun _ => Node.separator_of_mem_ending
  obtain ⟨p, hp, hq⟩ := hquotes
  rw [Node.segments_eq table outer n] at hp ⊢
  rw [Node.segments_eq table outer n', h.kind, hinside, hinside', hopening, hending]
  rw [hinside] at hp
  have hwhole : .piece p ∈ n.opening table outer ++ Node.segmentsOf table (n.scope.within outer) n.children ++ n.ending outer →
      x.Spliced table (n.opening table outer ++ Node.segmentsOf table (n.scope.within outer) n.children ++ n.ending outer)
        (n.opening table outer ++ Node.segmentsOf table (n.scope.within outer) n'.children ++ n.ending outer) := fun hp => by
    have hmem := (List.mem_append.1 hp).resolve_right fun hp => kending p hp hq
    have hmem := (List.mem_append.1 hmem).resolve_left fun hp => kopening p hp hq
    exact ((hchildren _ ⟨p, hmem, hq⟩).before (.refl _) kopening).after (.refl _) kending
  cases heffect : (table.ruleFor n.kind).effect with
  | drop =>
    rw [heffect] at hp
    cases hp
  | rewrite =>
    simp only [heffect] at hp
    split at hp
    · cases hp
    · rcases List.mem_cons.1 hp with hp | hp
      · rw [Node.tokenPiece, Segment.piece.injEq] at hp
        have hexact := hq.1
        rw [hp] at hexact
        cases hexact
      · exact absurd hq (kending p hp)
  | unwrap =>
    rw [heffect] at hp
    exact hchildren _ ⟨p, hp, hq⟩
  | paginateBefore =>
    rw [heffect] at hp
    exact hwhole hp
  | identity =>
    rw [heffect] at hp
    exact hwhole hp

/-- What is quoted of the slice is in the stream of the run. -/
theorem Edited.spliced (h : x.Edited ns ns') (hcited : x.Uncited ns)
    (hquotes : ∃ p, .piece p ∈ Node.segmentsOf table outer ns ∧ x.Quotes p) :
    x.Spliced table (Node.segmentsOf table outer ns) (Node.segmentsOf table outer ns') := by
  induction h generalizing outer with
  | @run r r' hrun =>
    exact ⟨outer, r, r', [], [], [], [], hrun, by simp, by simp, .refl [], .refl [], nofun, nofun⟩
  | @within n n' hshell hleaf _ ih =>
    have hsingle : ∀ m : Node, Node.segmentsOf table outer [m] = m.segments table outer := fun m => by
      rw [Node.segmentsOf_eq, List.flatMap_singleton]
    rw [hsingle] at hquotes
    rw [hsingle, hsingle]
    exact hshell.spliced hleaf hquotes fun outer hmore => ih hcited.children hmore
  | @after pre pre' ns ns' hsame hblind _ ih =>
    have hpre : ∀ p, .piece p ∈ Node.segmentsOf table outer pre → ¬ x.Quotes p := fun p =>
      not_quotes hblind (hcited.sublist (List.sublist_append_left pre ns))
    rw [segmentsOf_append, segmentsOf_append]
    rw [segmentsOf_append] at hquotes
    obtain ⟨p, hp, hq⟩ := hquotes
    have hmem := (List.mem_append.1 hp).resolve_left fun hp => hpre p hp hq
    exact (ih (hcited.sublist (List.sublist_append_right pre ns)) ⟨p, hmem, hq⟩).before (hsame.alike table outer) hpre
  | @before ns ns' post post' _ hsame hblind ih =>
    have hpost : ∀ p, .piece p ∈ Node.segmentsOf table outer post → ¬ x.Quotes p := fun p =>
      not_quotes hblind (hcited.sublist (List.sublist_append_right ns post))
    rw [segmentsOf_append, segmentsOf_append]
    rw [segmentsOf_append] at hquotes
    obtain ⟨p, hp, hq⟩ := hquotes
    have hmem := (List.mem_append.1 hp).resolve_right fun hp => hpost p hp hq
    exact (ih (hcited.sublist (List.sublist_append_left ns post)) ⟨p, hmem, hq⟩).after (hsame.alike table outer) hpost

end Respelling

end Markup

end Proofreader
