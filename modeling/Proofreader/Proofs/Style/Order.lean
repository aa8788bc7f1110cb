import Proofreader.Proofs.Collections
import Proofreader.Proofs.Markup.Layout
import Proofreader.Proofs.Style.Stream

/-! The order of a stream. Under the rules for a check the stream of a file or of a block is empty or ends with a
separator, so what an inclusion contributes is closed off before the prose behind it. Hence pieces of one file that
no separator parts come in the order of their places, even where the file is included more than once. -/

namespace Proofreader

/-- In one file, `q` stands behind `p`. -/
def Piece.Follows (p q : Piece) : Prop := p.location.file = q.location.file → p.location.stop ≤ q.location.start

/-- Pieces that no separator parts follow each other. -/
def InOrder (ss : List Segment) : Prop := ∀ i j p q, i < j → ss[i]? = some (.piece p) → ss[j]? = some (.piece q) →
  ¬ Between ss Segment.IsSeparator i j → p.Follows q

/-- No separator stands behind the piece. -/
def Open (ss : List Segment) (p : Piece) : Prop :=
  ∃ i, ss[i]? = some (.piece p) ∧ ¬ Between ss Segment.IsSeparator i ss.length

variable {xs ys : List Segment} {p : Piece}

theorem not_open_nil : ¬ Open [] p := by
  rintro ⟨i, hi, -⟩
  cases hi

theorem Open.mem (h : Open xs p) : .piece p ∈ xs := by
  obtain ⟨i, hi, -⟩ := h
  exact List.mem_of_getElem? hi

/-- What is open in a longer stream is open in its last part, or in the first part if the last has no separator. -/
theorem Open.append (h : Open (xs ++ ys) p) : Open ys p ∨ Open xs p ∧ ∀ x ∈ ys, ¬ x.IsSeparator := by
  obtain ⟨i, hi, hb⟩ := h
  rw [List.length_append] at hb
  by_cases hlt : i < xs.length
  · rw [List.getElem?_append_left hlt] at hi
    refine Or.inr ⟨⟨i, hi, fun hxs => hb ?_⟩, fun x hx hsep => hb ?_⟩
    · exact ((between_append_left ys (Nat.le_refl _)).2 hxs).mono (Nat.le_refl _) (Nat.le_add_right _ _)
    · obtain ⟨k, hk⟩ := List.mem_iff_getElem?.1 hx
      have hklt := (List.getElem?_eq_some_iff.1 hk).1
      refine ⟨xs.length + k, x, by omega, by omega, ?_, hsep⟩
      rw [List.getElem?_append_right (by omega), Nat.add_sub_cancel_left]
      exact hk
  · rw [List.getElem?_append_right (by omega)] at hi
    refine Or.inl ⟨_, hi, fun hys => hb ?_⟩
    have hmoved := hys.append_right xs
    rwa [Nat.add_sub_cancel' (by omega)] at hmoved

theorem not_open_snoc {x : Segment} (hx : x.IsSeparator) : ¬ Open (xs ++ [x]) p := by
  intro h
  rcases h.append with h | ⟨-, h⟩
  · have := h.mem
    rw [List.mem_singleton] at this
    subst this
    exact hx
  · exact h x (by simp) hx

theorem InOrder.append (h : InOrder xs) (k : InOrder ys)
    (hcross : ∀ p q, Open xs p → .piece q ∈ ys → p.Follows q) : InOrder (xs ++ ys) := by
  intro i j p q hij hi hj hb
  by_cases hjlt : j < xs.length
  · rw [List.getElem?_append_left (by omega)] at hi
    rw [List.getElem?_append_left hjlt] at hj
    exact h i j p q hij hi hj fun hxs => hb ((between_append_left ys (by omega)).2 hxs)
  · rw [List.getElem?_append_right (by omega)] at hj
    by_cases hilt : i < xs.length
    · rw [List.getElem?_append_left hilt] at hi
      refine hcross p q ⟨i, hi, fun hxs => hb ?_⟩ (List.mem_of_getElem? hj)
      exact ((between_append_left ys (Nat.le_refl _)).2 hxs).mono (Nat.le_refl _) (by omega)
    · rw [List.getElem?_append_right (by omega)] at hi
      refine k (i - xs.length) (j - xs.length) p q (by omega) hi hj fun hys => hb ?_
      have hmoved := hys.append_right xs
      rwa [Nat.add_sub_cancel' (by omega), Nat.add_sub_cancel' (by omega)] at hmoved

theorem inOrder_of_length_le_one (h : xs.length ≤ 1) : InOrder xs := by
  intro i j p q hij hi hj
  have := (List.getElem?_eq_some_iff.1 hj).1
  omega

/-- The stream of nodes that lie between `a` and `b` in `file`, whose inclusions lie in files outside `path`. -/
structure Flows (path : List FileId) (file : FileId) (a b : Nat) (ss : List Segment) : Prop where
  placed : ∀ p, .piece p ∈ ss →
    p.location.file = file ∧ a ≤ p.location.start ∧ p.location.stop ≤ b ∨ p.location.file ∉ path
  inOrder : InOrder ss
  ending : ∀ p, Open ss p → p.location.file = file

namespace Flows

variable {path : List FileId} {file : FileId} {a b c : Nat}

theorem widen (h : Flows path file a b xs) {x y : Nat} (hx : x ≤ a) (hy : b ≤ y) : Flows path file x y xs where
  placed p hp := (h.placed p hp).imp_left fun ⟨hf, ha, hb⟩ => ⟨hf, Nat.le_trans hx ha, Nat.le_trans hb hy⟩
  inOrder := h.inOrder
  ending := h.ending

theorem of_separators (h : ∀ x ∈ xs, x.IsSeparator) : Flows path file a b xs where
  placed _ hp := (h _ hp).elim
  inOrder _ _ _ _ _ hi := (h _ (List.mem_of_getElem? hi)).elim
  ending _ hp := (h _ hp.mem).elim

theorem piece (hf : p.location.file = file) (ha : a ≤ p.location.start) (hb : p.location.stop ≤ b) :
    Flows path file a b [.piece p] where
  placed q hq := by
    rw [List.mem_singleton, Segment.piece.injEq] at hq
    exact Or.inl (hq ▸ ⟨hf, ha, hb⟩)
  inOrder := inOrder_of_length_le_one (Nat.le_refl 1)
  ending q hq := by
    have hmem := hq.mem
    rw [List.mem_singleton, Segment.piece.injEq] at hmem
    exact hmem ▸ hf

theorem append (h : Flows path file a b xs) (k : Flows path file b c ys) (hfile : file ∈ path) (hab : a ≤ b)
    (hbc : b ≤ c) : Flows path file a c (xs ++ ys) where
  placed p hp := (List.mem_append.1 hp).elim ((h.widen (Nat.le_refl a) hbc).placed p) ((k.widen hab (Nat.le_refl c)).placed p)
  inOrder := by
    refine h.inOrder.append k.inOrder fun p q hp hq hpq => ?_
    have hpf := h.ending p hp
    rcases h.placed p hp.mem with ⟨-, -, hstop⟩ | hp'
    · rcases k.placed q hq with ⟨-, hstart, -⟩ | hq'
      · exact Nat.le_trans hstop hstart
      · exact absurd (hpq ▸ hpf ▸ hfile) hq'
    · exact absurd (hpf ▸ hfile) hp'
  ending p hp := hp.append.elim (k.ending p) fun h' => h.ending p h'.1

/-- What a node contributes between its separators. -/
theorem between {before mid after : List Segment} (h : Flows path file a b mid) (hfile : file ∈ path) (hab : a ≤ b)
    (hbefore : ∀ x ∈ before, x.IsSeparator) (hafter : ∀ x ∈ after, x.IsSeparator) :
    Flows path file a b (before ++ mid ++ after) :=
  ((of_separators (a := a) (b := a) hbefore).append h hfile (Nat.le_refl a) hab).append
    (of_separators (a := b) (b := b) hafter) hfile hab (Nat.le_refl b)

end Flows

namespace Markup

variable {level : Int} {outer : Language} {n : Node}

theorem segments_inclusion (h : n.kind = .inclusion) : n.segments (.checking level) outer =
    Node.segmentsOf (.checking level) (n.scope.within outer) n.children := by
  rw [Node.segments_eq, h]
  simp [Table.checking, Rule.identity, Node.opening, Node.inside, Node.ending, Rule.paginates, h, Kind.isLeaf, Kind.isBlock]

theorem segments_block (h : n.kind = .block) : n.segments (.checking level) outer =
    Node.segmentsOf (.checking level) (n.scope.within outer) n.children := by
  rw [Node.segments_eq, h]
  simp [Table.checking, Node.inside, h, Kind.isLeaf]

theorem segments_dropped (h : ((Table.checking level).ruleFor n.kind).effect = .drop) :
    n.segments (.checking level) outer = [] := by
  rw [Node.segments_eq, h]

theorem segments_closed (hblock : n.kind.isBlock = true) (h : ((Table.checking level).ruleFor n.kind).effect = .identity ∨
    ((Table.checking level).ruleFor n.kind).effect = .paginateBefore) : n.segments (.checking level) outer =
      n.opening (.checking level) outer ++ n.inside (.checking level) outer ++ [.separator (n.scope.within outer) false] := by
  rw [Node.segments_eq]
  rcases h with h | h <;> simp [h, Node.ending, hblock]

/-- A node on block level is dropped, closed by a separator or holds other nodes on block level. -/
theorem blockLevel_cases (h : isBlockLevel n.kind = true) :
    n.segments (.checking level) outer = [] ∨
    (∃ ss x, n.segments (.checking level) outer = ss ++ [x] ∧ x.IsSeparator) ∨
    ((n.kind = .block ∨ n.kind = .inclusion) ∧ n.segments (.checking level) outer =
      Node.segmentsOf (.checking level) (n.scope.within outer) n.children) := by
  have hclosed : n.kind.isBlock = true → ((Table.checking level).ruleFor n.kind).effect = .identity ∨
      ((Table.checking level).ruleFor n.kind).effect = .paginateBefore →
      ∃ ss x, n.segments (.checking level) outer = ss ++ [x] ∧ x.IsSeparator :=
    fun hb he => ⟨_, _, segments_closed hb he, trivial⟩
  cases hk : n.kind with
  | heading => exact Or.inr (Or.inl (hclosed (by simp [hk, Kind.isBlock]) (by simp [hk, Table.checking, Rule.paginateBefore])))
  | paragraph | listItem | parbreak | pagebreak =>
    exact Or.inr (Or.inl (hclosed (by simp [hk, Kind.isBlock]) (by simp [hk, Table.checking, Rule.identity])))
  | mathBlock | rawBlock | bibliography => exact Or.inl (segments_dropped (by simp [hk, Table.checking]))
  | block => exact Or.inr (Or.inr ⟨Or.inl rfl, segments_block hk⟩)
  | inclusion => exact Or.inr (Or.inr ⟨Or.inr rfl, segments_inclusion hk⟩)
  | document | text | space | linebreak | strong | emph | mathInline | citation | rawInline | lang =>
    simp [hk, isBlockLevel, standsAlone] at h

variable {lib : Library} {visits chain : List FileId} {file : FileId} {text : Text} {a b : Nat} {ns : List Node} {p : Piece}

theorem BlockLevel.tail {r : List Node} (h : BlockLevel (n :: r)) : BlockLevel r := fun m hm => h m (List.mem_cons_of_mem _ hm)

/-- The stream of a node on block level leaves nothing open if its children on block level do not. -/
theorem not_open_segments (h : isBlockLevel n.kind = true) (hc : n.kind = .block ∨ n.kind = .inclusion →
    ¬ Open (Node.segmentsOf (.checking level) (n.scope.within outer) n.children) p) :
    ¬ Open (n.segments (.checking level) outer) p := by
  rcases blockLevel_cases h with he | ⟨ss, x, he, hx⟩ | ⟨hk, he⟩
  · rw [he]
    exact not_open_nil
  · rw [he]
    exact not_open_snoc hx
  · rw [he]
    exact hc hk

/-- The stream of nodes on block level leaves nothing open. -/
theorem Laid.not_open (h : Laid lib visits chain file text a ns b) (hlevel : BlockLevel ns) :
    ¬ Open (Node.segmentsOf (.checking level) outer ns) p := by
  induction h generalizing outer with
  | nil => exact not_open_nil
  | own hn _ _ _ _ _ ihc ihr =>
    intro hopen
    rcases hopen.append with hr | ⟨hn', -⟩
    · exact ihr hlevel.tail hr
    · exact not_open_segments (hlevel _ (by simp)) (fun hk => ihc (hn.blocks hk)) hn'
  | inclusion hn _ _ _ _ _ _ _ _ _ ihc ihr =>
    intro hopen
    rcases hopen.append with hr | ⟨hn', -⟩
    · exact ihr hlevel.tail hr
    · exact not_open_segments (hlevel _ (by simp)) (fun hk => ihc (hn.blocks hk)) hn'

/-- The stream of a node flows between the bounds of the node if that of its children does. -/
theorem ReadFrom.flows (hn : ReadFrom file text n) (ha : a ≤ n.location.start) (hb : n.location.stop ≤ b)
    (hc : Flows (file :: chain) file a b (Node.segmentsOf (.checking level) (n.scope.within outer) n.children)) :
    Flows (file :: chain) file a b (n.segments (.checking level) outer) := by
  obtain ⟨before, mid, after, he, hbefore, hafter, hmid⟩ := Node.segments_cases (.checking level) outer n
  have hab : a ≤ b := Nat.le_trans ha (Nat.le_trans hn.valid hb)
  have hflow : Flows (file :: chain) file a b mid := by
    rcases hmid with rfl | ⟨p, rfl, hp⟩ | rfl
    · exact .of_separators nofun
    · exact .piece (hp.location ▸ hn.file) (hp.location ▸ ha) (hp.location ▸ hb)
    · exact hc
  rw [he]
  exact hflow.between List.mem_cons_self hab hbefore hafter

/-- The stream of an inclusion flows wherever it stands: its pieces lie in other files and leave nothing open. -/
theorem Laid.flows_elsewhere {f : FileId} {t : Text} (hf : f ∉ file :: chain) (hlevel : BlockLevel ns)
    (hlaid : Laid lib visits (file :: chain) f t 0 ns t.length)
    (h : Flows (f :: file :: chain) f 0 t.length (Node.segmentsOf (.checking level) outer ns)) :
    Flows (file :: chain) file a b (Node.segmentsOf (.checking level) outer ns) where
  placed p hp := by
    rcases h.placed p hp with ⟨hpf, -⟩ | hpf
    · exact Or.inr (hpf ▸ hf)
    · exact Or.inr fun hmem => hpf (List.mem_cons_of_mem _ hmem)
  inOrder := h.inOrder
  ending _ hp := (hlaid.not_open hlevel hp).elim

theorem Laid.flows (h : Laid lib visits chain file text a ns b) :
    Flows (file :: chain) file a b (Node.segmentsOf (.checking level) outer ns) := by
  induction h generalizing outer with
  | nil => exact .of_separators nofun
  | own hn _ ha hm _ hr ihc ihr =>
    have hnode : ∀ outer, Flows _ _ _ _ (Node.segments (.checking level) outer _) := fun outer =>
      hn.flows ha hm (ihc.widen ha (Nat.le_refl _))
    exact (hnode outer).append ihr List.mem_cons_self (Nat.le_trans ha (Nat.le_trans hn.valid hm)) hr.le
  | inclusion hn _ hk ha hm _ hf _ hc hr ihc ihr =>
    have hnode : ∀ outer, Flows _ _ _ _ (Node.segments (.checking level) outer _) := fun outer =>
      hn.flows ha hm (hc.flows_elsewhere hf (hn.blocks (Or.inr hk)) ihc)
    exact (hnode outer).append ihr List.mem_cons_self (Nat.le_trans ha (Nat.le_trans hn.valid hm)) hr.le

end Markup

end Proofreader
