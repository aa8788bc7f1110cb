import Proofreader.Proofs.Markup.Layout
import Proofreader.Proofs.Style.Stream

/-! Streams of documents that are read from each file once. Whatever the rules are, the pieces of one file come in the
order of their places and none shares a character with another one. -/

namespace Proofreader

/-- In one file, `k` begins behind the start of `l`, and not before `l` has ended. -/
def Location.Precedes (l k : Location) : Prop := l.file = k.file → l.start < k.start ∧ l.stop ≤ k.start

def Segment.Precedes : Segment → Segment → Prop
  | .piece p, .piece q => p.location.Precedes q.location
  | _, _ => True

/-- The stream of nodes that lie between `a` and `b` in `file`, and of what they include from `visits`. -/
structure Spread (file : FileId) (visits : List FileId) (a b : Nat) (ss : List Segment) : Prop where
  placed : ∀ p, .piece p ∈ ss → p.location.start < p.location.stop ∧
    (p.location.file = file ∧ a ≤ p.location.start ∧ p.location.stop ≤ b ∨ p.location.file ∈ visits)
  apart : ss.Pairwise Segment.Precedes

theorem Segment.IsSeparator.precedes {x : Segment} (h : x.IsSeparator) (y : Segment) : x.Precedes y := by
  cases x with
  | piece p => exact h.elim
  | separator l page => trivial

theorem Segment.IsSeparator.behind {y : Segment} (h : y.IsSeparator) (x : Segment) : x.Precedes y := by
  cases y with
  | piece p => exact h.elim
  | separator l page => cases x <;> trivial

theorem Segment.precedes_of_pieces {x y : Segment}
    (h : ∀ p q, x = .piece p → y = .piece q → p.location.Precedes q.location) : x.Precedes y := by
  cases x with
  | separator => trivial
  | piece p =>
    cases y with
    | separator => trivial
    | piece q => exact h p q rfl rfl

/-- Of two pieces of such a stream the earlier precedes. -/
theorem precedes_of_lt {ss : List Segment} (h : ss.Pairwise Segment.Precedes) {i j : Nat} {p q : Piece}
    (hi : ss[i]? = some (.piece p)) (hj : ss[j]? = some (.piece q)) (hij : i < j) :
    p.location.Precedes q.location := by
  obtain ⟨hilt, hip⟩ := List.getElem?_eq_some_iff.1 hi
  obtain ⟨hjlt, hjq⟩ := List.getElem?_eq_some_iff.1 hj
  have := List.pairwise_iff_getElem.1 h i j hilt hjlt hij
  rwa [hip, hjq] at this

theorem pairwise_of_separators {ss : List Segment} (h : ∀ x ∈ ss, x.IsSeparator) : ss.Pairwise Segment.Precedes := by
  induction ss with
  | nil => exact .nil
  | cons x r ih =>
    refine List.pairwise_cons.2 ⟨fun y _ => ?_, ih fun y hy => h y (List.mem_cons_of_mem _ hy)⟩
    exact (h x List.mem_cons_self).precedes y

/-- Separators around a stream change nothing about its pieces. -/
theorem pairwise_between {before mid after : List Segment} (h : mid.Pairwise Segment.Precedes)
    (hbefore : ∀ x ∈ before, x.IsSeparator) (hafter : ∀ x ∈ after, x.IsSeparator) :
    (before ++ mid ++ after).Pairwise Segment.Precedes := by
  have hfront : (before ++ mid).Pairwise Segment.Precedes :=
    List.pairwise_append.2 ⟨pairwise_of_separators hbefore, h, fun x hx y _ => (hbefore x hx).precedes y⟩
  exact List.pairwise_append.2 ⟨hfront, pairwise_of_separators hafter, fun x _ y hy => (hafter y hy).behind x⟩

namespace Spread

variable {file f : FileId} {visits inner later : List FileId} {a b c : Nat} {xs ys : List Segment} {p : Piece}

theorem widen (h : Spread file visits a b xs) {x y : Nat} (hx : x ≤ a) (hy : b ≤ y) : Spread file visits x y xs := by
  refine ⟨fun p hp => ?_, h.apart⟩
  obtain ⟨hlt, hin⟩ := h.placed p hp
  exact ⟨hlt, hin.imp_left fun ⟨hf, ha, hb⟩ => ⟨hf, Nat.le_trans hx ha, Nat.le_trans hb hy⟩⟩

theorem nil : Spread file visits a b [] := ⟨nofun, .nil⟩

theorem piece (hf : p.location.file = file) (hlt : p.location.start < p.location.stop) (ha : a ≤ p.location.start)
    (hb : p.location.stop ≤ b) : Spread file visits a b [.piece p] := by
  refine ⟨fun q hq => ?_, List.pairwise_singleton _ _⟩
  rw [List.mem_singleton, Segment.piece.injEq] at hq
  subst hq
  exact ⟨hlt, Or.inl ⟨hf, ha, hb⟩⟩

/-- What is included lies elsewhere, wherever it is included. -/
theorem elsewhere (h : Spread f inner a b xs) (file : FileId) (x y : Nat) : Spread file (f :: inner) x y xs := by
  refine ⟨fun p hp => ?_, h.apart⟩
  obtain ⟨hlt, ⟨hf, -⟩ | hin⟩ := h.placed p hp
  · exact ⟨hlt, Or.inr (hf ▸ List.mem_cons_self)⟩
  · exact ⟨hlt, Or.inr (List.mem_cons_of_mem _ hin)⟩

/-- Streams of nodes that follow each other are apart if no file is visited twice. -/
theorem append (h : Spread file inner a b xs) (k : Spread file later b c ys) (hab : a ≤ b) (hbc : b ≤ c)
    (hvisits : (file :: (inner ++ later)).Nodup) : Spread file (inner ++ later) a c (xs ++ ys) := by
  obtain ⟨hfile, hnodup⟩ := List.nodup_cons.1 hvisits
  rw [List.mem_append, not_or] at hfile
  obtain ⟨-, -, hdisjoint⟩ := List.nodup_append.1 hnodup
  refine ⟨fun p hp => ?_, List.pairwise_append.2 ⟨h.apart, k.apart, ?_⟩⟩
  · rcases List.mem_append.1 hp with hp | hp
    · obtain ⟨hlt, hin⟩ := (h.widen (Nat.le_refl a) hbc).placed p hp
      exact ⟨hlt, hin.imp_right (List.mem_append_left _)⟩
    · obtain ⟨hlt, hin⟩ := (k.widen hab (Nat.le_refl c)).placed p hp
      exact ⟨hlt, hin.imp_right (List.mem_append_right _)⟩
  · intro x hx y hy
    apply Segment.precedes_of_pieces
    rintro p q rfl rfl hpq
    obtain ⟨hlt, hp⟩ := h.placed p hx
    obtain ⟨-, hq⟩ := k.placed q hy
    rcases hp with ⟨hpf, -, hpb⟩ | hp
    · rcases hq with ⟨-, hqb, -⟩ | hq
      · omega
      · exact absurd (hpf ▸ hpq ▸ hq) hfile.2
    · rcases hq with ⟨hqf, -⟩ | hq
      · exact absurd (hqf ▸ hpq ▸ hp) hfile.1
      · exact absurd hpq (hdisjoint _ hp _ hq)

end Spread

namespace Markup

variable {lib : Library} {visits inner chain : List FileId} {file : FileId} {text : Text} {a b : Nat} {n : Node}
variable {ns : List Node} {table : Table}

/-- The stream of a node is spread between its bounds if that of its children is. -/
theorem ReadFrom.spread (hn : ReadFrom file text n) (hlt : n.location.start < n.location.stop)
    (ha : a ≤ n.location.start) (hb : n.location.stop ≤ b)
    (hc : ∀ outer, Spread file inner a b (Node.segmentsOf table outer n.children)) (outer : Language) :
    Spread file inner a b (n.segments table outer) := by
  obtain ⟨before, mid, after, he, hbefore, hafter, hmid⟩ := Node.segments_cases table outer n
  have hspread : Spread file inner a b mid := by
    rcases hmid with rfl | ⟨p, rfl, hp⟩ | rfl
    · exact .nil
    · rw [← hp.location] at hlt ha hb
      exact .piece (hp.location ▸ hn.file) hlt ha hb
    · exact hc _
  rw [he]
  refine ⟨fun p hp => hspread.placed p ?_, pairwise_between hspread.apart hbefore hafter⟩
  rcases List.mem_append.1 hp with hp | hp
  · exact (List.mem_append.1 hp).resolve_left fun hp => hbefore _ hp
  · exact (hafter _ hp).elim

theorem nodup_parts {later : List FileId} (h : (file :: (inner ++ later)).Nodup) :
    (file :: inner).Nodup ∧ (file :: later).Nodup :=
  ⟨h.sublist ((List.sublist_append_left _ _).cons_cons _), h.sublist ((List.sublist_append_right _ _).cons_cons _)⟩

/-- The nodes of a file that is read once have a spread stream, with what they include. -/
theorem Laid.spread (h : Laid lib visits chain file text a ns b) (hvisits : (file :: visits).Nodup)
    (outer : Language) : Spread file visits a b (Node.segmentsOf table outer ns) := by
  induction h generalizing outer with
  | nil => exact .nil
  | own hn hlt ha hm _ hr ihc ihr =>
    obtain ⟨hinner, hlater⟩ := nodup_parts hvisits
    have hnode := hn.spread hlt ha hm fun outer => (ihc hinner outer).widen ha (Nat.le_refl _)
    exact (hnode outer).append (ihr hlater outer) (by omega) hr.le hvisits
  | inclusion hn hlt _ ha hm _ _ _ _ hr ihc ihr =>
    obtain ⟨hinner, hlater⟩ := nodup_parts hvisits
    have hnode := hn.spread hlt ha hm fun outer => (ihc (List.nodup_cons.1 hinner).2 outer).elsewhere _ _ _
    exact (hnode outer).append (ihr hlater outer) (by omega) hr.le hvisits

end Markup

end Proofreader
