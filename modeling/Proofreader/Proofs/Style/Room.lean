import Proofreader.Proofs.Style.Apart

/-! Includes take room in their file. Where a document is read from each file once, pieces that adjoin in their file have
no piece of another file between them in the stream. -/

namespace Proofreader

/-- The places of the pieces of a stream. -/
def placesOf (ss : List Segment) : List Location :=
  ss.filterMap fun
    | .piece p => some p.location
    | .separator _ _ => none

theorem placesOf_append (xs ys : List Segment) : placesOf (xs ++ ys) = placesOf xs ++ placesOf ys := List.filterMap_append

theorem mem_placesOf {ss : List Segment} {l : Location} : l ∈ placesOf ss ↔ ∃ p, .piece p ∈ ss ∧ p.location = l := by
  rw [placesOf, List.mem_filterMap]
  constructor
  · rintro ⟨x, hx, hl⟩
    cases x with
    | piece p => exact ⟨p, hx, Option.some.inj hl⟩
    | separator => cases hl
  · rintro ⟨p, hp, rfl⟩
    exact ⟨_, hp, rfl⟩

theorem placesOf_separators {ss : List Segment} (h : ∀ x ∈ ss, x.IsSeparator) : placesOf ss = [] := by
  refine List.eq_nil_iff_forall_not_mem.2 fun l hl => ?_
  obtain ⟨p, hp, -⟩ := mem_placesOf.1 hl
  exact h _ hp

section Sublist

variable {α : Type} {x y z : α} {l k : List α}

theorem pair_sublist_append (h : [x, y].Sublist (l ++ k)) : [x, y].Sublist l ∨ x ∈ l ∧ y ∈ k ∨ [x, y].Sublist k := by
  obtain ⟨front, back, he, hl, hk⟩ := List.sublist_append_iff.1 h
  rcases List.cons_eq_append_iff.1 he with ⟨rfl, rfl⟩ | ⟨front, rfl, hy⟩
  · exact Or.inr (Or.inr hk)
  · rcases List.cons_eq_append_iff.1 hy with ⟨rfl, rfl⟩ | ⟨front, rfl, hnil⟩
    · exact Or.inr (Or.inl ⟨List.singleton_sublist.1 hl, List.singleton_sublist.1 hk⟩)
    · obtain ⟨rfl, -⟩ := List.append_eq_nil_iff.1 hnil.symm
      exact Or.inl hl

theorem triple_sublist_append (h : [x, y, z].Sublist (l ++ k)) :
    [x, y, z].Sublist l ∨ [x, y].Sublist l ∧ z ∈ k ∨ x ∈ l ∧ [y, z].Sublist k ∨ [x, y, z].Sublist k := by
  obtain ⟨front, back, he, hl, hk⟩ := List.sublist_append_iff.1 h
  rcases List.cons_eq_append_iff.1 he with ⟨rfl, rfl⟩ | ⟨front, rfl, hy⟩
  · exact Or.inr (Or.inr (Or.inr hk))
  · rcases List.cons_eq_append_iff.1 hy with ⟨rfl, rfl⟩ | ⟨front, rfl, hz⟩
    · exact Or.inr (Or.inr (Or.inl ⟨List.singleton_sublist.1 hl, hk⟩))
    · rcases List.cons_eq_append_iff.1 hz with ⟨rfl, rfl⟩ | ⟨front, rfl, hnil⟩
      · exact Or.inr (Or.inl ⟨hl, List.singleton_sublist.1 hk⟩)
      · obtain ⟨rfl, -⟩ := List.append_eq_nil_iff.1 hnil.symm
        exact Or.inl hl

end Sublist

/-- A place of another file comes between two of one file only where these do not adjoin. -/
def PartedBy (ls : List Location) : Prop :=
  ∀ l m k, [l, m, k].Sublist ls → l.file = k.file → m.file ≠ l.file → l.stop < k.start

/-- The places of nodes between `a` and `b` in `file`, and of what they include. -/
structure Spaced (file : FileId) (a b : Nat) (ls : List Location) : Prop where
  room : ls ≠ [] → a < b
  before : ∀ l k, [l, k].Sublist ls → l.file = file → k.file ≠ file → l.stop < b
  after : ∀ l k, [l, k].Sublist ls → l.file ≠ file → k.file = file → a < k.start
  parted : PartedBy ls

namespace Spaced

variable {file f : FileId} {a b c : Nat} {ls ks : List Location} {l : Location}

theorem nil : Spaced file a b [] := ⟨fun h => absurd rfl h, nofun, nofun, nofun⟩

theorem single (hab : a < b) (l : Location) : Spaced file a b [l] := by
  refine ⟨fun _ => hab, fun u v h => ?_, fun u v h => ?_, fun u v w h => ?_⟩ <;>
    exact absurd h.length_le (by simp)

theorem widen (h : Spaced file a b ls) {x y : Nat} (hx : x ≤ a) (hy : b ≤ y) : Spaced file x y ls where
  room hne := by
    have := h.room hne
    omega
  before l k hlk hl hk := Nat.lt_of_lt_of_le (h.before l k hlk hl hk) hy
  after l k hlk hl hk := Nat.lt_of_le_of_lt hx (h.after l k hlk hl hk)
  parted := h.parted

/-- What is included has no place in the file that includes it. -/
theorem elsewhere (h : PartedBy ls) (hnone : ∀ l ∈ ls, l.file ≠ file) (hab : a < b) : Spaced file a b ls where
  room _ := hab
  before _ _ hlk hl := absurd hl (hnone _ (hlk.subset List.mem_cons_self))
  after _ _ hlk _ hk := absurd hk (hnone _ (hlk.subset (List.mem_cons_of_mem _ List.mem_cons_self)))
  parted := h

/-- Places of nodes that follow each other, where both have no file in common but this one. -/
theorem join (h : Spaced file a b ls) (k : Spaced file b c ks) (hab : a ≤ b) (hbc : b ≤ c)
    (hstop : ∀ l ∈ ls, l.file = file → l.stop ≤ b) (hstart : ∀ l ∈ ks, l.file = file → b ≤ l.start)
    (hshared : ∀ l ∈ ls, ∀ m ∈ ks, l.file = m.file → l.file = file) : Spaced file a c (ls ++ ks) where
  room hne := by
    by_cases hls : ls = []
    · exact Nat.lt_of_le_of_lt hab (k.room fun hks => hne (by rw [hls, hks]; rfl))
    · exact Nat.lt_of_lt_of_le (h.room hls) hbc
  before l m hlm hl hm := by
    rcases pair_sublist_append hlm with hlm | ⟨hmem, hmem'⟩ | hlm
    · exact Nat.lt_of_lt_of_le (h.before l m hlm hl hm) hbc
    · exact Nat.lt_of_le_of_lt (hstop l hmem hl) (k.room (List.ne_nil_of_mem hmem'))
    · exact k.before l m hlm hl hm
  after l m hlm hl hm := by
    rcases pair_sublist_append hlm with hlm | ⟨hmem, hmem'⟩ | hlm
    · exact h.after l m hlm hl hm
    · exact Nat.lt_of_lt_of_le (h.room (List.ne_nil_of_mem hmem)) (hstart m hmem' hm)
    · exact Nat.lt_of_le_of_lt hab (k.after l m hlm hl hm)
  parted l m n hlmn hfile hm := by
    rcases triple_sublist_append hlmn with hlmn | ⟨hlm, hn⟩ | ⟨hl, hmn⟩ | hlmn
    · exact h.parted l m n hlmn hfile hm
    · have hl := hshared l (hlm.subset List.mem_cons_self) n hn hfile
      exact Nat.lt_of_lt_of_le (h.before l m hlm hl (hl ▸ hm)) (hstart n hn (hfile ▸ hl))
    · have hfirst := hshared l hl n (hmn.subset (List.mem_cons_of_mem _ List.mem_cons_self)) hfile
      exact Nat.lt_of_le_of_lt (hstop l hl hfirst) (k.after m n hmn (hfirst ▸ hm) (hfile ▸ hfirst))
    · exact k.parted l m n hlmn hfile hm

/-- Places of nodes that follow each other, if no file is visited twice. -/
theorem append {inner later : List FileId} {xs ys : List Segment} (h : Spaced file a b (placesOf xs))
    (k : Spaced file b c (placesOf ys)) (hxs : Spread file inner a b xs) (hys : Spread file later b c ys) (hab : a ≤ b)
    (hbc : b ≤ c) (hvisits : (file :: (inner ++ later)).Nodup) : Spaced file a c (placesOf (xs ++ ys)) := by
  obtain ⟨hfile, hnodup⟩ := List.nodup_cons.1 hvisits
  rw [List.mem_append, not_or] at hfile
  obtain ⟨-, -, hdisjoint⟩ := List.nodup_append.1 hnodup
  have hbefore : ∀ l ∈ placesOf xs, l.file = file ∧ l.stop ≤ b ∨ l.file ∈ inner := fun l hl => by
    obtain ⟨p, hp, rfl⟩ := mem_placesOf.1 hl
    exact (hxs.placed p hp).2.imp_left fun hin => ⟨hin.1, hin.2.2⟩
  have hbehind : ∀ l ∈ placesOf ys, l.file = file ∧ b ≤ l.start ∨ l.file ∈ later := fun l hl => by
    obtain ⟨p, hp, rfl⟩ := mem_placesOf.1 hl
    exact (hys.placed p hp).2.imp_left fun hin => ⟨hin.1, hin.2.1⟩
  have hstop : ∀ l ∈ placesOf xs, l.file = file → l.stop ≤ b := fun l hl hf =>
    (hbefore l hl).elim And.right fun hin => absurd (hf ▸ hin) hfile.1
  have hstart : ∀ l ∈ placesOf ys, l.file = file → b ≤ l.start := fun l hl hf =>
    (hbehind l hl).elim And.right fun hin => absurd (hf ▸ hin) hfile.2
  have hshared : ∀ l ∈ placesOf xs, ∀ m ∈ placesOf ys, l.file = m.file → l.file = file := fun l hl m hm hf => by
    rcases hbefore l hl with hin | hin
    · exact hin.1
    · rcases hbehind m hm with hin' | hin'
      · exact hf.trans hin'.1
      · exact absurd hf (hdisjoint _ hin _ hin')
  rw [placesOf_append]
  exact h.join k hab hbc hstop hstart hshared

end Spaced

namespace Markup

variable {lib : Library} {visits chain : List FileId} {file : FileId} {text : Text} {a b : Nat} {n : Node}
variable {ns : List Node} {table : Table} {outer : Language}

/-- A node has the places of its children, or its own. -/
theorem spaced_segments (hab : a < b) (hc : ∀ outer, Spaced file a b (placesOf (Node.segmentsOf table outer n.children)))
    (outer : Language) : Spaced file a b (placesOf (n.segments table outer)) := by
  obtain ⟨before, mid, after, he, hbefore, hafter, hmid⟩ := Node.segments_cases table outer n
  rw [he, placesOf_append, placesOf_append, placesOf_separators hbefore, placesOf_separators hafter, List.nil_append,
    List.append_nil]
  rcases hmid with rfl | ⟨p, rfl, -⟩ | rfl
  · exact .nil
  · exact .single hab _
  · exact hc _

/-- The nodes of a file that is read once leave room where they include others. -/
theorem Laid.spaced (h : Laid lib visits chain file text a ns b) (hvisits : (file :: visits).Nodup) (outer : Language) :
    Spaced file a b (placesOf (Node.segmentsOf table outer ns)) := by
  induction h generalizing outer with
  | nil => exact .nil
  | @own inner later chain file text a m b n r hn hlt ha hm hc hr ihc ihr =>
    obtain ⟨hinner, hlater⟩ := nodup_parts hvisits
    have hnode : ∀ outer, Spread file inner a m (n.segments table outer) :=
      hn.spread hlt ha hm fun outer => (hc.spread hinner outer).widen ha (Nat.le_refl _)
    have hplaces : ∀ outer, Spaced file a m (placesOf (n.segments table outer)) :=
      spaced_segments (by omega) fun outer => (ihc hinner outer).widen ha (Nat.le_refl _)
    exact (hplaces outer).append (ihr hlater outer) (hnode outer) (hr.spread hlater outer) (by omega) hr.le hvisits
  | @inclusion inner later chain file f text t a m b n r hn hlt _ ha hm _ hf _ hc hr ihc ihr =>
    obtain ⟨hinner, hlater⟩ := nodup_parts hvisits
    obtain ⟨hfile, hvisit⟩ := List.nodup_cons.1 hinner
    have hnode : ∀ outer, Spread file (f :: inner) a m (n.segments table outer) :=
      hn.spread hlt ha hm fun outer => (hc.spread hvisit outer).elsewhere _ _ _
    have hchildren : ∀ outer, Spaced file a m (placesOf (Node.segmentsOf table outer n.children)) := fun outer => by
      refine .elsewhere (ihc hvisit outer).parted (fun l hl he => hfile ?_) (by omega)
      obtain ⟨p, hp, rfl⟩ := mem_placesOf.1 hl
      rcases ((hc.spread hvisit outer).placed p hp).2 with ⟨hin, -⟩ | hin
      · exact List.mem_cons.2 (Or.inl (he.symm.trans hin))
      · exact List.mem_cons_of_mem _ (he ▸ hin)
    have hplaces := spaced_segments (by omega) hchildren
    exact (hplaces outer).append (ihr hlater outer) (hnode outer) (hr.spread hlater outer) (by omega) hr.le hvisits

end Markup

end Proofreader
