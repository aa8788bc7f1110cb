import Proofreader.Proofs.Extraction.Range
import Proofreader.Proofs.Respelling.Stream

/-! Two drafts side by side, before and after a slice is respelled. The same cues do the same to both; the run that shows
the slice adds its text without gaps, and so does the piece in its place. -/

namespace Proofreader

namespace Draft

variable {d d' : Draft} {p p' : Piece}

/-- The draft with the separator that is due. -/
def ready (d : Draft) : Draft := (if d.due then d.writeGap else d).settled

theorem append_of_prose (d : Draft) (h : Text.isBlankRun p.text = false) : d.append p = d.ready.addPiece p := by
  rw [append_eq, h, Bool.and_false, if_neg Bool.false_ne_true]
  rfl

theorem gain_of_prose (d : Draft) (h : Text.isBlankRun p.text = false) :
    d.gain (.prose p) = [⟨d.ready.map.length, d.ready.map.length + p.text.length, p.location, p.exact, p.placeholder⟩] := by
  cases hdue : d.due <;> simp [gain, ready, hdue, h]

theorem length_ready (h : d.map.length = d.text.toList.length) : d.ready.map.length = d.ready.text.toList.length := by
  unfold ready
  split
  · change d.writeGap.map.length = d.writeGap.text.toList.length
    rw [writeGap_length, writeGap_text, List.length_append, h]
    rfl
  · exact h

/-- Drafts that go on alike behind different texts. -/
structure Tandem (w w' : Text) (d d' : Draft) : Prop where
  text : ∃ u, d.text.toList = w ++ u ∧ d'.text.toList = w' ++ u
  gap : d'.pendingGap = d.pendingGap
  begun : 0 < d'.map.length ↔ 0 < d.map.length
  blank : d'.takesBlank = d.takesBlank

/-- What a text that has begun ends with decides whether a blank may follow. -/
theorem takesBlank_of_append {w u : Text} (h : 0 < d.map.length) (ht : d.text.toList = w ++ u) (hu : u ≠ []) :
    d.takesBlank = !u.getLast?.any isBlank := by
  rw [takesBlank, decide_eq_true h, Bool.true_and, ← Array.getLast?_toList, ht, List.getLast?_append_of_ne_nil _ hu]

namespace Tandem

variable {w w' : Text}

theorem start (profile profile' : Profile) : Tandem [] [] (.start profile) (.start profile') :=
  ⟨⟨[], rfl, rfl⟩, rfl, Iff.rfl, rfl⟩

theorem due (h : Tandem w w' d d') : d'.due = d.due := by
  rw [Draft.due, Draft.due, h.gap, decide_eq_decide.2 h.begun]

theorem settled (h : Tandem w w' d d') : Tandem w w' d.settled d'.settled := ⟨h.text, rfl, h.begun, h.blank⟩

theorem separate (h : Tandem w w' d d') (page : Bool) : Tandem w w' (d.separate page) (d'.separate page) :=
  ⟨h.text, rfl, h.begun, h.blank⟩

/-- Both texts grow by the same. -/
theorem extend (h : Tandem w w' d d') {u : Text} (hu : u ≠ []) {e e' : Draft} (he : e.text.toList = d.text.toList ++ u)
    (he' : e'.text.toList = d'.text.toList ++ u) (hpos : 0 < e.map.length) (hpos' : 0 < e'.map.length)
    (hgap : e'.pendingGap = e.pendingGap) : Tandem w w' e e' := by
  obtain ⟨v, hv, hv'⟩ := h.text
  refine ⟨⟨v ++ u, ?_, ?_⟩, hgap, iff_of_true hpos' hpos, ?_⟩
  · rw [he, hv, List.append_assoc]
  · rw [he', hv', List.append_assoc]
  · rw [takesBlank_of_append hpos he hu, takesBlank_of_append hpos' he' hu]

theorem addPiece (h : Tandem w w' d d') (hp : p.text ≠ []) (htext : p'.text = p.text) :
    Tandem w w' (d.addPiece p) (d'.addPiece p') := by
  have hpos := List.length_pos_iff.2 hp
  refine h.extend hp (addPiece_text d p) (htext ▸ addPiece_text d' p') ?_ ?_ h.gap
  · rw [addPiece_length]
    omega
  · rw [addPiece_length, htext]
    omega

theorem writeGap (h : Tandem w w' d d') : Tandem w w' d.writeGap d'.writeGap :=
  h.extend (by decide) (writeGap_text d) (writeGap_text d') (Nat.succ_pos _) (Nat.succ_pos _) h.gap

theorem ready (h : Tandem w w' d d') : Tandem w w' d.ready d'.ready := by
  unfold Draft.ready
  rw [h.due]
  split
  · exact h.writeGap.settled
  · exact h.settled

theorem append (h : Tandem w w' d d') (hp : p.text ≠ []) (htext : p'.text = p.text) :
    Tandem w w' (d.append p) (d'.append p') := by
  have hready := h.ready
  have happend : ∀ (e : Draft) (q : Piece), e.append q = if e.due && Text.isBlankRun q.text then e
      else if Text.isBlankRun q.text && !e.ready.takesBlank then e.ready else e.ready.addPiece q := append_eq
  rw [happend, happend, h.due, htext, hready.blank]
  split
  · exact h
  · split
    · exact hready
    · exact hready.addPiece hp htext

open Markup in
theorem hear (h : Tandem w w' d d') (r : Resolver) (key : Language) {ss ss' : List Segment} (halike : Alike ss ss')
    (hne : ∀ p, .piece p ∈ ss → p.text ≠ []) :
    Tandem w w' (d.hear (ss.map (Segment.cue r key))) (d'.hear (ss'.map (Segment.cue r key))) := by
  induction ss generalizing ss' d d' with
  | nil =>
    rw [List.map_eq_nil_iff.1 (Eq.symm halike)]
    exact h
  | cons s ss ih =>
    obtain ⟨s', us, rfl⟩ : ∃ s' us, ss' = s' :: us := List.exists_cons_of_ne_nil fun hnil => by
      rw [hnil] at halike
      cases halike
    obtain ⟨hs, hss⟩ := List.cons.inj halike
    change Tandem w w' ((d.heed (s.cue r key)).hear _) ((d'.heed (s'.cue r key)).hear _)
    refine ih ?_ hss fun p hp => hne p (List.mem_cons_of_mem _ hp)
    cases s with
    | separator l page =>
      cases s' with
      | piece p => cases hs
      | separator l' page' =>
        cases hs
        exact h.separate page
    | piece p =>
      cases s' with
      | separator l page => cases hs
      | piece p' =>
        simp only [Segment.bare, Segment.piece.injEq, Piece.mk.injEq] at hs
        have hkey : r.key p' = r.key p := by rw [Resolver.key, Resolver.key, hs.2.2.1]
        by_cases hown : r.key p = key
        · rw [Segment.cue_own hown, Segment.cue_own (hkey.trans hown)]
          exact h.append (hne p List.mem_cons_self) hs.1.symm
        · rw [Segment.cue_other hown, Segment.cue_other (hkey ▸ hown)]
          exact h.separate false

end Tandem

end Draft

namespace Markup

/-- What a text or space node contributes: nothing that is exact, or its text, each kind behind the same separators. -/
theorem leaf_segments (table : Table) (outer : Language) {kind : Kind} (hkind : kind = .text ∨ kind = .space) (scope : Scope) :
    (∀ location t p, .piece p ∈ (⟨kind, location, t, scope, 0, true, []⟩ : Node).segments table outer → p.exact = false) ∨
    ∃ opening : List Segment, (opening = [] ∨ ∃ l, opening = [.separator l true]) ∧ ∀ location t, t ≠ [] →
      (⟨kind, location, t, scope, 0, true, []⟩ : Node).segments table outer =
        opening ++ [.piece ⟨t, location, scope.within outer, decide (t.length = location.length), false⟩] := by
  have hinside : ∀ location t, t ≠ [] → (⟨kind, location, t, scope, 0, true, []⟩ : Node).inside table outer =
      [.piece ⟨t, location, scope.within outer, decide (t.length = location.length), false⟩] := fun location t ht => by
    have hleaf : kind.isLeaf = true := by rcases hkind with rfl | rfl <;> rfl
    simp [Node.inside, hleaf, Node.ownPiece, ht]
  have hending : ∀ location t, (⟨kind, location, t, scope, 0, true, []⟩ : Node).ending outer = [] := fun location t => by
    rcases hkind with rfl | rfl <;> rfl
  have hwhole : (∀ location t, (⟨kind, location, t, scope, 0, true, []⟩ : Node).segments table outer =
      (⟨kind, location, t, scope, 0, true, []⟩ : Node).opening table outer ++
        (⟨kind, location, t, scope, 0, true, []⟩ : Node).inside table outer ++
        (⟨kind, location, t, scope, 0, true, []⟩ : Node).ending outer) →
      ∃ opening : List Segment, (opening = [] ∨ ∃ l, opening = [.separator l true]) ∧ ∀ location t, t ≠ [] →
        (⟨kind, location, t, scope, 0, true, []⟩ : Node).segments table outer =
          opening ++ [.piece ⟨t, location, scope.within outer, decide (t.length = location.length), false⟩] := fun hsegments => by
    refine ⟨(⟨kind, ⟨"", 0, 0⟩, [], scope, 0, true, []⟩ : Node).opening table outer, ?_, fun location t ht => ?_⟩
    · unfold Node.opening
      split
      · exact Or.inr ⟨_, rfl⟩
      · exact Or.inl rfl
    · rw [hsegments, hinside location t ht, hending, List.append_nil]
      rfl
  cases heffect : (table.ruleFor kind).effect with
  | drop => exact Or.inl fun location t p hp => by simp [Node.segments_eq, heffect] at hp
  | rewrite =>
    refine Or.inl fun location t p hp => ?_
    rw [Node.segments_eq] at hp
    simp only [heffect, hending] at hp
    split at hp
    · cases hp
    · rw [List.mem_singleton, Node.tokenPiece, Segment.piece.injEq] at hp
      rw [hp]
  | unwrap =>
    refine Or.inr ⟨[], Or.inl rfl, fun location t ht => ?_⟩
    simp only [Node.segments_eq, heffect, hinside location t ht, List.nil_append]
  | paginateBefore => exact Or.inr (hwhole fun location t => by simp only [Node.segments_eq, heffect])
  | identity => exact Or.inr (hwhole fun location t => by simp only [Node.segments_eq, heffect])

namespace Respelling

/-- The entry copies character `i` of the file, as far from `a` in the text as from the slice in the file. -/
structure Spot (x : Respelling) (a i : Nat) (e : Entry) : Prop where
  exact : e.exact = true
  has : e.location.Has x.file i
  start : e.start + x.start = a + e.location.start

variable {x : Respelling} {table : Table} {r : Resolver} {inner : Language} {scope : Scope} {d : Draft} {a s : Nat} {t u : Text}
variable {kind : Kind} {ns : List Node}

theorem Leaves.exists_of_mem {file : FileId} (h : Leaves file scope s ns u) {n : Node} (hn : n ∈ ns) :
    ∃ kind b t, (kind = .text ∨ kind = .space) ∧ n = ⟨kind, ⟨file, b, b + t.length⟩, t, scope, 0, true, []⟩ ∧ t ≠ [] ∧ s ≤ b := by
  induction h with
  | nil => cases hn
  | cons hkind ht _ ih =>
    rcases List.mem_cons.1 hn with rfl | hn
    · exact ⟨_, _, _, hkind, rfl, ht, Nat.le_refl _⟩
    · obtain ⟨kind, b, t, hk, he, hne, hle⟩ := ih hn
      exact ⟨kind, b, t, hk, he, hne, Nat.le_trans (Nat.le_add_right _ _) hle⟩

theorem Leaves.of_mem {file : FileId} (h : Leaves file scope s ns u) {n : Node} (hn : n ∈ ns) :
    s ≤ n.location.start ∧ n.children = [] := by
  obtain ⟨kind, b, t, -, rfl, -, hle⟩ := h.exists_of_mem hn
  exact ⟨hle, rfl⟩

/-- Each entry of nodes without children has the place of one of them. -/
theorem exists_of_mem_gains (hns : ∀ n ∈ ns, n.children = []) {key : Language} {e : Entry}
    (he : e ∈ d.gains ((Node.segmentsOf table inner ns).map (Segment.cue r key))) : ∃ n ∈ ns, e.location = n.location := by
  obtain ⟨p, hmem, -, hlocation, -⟩ := Draft.exists_piece_of_mem_gains he
  rw [Node.segmentsOf_eq, List.mem_flatMap] at hmem
  obtain ⟨n, hn, hmem⟩ := hmem
  obtain ⟨m, hm, hfrom⟩ := Node.exists_from hmem
  rw [Node.preorder_eq, hns n hn, List.flatMap_nil, List.mem_singleton] at hm
  exact ⟨n, hn, by rw [hlocation, hfrom.location, hm]⟩

/-- The entries of leaves lie behind the place where the leaves begin. -/
theorem Leaves.le_of_mem_gains {file : FileId} (h : Leaves file scope s ns u) {key : Language} {e : Entry}
    (he : e ∈ d.gains ((Node.segmentsOf table inner ns).map (Segment.cue r key))) : s ≤ e.location.start := by
  obtain ⟨n, hn, hlocation⟩ := exists_of_mem_gains (fun n hn => (h.of_mem hn).2) he
  rw [hlocation]
  exact (h.of_mem hn).1

/-- A leaf with an exact entry contributes its text, behind the separators of its kind. -/
theorem exists_opening (hkind : kind = .text ∨ kind = .space) {location : Location} {key : Language} {e : Entry}
    (he : e ∈ d.gains (((⟨kind, location, t, scope, 0, true, []⟩ : Node).segments table inner).map (Segment.cue r key)))
    (hexact : e.exact = true) : ∃ opening : List Segment, (opening = [] ∨ ∃ l, opening = [.separator l true]) ∧
      ∀ location t, t ≠ [] → (⟨kind, location, t, scope, 0, true, []⟩ : Node).segments table inner =
        opening ++ [.piece ⟨t, location, scope.within inner, decide (t.length = location.length), false⟩] := by
  refine (leaf_segments table inner hkind scope).resolve_left fun hnone => ?_
  obtain ⟨p, hmem, -, -, hsame⟩ := Draft.exists_piece_of_mem_gains he
  rw [hsame, hnone _ _ p hmem] at hexact
  cases hexact

/-- A leaf whose entry is where it must be adjoins the text before. -/
theorem hear_leaf (hkind : kind = .text ∨ kind = .space) (ht : t ≠ [])
    (hgap : d.pendingGap = false) (hpos : 0 < d.map.length) (hlength : d.map.length + x.start = a + s)
    (hspot : ∃ e ∈ d.gains (((⟨kind, ⟨x.file, s, s + t.length⟩, t, scope, 0, true, []⟩ : Node).segments table inner).map
      (Segment.cue r (r.profile (scope.within inner)).language)), x.Spot a s e) :
    d.hear (((⟨kind, ⟨x.file, s, s + t.length⟩, t, scope, 0, true, []⟩ : Node).segments table inner).map
      (Segment.cue r (r.profile (scope.within inner)).language)) =
        d.settled.addPiece ⟨t, ⟨x.file, s, s + t.length⟩, scope.within inner, true, false⟩ := by
  obtain ⟨e, he, hspot⟩ := hspot
  obtain ⟨opening, hopening, hsegments⟩ := exists_opening hkind he hspot.exact
  have hown : r.key ⟨t, ⟨x.file, s, s + t.length⟩, scope.within inner, true, false⟩ = (r.profile (scope.within inner)).language := rfl
  have hexact : decide (t.length = (⟨x.file, s, s + t.length⟩ : Location).length) = true := by
    simp [Location.length]
  rw [hsegments _ t ht, hexact] at he ⊢
  rcases hopening with rfl | ⟨l, rfl⟩
  · rw [List.nil_append, List.map_singleton, Segment.cue_own hown] at he ⊢
    rcases d.append_cases ⟨t, ⟨x.file, s, s + t.length⟩, scope.within inner, true, false⟩ with
      ⟨hdue, -⟩ | ⟨hdue, hblank, htakes, -⟩ | ⟨-, -, happend⟩ | ⟨hdue, -⟩
    · simp [Draft.due, hgap] at hdue
    · simp [Draft.gains, Draft.gain, hdue, hblank, htakes] at he
    · exact happend
    · simp [Draft.due, hgap] at hdue
  · -- A separator before the leaf would move its entry.
    exfalso
    rw [List.singleton_append, List.map_cons, List.map_singleton, Segment.cue_own hown] at he
    have hdue : (d.separate true).due = true := by simpa [Draft.due, Draft.separate] using hpos
    change e ∈ [] ++ ((d.separate true).gain _ ++ []) at he
    rw [List.nil_append, List.append_nil, Draft.gain, hdue] at he
    split at he
    · cases he
    · have hstart := hspot.start
      rw [List.mem_singleton.1 he] at hstart
      dsimp only [Draft.separate] at hstart
      simp only [if_true] at hstart
      omega

/-- Leaves whose entries are where they must be adjoin each other and the text before. -/
theorem hear_leaves (table : Table) (r : Resolver) (inner : Language) (hleaves : Leaves x.file scope s ns u) (hinside : ∀ n ∈ ns, n.location.start < x.stop)
    (hstart : x.start ≤ s) (hgap : d.pendingGap = false) (hpos : 0 < d.map.length) (hlength : d.map.length + x.start = a + s)
    (hspot : ∀ i, s ≤ i → i < x.stop → i < s + u.length →
      ∃ e ∈ d.gains ((Node.segmentsOf table inner ns).map (Segment.cue r (r.profile (scope.within inner)).language)),
        x.Spot a i e) :
    (d.hear ((Node.segmentsOf table inner ns).map (Segment.cue r (r.profile (scope.within inner)).language))).text.toList =
        d.text.toList ++ u ∧
      (d.hear ((Node.segmentsOf table inner ns).map (Segment.cue r (r.profile (scope.within inner)).language))).pendingGap =
        false ∧
      0 < (d.hear ((Node.segmentsOf table inner ns).map
        (Segment.cue r (r.profile (scope.within inner)).language))).map.length := by
  induction hleaves generalizing d with
  | nil => exact ⟨(List.append_nil _).symm, hgap, hpos⟩
  | @cons s kind t u ns hkind ht hrest ih =>
    have hfirst := List.length_pos_iff.2 ht
    have hlt : s < x.stop := hinside _ List.mem_cons_self
    simp only [Node.segmentsOf, List.map_append, List.length_append] at hspot ⊢
    -- The first character of the leaf is copied by the entry of the leaf, since later leaves lie behind it.
    have hown : ∃ e ∈ d.gains (((⟨kind, ⟨x.file, s, s + t.length⟩, t, scope, 0, true, []⟩ : Node).segments table inner).map
        (Segment.cue r (r.profile (scope.within inner)).language)), x.Spot a s e := by
      obtain ⟨e, he, hs⟩ := hspot s (Nat.le_refl s) hlt (by omega)
      rw [Draft.gains_append, List.mem_append] at he
      refine ⟨e, he.resolve_right fun hlater => ?_, hs⟩
      have hle := hrest.le_of_mem_gains hlater
      have hhas := hs.has.2.1
      omega
    have hheard := hear_leaf hkind ht hgap hpos hlength hown
    rw [Draft.hear_append, hheard]
    have hgrown : (d.settled.addPiece ⟨t, ⟨x.file, s, s + t.length⟩, scope.within inner, true, false⟩).map.length =
        d.map.length + t.length := Draft.addPiece_length _ _
    generalize hd : d.settled.addPiece ⟨t, ⟨x.file, s, s + t.length⟩, scope.within inner, true, false⟩ = e at hgrown hheard
    have htext : e.text.toList = d.text.toList ++ t := hd ▸ Draft.addPiece_text _ _
    have hmore := ih (d := e) (fun n hn => hinside n (List.mem_cons_of_mem _ hn)) (Nat.le_trans hstart (Nat.le_add_right s _))
      (hd ▸ rfl) (by omega) (by omega) fun i hi hj hu => ?_
    · rw [hmore.1, htext, List.append_assoc]
      exact ⟨rfl, hmore.2⟩
    · obtain ⟨f, hf, hs⟩ := hspot i (by omega) hj (by omega)
      rw [Draft.gains_append, hheard, List.mem_append] at hf
      refine ⟨f, hf.resolve_left fun hearlier => ?_, hs⟩
      have hsingle : (⟨kind, ⟨x.file, s, s + t.length⟩, t, scope, 0, true, []⟩ : Node).segments table inner =
          Node.segmentsOf table inner [⟨kind, ⟨x.file, s, s + t.length⟩, t, scope, 0, true, []⟩] := by
        rw [Node.segmentsOf_eq, List.flatMap_singleton]
      rw [hsingle] at hearlier
      obtain ⟨n, hn, hlocation⟩ := exists_of_mem_gains (fun n hn => List.mem_singleton.1 hn ▸ rfl) hearlier
      have hhas := hs.has.2.2
      rw [hlocation, List.mem_singleton.1 hn] at hhas
      dsimp only at hhas
      omega

/-- Leaves have entries in the text of their language only. -/
theorem Leaves.key_eq {file : FileId} (h : Leaves file scope s ns u) {key : Language} {e : Entry}
    (he : e ∈ d.gains ((Node.segmentsOf table inner ns).map (Segment.cue r key))) (hexact : e.exact = true) :
    (r.profile (scope.within inner)).language = key := by
  obtain ⟨p, hmem, hkey, -, hsame⟩ := Draft.exists_piece_of_mem_gains he
  rw [Node.segmentsOf_eq, List.mem_flatMap] at hmem
  obtain ⟨n, hn, hmem⟩ := hmem
  obtain ⟨kind, b, t, hkind, rfl, ht, -⟩ := h.exists_of_mem hn
  rcases leaf_segments table inner hkind scope with hnone | ⟨opening, hopening, hsegments⟩
  · rw [hsame, hnone _ _ p hmem] at hexact
    cases hexact
  · rw [hsegments _ t ht] at hmem
    rcases List.mem_append.1 hmem with hmem | hmem
    · rcases hopening with rfl | ⟨l, rfl⟩ <;> simp at hmem
    · rw [List.mem_singleton, Segment.piece.injEq] at hmem
      rw [← hkey, hmem]
      rfl

section Run

variable {head v tail : Text}

/-- Text with a letter is no blank run. -/
theorem isBlankRun_of_letter {c : Char} (hc : isPlainLetter c = true) (head tail : Text) :
    Text.isBlankRun (head ++ c :: tail) = false := by
  simp [Text.isBlankRun, isBlank_of_isPlainLetter hc]

/-- Drafts whose texts end in the slice and the letters, and then in the same, go on alike. -/
theorem tandem_of_text (h : x.Neutral) {w : Text} {d' : Draft} (ht : d.text.toList = w ++ x.old ++ tail)
    (ht' : d'.text.toList = w ++ x.new ++ tail) (hpos : 0 < d.map.length) (hpos' : 0 < d'.map.length)
    (hgap : d'.pendingGap = d.pendingGap) : Draft.Tandem (w ++ x.old) (w ++ x.new) d d' := by
  refine ⟨⟨tail, ht, ht'⟩, hgap, iff_of_true hpos' hpos, ?_⟩
  by_cases htail : tail = []
  · have hletter : ∀ w : Text, w.getLast?.any isPlainLetter = true → w.getLast?.any isBlank = false := fun w hw => by
      obtain ⟨c, hc, hletter⟩ := (Option.any_eq_true _ _).1 hw
      rw [hc]
      exact isBlank_of_isPlainLetter hletter
    rw [htail, List.append_nil] at ht ht'
    rw [Draft.takesBlank_of_append hpos ht h.starts.ne_nil, Draft.takesBlank_of_append hpos' ht' h.ne, hletter x.old h.ends,
      hletter x.new h.new_ends]
  · rw [Draft.takesBlank_of_append hpos ht htail, Draft.takesBlank_of_append hpos' ht' htail]

/-- Where a first piece and leaves behind it have the entries of the slice where they must be, so have the leaves alone for
what lies behind the piece, and the piece is written where it must be. -/
theorem spot_behind {p : Piece} (hblank : Text.isBlankRun p.text = false) (hlt : x.start < x.stop)
    (hhigh : x.start < p.location.stop) {key : Language} (hrest : Leaves x.file scope p.location.stop ns u)
    (hspot : ∀ i, x.start ≤ i → i < x.stop →
      ∃ e ∈ d.gains (.prose p :: (Node.segmentsOf table inner ns).map (Segment.cue r key)), x.Spot a i e) :
    d.ready.map.length + x.start = a + p.location.start ∧ ∀ i, p.location.stop ≤ i → i < x.stop →
      ∃ e ∈ (d.append p).gains ((Node.segmentsOf table inner ns).map (Segment.cue r key)), x.Spot a i e := by
  constructor
  · obtain ⟨e, he, hs⟩ := hspot x.start (Nat.le_refl _) hlt
    have hfirst := (List.mem_append.1 he).resolve_right fun hlater => by
      have hle := hrest.le_of_mem_gains hlater
      have hhas := hs.has.2.1
      omega
    rw [Draft.gain_of_prose d hblank, List.mem_singleton] at hfirst
    have hstart := hs.start
    rw [hfirst] at hstart
    exact hstart
  · intro i hi hj
    obtain ⟨e, he, hs⟩ := hspot i (by omega) hj
    refine ⟨e, (List.mem_append.1 he).resolve_left fun hfirst => ?_, hs⟩
    rw [Draft.gain_of_prose d hblank, List.mem_singleton] at hfirst
    have hhas := hs.has.2.2
    rw [hfirst] at hhas
    exact Nat.not_lt_of_le hi hhas

/-- The first leaf of the run with what follows it, and the piece in place of the run, behind drafts with the same text:
both add what stands before the slice, the slice or the letters, and what stands behind. -/
theorem tandem_leaves (h : x.Neutral) (hu : v ++ u = x.old ++ tail) (hv : v ≠ []) (hhead : head.length ≤ x.start)
    (hrest : Leaves x.file scope (x.start - head.length + (head ++ v).length) ns u)
    (hinside : ∀ n ∈ ns, n.location.start < x.stop) {d' : Draft} (ht : Draft.Tandem [] [] d d')
    (hlength : d.map.length = d.text.toList.length) {p' : Piece} (hp' : p'.text = head ++ x.new ++ tail)
    (hspot : ∀ i, x.start ≤ i → i < x.stop → ∃ e ∈ d.gains (.prose ⟨head ++ v,
        ⟨x.file, x.start - head.length, x.start - head.length + (head ++ v).length⟩, scope.within inner, true, false⟩ ::
        (Node.segmentsOf table inner ns).map (Segment.cue r (r.profile (scope.within inner)).language)), x.Spot a i e) :
    ∃ w : Text, w.length = a ∧ Draft.Tandem (w ++ x.old) (w ++ x.new)
      ((d.append ⟨head ++ v, ⟨x.file, x.start - head.length, x.start - head.length + (head ++ v).length⟩, scope.within inner,
        true, false⟩).hear ((Node.segmentsOf table inner ns).map (Segment.cue r (r.profile (scope.within inner)).language)))
      (d'.append p') := by
  have hvpos := List.length_pos_iff.2 hv
  have hblank : Text.isBlankRun (head ++ v) = false := by
    obtain ⟨c, z, hold, hc⟩ := h.starts
    obtain ⟨c', v', rfl⟩ := List.exists_cons_of_ne_nil hv
    rw [hold, List.cons_append, List.cons_append, List.cons.injEq] at hu
    exact hu.1 ▸ isBlankRun_of_letter hc head v'
  have hblank' : Text.isBlankRun p'.text = false := by
    obtain ⟨c, z, hnew⟩ := List.exists_cons_of_ne_nil h.ne
    rw [hp', hnew, List.append_assoc, List.cons_append]
    exact isBlankRun_of_letter (h.letters c (hnew ▸ List.mem_cons_self)) head _
  have hspan : (head ++ v).length = head.length + v.length := List.length_append
  generalize hp : (⟨head ++ v, ⟨x.file, x.start - head.length, x.start - head.length + (head ++ v).length⟩,
    scope.within inner, true, false⟩ : Piece) = p at *
  have hptext : p.text = head ++ v := by rw [← hp]
  have hpstart : p.location.start = x.start - head.length := by rw [← hp]
  have hpstop : p.location.stop = x.start - head.length + (head ++ v).length := by rw [← hp]
  rw [← hptext] at hblank
  obtain ⟨hplace, hpost⟩ := spot_behind hblank (Abreast.start_lt_stop h) (by omega) (hpstop ▸ hrest) hspot
  have hready := ht.ready
  have hsame : d'.ready.text.toList = d.ready.text.toList := by
    obtain ⟨w, hw, hw'⟩ := hready.text
    rw [hw, hw']
  rw [Draft.append_of_prose d hblank] at hpost ⊢
  rw [Draft.append_of_prose d' hblank']
  have hgrown : (d.ready.addPiece p).map.length = d.ready.map.length + (head ++ v).length := by
    rw [Draft.addPiece_length, hptext]
  obtain ⟨htext, hgap, hpos⟩ := hear_leaves (d := d.ready.addPiece p) table r inner hrest hinside (by omega) rfl (by omega)
    (by omega) fun i hi hj _ => hpost i (by omega) hj
  have htext' := Draft.addPiece_text d'.ready p'
  have hpos' : 0 < (d'.ready.addPiece p').map.length := by
    have := List.length_pos_iff.2 h.ne
    rw [Draft.addPiece_length, hp', List.length_append, List.length_append]
    omega
  rw [Draft.addPiece_text, hptext, List.append_assoc, List.append_assoc head, hu, ← List.append_assoc, ← List.append_assoc] at htext
  rw [hsame, hp', ← List.append_assoc, ← List.append_assoc] at htext'
  refine ⟨d.ready.text.toList ++ head, ?_, tandem_of_text h htext htext' hpos hpos' hgap.symm⟩
  rw [List.length_append, ← Draft.length_ready hlength]
  omega

/-- The run that shows the slice and the node in its place, behind drafts with the same text. -/
theorem tandem_run (h : x.Neutral) {ms ms' : List Node} (hrun : x.Run ms ms') {key : Language} {d' : Draft}
    (ht : Draft.Tandem [] [] d d') (hlength : d.map.length = d.text.toList.length)
    (hspot : ∀ i, x.start ≤ i → i < x.stop →
      ∃ e ∈ d.gains ((Node.segmentsOf table inner ms).map (Segment.cue r key)), x.Spot a i e) :
    ∃ w : Text, w.length = a ∧ Draft.Tandem (w ++ x.old) (w ++ x.new)
      (d.hear ((Node.segmentsOf table inner ms).map (Segment.cue r key)))
      (d'.hear ((Node.segmentsOf table inner ms').map (Segment.cue r key))) := by
  have hlt := Abreast.start_lt_stop h
  obtain ⟨scope, head, tail, location, hhead, hleaves, rfl⟩ := hrun.leaves
  obtain rfl : (r.profile (scope.within inner)).language = key := by
    obtain ⟨e, he, hs⟩ := hspot x.start (Nat.le_refl _) hlt
    exact hleaves.key_eq he hs.exact
  obtain ⟨first, hfirst, hkind⟩ := hrun.first
  generalize hu : head ++ x.old ++ tail = u at hleaves
  cases hleaves with
  | nil => cases hfirst
  | @cons _ kind t u ns hk htne hrest =>
    obtain rfl : kind = .text := by
      rw [List.head?_cons, Option.mem_some_iff] at hfirst
      rw [← hkind, ← hfirst]
    have hmeet := (hrun.meets _ List.mem_cons_self).1
    dsimp only at hmeet
    obtain ⟨v, rfl⟩ : head <+: t := by
      refine List.prefix_of_prefix_length_le ⟨x.old ++ tail, rfl⟩ ⟨u, ?_⟩ (by omega)
      rw [← hu, List.append_assoc]
    rw [List.append_assoc, List.append_assoc, List.append_cancel_left_eq] at hu
    have hv : v ≠ [] := by
      rintro rfl
      rw [List.append_nil] at hmeet
      omega
    have hinside : ∀ n ∈ ns, n.location.start < x.stop := fun n hn => (hrun.meets n (List.mem_cons_of_mem _ hn)).2
    simp only [Node.segmentsOf, List.map_append, List.append_nil] at hspot ⊢
    -- The entry of the first character is that of the first leaf, since later leaves lie behind it.
    obtain ⟨e, he, hs⟩ := hspot x.start (Nat.le_refl _) hlt
    rw [Draft.gains_append, List.mem_append] at he
    have hown := he.resolve_right fun hlater => by
      have hle := hrest.le_of_mem_gains hlater
      have hhas := hs.has.2.1
      omega
    obtain ⟨opening, hopening, hsegments⟩ := exists_opening (Or.inl rfl) hown hs.exact
    have hexact : decide ((head ++ v).length =
        (⟨x.file, x.start - head.length, x.start - head.length + (head ++ v).length⟩ : Location).length) = true := by
      simp [Location.length]
    have hcue : ∀ (t : Text) (l : Location) (b : Bool), Segment.cue r (r.profile (scope.within inner)).language
        (.piece ⟨t, l, scope.within inner, b, false⟩) = .prose ⟨t, l, scope.within inner, b, false⟩ := fun t l b =>
      Segment.cue_own rfl
    have hpieces : ∀ p, .piece p ∈ opening → p.text ≠ [] := fun p hp => by
      rcases hopening with rfl | ⟨l, rfl⟩ <;> simp at hp
    have hopened : (d.hear (opening.map (Segment.cue r (r.profile (scope.within inner)).language))).map.length =
        (d.hear (opening.map (Segment.cue r (r.profile (scope.within inner)).language))).text.toList.length ∧
        d.gains (opening.map (Segment.cue r (r.profile (scope.within inner)).language)) = [] := by
      rcases hopening with rfl | ⟨l, rfl⟩
      · exact ⟨hlength, rfl⟩
      · exact ⟨hlength, rfl⟩
    rw [hsegments _ _ htne, hexact, List.map_append, List.map_singleton, hcue, List.append_assoc, List.singleton_append] at hspot ⊢
    rw [hsegments _ _ (by simp [h.ne]), List.map_append, List.map_singleton, hcue, Draft.hear_append, Draft.hear_append]
    simp only [Draft.gains_append, hopened.2, List.nil_append] at hspot
    exact tandem_leaves h hu.symm hv hhead hrest hinside (ht.hear r _ (.refl opening) hpieces) hopened.1 rfl hspot

end Run

end Respelling

end Markup

end Proofreader
