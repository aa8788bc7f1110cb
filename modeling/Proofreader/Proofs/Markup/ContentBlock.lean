import Proofreader.Proofs.Markup.Plain

/-! Content blocks end at the bracket that matches theirs. Brackets in text are counted, so inline content passes over all
that are closed inside. Blocks do not look at the count when a paragraph begins: there a bracket ends the content block
whatever it closes. -/

namespace Proofreader.Markup

/-- How many brackets are open behind a text, of which none closes what was opened before. -/
def bracketDepth : (depth : Nat) → Text → Option Nat
  | depth, [] => some depth
  | depth, '[' :: r => bracketDepth (depth + 1) r
  | 0, ']' :: _ => none
  | depth + 1, ']' :: r => bracketDepth depth r
  | depth, _ :: r => bracketDepth depth r

/-- No closing bracket is the first of a paragraph: none stands behind whitespace with two line ends. -/
def NoBracketLeads (w : Text) : Prop := ∀ u g v, w = u ++ (g ++ ']' :: v) → (∀ c ∈ g, isSpace c = true) → g.count '\n' < 2

/-- The nodes stand for `w` between two offsets of the file: their words are those of `w`, under one rule. -/
structure Renders (file : FileId) (scope : Scope) (a b : Nat) (w : Text) (ns : List Node) : Prop where
  words : ((Node.preorders ns).filter (·.kind = .text)).flatMap (·.text) = w.filter (! isSpace ·)
  leaves : ∀ n ∈ Node.preorders ns, n.kind.isLeaf = true →
    (n.kind = .text ∨ n.kind = .space) ∧ n.scope = scope ∧ n.children = []
  inside : ∀ n ∈ Node.preorders ns, n.location.file = file ∧ a ≤ n.location.start ∧ n.location.stop ≤ b

variable {page : Page} {file : FileId} {mode : Mode} {scope : Scope} {s u : Cursor} {w v t : Text} {a b m d e : Nat}
variable {n : Node} {ns ms : List Node}

/-! ### Depth -/

theorem bracketDepth_open : bracketDepth d ('[' :: w) = bracketDepth (d + 1) w := by
  cases d <;> rfl

theorem bracketDepth_close : bracketDepth (d + 1) (']' :: w) = bracketDepth d w := rfl

theorem bracketDepth_cons {c : Char} (ho : c ≠ '[') (hc : c ≠ ']') : bracketDepth d (c :: w) = bracketDepth d w := by
  rw [bracketDepth]
  · exact ho
  · exact fun _ => hc
  · exact fun _ _ => hc

theorem bracketDepth_append : bracketDepth d (w ++ v) = (bracketDepth d w).bind (bracketDepth · v) := by
  induction w generalizing d with
  | nil => rfl
  | cons c w ih =>
    rw [List.cons_append]
    by_cases hopen : c = '['
    · rw [hopen, bracketDepth_open, bracketDepth_open, ih]
    · by_cases hclose : c = ']'
      · cases d with
        | zero =>
          rw [hclose]
          rfl
        | succ d => rw [hclose, bracketDepth_close, bracketDepth_close, ih]
      · rw [bracketDepth_cons hopen hclose, bracketDepth_cons hopen hclose, ih]

/-- Where all is closed in the end, what remains closes what is open. -/
theorem exists_bracketDepth (h : bracketDepth d (w ++ v) = some e) :
    ∃ m, bracketDepth d w = some m ∧ bracketDepth m v = some e := by
  rw [bracketDepth_append] at h
  exact Option.bind_eq_some_iff.1 h

theorem bracketDepth_spaces (h : ∀ c ∈ w, isSpace c = true) : bracketDepth d w = some d := by
  induction w with
  | nil => rfl
  | cons c w ih =>
    obtain ⟨hc, hw⟩ := List.forall_mem_cons.1 h
    have hopen : c ≠ '[' := fun he => by
      rw [he] at hc
      cases hc
    have hclose : c ≠ ']' := fun he => by
      rw [he] at hc
      cases hc
    rw [bracketDepth_cons hopen hclose, ih hw]

/-- Text reaches up to the next whitespace or to the bracket that closes the content block, and its brackets are counted. -/
theorem textRun_brackets (hword : ∀ c ∈ w, isSpace c = false) (hplain : ∀ c ∈ w, c ∉ markCharacters)
    (hdepth : bracketDepth d w = some e) (ht : ∀ c ∈ t.head?, isSpace c = true ∨ c = ']' ∧ e = 0) (before : Option Char)
    (first : Bool) : textRun (some ']') before first d (w ++ t) = (w.length, e) := by
  induction w generalizing before first d with
  | nil =>
    obtain rfl : d = e := Option.some.inj hdepth
    cases t with
    | nil => rfl
    | cons c t =>
      rcases ht c rfl with hspace | ⟨rfl, rfl⟩
      · simp [textRun, hspace]
      · rfl
  | cons c w ih =>
    obtain ⟨hc, hword⟩ := List.forall_mem_cons.1 hword
    obtain ⟨hmark, hplain⟩ := List.forall_mem_cons.1 hplain
    rw [List.cons_append, textRun, hc, if_neg Bool.false_ne_true]
    by_cases hopen : c = '['
    · rw [hopen, bracketDepth_open] at hdepth
      rw [if_pos hopen, ih hword hplain hdepth]
      rfl
    · rw [if_neg hopen]
      by_cases hclose : c = ']'
      · cases d with
        | zero =>
          rw [hclose] at hdepth
          cases hdepth
        | succ d =>
          rw [hclose, bracketDepth_close] at hdepth
          rw [if_pos hclose, if_neg (by simp), Nat.add_sub_cancel, ih hword hplain hdepth]
          rfl
      · rw [bracketDepth_cons hopen hclose] at hdepth
        have hgo : (!first && (some ']' = some c || (mark? before (c :: (w ++ t))).isSome)) = false := by
          simp [mark?_plain hmark, Ne.symm hclose]
        rw [if_neg hclose, hgo, if_neg Bool.false_ne_true, ih hword hplain hdepth]
        rfl

/-- Whitespace in front of a bracket is counted back to the last word. -/
theorem noBracketLeads_iff : NoBracketLeads w ↔
    ∀ i < w.length, w[i]? = some ']' → ((w.take i).reverse.takeWhile isSpace).count '\n' < 2 := by
  constructor
  · intro h i hi hclose
    have hsplit := List.takeWhile_append_dropWhile (p := isSpace) (l := (w.take i).reverse)
    rw [← List.count_reverse]
    refine h ((w.take i).reverse.dropWhile isSpace).reverse _ (w.drop (i + 1)) ?_ fun c hc =>
      List.mem_takeWhile_imp (List.mem_reverse.1 hc)
    rw [← List.append_assoc, ← List.reverse_append, hsplit, List.reverse_reverse, List.getElem?_eq_some_iff.1 hclose |>.2.symm,
      List.getElem_cons_drop, List.take_append_drop]
  · rintro h u g v rfl hg
    have htake : (u ++ (g ++ ']' :: v)).take (u.length + g.length) = u ++ g := by
      rw [← List.append_assoc, ← List.length_append, List.take_left]
    have hcount := h (u.length + g.length) (by simp) (by simp)
    rw [htake, List.reverse_append, List.takeWhile_append_of_pos fun c hc => hg c (List.mem_reverse.1 hc),
      List.count_append, List.count_reverse] at hcount
    omega

instance : Decidable (NoBracketLeads w) := decidable_of_iff _ noBracketLeads_iff.symm

/-! ### What nodes stand for -/

namespace Renders

theorem nil (hw : ∀ c ∈ w, isSpace c = true) : Renders file scope a b w [] := by
  have hnone : w.filter (! isSpace ·) = [] := List.filter_eq_nil_iff.2 fun c hc => by simp [hw c hc]
  exact ⟨hnone.symm, nofun, nofun⟩

theorem append (h : Renders file scope a m w ns) (k : Renders file scope m b v ms) (ham : a ≤ m) (hmb : m ≤ b) :
    Renders file scope a b (w ++ v) (ns ++ ms) := by
  have hpreorders := Node.preorders_append ns ms
  refine ⟨?_, fun n hn => ?_, fun n hn => ?_⟩
  · rw [hpreorders, List.filter_append, List.flatMap_append, h.words, k.words, List.filter_append]
  · rw [hpreorders] at hn
    exact (List.mem_append.1 hn).elim (h.leaves n) (k.leaves n)
  · rw [hpreorders] at hn
    rcases List.mem_append.1 hn with hn | hn
    · obtain ⟨hfile, hstart, hstop⟩ := h.inside n hn
      exact ⟨hfile, hstart, Nat.le_trans hstop hmb⟩
    · obtain ⟨hfile, hstart, hstop⟩ := k.inside n hn
      exact ⟨hfile, Nat.le_trans ham hstart, hstop⟩

theorem widen (h : Renders file scope a b w ns) {x y : Nat} (hx : x ≤ a) (hy : b ≤ y) : Renders file scope x y w ns :=
  ⟨h.words, h.leaves, fun n hn => by
    obtain ⟨hfile, hstart, hstop⟩ := h.inside n hn
    exact ⟨hfile, Nat.le_trans hx hstart, Nat.le_trans hstop hy⟩⟩

/-- A node around them adds no word. -/
theorem node (h : Renders file scope a b w n.children) (hleaf : n.kind.isLeaf = false) (hfile : n.location.file = file)
    (ha : a ≤ n.location.start) (hb : n.location.stop ≤ b) : Renders file scope a b w [n] := by
  have htext : n.kind ≠ .text := fun he => by rw [he] at hleaf; cases hleaf
  refine ⟨?_, fun m hm => ?_, fun m hm => ?_⟩
  · rw [Node.preorders_singleton, List.filter_cons_of_neg (by simpa using htext), h.words]
  · rw [Node.preorders_singleton] at hm
    rcases List.mem_cons.1 hm with rfl | hm
    · exact fun he => absurd (hleaf.symm.trans he) Bool.false_ne_true
    · exact h.leaves m hm
  · rw [Node.preorders_singleton] at hm
    rcases List.mem_cons.1 hm with rfl | hm
    · exact ⟨hfile, ha, hb⟩
    · exact h.inside m hm

/-- Spaces have no words. -/
theorem words_spaces (h : ∀ n ∈ ns, isSpaceNode n = true) (hchildren : ∀ n ∈ ns, n.children = []) :
    ((Node.preorders ns).filter (·.kind = .text)).flatMap (·.text) = [] := by
  induction ns with
  | nil => rfl
  | cons n ns ih =>
    obtain ⟨hn, hns⟩ := List.forall_mem_cons.1 h
    obtain ⟨hchild, hchildren⟩ := List.forall_mem_cons.1 hchildren
    have hkind : n.kind = .space := by simpa [isSpaceNode] using hn
    rw [Node.preorders, Node.preorder_eq, hchild, List.flatMap_nil, List.singleton_append,
      List.filter_cons_of_neg (by simp [hkind]), ih hns hchildren]

theorem trimSpaces (h : Renders file scope a b w ns) : Renders file scope a b w (Markup.trimSpaces ns) := by
  obtain ⟨before, after, he, hbefore, hafter⟩ := exists_trimSpaces ns
  have hsub := trimSpaces_sublist ns
  have hchildren : ∀ n ∈ ns, isSpaceNode n = true → n.children = [] := fun n hn hs => by
    have hkind : n.kind = .space := by simpa [isSpaceNode] using hs
    refine (h.leaves n ?_ (by rw [hkind]; rfl)).2.2
    rw [Node.preorders_eq, List.mem_flatMap]
    exact ⟨n, hn, n.mem_preorder_self⟩
  refine ⟨?_, fun n hn => h.leaves n (Node.mem_preorders_of_sublist hsub hn),
    fun n hn => h.inside n (Node.mem_preorders_of_sublist hsub hn)⟩
  have hin : ∀ n, n ∈ before ∨ n ∈ after → n ∈ ns := fun n hn => by
    rw [he, List.mem_append, List.mem_append]
    exact hn.elim (fun hn => Or.inl (Or.inl hn)) Or.inr
  have hwords := h.words
  rw [he, Node.preorders_append, Node.preorders_append, List.filter_append, List.filter_append, List.flatMap_append,
    List.flatMap_append, words_spaces hbefore fun n hn => hchildren n (hin n (Or.inl hn)) (hbefore n hn),
    words_spaces hafter fun n hn => hchildren n (hin n (Or.inr hn)) (hafter n hn), List.nil_append, List.append_nil] at hwords
  exact hwords

theorem leaf (hkind : n.kind = .text ∨ n.kind = .space) (hscope : n.scope = scope) (hchildren : n.children = [])
    (hlocation : n.location = ⟨file, a, b⟩) (hwords : (if n.kind = .text then n.text else []) = w.filter (! isSpace ·)) :
    Renders file scope a b w [n] := by
  have hself : Node.preorders [n] = [n] := by
    rw [Node.preorders_singleton, hchildren]
    rfl
  refine ⟨?_, fun m hm => ?_, fun m hm => ?_⟩
  · rw [hself, ← hwords]
    by_cases htext : n.kind = .text
    · rw [List.filter_cons_of_pos (by simpa using htext), if_pos htext]
      exact List.append_nil _
    · rw [List.filter_cons_of_neg (by simpa using htext), if_neg htext]
      rfl
  · rw [hself, List.mem_singleton] at hm
    rw [hm]
    exact fun _ => ⟨hkind, hscope, hchildren⟩
  · rw [hself, List.mem_singleton] at hm
    rw [hm, hlocation]
    exact ⟨rfl, Nat.le_refl a, Nat.le_refl b⟩

end Renders

/-! ### Reading -/

theorem Cursor.pos_passed (hrest : s.rest = w ++ t) : (s.advance w.length).pos = s.pos + w.length := by
  simp [advance, hrest]

theorem Cursor.advance_append (s : Cursor) (x y : Text) (m d : Nat) :
    { ({ s.advance x.length with depth := m } : Cursor).advance y.length with depth := d } =
      { s.advance (x ++ y).length with depth := d } := by
  rw [List.length_append, ← s.advance_advance]
  rfl

/-- Text between spaces or up to the end of the content block is one node. -/
theorem textNode_brackets (page : Page) (hrest : s.rest = w ++ t) (hne : w ≠ []) (hword : ∀ c ∈ w, isSpace c = false)
    (hplain : ∀ c ∈ w, c ∉ markCharacters) (hdepth : bracketDepth s.depth w = some e)
    (ht : ∀ c ∈ t.head?, isSpace c = true ∨ c = ']' ∧ e = 0) :
    ∃ n, textNode page (some ']') s = (n, { s.advance w.length with depth := e }) ∧
      Renders page.file s.scope s.pos (s.pos + w.length) w [n] := by
  have hlength : max w.length 1 = w.length := Nat.max_eq_left (List.length_pos_iff.2 hne)
  have hsince : Cursor.since { s.advance w.length with depth := e } s = w := Cursor.since_advance hrest
  have hfilter : w.filter (! isSpace ·) = w := List.filter_eq_self.2 fun c hc => by simp [hword c hc]
  unfold textNode
  rw [hrest, textRun_brackets hword hplain hdepth ht]
  dsimp only
  rw [hlength]
  refine ⟨_, rfl, .leaf (Or.inl rfl) rfl rfl ?_ ?_⟩
  · rw [← Cursor.pos_passed hrest]
    rfl
  · rw [hfilter]
    exact hsince

theorem spaceNode_brackets (page : Page) (hrest : s.rest = w ++ t) (hspaces : ∀ c ∈ w, isSpace c = true)
    (ht : ∀ c ∈ t.head?, isSpace c = false) :
    ∃ n, spaceNode page s = (n, s.advance w.length) ∧ Renders page.file s.scope s.pos (s.pos + w.length) w [n] := by
  have htake : s.rest.takeWhile isSpace = w := by
    rw [hrest, takeWhile_append_of_head ht, List.takeWhile_eq_self_iff.2 hspaces]
  have hfilter : w.filter (! isSpace ·) = [] := List.filter_eq_nil_iff.2 fun c hc => by simp [hspaces c hc]
  unfold spaceNode Cursor.skipWhile
  rw [htake]
  refine ⟨_, rfl, .leaf (Or.inr rfl) rfl rfl ?_ hfilter.symm⟩
  rw [← Cursor.pos_passed hrest]
  rfl

/-- In a content block only a paragraph ends at whitespace. -/
theorem endsAtSpace_brackets (hmode : mode = .bracket ∨ mode = .paragraph) (hplain : ∀ c ∈ w, c ∉ markCharacters) (t : Text) :
    endsAtSpace mode (w ++ ']' :: t) = decide (mode = .paragraph ∧ 2 ≤ (w.takeWhile isSpace).count '\n') := by
  have hstop : ∀ c ∈ (']' :: t).head?, isSpace c = false := fun c hc => by
    obtain rfl := Option.some.inj hc
    rfl
  have hafter : ∀ c ∈ (w.dropWhile isSpace ++ ']' :: t).head?, c ∉ markCharacters := fun c hc => by
    rw [List.head?_append] at hc
    rcases Option.or_eq_some_iff.1 hc with hc | ⟨-, hc⟩
    · exact hplain c ((List.dropWhile_sublist isSpace).subset (List.mem_of_mem_head? hc))
    · obtain rfl := Option.some.inj hc
      decide
  have hne : (w.dropWhile isSpace ++ ']' :: t).isEmpty = false := by simp
  unfold endsAtSpace
  rw [takeWhile_append_of_head hstop, dropWhile_append_of_head hstop]
  dsimp only
  rw [hne, headingMarker?_plain hafter, itemMarker?_plain hafter, fence_plain hafter]
  rcases hmode with rfl | rfl
  · rfl
  · simp

/-- Inline content passes over a first part of `w`: over all of it or, in a paragraph, up to a blank line. -/
def PassesInline (page : Page) (mode : Mode) (s : Cursor) (w : Text) : Prop :=
  ∃ p v d ns, w = p ++ v ∧ bracketDepth s.depth p = some d ∧
    (reader page).inline mode (some ']') s = (ns, { s.advance p.length with depth := d }) ∧
    Renders page.file s.scope s.pos (s.pos + p.length) p ns ∧
    (v = [] ∨ mode = .paragraph ∧ 2 ≤ (v.takeWhile isSpace).count '\n')

/-- The run of whitespace or of other characters at the head is one node. -/
structure FirstPiece (page : Page) (mode : Mode) (s : Cursor) (c : Char) (w q r : Text) (d : Nat) (n : Node) : Prop where
  split : w = q ++ r
  ne : q ≠ []
  depth : bracketDepth s.depth q = some d
  piece : piece page (reader page) mode (some ']') c s = ([n], { s.advance q.length with depth := d })
  renders : Renders page.file s.scope s.pos (s.pos + q.length) q [n]

section FirstPiece

variable {c : Char} (page : Page) (hhead : w.head? = some c) (hrest : s.rest = w ++ ']' :: t)
include hhead hrest

theorem exists_piece_space (mode : Mode) (hspace : isSpace c = true) : ∃ q r n, FirstPiece page mode s c w q r s.depth n := by
  have hsplit := (List.takeWhile_append_dropWhile (p := isSpace) (l := w)).symm
  have hspaces : ∀ x ∈ w.takeWhile isSpace, isSpace x = true := fun x hx => List.mem_takeWhile_imp hx
  have hne : w.takeWhile isSpace ≠ [] := by
    obtain ⟨u, rfl⟩ := List.head?_eq_some_iff.1 hhead
    simp [hspace]
  have hbehind : ∀ x ∈ (w.dropWhile isSpace ++ ']' :: t).head?, isSpace x = false := by
    intro x hx
    rw [List.head?_append] at hx
    rcases Option.or_eq_some_iff.1 hx with hx | ⟨-, hx⟩
    · have := List.head?_dropWhile_not isSpace w
      rw [hx] at this
      simpa using this
    · obtain rfl := Option.some.inj hx
      rfl
  obtain ⟨n, hnode, hn⟩ := spaceNode_brackets page (by rw [hrest, ← List.append_assoc, ← hsplit]) hspaces hbehind
  refine ⟨_, _, n, hsplit, hne, bracketDepth_spaces hspaces, ?_, hn⟩
  unfold piece
  rw [if_pos hspace, hnode]
  rfl

theorem exists_piece_word (mode : Mode) (hspace : isSpace c = false) (hplain : ∀ c ∈ w, c ∉ markCharacters)
    (hdepth : bracketDepth s.depth w = some 0) : ∃ q r d n, FirstPiece page mode s c w q r d n := by
  have hsplit := (List.takeWhile_append_dropWhile (p := (! isSpace ·)) (l := w)).symm
  have hword : ∀ x ∈ w.takeWhile (! isSpace ·), isSpace x = false := fun x hx => by
    simpa using List.mem_takeWhile_imp hx
  have hne : w.takeWhile (! isSpace ·) ≠ [] := by
    obtain ⟨u, rfl⟩ := List.head?_eq_some_iff.1 hhead
    simp [hspace]
  obtain ⟨d, hd, hafter⟩ := exists_bracketDepth (hsplit ▸ hdepth)
  have hbehind : ∀ x ∈ (w.dropWhile (! isSpace ·) ++ ']' :: t).head?, isSpace x = true ∨ x = ']' ∧ d = 0 := by
    intro x hx
    rw [List.head?_append] at hx
    rcases Option.or_eq_some_iff.1 hx with hx | ⟨hnone, hx⟩
    · have := List.head?_dropWhile_not (! isSpace ·) w
      rw [hx] at this
      exact Or.inl (by simpa using this)
    · rw [List.head?_eq_none_iff.1 hnone] at hafter
      exact Or.inr ⟨(Option.some.inj hx).symm, Option.some.inj hafter⟩
  have hmark : s.mark? = none := by
    obtain ⟨u, rfl⟩ := List.head?_eq_some_iff.1 hhead
    rw [Cursor.mark?, hrest]
    exact mark?_plain (hplain c List.mem_cons_self)
  obtain ⟨n, hnode, hn⟩ := textNode_brackets page (by rw [hrest, ← List.append_assoc, ← hsplit]) hne hword
    (fun x hx => hplain x ((List.takeWhile_prefix _).subset hx)) hd hbehind
  refine ⟨_, _, d, n, hsplit, hne, hd, ?_, hn⟩
  unfold piece
  rw [if_neg (by simp [hspace]), hmark, hnode]

end FirstPiece

theorem PassesInline.piece {c : Char} {q : Text} (hhead : w.head? = some c) (hrest : s.rest = w ++ ']' :: t)
    (hgo : (stopsAt (some ']') s.depth c || (isSpace c && endsAtSpace mode s.rest)) = false)
    (h : FirstPiece page mode s c w q v d n) (hv : PassesInline page mode { s.advance q.length with depth := d } v) :
    PassesInline page mode s w := by
  obtain ⟨p, u, e, ns, rfl, hp, hread, hns, hend⟩ := hv
  obtain ⟨r, hr⟩ := List.head?_eq_some_iff.1 hhead
  have hcons : s.rest = c :: (r ++ ']' :: t) := by rw [hrest, hr, List.cons_append]
  have hpos : (s.advance q.length).pos = s.pos + q.length :=
    Cursor.pos_passed (t := p ++ u ++ ']' :: t) (by rw [hrest, h.split, List.append_assoc])
  refine ⟨q ++ p, u, e, n :: ns, by rw [h.split, List.append_assoc], ?_, ?_, ?_, hend⟩
  · rw [bracketDepth_append, h.depth]
    exact hp
  · rw [reader_inline, inlineStep_cons page _ mode _ hcons, hgo, if_neg Bool.false_ne_true, h.piece]
    dsimp only
    rw [hread, s.advance_append]
    rfl
  · rw [List.length_append, ← Nat.add_assoc]
    exact h.renders.append (hpos ▸ hns) (Nat.le_add_right _ _) (Nat.le_add_right _ _)

/-- Inline content is read up to the bracket that closes the content block, and a paragraph also up to a blank line. -/
theorem passesInline (page : Page) (hmode : mode = .bracket ∨ mode = .paragraph) (hrest : s.rest = w ++ ']' :: t)
    (hplain : ∀ c ∈ w, c ∉ markCharacters) (hdepth : bracketDepth s.depth w = some 0) : PassesInline page mode s w := by
  induction hn : w.length using Nat.strong_induction_on generalizing s w with
  | _ k ih =>
    subst hn
    cases hhead : w.head? with
    | none =>
      obtain rfl := List.head?_eq_none_iff.1 hhead
      obtain hzero : s.depth = 0 := Option.some.inj hdepth
      refine ⟨[], [], 0, [], rfl, hdepth, ?_, .nil nofun, Or.inl rfl⟩
      rw [reader_inline, inlineStep_cons page _ mode _ hrest, hzero]
      change ([], s) = ([], { s with depth := 0 })
      rw [← hzero]
    | some c =>
      obtain ⟨r, hr⟩ := List.head?_eq_some_iff.1 hhead
      have hcons : s.rest = c :: (r ++ ']' :: t) := by rw [hrest, hr, List.cons_append]
      have hopen : stopsAt (some ']') s.depth c = false := by
        by_cases hc : c = ']'
        · have hpos : s.depth ≠ 0 := fun hzero => by
            rw [hr, hc, hzero] at hdepth
            cases hdepth
          simp [stopsAt, hc, Nat.pos_of_ne_zero hpos]
        · simp [stopsAt, Ne.symm hc]
      have hends := endsAtSpace_brackets hmode hplain t
      rw [← hrest] at hends
      by_cases hbreak : isSpace c = true ∧ mode = .paragraph ∧ 2 ≤ (w.takeWhile isSpace).count '\n'
      · refine ⟨[], w, s.depth, [], rfl, rfl, ?_, .nil nofun, Or.inr hbreak.2⟩
        rw [reader_inline, inlineStep_cons page _ mode _ hcons, hends, hopen, hbreak.1, decide_eq_true hbreak.2]
        rfl
      · have hgo : (stopsAt (some ']') s.depth c || (isSpace c && endsAtSpace mode s.rest)) = false := by
          rw [hopen, hends, Bool.false_or, ← Bool.not_eq_true, Bool.and_eq_true, decide_eq_true_eq]
          exact hbreak
        obtain ⟨q, v, d, n, hpiece⟩ : ∃ q v d n, FirstPiece page mode s c w q v d n := by
          cases hspace : isSpace c with
          | true =>
            obtain ⟨q, v, n, hpiece⟩ := exists_piece_space page hhead hrest mode hspace
            exact ⟨q, v, _, n, hpiece⟩
          | false => exact exists_piece_word page hhead hrest mode hspace hplain hdepth
        obtain ⟨m, hm, hv⟩ := exists_bracketDepth (hpiece.split ▸ hdepth)
        obtain rfl : d = m := Option.some.inj (hpiece.depth.symm.trans hm)
        have hlt : v.length < w.length := by
          have hpos := List.length_pos_iff.2 hpiece.ne
          rw [hpiece.split, List.length_append]
          omega
        refine .piece hhead hrest hgo hpiece (ih _ hlt ?_ (fun x hx => hplain x ?_) hv rfl)
        · change s.rest.drop q.length = _
          rw [hrest, hpiece.split, List.append_assoc, List.drop_left]
        · rw [hpiece.split]
          exact List.mem_append_right q hx

/-! ### Blocks -/

theorem Cursor.skipWhile_of_head {p : Char → Bool} (h : ∀ c ∈ s.rest.head?, p c = false) : s.skipWhile p = s := by
  have hnil : s.rest.takeWhile p = [] := by
    cases hrest : s.rest with
    | nil => rfl
    | cons c r => exact List.takeWhile_cons_of_neg (by simp [h c (by rw [hrest]; rfl)])
  rw [skipWhile, hnil]
  exact s.advance_zero

theorem blocks_skipWhile (page : Page) (stop : Option Char) (s : Cursor) :
    (reader page).blocks stop (s.skipWhile isSpace) = (reader page).blocks stop s := by
  rw [reader_blocks, reader_blocks, blocksStep, blocksStep, Cursor.skipWhile_of_head (s.head_skipWhile isSpace)]

/-- A paragraph is read as inline content. -/
theorem renders_paragraph {stop : Option Char} (hinline : (reader page).inline .paragraph stop s = (ns, u))
    (hns : Renders page.file scope a b w ns) (ha : a ≤ s.pos) (hb : u.pos ≤ b) :
    Renders page.file scope a b w (paragraph page (reader page) stop s).1 ∧ (paragraph page (reader page) stop s).2 = u := by
  have htrim := hns.trimSpaces
  have hend : u.trimmedEnd s ≤ b := Nat.le_trans (u.trimmedEnd_le s) hb
  unfold paragraph
  rw [hinline]
  dsimp only
  split
  · next heq => exact ⟨heq ▸ htrim, rfl⟩
  · next only heq =>
    rw [heq] at htrim
    split
    · exact ⟨htrim, rfl⟩
    · exact ⟨.node htrim rfl rfl ha hend, rfl⟩
  · exact ⟨.node htrim rfl rfl ha hend, rfl⟩

/-- A block takes some text, and blocks go on behind it. -/
theorem blocks_block {c : Char} {r : Text} {stop : Option Char} (hrest : s.rest = c :: r) (hspace : isSpace c = false)
    (hstop : stop ≠ some c) (hblock : block page (reader page) stop s = (ms, u)) : u.pos ≠ s.pos ∧
      (reader page).blocks stop s = (ms ++ ((reader page).blocks stop u).1, ((reader page).blocks stop u).2) := by
  have hmoved := pos_block_ne page stop hrest hstop hspace
  rw [hblock] at hmoved
  have hself : s.skipWhile isSpace = s := Cursor.skipWhile_of_head fun d hd => by
    rw [hrest] at hd
    exact Option.some.inj hd ▸ hspace
  refine ⟨hmoved, ?_⟩
  rw [reader_blocks]
  unfold blocksStep
  dsimp only
  rw [hself, hrest]
  dsimp only
  rw [if_neg hstop, hblock, if_neg hmoved]

/-- Where no heading and no item begins, there is a paragraph, and blocks go on behind it. -/
theorem blocks_paragraph {c : Char} {r : Text} {stop : Option Char} (hrest : s.rest = c :: r) (hspace : isSpace c = false)
    (hstop : stop ≠ some c) (hheading : headingMarker? s.rest = none) (hitem : itemMarker? s.rest = none)
    (hinline : (reader page).inline .paragraph stop s = (ns, u)) (hns : Renders page.file scope a b w ns) (ha : a ≤ s.pos)
    (hb : u.pos ≤ b) : u.pos ≠ s.pos ∧ ∃ ms, Renders page.file scope a b w ms ∧
      (reader page).blocks stop s = (ms ++ ((reader page).blocks stop u).1, ((reader page).blocks stop u).2) := by
  obtain ⟨hms, hend⟩ := renders_paragraph hinline hns ha hb
  have hblock : block page (reader page) stop s = ((paragraph page (reader page) stop s).1, u) := by
    rw [block_eq_paragraph page stop hheading hitem, ← hend]
  obtain ⟨hmoved, hblocks⟩ := blocks_block hrest hspace hstop hblock
  exact ⟨hmoved, _, hms, hblocks⟩

theorem blocks_close (page : Page) (hrest : s.rest = ']' :: t) : (reader page).blocks (some ']') s = ([], s) := by
  have hself : s.skipWhile isSpace = s := Cursor.skipWhile_of_head fun d hd => by
    rw [hrest] at hd
    exact Option.some.inj hd ▸ rfl
  rw [reader_blocks]
  unfold blocksStep
  dsimp only
  rw [hself, hrest]
  rfl

theorem head?_dropWhile_of_balanced (h : bracketDepth 0 w = some e) : (w.dropWhile isSpace).head? ≠ some ']' := by
  intro hhead
  obtain ⟨r, hr⟩ := List.head?_eq_some_iff.1 hhead
  rw [← List.takeWhile_append_dropWhile (p := isSpace) (l := w), hr] at h
  obtain ⟨m, hm, hclose⟩ := exists_bracketDepth h
  rw [bracketDepth_spaces fun c hc => List.mem_takeWhile_imp hc] at hm
  cases hm
  cases hclose

theorem NoBracketLeads.suffix (h : NoBracketLeads (w ++ v)) : NoBracketLeads v := by
  rintro u g r rfl hg
  exact h (w ++ u) g r (by rw [List.append_assoc]) hg

/-- Behind a paragraph no bracket leads. -/
theorem NoBracketLeads.head?_ne (h : NoBracketLeads v) (hend : v = [] ∨ 2 ≤ (v.takeWhile isSpace).count '\n') :
    (v.dropWhile isSpace).head? ≠ some ']' := by
  intro hhead
  obtain ⟨r, hr⟩ := List.head?_eq_some_iff.1 hhead
  have hsplit := (List.takeWhile_append_dropWhile (p := isSpace) (l := v)).symm
  rw [hr] at hsplit
  rcases hend with rfl | hcount
  · cases hhead
  · have := h [] (v.takeWhile isSpace) r hsplit fun c hc => List.mem_takeWhile_imp hc
    omega

/-- Blocks pass over all of `w`. -/
def PassesBlocks (page : Page) (s : Cursor) (w : Text) : Prop :=
  ∃ ns, (reader page).blocks (some ']') s = (ns, { s.advance w.length with depth := 0 }) ∧
    Renders page.file s.scope s.pos (s.pos + w.length) w ns

/-- Before `w` and the bracket that closes the content block, with no bracket in front that leads a paragraph. -/
structure Cursor.BeforeBlocks (s : Cursor) (w t : Text) : Prop where
  rest : s.rest = w ++ ']' :: t
  plain : ∀ c ∈ w, c ∉ markCharacters
  depth : bracketDepth s.depth w = some 0
  leads : NoBracketLeads w

theorem Cursor.BeforeBlocks.advance {p : Text} (h : s.BeforeBlocks (p ++ w) t) (hd : bracketDepth s.depth p = some d) :
    Cursor.BeforeBlocks { s.advance p.length with depth := d } w t := by
  obtain ⟨m, hm, hw⟩ := exists_bracketDepth h.depth
  obtain rfl : d = m := Option.some.inj (hd.symm.trans hm)
  refine ⟨?_, fun c hc => h.plain c (List.mem_append_right p hc), hw, h.leads.suffix⟩
  change s.rest.drop p.length = _
  rw [h.rest, List.append_assoc, List.drop_left]

/-- A paragraph that comes to `v` reads on in `w` from there, and the blocks behind it read the rest of `w`. -/
theorem blocks_passed {c : Char} {r : Text} {v : Cursor} (hhead : s.rest = c :: r) (hspace : isSpace c = false) (hc : c ≠ ']')
    (hheading : headingMarker? s.rest = none) (hitem : itemMarker? s.rest = none) (hs : s.pos ≤ v.pos)
    (hv : v.BeforeBlocks w t)
    (hinline : (reader page).inline .paragraph (some ']') s = (reader page).inline .paragraph (some ']') v)
    (hmore : ∀ p u d, w = p ++ u → v.pos + p.length ≠ s.pos →
      Cursor.BeforeBlocks { v.advance p.length with depth := d } u t → (u.dropWhile isSpace).head? ≠ some ']' →
        PassesBlocks page { v.advance p.length with depth := d } u) :
    ∃ ns, (reader page).blocks (some ']') s = (ns, { v.advance w.length with depth := 0 }) ∧
      Renders page.file v.scope s.pos (v.pos + w.length) w ns := by
  obtain ⟨p, u, d, ns, rfl, hp, hread, hns, hend⟩ := passesInline page (Or.inr rfl) hv.rest hv.plain hv.depth
  have hpos : (v.advance p.length).pos = v.pos + p.length := Cursor.pos_passed (by rw [hv.rest, List.append_assoc])
  obtain ⟨hmoved, ms, hms, hblocks⟩ := blocks_paragraph hhead hspace (fun he => hc (Option.some.inj he).symm) hheading hitem
    (hinline.trans hread) (hns.widen hs (Nat.le_refl _)) (Nat.le_refl _) (Nat.le_of_eq hpos)
  have hfirst := hv.leads.suffix.head?_ne (hend.imp_right And.right)
  obtain ⟨more, hread', hmore⟩ := hmore p u d rfl (hpos ▸ hmoved) (hv.advance hp) hfirst
  have hmore : Renders page.file v.scope (v.pos + p.length) (v.pos + p.length + u.length) u more := hpos ▸ hmore
  refine ⟨ms ++ more, by rw [hblocks, hread', Cursor.advance_append], ?_⟩
  rw [List.length_append, ← Nat.add_assoc]
  exact hms.append hmore (Nat.le_trans hs (Nat.le_add_right _ _)) (Nat.le_add_right _ _)

/-- Blocks are read up to the bracket that closes the content block if no bracket leads a paragraph. -/
theorem passesBlocks (page : Page) (h : s.BeforeBlocks w t) (hfirst : (w.dropWhile isSpace).head? ≠ some ']') :
    PassesBlocks page s w := by
  induction hn : w.length using Nat.strong_induction_on generalizing s w with
  | _ k ih =>
    subst hn
    have hsplit := (List.takeWhile_append_dropWhile (p := isSpace) (l := w)).symm
    have hspaces : ∀ x ∈ w.takeWhile isSpace, isSpace x = true := fun x hx => List.mem_takeWhile_imp hx
    have hword := List.head?_dropWhile_not isSpace w
    generalize w.takeWhile isSpace = g at hsplit hspaces
    generalize w.dropWhile isSpace = v at hsplit hfirst hword
    subst hsplit
    have hv : (s.advance g.length).BeforeBlocks v t := h.advance (bracketDepth_spaces hspaces)
    have hpos : (s.advance g.length).pos = s.pos + g.length := Cursor.pos_passed (by rw [h.rest, List.append_assoc])
    have hnext : ∀ x ∈ (v ++ ']' :: t).head?, isSpace x = false := by
      intro x hx
      rw [List.head?_append] at hx
      rcases Option.or_eq_some_iff.1 hx with hx | ⟨-, hx⟩
      · rw [hx] at hword
        simpa using hword
      · obtain rfl := Option.some.inj hx
        rfl
    have hskip : s.skipWhile isSpace = s.advance g.length := by
      rw [Cursor.skipWhile, h.rest, List.append_assoc, takeWhile_append_of_head hnext, List.takeWhile_eq_self_iff.2 hspaces]
    have hblank : Renders page.file s.scope s.pos (s.pos + g.length) g [] := .nil hspaces
    unfold PassesBlocks
    rw [← blocks_skipWhile, hskip]
    cases v with
    | nil =>
      obtain hzero : s.depth = 0 := Option.some.inj hv.depth
      rw [List.append_nil, blocks_close page hv.rest]
      refine ⟨[], ?_, hblank⟩
      change ([], s.advance g.length) = ([], { s.advance g.length with depth := 0 })
      rw [← hzero]
      rfl
    | cons c v =>
      have hc : c ≠ ']' := fun he => hfirst (congrArg some he)
      have hmarks : ∀ x ∈ (s.advance g.length).rest.head?, x ∉ markCharacters := fun x hx => by
        rw [hv.rest] at hx
        exact hv.plain x (Option.some.inj hx ▸ List.mem_cons_self)
      obtain ⟨ns, hread, hns⟩ := blocks_passed hv.rest (hnext c rfl) hc (headingMarker?_plain hmarks)
        (itemMarker?_plain hmarks) (Nat.le_refl _) hv rfl fun p u d hw hmoved hu hfirst =>
          ih u.length (by rw [hw, List.length_append, List.length_append]; omega) hu hfirst rfl
      refine ⟨ns, ?_, ?_⟩
      · rw [hread, s.advance_advance, List.length_append]
      · rw [hpos, Nat.add_assoc, ← List.length_append] at hns
        exact hblank.append hns (Nat.le_add_right _ _) (by rw [List.length_append]; omega)

end Proofreader.Markup
