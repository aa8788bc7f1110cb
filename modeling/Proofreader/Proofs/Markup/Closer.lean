import Mathlib.Data.List.TakeWhile
import Proofreader.Proofs.Markup.Scoping

/-! Where a delimiter is closed: at the first one that no backslash takes, unless a blank line comes before. A backslash
at the end of a line takes the newline, so that a blank line that begins there does not count, and math may run across
it. -/

namespace Proofreader.Markup

/-- An odd number of backslashes stands in front of offset `n`: the last of them takes what stands there. -/
def Escaped (t : Text) (n : Nat) : Prop := ((t.take n).reverse.takeWhile (· = '\\')).length % 2 = 1

/-- There are newlines at `b` and `e`, and only blanks between them. -/
structure BlankLine (t : Text) (b e : Nat) : Prop where
  lt : b < e
  first : t[b]? = some '\n'
  last : t[e]? = some '\n'
  blank : ∀ i c, b < i → i < e → t[i]? = some c → c = ' ' ∨ c = '\t' ∨ c = '\r'

/-- `delimiter` stands at `n`, not escaped; it does not before, and each blank line before begins with an escaped newline. -/
structure ClosesAt (delimiter : Char) (t : Text) (n : Nat) : Prop where
  closer : t[n]? = some delimiter
  free : ¬ Escaped t n
  first : ∀ m < n, t[m]? = some delimiter → Escaped t m
  lines : ∀ b e, BlankLine t b e → e < n → Escaped t b

variable {closer c d : Char} {r t : Text} {b e m n : Nat}

/-! ### Escapes -/

theorem not_escaped_zero (t : Text) : ¬ Escaped t 0 := by simp [Escaped]

theorem escaped_backslash_one (t : Text) : Escaped ('\\' :: t) 1 := by simp [Escaped]

theorem escaped_cons (hc : c ≠ '\\') : Escaped (c :: t) (n + 1) ↔ Escaped t n := by
  unfold Escaped
  rw [List.take_succ_cons, List.reverse_cons, List.takeWhile_append]
  split
  · next hall => simp [hc, hall]
  · rfl

/-- A backslash and what it takes leave the rest as it is. -/
theorem escaped_backslash : Escaped ('\\' :: c :: t) (n + 2) ↔ Escaped t n := by
  unfold Escaped
  rw [List.take_succ_cons, List.take_succ_cons, List.reverse_cons, List.reverse_cons, List.append_assoc, List.takeWhile_append]
  split
  · next hall =>
    by_cases hc : c = '\\'
    · simp [hc, hall]
    · simp [hc, hall]
  · rfl

/-! ### Blank lines -/

theorem blankLine_cons : BlankLine (c :: t) (b + 1) (e + 1) ↔ BlankLine t b e := by
  constructor
  · intro h
    exact ⟨Nat.lt_of_succ_lt_succ h.lt, h.first, h.last, fun i d hb he hd => h.blank (i + 1) d (by omega) (by omega) hd⟩
  · intro h
    refine ⟨Nat.succ_lt_succ h.lt, h.first, h.last, fun i d hb he hd => ?_⟩
    cases i with
    | zero => omega
    | succ i => exact h.blank i d (by omega) (by omega) hd

theorem head?_dropWhile_iff {p : Char → Bool} (hd : p d = false) :
    (t.dropWhile p).head? = some d ↔ ∃ e : Nat, t[e]? = some d ∧ ∀ i < e, ∀ c, t[i]? = some c → p c = true := by
  induction t with
  | nil => simp
  | cons c r ih =>
    by_cases hc : p c = true
    · rw [List.dropWhile_cons_of_pos hc, ih]
      constructor
      · rintro ⟨e, he, hbefore⟩
        refine ⟨e + 1, he, fun i hi c' hc' => ?_⟩
        cases i with
        | zero => exact Option.some.inj hc' ▸ hc
        | succ i => exact hbefore i (Nat.lt_of_succ_lt_succ hi) c' hc'
      · rintro ⟨e, he, hbefore⟩
        cases e with
        | zero =>
          rw [← Option.some.inj he, hc] at hd
          cases hd
        | succ e => exact ⟨e, he, fun i hi => hbefore (i + 1) (Nat.succ_lt_succ hi)⟩
    · rw [List.dropWhile_cons_of_neg hc]
      constructor
      · exact fun he => ⟨0, he, fun i hi => absurd hi (Nat.not_lt_zero i)⟩
      · rintro ⟨e, he, hbefore⟩
        cases e with
        | zero => exact he
        | succ e => exact absurd (hbefore 0 (Nat.succ_pos e) c rfl) hc

theorem isBlankLine_iff : isBlankLine t = true ↔ ∃ e, BlankLine ('\n' :: t) 0 e := by
  unfold isBlankLine
  rw [decide_eq_true_eq, head?_dropWhile_iff (by decide)]
  constructor
  · rintro ⟨e, he, hbefore⟩
    refine ⟨e + 1, Nat.succ_pos e, rfl, he, fun i c hi hlt hc => ?_⟩
    obtain ⟨i, rfl⟩ := Nat.exists_eq_add_of_lt hi
    rw [Nat.zero_add] at hlt hc
    simpa [or_assoc] using hbefore i (Nat.lt_of_succ_lt_succ hlt) c hc
  · rintro ⟨e, h⟩
    obtain ⟨e, rfl⟩ := Nat.exists_eq_add_of_lt h.lt
    have hlast := h.last
    rw [Nat.zero_add] at hlast
    refine ⟨e, hlast, fun i hi c hc => ?_⟩
    simpa [or_assoc] using h.blank (i + 1) c (Nat.succ_pos i) (by omega) hc

/-! ### Scanning -/

namespace ClosesAt

theorem backslash (hd : d ≠ '\\') : ClosesAt d ('\\' :: c :: t) n ↔ ∃ m, n = m + 2 ∧ ClosesAt d t m := by
  constructor
  · intro h
    rcases n with _ | _ | m
    · exact absurd (Option.some.inj h.closer).symm hd
    · exact absurd (escaped_backslash_one _) h.free
    · exact ⟨m, rfl, h.closer, fun he => h.free (escaped_backslash.2 he),
        fun i hi hd => escaped_backslash.1 (h.first (i + 2) (by omega) hd),
        fun b e hline he => escaped_backslash.1 (h.lines (b + 2) (e + 2) (blankLine_cons.2 (blankLine_cons.2 hline)) (by omega))⟩
  · rintro ⟨m, rfl, h⟩
    refine ⟨h.closer, fun he => h.free (escaped_backslash.1 he), fun i hi hd' => ?_, fun b e hline he => ?_⟩
    · rcases i with _ | _ | i
      · exact absurd (Option.some.inj hd').symm hd
      · exact escaped_backslash_one _
      · exact escaped_backslash.2 (h.first i (by omega) hd')
    · rcases b with _ | _ | b
      · exact absurd (Option.some.inj hline.first) (by decide)
      · exact escaped_backslash_one _
      · obtain ⟨e, rfl⟩ : ∃ k, e = k + 2 := ⟨e - 2, by have := hline.lt; omega⟩
        exact escaped_backslash.2 (h.lines b e (blankLine_cons.1 (blankLine_cons.1 hline)) (by omega))

theorem head : ClosesAt d (d :: t) n ↔ n = 0 := by
  constructor
  · intro h
    by_contra hn
    exact not_escaped_zero _ (h.first 0 (by omega) rfl)
  · rintro rfl
    exact ⟨rfl, not_escaped_zero _, fun m hm => absurd hm (Nat.not_lt_zero m), fun b e _ he => absurd he (Nat.not_lt_zero e)⟩

/-- Behind a character that neither closes nor escapes, the search goes on unless a blank line begins with it. -/
theorem cons (hd : isSpace d = false) (hcd : c ≠ d) (hc : c ≠ '\\') :
    ClosesAt d (c :: t) n ↔ ¬ (c = '\n' ∧ isBlankLine t) ∧ ∃ m, n = m + 1 ∧ ClosesAt d t m := by
  constructor
  · intro h
    rcases n with _ | m
    · exact absurd (Option.some.inj h.closer) hcd
    · refine ⟨?_, m, rfl, h.closer, fun he => h.free ((escaped_cons hc).2 he),
        fun i hi hd => (escaped_cons hc).1 (h.first (i + 1) (by omega) hd),
        fun b e hline he => (escaped_cons hc).1 (h.lines (b + 1) (e + 1) (blankLine_cons.2 hline) (by omega))⟩
      rintro ⟨rfl, hblank⟩
      obtain ⟨e, hline⟩ := isBlankLine_iff.1 hblank
      -- nothing on a blank line closes
      have hlt : e < m + 1 := by
        by_contra hle
        have hspace : isSpace d = true := by
          rcases Nat.lt_or_eq_of_le (Nat.le_of_not_lt hle) with hlt | rfl
          · rcases hline.blank (m + 1) d (Nat.succ_pos m) hlt h.closer with rfl | rfl | rfl <;> rfl
          · rw [← Option.some.inj (hline.last.symm.trans h.closer)]
            rfl
        rw [hd] at hspace
        cases hspace
      exact not_escaped_zero _ (h.lines 0 e hline hlt)
  · rintro ⟨hno, m, rfl, h⟩
    refine ⟨h.closer, fun he => h.free ((escaped_cons hc).1 he), fun i hi hd' => ?_, fun b e hline he => ?_⟩
    · rcases i with _ | i
      · exact absurd (Option.some.inj hd') hcd
      · exact (escaped_cons hc).2 (h.first i (by omega) hd')
    · rcases b with _ | b
      · obtain rfl : c = '\n' := Option.some.inj hline.first
        exact absurd ⟨rfl, isBlankLine_iff.2 ⟨e, hline⟩⟩ hno
      · obtain ⟨e, rfl⟩ : ∃ k, e = k + 1 := ⟨e - 1, by have := hline.lt; omega⟩
        exact (escaped_cons hc).2 (h.lines b e (blankLine_cons.1 hline) (by omega))

end ClosesAt

theorem ne_backslash (htaken : ∀ a u, c = '\\' → r = a :: u → False) (hlast : c = '\\' → r = [] → False) : c ≠ '\\' := by
  rintro rfl
  cases r with
  | nil => exact hlast rfl rfl
  | cons a u => exact htaken a u rfl rfl

/-- The closer that is found is the first that is not escaped, and no blank line lies before it that does not begin with an
escaped newline. -/
theorem findCloser_eq_some_iff (hd : d ≠ '\\') (hspace : isSpace d = false) :
    findCloser d t = some n ↔ ClosesAt d t n := by
  fun_induction findCloser d t generalizing n with
  | case1 => exact ⟨nofun, fun h => by have := h.closer; simp at this⟩
  | case2 c r ih =>
    rw [ClosesAt.backslash hd, Option.map_eq_some_iff]
    exact exists_congr fun m => by rw [ih, eq_comm, and_comm]
  | case3 =>
    refine ⟨nofun, fun h => ?_⟩
    have hclose := h.closer
    rcases n with _ | n
    · exact absurd (Option.some.inj hclose).symm hd
    · simp at hclose
  | case4 r hescape =>
    rw [ClosesAt.head, Option.some.injEq, eq_comm]
  | case5 c r htaken hlast hcd hblank =>
    rw [ClosesAt.cons hspace hcd (ne_backslash htaken hlast)]
    exact ⟨nofun, fun h => absurd hblank h.1⟩
  | case6 c r htaken hlast hcd hblank ih =>
    rw [ClosesAt.cons hspace hcd (ne_backslash htaken hlast), and_iff_right hblank, Option.map_eq_some_iff]
    exact exists_congr fun m => by rw [ih, eq_comm, and_comm]

/-- What was closed is closed wherever the text ends behind. -/
theorem ClosesAt.take (h : ClosesAt d t n) : ClosesAt d (t.take n ++ [d]) n := by
  have htake : t.take n ++ [d] = t.take (n + 1) := by rw [List.take_add_one, h.closer, Option.toList_some]
  have hget : ∀ i ≤ n, (t.take (n + 1))[i]? = t[i]? := fun i hi => List.getElem?_take_of_lt (Nat.lt_succ_of_le hi)
  have hescaped : ∀ i ≤ n, Escaped (t.take (n + 1)) i ↔ Escaped t i := fun i hi => by
    rw [Escaped, Escaped, List.take_take, Nat.min_eq_left (Nat.le_succ_of_le hi)]
  rw [htake]
  refine ⟨(hget n (Nat.le_refl n)).trans h.closer, fun he => h.free ((hescaped n (Nat.le_refl n)).1 he), fun m hm hd => ?_,
    fun b e hline he => ?_⟩
  · rw [hget m (Nat.le_of_lt hm)] at hd
    exact (hescaped m (Nat.le_of_lt hm)).2 (h.first m hm hd)
  · have hb := hline.lt
    refine (hescaped b (by omega)).2 (h.lines b e ⟨hb, ?_, ?_, fun i c hi hie hc => ?_⟩ he)
    · exact (hget b (by omega)).symm.trans hline.first
    · exact (hget e (by omega)).symm.trans hline.last
    · exact hline.blank i c hi hie ((hget i (by omega)).trans hc)

/-! ### Documents -/

theorem leaf_mem_of_shown {es : List Event} {node : Node} (h : node ∈ shown es) : .leaf node ∈ es := by
  obtain ⟨e, he, hleaf⟩ := List.mem_filterMap.1 (List.mem_filter.1 h).1
  cases e with
  | leaf m =>
    obtain rfl := Option.some.inj hleaf
    exact he
  | rule | opened | closed => cases hleaf

/-- Where math is read, the dollar sign in front is closed. -/
theorem exists_math_of_shows {kind : Kind} {stop : Option Char} {s u : Cursor} (h : Shows stop s kind u)
    (hkind : kind = .mathInline ∨ kind = .mathBlock) :
    ∃ inside, s.mark? = some (.math inside) ∧ u = s.advance (inside + 2) := by
  cases h with
  | space | text | linebreak | escape | citation => simp at hkind
  | math page hm => exact ⟨_, hm, rfl⟩
  | raw page =>
    unfold rawNode leaf at hkind
    split at hkind <;> simp at hkind
  | call _ he =>
    unfold Callee.ofName at he
    split at he <;> cases he <;> simp at hkind

/-- What is read as math begins and ends with a dollar sign, and the second one closes the first. -/
theorem extract_math {source : Text} {s : Cursor} {inside : Nat} (hs : s.At source) (hm : s.mark? = some (.math inside)) :
    ∃ body, source.extract s.pos (s.advance (inside + 2)).pos = '$' :: (body ++ ['$']) ∧
      ClosesAt '$' (body ++ ['$']) body.length := by
  unfold Cursor.mark? at hm
  cases hrest : s.rest with
  | nil =>
    rw [hrest] at hm
    cases hm
  | cons c r =>
    rw [hrest] at hm
    have hspelled : (Mark.math inside).Spelled c r := spelled_of_mark? hm
    obtain ⟨rfl, hclosed⟩ := hspelled
    have hcloses := (findCloser_eq_some_iff (by decide) rfl).1 hclosed
    have hlt := (List.getElem?_eq_some_iff.1 hcloses.closer).1
    have hlength : (r.take inside).length = inside := List.length_take_of_le (Nat.le_of_lt hlt)
    have hsplit : s.rest = '$' :: (r.take inside ++ ['$']) ++ r.drop (inside + 1) := by
      rw [hrest, List.cons_append, List.append_assoc, List.singleton_append,
        ← (List.getElem?_eq_some_iff.1 hcloses.closer).2, List.getElem_cons_drop, List.take_append_drop]
    have hsince := Cursor.since_advance hsplit
    rw [List.length_cons, List.length_append, List.length_singleton, hlength, hs.since] at hsince
    refine ⟨r.take inside, hsince, ?_⟩
    rw [hlength]
    exact hcloses.take

namespace Library

variable {lib : Library} {chain : List FileId} {file : FileId} {stop : Option Char} {s u : Cursor} {es : List Event}
variable {source : Text}

/-- The node is a leaf that is shown for a part of its file. -/
def ShownFrom (lib : Library) (node : Node) : Prop :=
  ∃ source stop s u, lib.load node.location.file = some source ∧ s.At source ∧ Shows stop s node.kind u ∧
    node.location.start = s.pos ∧ node.location.stop = u.pos

theorem Tells.shownFrom (h : lib.Tells chain file stop s es u) (hs : s.At source) (hl : lib.load file = some source)
    {node : Node} (hnode : .leaf node ∈ es) : lib.ShownFrom node := by
  induction h generalizing source with
  | stay | pass | unread => cases hnode
  | seq h _ ih ih' => exact (List.mem_append.1 hnode).elim (ih hs hl) (ih' (h.reaches.at hs) hl)
  | @leaf _ file stop s u m h hlocation =>
    obtain rfl : node = m := Event.leaf.inj (List.mem_singleton.1 hnode)
    refine ⟨source, stop, s, u, ?_, hs, h, ?_, ?_⟩
    · rw [hlocation]
      exact hl
    · rw [hlocation]
    · rw [hlocation]
  | @delimited _ _ _ s _ _ _ _ _ _ ih => exact ih ((s.reaches_advance 1).at hs) hl hnode
  | rule => simp at hnode
  | @content _ _ _ s _ _ _ _ _ ih => exact ih (s.reaches_open.at hs) hl (by simpa using hnode)
  | @text _ _ _ s v t _ _ hv _ _ _ ih =>
    have hreach : s.Reaches v := hv ▸ (s.reaches_advance 5).trans (Cursor.reaches_arguments _)
    exact ih ((hreach.trans v.reaches_open).at hs) hl (by simpa using hnode)
  | textless => simp at hnode
  | @inclusion _ _ _ _ _ _ _ _ text _ _ _ _ _ _ hload _ _ ih =>
    exact ih (Cursor.at_start text .unset) hload (by simpa using hnode)

theorem shownFrom_read {main : FileId} {root node : Node} (hroot : (lib.read main).document = some root)
    (hnode : node ∈ root.preorder) (hshown : isShown node = true) : lib.ShownFrom node := by
  obtain ⟨-, -, source, -, hl⟩ := exists_of_document hroot
  obtain ⟨ns, ws, asked, t, es, hread, htold, -⟩ : ∃ ns ws asked t es, lib.read main =
      ⟨some ⟨.document, ⟨main, 0, source.length⟩, [], .unset, 0, false, ns⟩, ws, asked⟩ ∧
        Told lib [] main none (Cursor.start source .unset) ns t es ∧ t.rest = [] :=
    told_readFile (open_nil lib) (Nat.le_refl _) List.not_mem_nil hl
  rw [hread] at hroot
  cases hroot
  have hbelow : node ∈ Node.preorders ns := by
    rw [Node.preorder_eq, ← Node.preorders_eq] at hnode
    rcases List.mem_cons.1 hnode with rfl | hnode
    · cases hshown
    · exact hnode
  have hfound : node ∈ Markup.shown es := htold.shown ▸ List.mem_filter.2 ⟨hbelow, hshown⟩
  exact htold.tells.shownFrom (Cursor.at_start source .unset) hl (leaf_mem_of_shown hfound)

/-- A delimiter is closed at the first delimiter of its kind that is not escaped, unless an unescaped newline begins a blank
line before. So each blank line inside of math, in whatever file and block it stands, begins with an escaped newline. -/
theorem read_math (lib : Library) (main : FileId) :
    (∀ (d : Char) (t : Text) (n : Nat), d ≠ '\\' → isSpace d = false → (findCloser d t = some n ↔ ClosesAt d t n)) ∧
    ∀ root node, (lib.read main).document = some root → node ∈ root.preorder →
      node.kind = .mathInline ∨ node.kind = .mathBlock →
        ∃ source inside, lib.load node.location.file = some source ∧
          source.extract node.location.start node.location.stop = '$' :: (inside ++ ['$']) ∧
          ClosesAt '$' (inside ++ ['$']) inside.length := by
  refine ⟨fun d t n hd hspace => findCloser_eq_some_iff hd hspace, fun root node hroot hnode hkind => ?_⟩
  have hshown : isShown node = true := by
    rcases hkind with hkind | hkind
    · rw [isShown, hkind]
      rfl
    · rw [isShown, hkind]
      rfl
  obtain ⟨source, stop, s, u, hl, hs, hshows, hstart, hstop⟩ := lib.shownFrom_read hroot hnode hshown
  obtain ⟨inside, hm, rfl⟩ := exists_math_of_shows hshows hkind
  obtain ⟨body, hbody, hcloses⟩ := extract_math hs hm
  exact ⟨source, body, hl, by rw [hstart, hstop, hbody], hcloses⟩

/-- Two paragraphs with a price each, the first of which ends with a line break. -/
def prices : Library where
  files := [("a", "A $5\\\n\nThen $6.\n".toList)]
  resolve := fun _ path => String.ofList path

theorem exists_price : ∃ root node, (prices.read "a").document = some root ∧ node ∈ root.preorder ∧ node.kind = .mathInline ∧
    node.location = ⟨"a", 2, 13⟩ := by
  have hread : (prices.read "a").document.any (fun root => root.preorder.any fun node =>
      node.kind = .mathInline && node.location = ⟨"a", 2, 13⟩) = true := by decide +kernel
  obtain ⟨root, hroot, hany⟩ := (Option.any_eq_true _ _).1 hread
  obtain ⟨node, hnode, hfound⟩ := List.any_eq_true.1 hany
  rw [Bool.and_eq_true, decide_eq_true_eq, decide_eq_true_eq] at hfound
  exact ⟨root, node, hroot, hnode, hfound.1, hfound.2⟩

theorem read_math_prices : ∃ root node, (prices.read "a").document = some root ∧ node ∈ root.preorder ∧
    node.kind = .mathInline ∧ node.location = ⟨"a", 2, 13⟩ ∧ ClosesAt '$' "5\\\n\nThen $6.\n".toList 9 ∧
    ∃ source inside, prices.load "a" = some source ∧ source.extract 2 13 = '$' :: (inside ++ ['$']) ∧
      ClosesAt '$' (inside ++ ['$']) inside.length := by
  obtain ⟨root, node, hroot, hnode, hkind, hlocation⟩ := exists_price
  obtain ⟨hcloser, hmath⟩ := prices.read_math "a"
  obtain ⟨source, inside, hl, hslice, hcloses⟩ := hmath root node hroot hnode (Or.inl hkind)
  rw [hlocation] at hl hslice
  exact ⟨root, node, hroot, hnode, hkind, hlocation, (hcloser '$' _ 9 (by decide) rfl).1 (by decide +kernel), source, inside,
    hl, hslice, hcloses⟩

/-- The math that begins in the first paragraph runs across the blank line up to the second price. -/
theorem math_past_blankLine : BlankLine "5\\\n\nThen $6.\n".toList 2 3 ∧ findCloser '$' "5\\\n\nThen $6.\n".toList = some 9 ∧
    ∃ root node source, (prices.read "a").document = some root ∧ node ∈ root.preorder ∧ node.kind = .mathInline ∧
      prices.load "a" = some source ∧ node.location = ⟨"a", 2, 13⟩ ∧ BlankLine (source.extract 2 13) 3 4 := by
  obtain ⟨root, node, hroot, hnode, hkind, hlocation⟩ := exists_price
  refine ⟨⟨by decide, rfl, rfl, fun i c hi he => by omega⟩, by decide +kernel, root, node, _, hroot, hnode, hkind, rfl, hlocation,
    ⟨by decide, by decide +kernel, by decide +kernel, fun i c hi he => by omega⟩⟩

end Library

end Proofreader.Markup
