import Mathlib.Data.List.Infix
import Proofreader.Proofs.Markup.Preface

/-! Paragraphs are read by themselves. In a text without raw text, calls, escapes and block comments nothing looks further
than to the next blank line, so a blank line and more text behind it change nothing, and what stands behind the blank line
is read as if it stood alone. -/

namespace Proofreader.Markup

/-- Nothing that may reach past a blank line, or lay down a rule. -/
structure SelfContained (t : Text) : Prop where
  marks : ∀ c ∈ t, c ∉ ['`', '#', '\\']
  comment : ¬ ['/', '*'] <:+: t

instance (t : Text) : Decidable (SelfContained t) :=
  decidable_of_iff ((t.all fun c => decide (c ∉ ['`', '#', '\\'])) ∧ ¬ ['/', '*'] <:+: t) (by
    simp only [List.all_eq_true, decide_eq_true_eq]
    exact ⟨fun h => ⟨h.1, h.2⟩, fun h => ⟨h.marks, h.comment⟩⟩)

/-- A blank line and what stands behind it. -/
def blankThen (b : Text) : Text := '\n' :: '\n' :: b

variable {t u b : Text}

theorem SelfContained.of_suffix (h : SelfContained t) (hu : u <:+ t) : SelfContained u :=
  ⟨fun c hc => h.marks c (hu.subset hc), fun hu' => h.comment (hu'.trans hu.isInfix)⟩

section Scan

variable {p : Char → Bool}

theorem takeWhile_append_line (hp : p '\n' = false) (t b : Text) : (t ++ '\n' :: b).takeWhile p = t.takeWhile p :=
  takeWhile_append_of_head (fun _ hc => Option.some.inj hc ▸ hp) t

theorem headingMarker?_append_line (t b : Text) : headingMarker? (t ++ '\n' :: b) = headingMarker? t :=
  headingMarker?_append_of_head (fun c hc => by obtain rfl := Option.some.inj hc; decide) t

theorem itemMarker?_append_line (t b : Text) : itemMarker? (t ++ '\n' :: b) = itemMarker? t :=
  itemMarker?_append_of_head (fun c hc => by obtain rfl := Option.some.inj hc; decide) t

theorem fence_append_line (t b : Text) : fence.isPrefixOf (t ++ '\n' :: b) = fence.isPrefixOf t :=
  isPrefixOf_append_of_head (fun c hc => by obtain rfl := Option.some.inj hc; decide) t

/-- Where inline content does not end at a bracket, a blank line ends it. -/
theorem endsAtSpace_append {mode : Mode} (hmode : mode ≠ .bracket) (t b : Text) :
    endsAtSpace mode (t ++ blankThen b) = endsAtSpace mode t := by
  unfold endsAtSpace
  dsimp only
  cases hall : t.all isSpace with
  | true =>
    have hcount : 2 ≤ ((t ++ blankThen b).takeWhile isSpace).count '\n' := by
      rw [blankThen, List.takeWhile_append_of_pos (List.all_eq_true.1 hall)]
      simp only [List.takeWhile_cons_of_pos (show isSpace '\n' = true from rfl), List.count_append, List.count_cons_self]
      omega
    rw [dropWhile_eq_nil_iff_all.2 hall]
    cases mode with
    | bracket => exact absurd rfl hmode
    | line => simp [show 0 < ((t ++ blankThen b).takeWhile isSpace).count '\n' by omega]
    | paragraph => simp [hcount]
  | false =>
    have hnil : t.dropWhile isSpace ≠ [] := fun hnil => by rw [dropWhile_eq_nil_iff_all.1 hnil] at hall; cases hall
    have hdrop : (t ++ blankThen b).dropWhile isSpace = t.dropWhile isSpace ++ blankThen b := by
      rw [List.dropWhile_append, if_neg (by simpa using hnil)]
    have hempty : (t.dropWhile isSpace ++ blankThen b).isEmpty = (t.dropWhile isSpace).isEmpty := by
      obtain ⟨c, r, hcons⟩ := List.exists_cons_of_ne_nil hnil
      rw [hcons]
      rfl
    rw [(takeWhile_append_of_not_all hall _).1, hdrop, hempty, blankThen, headingMarker?_append_line, itemMarker?_append_line,
      fence_append_line]

theorem isBlankLine_append_line (t b : Text) :
    isBlankLine (t ++ '\n' :: b) = (isBlankLine t || t.all fun c => c = ' ' || c = '\t' || c = '\r') := by
  unfold isBlankLine
  rw [dropWhile_append_of_head fun c hc => by obtain rfl := Option.some.inj hc; decide]
  cases hdrop : t.dropWhile fun c => decide (c = ' ') || decide (c = '\t') || decide (c = '\r') with
  | nil => simp [List.all_eq_true.2 (List.dropWhile_eq_nil_iff.1 hdrop)]
  | cons c r =>
    have hall : (t.all fun c => decide (c = ' ') || decide (c = '\t') || decide (c = '\r')) = false := by
      rw [Bool.eq_false_iff]
      intro hall
      rw [List.dropWhile_eq_nil_iff.2 (List.all_eq_true.1 hall)] at hdrop
      cases hdrop
    simp [hall]

theorem findCloser_eq_none {closer : Char} (h : closer ∉ t) : findCloser closer t = none := by
  fun_induction findCloser closer t <;> simp_all

/-- A delimiter is looked for up to the next blank line. -/
theorem findCloser_append {closer : Char} (hcloser : isSpace closer = false) (ht : '\\' ∉ t) (b : Text) :
    findCloser closer (t ++ blankThen b) = findCloser closer t := by
  have hline : '\n' ≠ closer := by
    rintro rfl
    cases hcloser
  induction t with
  | nil =>
    rw [List.nil_append, blankThen, findCloser_cons (by decide), if_neg hline, if_pos ⟨rfl, rfl⟩]
    rfl
  | cons c r ih =>
    obtain ⟨hc, hr⟩ := not_or.1 (mt List.mem_cons.2 ht)
    rw [List.cons_append, findCloser_cons (Ne.symm hc), findCloser_cons (Ne.symm hc), ih hr, blankThen, isBlankLine_append_line]
    by_cases hblank : r.all fun c => c = ' ' || c = '\t' || c = '\r'
    · have hnone : findCloser closer r = none := by
        refine findCloser_eq_none fun hmem => ?_
        have := List.all_eq_true.1 hblank closer hmem
        simp only [Bool.or_eq_true, decide_eq_true_eq] at this
        rcases this with (rfl | rfl) | rfl <;> cases hcloser
      simp [hnone]
    · simp [hblank]

theorem findCloser_lt {closer : Char} {n : Nat} (h : findCloser closer t = some n) : n < t.length := by
  fun_induction findCloser closer t generalizing n with
  | case1 => cases h
  | case2 c r ih =>
    obtain ⟨k, hk, rfl⟩ := Option.map_eq_some_iff.1 h
    have := ih hk
    simp only [List.length_cons]
    omega
  | case3 => cases h
  | case4 =>
    cases h
    exact Nat.succ_pos _
  | case5 => cases h
  | case6 c r _ _ _ _ ih =>
    obtain ⟨k, hk, rfl⟩ := Option.map_eq_some_iff.1 h
    exact Nat.succ_lt_succ (ih hk)

/-- The same word at the head, if there is one. -/
theorem citationKey?_append_line (t b : Text) : citationKey? (t ++ '\n' :: b) = citationKey? t := by
  cases t with
  | nil => rfl
  | cons c r =>
    unfold citationKey?
    rw [List.cons_append]
    dsimp only
    rw [takeWhile_append_line (by decide)]

theorem length_citationKey_le {key : Text} (h : citationKey? t = some key) : key.length ≤ t.length := by
  cases t with
  | nil => cases h
  | cons c r =>
    simp only [citationKey?] at h
    split at h
    · cases h
      have hdrop := (List.dropWhile_suffix (fun d => d = '.' || d = ':') (l := (c :: r.takeWhile isKeyPart).reverse)).length_le
      have htake := (List.takeWhile_prefix isKeyPart (l := r)).length_le
      rw [List.length_reverse, List.length_cons] at hdrop
      rw [Text.dropTailWhile, List.length_reverse, List.length_cons]
      omega
    · cases h

theorem labelLength?_append_line (t b : Text) : labelLength? (t ++ '\n' :: b) = labelLength? t := by
  cases t with
  | nil => rfl
  | cons c r =>
    by_cases hc : c = '<'
    · subst hc
      have hlength : (r.takeWhile isKeyPart).length ≤ r.length := (List.takeWhile_prefix _).length_le
      have hhead : ((r.drop (r.takeWhile isKeyPart).length ++ '\n' :: b).head? = some '>') =
          ((r.drop (r.takeWhile isKeyPart).length).head? = some '>') := by
        cases r.drop (r.takeWhile isKeyPart).length with
        | nil => simp
        | cons d v => rfl
      rw [List.cons_append]
      simp only [labelLength?]
      rw [takeWhile_append_line (by decide), List.drop_append_of_le_length hlength]
      simp only [hhead]
    · rw [List.cons_append, labelLength?, labelLength?]
      · rintro v hv
        exact hc (List.cons.inj hv).1
      · rintro v hv
        exact hc (List.cons.inj hv).1

theorem labelLength_le {n : Nat} (h : labelLength? t = some n) : n ≤ t.length := by
  unfold labelLength? at h
  split at h
  · next r =>
    dsimp only at h
    split at h
    · next hclosed =>
      cases h
      obtain ⟨v, hv⟩ := List.head?_eq_some_iff.1 hclosed.2
      have := congrArg List.length hv
      rw [List.length_drop, List.length_cons] at this
      rw [List.length_cons]
      omega
    · cases h
  · cases h

end Scan

section Mark

variable {before : Option Char} {c : Char} {r : Text}

/-- A line comment, the only one in such a text, ends at the line end. -/
theorem commentLength_append (h : SelfContained ('/' :: r)) (hr : r.head? = some '/' ∨ r.head? = some '*') (b : Text) :
    commentLength ('/' :: (r ++ blankThen b)) = commentLength ('/' :: r) ∧ commentLength ('/' :: r) ≤ ('/' :: r).length := by
  have hslash : r.head? = some '/' := by
    refine hr.resolve_right fun hstar => h.comment ?_
    obtain ⟨v, rfl⟩ := List.head?_eq_some_iff.1 hstar
    exact (List.prefix_append ['/', '*'] v).isInfix
  obtain ⟨v, rfl⟩ := List.head?_eq_some_iff.1 hslash
  have hlength : ∀ v, commentLength ('/' :: '/' :: v) = (('/' :: '/' :: v).takeWhile (· ≠ '\n')).length := fun v => rfl
  rw [List.cons_append, hlength, hlength, ← List.cons_append, ← List.cons_append, blankThen, takeWhile_append_line (by decide)]
  exact ⟨rfl, (List.takeWhile_prefix _).length_le⟩

/-- The same mark is found with a blank line and more text behind. -/
theorem mark?_append (h : SelfContained (c :: r)) (before : Option Char) (b : Text) :
    mark? before (c :: (r ++ blankThen b)) = mark? before (c :: r) := by
  have hmark : c ∉ ['`', '#', '\\'] := h.marks c List.mem_cons_self
  have hescape : '\\' ∉ r := fun hmem => h.marks _ (List.mem_cons_of_mem c hmem) (by simp)
  have hfind : ∀ closer, isSpace closer = false → findCloser closer (r ++ blankThen b) = findCloser closer r :=
    fun closer hcloser => findCloser_append hcloser hescape b
  simp only [mark?]
  split
  · exact absurd (by simp) hmark
  · have hhead : (r ++ blankThen b).head? = some '/' ∨ (r ++ blankThen b).head? = some '*' ↔
        r.head? = some '/' ∨ r.head? = some '*' := by
      cases r with
      | nil => simp [blankThen]
      | cons d v => rfl
    simp only [hhead]
    split
    · next hcomment => rw [(commentLength_append h hcomment b).1]
    · rfl
  · rw [hfind '$' rfl]
  · exact absurd (by simp) hmark
  · rw [hfind '*' rfl]
  · rw [hfind '_' rfl]
  · rw [blankThen, citationKey?_append_line]
  · rw [← List.cons_append, blankThen, labelLength?_append_line]
  · exact absurd (by simp) hmark
  · rfl

/-- Text ends where it would end, or at the blank line. -/
theorem textRun_append (h : SelfContained t) (stop before : Option Char) (first : Bool) (depth : Nat) (b : Text) :
    textRun stop before first depth (t ++ blankThen b) = textRun stop before first depth t := by
  induction t generalizing before first depth with
  | nil => rfl
  | cons c r ih =>
    have hrest := h.of_suffix (List.suffix_cons c r)
    rw [List.cons_append]
    simp only [textRun, mark?_append h, ih hrest]

theorem textRun_le (stop before : Option Char) (first : Bool) (depth : Nat) (t : Text) :
    (textRun stop before first depth t).1 ≤ t.length := by
  induction t generalizing before first depth with
  | nil => exact Nat.le_refl 0
  | cons c r ih =>
    simp only [textRun]
    split
    · exact Nat.zero_le _
    · split
      · exact Nat.succ_le_succ (ih _ _ _)
      · split
        · split
          · exact Nat.zero_le _
          · exact Nat.succ_le_succ (ih _ _ _)
        · split
          · exact Nat.zero_le _
          · exact Nat.succ_le_succ (ih _ _ _)

end Mark

namespace Cursor

/-- The same place with more text behind. -/
def more (s : Cursor) (u : Text) : Cursor := { s with rest := s.rest ++ u }

/-- Reading from `s` leads to `t` without a rule, a warning or a file. -/
structure Over (s t : Cursor) : Prop where
  reaches : s.Reaches t
  scope : t.scope = s.scope
  warnings : t.warnings = s.warnings
  asked : t.asked = s.asked

variable {s t v : Cursor}

theorem Over.refl (s : Cursor) : s.Over s := ⟨.refl s, rfl, rfl, rfl⟩

theorem Over.trans (h : s.Over t) (k : t.Over v) : s.Over v :=
  ⟨h.reaches.trans k.reaches, k.scope.trans h.scope, k.warnings.trans h.warnings, k.asked.trans h.asked⟩

theorem over_advance (s : Cursor) (n depth : Nat) : s.Over { s.advance n with depth := depth } :=
  ⟨(s.reaches_advance n).trans (.same rfl rfl rfl List.prefix_rfl), rfl, rfl, rfl⟩

theorem Over.suffix (h : s.Over t) : t.rest <:+ s.rest := by
  obtain ⟨w, hw, -, -⟩ := h.reaches.passed
  exact ⟨w, hw.symm⟩

theorem advance_more {n : Nat} (hn : n ≤ s.rest.length) (u : Text) : (s.more u).advance n = (s.advance n).more u := by
  simp only [advance, more, List.take_append_of_le_length hn, List.drop_append_of_le_length hn]

theorem since_more (h : s.Reaches t) (u : Text) : (t.more u).since (s.more u) = t.since s := by
  have hlength := h.length_eq
  refine List.take_append_of_le_length ?_
  change t.pos - s.pos ≤ s.rest.length
  omega

/-- Passing over characters of a kind, some at a time. -/
theorem skipWhile_advance {p : Char → Bool} {w r : Text} (hrest : s.rest = w ++ r) (hw : ∀ c ∈ w, p c = true) :
    (s.advance w.length).skipWhile p = s.skipWhile p := by
  have hafter : (s.advance w.length).rest = r := by rw [advance, hrest]; exact List.drop_left
  unfold skipWhile
  rw [hafter, hrest, List.takeWhile_append_of_pos hw, List.length_append, advance_advance]

theorem skipWhile_more {p : Char → Bool} (h : s.rest.all p = false) (u : Text) :
    (s.more u).skipWhile p = (s.skipWhile p).more u := by
  have htake : (s.more u).rest.takeWhile p = s.rest.takeWhile p := (takeWhile_append_of_not_all h u).1
  unfold skipWhile
  rw [htake, advance_more (List.takeWhile_prefix p).length_le]

theorem undelimit_more {c : Char} (hc : u.head? ≠ some c) (t : Cursor) : (t.more u).undelimit c = (t.undelimit c).more u := by
  unfold undelimit
  cases hrest : t.rest with
  | nil =>
    have hmore : (t.more u).rest = u := by rw [more, hrest, List.nil_append]
    rw [hmore, if_neg hc, if_neg nofun]
  | cons d r =>
    have hmore : (t.more u).rest.head? = some d := by rw [more, hrest]; rfl
    rw [hmore, List.head?_cons]
    split
    · exact advance_more (by rw [hrest]; exact Nat.succ_pos _) u
    · rfl

theorem over_undelimit (t : Cursor) (c : Char) : t.Over (t.undelimit c) := by
  refine ⟨t.reaches_undelimit c, t.scope_undelimit c, t.warnings_undelimit c, ?_⟩
  unfold undelimit
  split
  · rfl
  · rfl

end Cursor

/-- With more text behind the same is read, and nothing but text is passed over. -/
structure Unaware (u : Text) (s : Cursor) (r r' : List Node × Cursor) : Prop where
  nodes : r'.1 = r.1
  more : r'.2 = r.2.more u
  passed : s.Over r.2

section More

variable {page page' : Page} (hp : page'.file = page.file) {s t : Cursor}
include hp

theorem leaf_more (h : s.Over t) (kind : Kind) (shown : Text) (verbatim : Bool) :
    Unaware u s ([leaf page kind s t shown verbatim], t) ([leaf page' kind (s.more u) (t.more u) shown verbatim], t.more u) := by
  refine ⟨?_, rfl, h⟩
  unfold leaf
  rw [hp]
  rfl

theorem leaf_advance {n : Nat} (hn : n ≤ s.rest.length) (kind : Kind) (shown : Text) (verbatim : Bool) :
    Unaware u s ([leaf page kind s (s.advance n) shown verbatim], s.advance n)
      ([leaf page' kind (s.more u) ((s.more u).advance n) shown verbatim], (s.more u).advance n) := by
  rw [Cursor.advance_more hn]
  exact leaf_more hp (s.over_advance n s.depth) kind shown verbatim

theorem spaceNode_more (hspace : s.rest.all isSpace = false) :
    Unaware (blankThen b) s ([(spaceNode page s).1], (spaceNode page s).2)
      ([(spaceNode page' (s.more (blankThen b))).1], (spaceNode page' (s.more (blankThen b))).2) := by
  have hskip : (s.more (blankThen b)).skipWhile isSpace = (s.skipWhile isSpace).more (blankThen b) :=
    Cursor.skipWhile_more hspace _
  unfold spaceNode
  rw [hskip]
  dsimp only
  rw [Cursor.since_more (s.reaches_skipWhile isSpace)]
  exact leaf_more hp (s.over_advance _ s.depth) _ _ _

theorem textNode_more (h : SelfContained s.rest) (hne : s.rest ≠ []) (stop : Option Char) :
    Unaware (blankThen b) s ([(textNode page stop s).1], (textNode page stop s).2)
      ([(textNode page' stop (s.more (blankThen b))).1], (textNode page' stop (s.more (blankThen b))).2) := by
  have hrun : textRun stop (s.more (blankThen b)).past.head? true (s.more (blankThen b)).depth (s.more (blankThen b)).rest =
      textRun stop s.past.head? true s.depth s.rest := textRun_append h _ _ _ _ b
  have hle := textRun_le stop s.past.head? true s.depth s.rest
  unfold textNode
  rw [hrun]
  generalize textRun stop s.past.head? true s.depth s.rest = q at hle ⊢
  obtain ⟨n, depth⟩ := q
  have hmax : max n 1 ≤ s.rest.length := Nat.max_le.2 ⟨hle, List.length_pos_iff.2 hne⟩
  have hover := s.over_advance (max n 1) depth
  have hend : ({ (s.more (blankThen b)).advance (max n 1) with depth := depth } : Cursor) =
      ({ s.advance (max n 1) with depth := depth } : Cursor).more (blankThen b) := by
    rw [Cursor.advance_more hmax]
    rfl
  dsimp only
  rw [hend, Cursor.since_more hover.reaches]
  exact leaf_more hp hover _ _ _

theorem mathNode_more {inside : Nat} (hn : inside + 2 ≤ s.rest.length) :
    Unaware u s ([(mathNode page inside s).1], (mathNode page inside s).2)
      ([(mathNode page' inside (s.more u)).1], (mathNode page' inside (s.more u)).2) := by
  have hbody : (s.more u).rest.tail.take inside = s.rest.tail.take inside := by
    cases hrest : s.rest with
    | nil => simp [hrest] at hn
    | cons c r =>
      rw [hrest, List.length_cons] at hn
      rw [Cursor.more, hrest]
      exact List.take_append_of_le_length (by omega)
  unfold mathNode
  dsimp only
  rw [hbody]
  exact leaf_advance hp hn _ _ _

end More

section Inline

variable {page page' : Page} (hp : page'.file = page.file) {s t : Cursor}

/-- The readers of inline content come to the same on less than `n` characters. -/
def InlineUnaware (page page' : Page) (b : Text) (n : Nat) : Prop := ∀ (mode : Mode) stop (t : Cursor), mode ≠ .bracket →
  SelfContained t.rest → t.rest.length < n →
  Unaware (blankThen b) t ((reader page).inline mode stop t) ((reader page').inline mode stop (t.more (blankThen b)))

variable (hd : InlineUnaware page page' b s.rest.length) (h : SelfContained s.rest)
include hp hd h

theorem delimited_more {mode : Mode} (hmode : mode ≠ .bracket) {c : Char} (hm : s.mark? = some (.delimiter c)) (hne : s.rest ≠ []) :
    Unaware (blankThen b) s ([(delimited page (reader page) mode c s).1], (delimited page (reader page) mode c s).2)
      ([(delimited page' (reader page') mode c (s.more (blankThen b))).1],
        (delimited page' (reader page') mode c (s.more (blankThen b))).2) := by
  have hfirst : s.Over (s.advance 1) := s.over_advance 1 s.depth
  have hinner := hd mode (some c) (s.advance 1) hmode (h.of_suffix hfirst.suffix) (Cursor.length_advance_lt hne Nat.one_pos)
  have hc : (blankThen b).head? ≠ some c := by
    obtain ⟨d, r, hrest⟩ := List.exists_cons_of_ne_nil hne
    rw [Cursor.mark?, hrest] at hm
    obtain ⟨-, rfl | rfl, -⟩ := spelled_of_mark? hm
    · simp [blankThen]
    · simp [blankThen]
  unfold delimited
  rw [Cursor.advance_more (List.length_pos_iff.2 hne)]
  dsimp only
  rw [hinner.more, hinner.nodes]
  have hclosed := Cursor.undelimit_more hc ((reader page).inline mode (some c) (s.advance 1)).2
  unfold Cursor.undelimit at hclosed
  rw [hclosed]
  refine ⟨?_, rfl, (hfirst.trans hinner.passed).trans (Cursor.over_undelimit _ c)⟩
  unfold branch
  rw [hp]
  rfl

theorem marked_more {mode : Mode} (hmode : mode ≠ .bracket) {m : Mark} (hm : s.mark? = some m) {c : Char} {r : Text}
    (hrest : s.rest = c :: r) :
    Unaware (blankThen b) s (marked page (reader page) mode m s)
      (marked page' (reader page') mode m (s.more (blankThen b))) := by
  have hspelled : m.Spelled c r := by
    rw [Cursor.mark?, hrest] at hm
    exact spelled_of_mark? hm
  have hmark : c ∉ ['`', '#', '\\'] := h.marks c (by rw [hrest]; exact List.mem_cons_self)
  have hlength : s.rest.length = r.length + 1 := by rw [hrest, List.length_cons]
  cases m with
  | escape e => exact absurd (by simp [hspelled.1]) hmark
  | raw => exact absurd (by simp [hspelled.1]) hmark
  | call name => exact absurd (by simp [hspelled.1]) hmark
  | comment n =>
    obtain ⟨rfl, hslash, rfl⟩ := hspelled
    have hle := (commentLength_append (hrest ▸ h) hslash b).2
    refine ⟨rfl, Cursor.advance_more ?_ _, s.over_advance _ s.depth⟩
    rw [hrest]
    exact hle
  | math inside =>
    have hlt := findCloser_lt hspelled.2
    exact mathNode_more hp (by omega)
  | delimiter c => exact delimited_more hp hd h hmode hm (by simp [hrest])
  | citation key =>
    have hle := length_citationKey_le hspelled.2
    have hn : key.length + 1 ≤ s.rest.length := by omega
    unfold marked
    dsimp only
    rw [Cursor.advance_more hn, Cursor.since_more (s.reaches_advance _)]
    exact leaf_more hp (s.over_advance _ s.depth) _ _ _
  | label n =>
    have hle := labelLength_le hspelled.2
    refine ⟨rfl, Cursor.advance_more ?_ _, s.over_advance n s.depth⟩
    rw [hrest]
    exact hle

theorem piece_more {mode : Mode} (hmode : mode ≠ .bracket) (stop : Option Char) {c : Char} {r : Text} (hrest : s.rest = c :: r)
    (hspace : isSpace c = true → endsAtSpace mode s.rest = false) :
    Unaware (blankThen b) s (piece page (reader page) mode stop c s)
      (piece page' (reader page') mode stop c (s.more (blankThen b))) := by
  have hmark : (s.more (blankThen b)).mark? = s.mark? := by
    unfold Cursor.mark? Cursor.more
    rw [hrest]
    exact mark?_append (hrest ▸ h) _ b
  unfold piece
  rw [hmark]
  split
  · next hc =>
    refine spaceNode_more hp (Bool.eq_false_iff.2 fun hall => ?_)
    have hends := hspace hc
    unfold endsAtSpace at hends
    rw [dropWhile_eq_nil_iff_all.2 hall] at hends
    cases hends
  · split
    · next m hm => exact marked_more hp hd h hmode hm hrest
    · exact textNode_more hp h (by simp [hrest]) stop

end Inline

/-- Inline content without brackets around it is read alike with a blank line and more text behind. -/
theorem inline_more {page page' : Page} (hp : page'.file = page.file) (b : Text) (n : Nat) : InlineUnaware page page' b n := by
  induction n with
  | zero => exact fun mode stop t _ _ ht => absurd ht (Nat.not_lt_zero _)
  | succ n ih =>
    intro mode stop s hmode h hs
    rw [reader_inline, reader_inline]
    have hends : endsAtSpace mode (s.more (blankThen b)).rest = endsAtSpace mode s.rest := endsAtSpace_append hmode _ b
    cases hrest : s.rest with
    | nil =>
      have hmore : (s.more (blankThen b)).rest = '\n' :: '\n' :: b := by rw [Cursor.more, hrest]; rfl
      have hline : isSpace '\n' = true := rfl
      have hend : endsAtSpace mode s.rest = true := by rw [hrest]; rfl
      rw [inlineStep_nil _ _ _ _ hrest, inlineStep_cons _ _ _ _ hmore, hends, hend, hline, Bool.and_self, Bool.or_true, if_pos rfl]
      exact ⟨rfl, rfl, .refl s⟩
    | cons c r =>
      have hmore : (s.more (blankThen b)).rest = c :: (r ++ blankThen b) := by rw [Cursor.more, hrest]; rfl
      have hdepth : (s.more (blankThen b)).depth = s.depth := rfl
      rw [inlineStep_cons _ _ _ _ hrest, inlineStep_cons _ _ _ _ hmore, hends, hdepth]
      by_cases hstops : (stopsAt stop s.depth c || (isSpace c && endsAtSpace mode s.rest)) = true
      · rw [if_pos hstops, if_pos hstops]
        exact ⟨rfl, rfl, .refl s⟩
      · rw [if_neg hstops, if_neg hstops]
        have hspace : isSpace c = true → endsAtSpace mode s.rest = false := fun hc => by
          simpa [hc] using (Bool.or_eq_false_iff.1 (Bool.eq_false_iff.2 hstops)).2
        have hdeeper : InlineUnaware page page' b s.rest.length := fun mode stop t hmode ht hlt =>
          ih mode stop t hmode ht (Nat.lt_of_lt_of_le hlt (Nat.le_of_lt_succ hs))
        have hpiece := piece_more hp hdeeper h hmode stop hrest hspace
        have hlt := length_piece_lt (reader_forward page) page mode stop hrest
        have hnext := hdeeper mode stop _ hmode (h.of_suffix hpiece.passed.suffix) hlt
        rw [hpiece.nodes, hpiece.more]
        exact ⟨congrArg (_ ++ ·) hnext.nodes, hnext.more, hpiece.passed.trans hnext.passed⟩

section Blocks

variable {page page' : Page} (hp : page'.file = page.file) {s : Cursor} (h : SelfContained s.rest)
include hp h

theorem lineBlock_more (kind : Kind) (level : Int) {marker : Nat} (hmarker : marker ≤ s.rest.length) (b : Text) :
    Unaware (blankThen b) s
      ([(lineBlock page (reader page) kind level marker none s).1], (lineBlock page (reader page) kind level marker none s).2)
      ([(lineBlock page' (reader page') kind level marker none (s.more (blankThen b))).1],
        (lineBlock page' (reader page') kind level marker none (s.more (blankThen b))).2) := by
  have hfirst : s.Over (s.advance marker) := s.over_advance marker s.depth
  have hinner := inline_more hp b _ .line none (s.advance marker) nofun (h.of_suffix hfirst.suffix) (Nat.lt_succ_self _)
  unfold lineBlock
  dsimp only
  rw [Cursor.advance_more hmarker, hinner.nodes, hinner.more, hp]
  exact ⟨rfl, rfl, hfirst.trans hinner.passed⟩

theorem paragraph_more (b : Text) :
    Unaware (blankThen b) s (paragraph page (reader page) none s) (paragraph page' (reader page') none (s.more (blankThen b))) := by
  have hinner := inline_more hp b _ .paragraph none s nofun h (Nat.lt_succ_self _)
  rcases hr : (reader page).inline .paragraph none s with ⟨ns, t⟩
  rcases hr' : (reader page').inline .paragraph none (s.more (blankThen b)) with ⟨ns', t'⟩
  rw [hr, hr'] at hinner
  obtain rfl : ns' = ns := hinner.nodes
  obtain rfl : t' = t.more (blankThen b) := hinner.more
  rw [paragraph, paragraph, hr, hr', hp]
  dsimp only
  rcases trimSpaces ns' with _ | ⟨n, _ | ⟨m, ms⟩⟩
  · exact ⟨rfl, rfl, hinner.passed⟩
  · dsimp only
    split
    · exact ⟨rfl, rfl, hinner.passed⟩
    · exact ⟨rfl, rfl, hinner.passed⟩
  · exact ⟨rfl, rfl, hinner.passed⟩

theorem block_more (b : Text) :
    Unaware (blankThen b) s (block page (reader page) none s) (block page' (reader page') none (s.more (blankThen b))) := by
  have hparagraph := paragraph_more hp h b
  have hline : (s.more (blankThen b)).atLineStart = s.atLineStart := rfl
  have hheading : headingMarker? (s.more (blankThen b)).rest = headingMarker? s.rest := headingMarker?_append_line _ _
  have hitem : itemMarker? (s.more (blankThen b)).rest = itemMarker? s.rest := itemMarker?_append_line _ _
  unfold block
  rw [hline, hheading, hitem]
  split
  · split
    · next hmarker => exact lineBlock_more hp h _ _ (le_of_headingMarker hmarker) b
    · next hmarker => exact lineBlock_more hp h _ _ (le_of_itemMarker hmarker) b
    · exact hparagraph
  · exact hparagraph

end Blocks

/-- Spaces in front of blocks are passed over. -/
theorem blocks_advance (page : Page) (stop : Option Char) {s : Cursor} {w r : Text} (hrest : s.rest = w ++ r)
    (hw : ∀ c ∈ w, isSpace c = true) {n : Nat} (hn : n = w.length) :
    (reader page).blocks stop (s.advance n) = (reader page).blocks stop s := by
  rw [reader_blocks, reader_blocks, blocksStep, blocksStep, hn, Cursor.skipWhile_advance hrest hw]

theorem blocksStep_nil (page : Page) (deeper : Deeper) (stop : Option Char) {s : Cursor} (h : (s.skipWhile isSpace).rest = []) :
    blocksStep page deeper stop s = ([], s.skipWhile isSpace) := by
  unfold blocksStep
  dsimp only
  rw [h]

/-- A block that is begun is read, and then what follows. -/
theorem blocks_cons (page : Page) {s v : Cursor} (hv : s.skipWhile isSpace = v) {c : Char} {r : Text} (hrest : v.rest = c :: r) :
    (block page (reader page) none v).2.rest.length < v.rest.length ∧ (reader page).blocks none s =
      ((block page (reader page) none v).1 ++ ((reader page).blocks none (block page (reader page) none v).2).1,
        ((reader page).blocks none (block page (reader page) none v).2).2) := by
  have hspace : isSpace c = false := s.head_skipWhile isSpace c (by rw [hv, hrest]; rfl)
  have hmoved : (block page (reader page) none v).2.pos ≠ v.pos := pos_block_ne page none hrest nofun hspace
  have hlt := length_moved_lt (reaches_block (reader_forward page) page none v) (by simp [hrest])
  rw [if_neg hmoved] at hlt
  refine ⟨hlt, ?_⟩
  rw [reader_blocks, blocksStep, hv]
  dsimp only
  rw [if_neg hmoved]
  split
  · next hnil =>
    rw [hnil] at hrest
    cases hrest
  · rw [if_neg nofun]

/-- All blocks of a text are read before a blank line and what stands behind it. -/
theorem blocks_more {page page' : Page} (hp : page'.file = page.file) (b : Text) {s : Cursor} (h : SelfContained s.rest) :
    ∃ ns t, (reader page).blocks none s = (ns, t) ∧ s.Over t ∧ t.rest = [] ∧
      (reader page').blocks none (s.more (blankThen b)) =
        (ns ++ ((reader page').blocks none (t.more (blankThen b))).1, ((reader page').blocks none (t.more (blankThen b))).2) := by
  induction hn : s.rest.length using Nat.strong_induction_on generalizing s with
  | _ n ih =>
    have hskip : s.Over (s.skipWhile isSpace) := s.over_advance _ s.depth
    have hdrop := s.rest_skipWhile isSpace
    by_cases hall : s.rest.all isSpace = true
    · have hnil := dropWhile_eq_nil_iff_all.2 hall
      have hspaces := List.all_eq_true.1 hall
      have htake : s.rest.takeWhile isSpace = s.rest := List.takeWhile_eq_self_iff.2 hspaces
      refine ⟨[], s.skipWhile isSpace, ?_, hskip, hdrop.trans hnil, ?_⟩
      · rw [reader_blocks, blocksStep_nil page _ none (hdrop.trans hnil)]
      · rw [Cursor.skipWhile, htake, ← Cursor.advance_more (Nat.le_refl _), blocks_advance page' none rfl hspaces rfl]
        rfl
    · obtain ⟨c, r, hcons⟩ := List.exists_cons_of_ne_nil (mt dropWhile_eq_nil_iff_all.1 hall)
      rw [hcons] at hdrop
      have hmore : (s.more (blankThen b)).skipWhile isSpace = (s.skipWhile isSpace).more (blankThen b) :=
        Cursor.skipWhile_more (Bool.eq_false_iff.2 hall) _
      have hrest : ((s.skipWhile isSpace).more (blankThen b)).rest = c :: (r ++ blankThen b) := by
        rw [Cursor.more, hdrop]
        rfl
      obtain ⟨hlt, hblocks⟩ := blocks_cons page rfl hdrop
      obtain ⟨-, hblocks'⟩ := blocks_cons page' hmore hrest
      have hblock := block_more hp (h.of_suffix hskip.suffix) b
      have hover := hskip.trans hblock.passed
      have hless := Nat.lt_of_lt_of_le hlt hskip.suffix.length_le
      obtain ⟨ns, t, hread, hnext, hend, hread'⟩ := ih _ (hn ▸ hless) (h.of_suffix hover.suffix) rfl
      refine ⟨(block page (reader page) none (s.skipWhile isSpace)).1 ++ ns, t, ?_, hover.trans hnext, hend, ?_⟩
      · rw [hblocks, hread]
      · rw [hblocks', hblock.nodes, hblock.more, hread', List.append_assoc]

/-- What stands in front of the second of two texts with a blank line between. -/
def Preface.paragraph (file : FileId) (a : Text) : Preface := ⟨file, a ++ ['\n', '\n'], by simp⟩

/-- Places in the file are moved by the length of the first text and two. -/
theorem Preface.location_paragraph (file : FileId) (a : Text) (l : Location) : (Preface.paragraph file a).location l =
    if l.file = file then ⟨file, l.start + (a.length + 2), l.stop + (a.length + 2)⟩ else l := by
  unfold location front paragraph
  split
  · next hfile => simp [hfile]
  · rfl

namespace Library

variable {a : Text} {chain : List FileId} {file : FileId}

/-- Behind the blank line the second text begins. -/
theorem behind_blank {s : Cursor} (ha : s.At a) (hend : s.rest = []) (hwarnings : s.warnings = []) (hasked : s.asked = [])
    (file : FileId) (b : Text) :
    (Preface.paragraph file a).Behind file False (Cursor.start b s.scope) ((s.more (blankThen b)).advance 2) := by
  have hfront : (Preface.paragraph file a).front file = a ++ ['\n', '\n'] := if_pos rfl
  have hpast : s.past = a.reverse := by
    have hwhole := ha.whole
    rw [hend, List.append_nil] at hwhole
    rw [← hwhole, List.reverse_reverse]
  refine ⟨?_, ?_, ?_, rfl, False.elim, hwarnings, hasked⟩
  · simp [Cursor.advance, Cursor.more, Cursor.start, blankThen, hend, hfront, hpast]
  · simp [Cursor.advance, Cursor.more, Cursor.start, blankThen, hend]
  · simp [Cursor.advance, Cursor.more, Cursor.start, blankThen, hend, hfront, ha.pos, hpast]

/-- A text with a blank line and another text behind it is read as the one and then the other, as if each stood alone. -/
theorem parse_paragraphs {page first : Page} (second : Page) (hfirst : page.file = first.file)
    (ha : SelfContained a) (hsecond : (Preface.paragraph second.file a).Pages second page) (b : Text) (scope : Scope) :
    (parse first a scope).2.warnings = [] ∧ (parse first a scope).2.asked = [] ∧
      (parse page (a ++ blankThen b) scope).1 =
        (parse first a scope).1 ++ (Preface.paragraph second.file a).nodes (parse second b scope).1 ∧
      (parse page (a ++ blankThen b) scope).2.warnings =
        (parse second b scope).2.warnings.map (Preface.paragraph second.file a).warning ∧
      (parse page (a ++ blankThen b) scope).2.asked = (parse second b scope).2.asked := by
  have hstart : SelfContained (Cursor.start a scope).rest := ha
  obtain ⟨ns, s, hread, hover, hend, hread'⟩ := blocks_more hfirst b hstart
  have hbehind := behind_blank (hover.reaches.at (Cursor.at_start a scope)) hend hover.warnings hover.asked second.file b
  have hscope : s.scope = scope := hover.scope
  rw [hscope] at hbehind
  have hfollows := Preface.follows_reader hsecond none nofun hbehind
  have hblank : (s.more (blankThen b)).rest = ['\n', '\n'] ++ b := by rw [Cursor.more, hend]; rfl
  have hskip : (reader page).blocks none ((s.more (blankThen b)).advance 2) = (reader page).blocks none (s.more (blankThen b)) :=
    blocks_advance page none hblank (by simp [isSpace]) rfl
  rw [hskip] at hfollows
  have hwhole : parse page (a ++ blankThen b) scope = _ := (parse_eq page _ scope).trans hread'
  rw [hwhole, parse_eq first, hread, parse_eq second]
  exact ⟨hover.warnings, hover.asked, congrArg (ns ++ ·) hfollows.nodes, hfollows.behind.warnings, hfollows.behind.asked⟩

/-- The blocks of a file that has two texts with a blank line between are those of the first, which must be self-contained,
and then those of the second with their places in the file moved. So are its warnings: the first text gives none. -/
theorem readFile_paragraphs (lib : Library) (hc : file ∉ chain) (ha : SelfContained a) (b : Text) (levels : Nat)
    (at? : Option Location) (scope : Scope) : ∃ as bs ws asked,
      (lib.put file a).readFile (levels + 1) chain file at? scope =
        ⟨some ⟨.document, ⟨file, 0, a.length⟩, [], .unset, 0, false, as⟩, [], [file]⟩ ∧
      (lib.put file b).readFile (levels + 1) chain file at? scope =
        ⟨some ⟨.document, ⟨file, 0, b.length⟩, [], .unset, 0, false, bs⟩, ws, asked⟩ ∧
      (lib.put file (a ++ blankThen b)).readFile (levels + 1) chain file at? scope =
        ⟨some ⟨.document, ⟨file, 0, (a ++ blankThen b).length⟩, [], .unset, 0, false,
          as ++ bs.map (Preface.paragraph file a).node⟩, ws.map (Preface.paragraph file a).warning, asked⟩ := by
  have hpages := (Preface.paragraph file a).pages_put lib b (a ++ blankThen b) levels chain
  have hfirst : ((lib.put file (a ++ blankThen b)).page levels chain file).file =
    ((lib.put file a).page levels chain file).file := rfl
  obtain ⟨hnone, hunasked, hnodes, hwarnings, hasked⟩ :=
    parse_paragraphs ((lib.put file b).page levels chain file) hfirst ha hpages b scope
  refine ⟨(parse ((lib.put file a).page levels chain file) a scope).1, _, _, _, ?_, readFile_eq hc (lib.load_put file b), ?_⟩
  · rw [readFile_eq hc (lib.load_put file a), hnone, hunasked]
  · rw [readFile_eq hc (lib.load_put file _), hnodes, hwarnings, hasked, Preface.nodes_eq]
    rfl

/-- A library for a main file that includes another one, itself and a missing one. -/
def shelf : Library where
  files := [("c", "Ja".toList)]
  resolve := fun _ path => String.ofList path

/-- Brackets and delimiters that nothing closes, and a comment up to the end. -/
def openText : Text := "= Head\n*a _b $c [d // e".toList

def ruleText : Text := "#set text(lang: \"de\")\n#include \"c\" #include \"a\" ]* #include \"d\"".toList

theorem readFile_paragraphs_shelf : "a" ∉ ([] : List FileId) ∧ SelfContained openText ∧ ∃ as bs,
    ((shelf.put "a" openText).read "a").document = some ⟨.document, ⟨"a", 0, 23⟩, [], .unset, 0, false, as⟩ ∧
    ((shelf.put "a" ruleText).read "a").document = some ⟨.document, ⟨"a", 0, 63⟩, [], .unset, 0, false, bs⟩ ∧
    ((shelf.put "a" (openText ++ blankThen ruleText)).read "a").document = some ⟨.document, ⟨"a", 0, 88⟩, [], .unset, 0, false,
      as ++ bs.map (Preface.paragraph "a" openText).node⟩ ∧
    ((shelf.put "a" ruleText).read "a").warnings.map (·.location) = [some ⟨"a", 35, 47⟩, some ⟨"a", 51, 63⟩] ∧
    ((shelf.put "a" (openText ++ blankThen ruleText)).read "a").warnings.map (·.location) =
      [some ⟨"a", 60, 72⟩, some ⟨"a", 76, 88⟩] := by
  have hself : SelfContained openText := by decide +kernel
  obtain ⟨as, bs, ws, asked, hfirst, hsecond, hwhole⟩ :=
    shelf.readFile_paragraphs (List.not_mem_nil (a := "a")) hself ruleText 1 none .unset
  refine ⟨nofun, hself, as, bs, congrArg Outcome.document hfirst, congrArg Outcome.document hsecond,
    congrArg Outcome.document hwhole, ?_, ?_⟩
  · decide +kernel
  · decide +kernel

end Library

end Proofreader.Markup
