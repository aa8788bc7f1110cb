import Proofreader.Proofs.Respelling.Steps

/-! The readers side by side. From places where two readings are abreast, each reader brings both to places where they
are abreast again, with nodes that are the same or that differ in the run that shows the slice; otherwise the first
reading does not show all of the slice. -/

namespace Proofreader.Markup

namespace Respelling

variable (x : Respelling)

/-- What is included on both pages: how often the file of the slice is entered there, and the nodes. -/
inductive Differs : Nat → List Node → List Node → Prop
  | same {ns ns' : List Node} : Same ns ns' → x.Blind ns → Differs 0 ns ns'
  | edited {ns ns' : List Node} : x.Edited ns ns' → Differs 1 ns ns'
  | misses {k : Nat} {ns ns' : List Node} : 0 < k → x.Misses ns → Differs k ns ns'
  | twice {k : Nat} {ns ns' : List Node} : 2 ≤ k → Differs k ns ns'

/-- Pages on which the same file is read, before and after. -/
structure Paired (lib : Library) (chain : List FileId) (page page' : Page) : Prop where
  includes : page.Includes lib chain
  file : page'.file = page.file
  fetched : ∀ path here here' scope, x.Differs
    (if page.file = x.file then 0 else (page.fetch path here scope).asked.count x.file)
    (page.fetch path here scope).nodes (page'.fetch path here' scope).nodes

/-- What may close content. -/
def Closes (stop : Option Char) : Prop := ∀ c ∈ stop, c ∈ ['*', '_', ']']

/-- Readers for deeper content that read side by side what their fuel is enough for. -/
structure Beside (lib : Library) (chain : List FileId) (page : Page) (text : Text) (fuel fuel' : Nat)
    (deeper deeper' : Deeper) : Prop where
  lays : deeper.Lays lib chain page text
  blocks : ∀ stop s s', Closes stop → s.At text → x.Abreast page.file s s' → 2 * s.rest.length + 2 ≤ fuel →
    2 * s'.rest.length + 2 ≤ fuel' → x.Meets page.file s (deeper.blocks stop s) (deeper'.blocks stop s')
  inline : ∀ mode stop s s', Closes stop → s.At text → x.Abreast page.file s s' → 2 * s.rest.length + 1 ≤ fuel →
    2 * s'.rest.length + 1 ≤ fuel' → x.Meets page.file s (deeper.inline mode stop s) (deeper'.inline mode stop s')
  settled : ∀ mode stop s, Closes stop → s.At text → 2 * s.rest.length + 1 ≤ fuel →
    (deeper.inline mode stop s).2.rest.head?.any isPlainLetter = false

theorem closes_bracket : Closes (some ']') := by
  intro c hc
  cases hc
  decide

variable {x} {lib : Library} {chain : List FileId} {page page' : Page} {text : Text} {fuel fuel' : Nat}
variable {deeper deeper' : Deeper} {s s' t t' u u' start start' : Cursor} {ns ns' : List Node} {file : FileId}

/-- Behind the arguments, under the rule that they lay down. -/
def ruled (s : Cursor) : Cursor :=
  { s.arguments.2 with scope := Scope.withArguments s.arguments.2.scope s.arguments.1 }

theorem reaches_ruled (s : Cursor) : s.Reaches (ruled s) :=
  s.reaches_arguments.trans (.same rfl rfl rfl List.prefix_rfl)

theorem textCall_eq (page : Page) (deeper : Deeper) (start s : Cursor) : textCall page deeper start s =
    (branch page .lang start (inlineContent deeper (ruled s)).2 (ruled s).scope (inlineContent deeper (ruled s)).1,
      { (inlineContent deeper (ruled s)).2 with scope := s.arguments.2.scope }) := by
  rfl

theorem delimiter_cases {before : Option Char} {t : Text} {c : Char} (hmark : mark? before t = some (.delimiter c)) :
    c = '*' ∨ c = '_' := by
  cases t with
  | nil => cases hmark
  | cons d r => exact (spelled_of_mark? hmark).2.1

/-- Behind a block that was read from `s` up to `t`: if it read nothing it gives up one character. -/
def moved (s t : Cursor) : Cursor := if t.pos = s.pos then t.advance 1 else t

theorem lt_moved (h : s.Reaches t) (hne : s.rest ≠ []) : s.pos < (moved s t).pos := by
  unfold moved
  split
  · next heq =>
    have hlength := h.length_eq
    have hrest : t.rest ≠ [] := List.length_pos_iff.1 (by have := List.length_pos_iff.2 hne; omega)
    have := Cursor.lt_advance hrest Nat.one_pos
    omega
  · have := h.le
    omega

/-- At its end, or at the character that closes it, content has no more blocks. -/
theorem blocksStep_end {page : Page} {deeper : Deeper} {closer : Option Char}
    (h : (s.skipWhile isSpace).rest = [] ∨ ∃ c, closer = some c ∧ (s.skipWhile isSpace).rest.head? = some c) :
    blocksStep page deeper closer s = ([], s.skipWhile isSpace) := by
  unfold blocksStep
  dsimp only
  split
  · rfl
  · next c r hrest =>
    rw [hrest] at h
    rcases h with h | ⟨d, hd, hhead⟩
    · cases h
    · rw [List.head?_cons, Option.some.injEq] at hhead
      rw [if_pos (hhead ▸ hd)]

/-- Elsewhere a block is read and then the rest. -/
theorem blocksStep_block {page : Page} {deeper : Deeper} {closer : Option Char}
    (h : ¬ ((s.skipWhile isSpace).rest = [] ∨ ∃ c, closer = some c ∧ (s.skipWhile isSpace).rest.head? = some c)) :
    blocksStep page deeper closer s =
      ((block page deeper closer (s.skipWhile isSpace)).1 ++
          (deeper.blocks closer (moved (s.skipWhile isSpace) (block page deeper closer (s.skipWhile isSpace)).2)).1,
        (deeper.blocks closer (moved (s.skipWhile isSpace) (block page deeper closer (s.skipWhile isSpace)).2)).2) := by
  unfold blocksStep
  dsimp only
  split
  · next hrest => exact absurd (Or.inl hrest) h
  · next c r hrest =>
    rw [if_neg fun hc => h (Or.inr ⟨c, hc, by rw [hrest, List.head?_cons]⟩)]
    rfl

section Readers

variable (h : x.Neutral)
include h

theorem Abreast.passes_head (hs : x.Abreast file s s') {d : Char} (hd : isPlainLetter d = false)
    (hhead : s.rest.head? = some d) : x.Passes file s (s.advance 1) (s'.advance 1) := by
  refine hs.passes_advance h fun hfile => ?_
  rcases hs.place with ⟨m, ha⟩ | hl
  · have hpos := ha.pos_add
    cases m with
    | nil =>
      rw [ha.rest, List.nil_append] at hhead
      exact absurd hhead (h.oldStarts.head?_ne hd)
    | cons c m =>
      rw [List.length_cons] at hpos
      exact Or.inl (by omega)
  · exact Or.inr (hl.behind hfile)

/-- Both readings pass the closing character, if it is there. -/
theorem Abreast.passes_if_head (hs : x.Abreast file s s') {d : Char} (hd : isPlainLetter d = false) :
    x.Passes file s (if s.rest.head? = some d then s.advance 1 else s)
      (if s'.rest.head? = some d then s'.advance 1 else s') := by
  simp only [hs.head?_iff h hd]
  split
  · next hhead => exact hs.passes_head h hd hhead
  · exact .refl hs

/-- A second reading gets on as far as the first. -/
theorem Abreast.length_lt (hs : x.Abreast file s s') (ht : x.Abreast file t t') (hreach : s.Reaches t) (hlt : s.pos < t.pos) :
    t.rest.length < s.rest.length ∧ t'.rest.length < s'.rest.length := by
  have hlength := hreach.length_eq
  have hstart := Abreast.start_lt_stop h
  refine ⟨by omega, ?_⟩
  rcases hs.place with ⟨m, ha⟩ | hl
  · have hpos := ha.pos_add
    rw [ha.rest'] 
    rw [ha.rest] at hlength
    rcases ht.place with ⟨k, kb⟩ | kl
    · have kpos := kb.pos_add
      rw [kb.rest', List.length_append, List.length_append]
      omega
    · have kpos := kl.behind ha.file
      have hnew := List.length_pos_iff.2 h.ne
      rw [kl.rest]
      simp only [oldTail, newTail, List.length_append, stop, Respelling.start] at hlength hpos kpos ⊢
      omega
  · rcases ht.place with ⟨k, kb⟩ | kl
    · have kpos := kb.pos_add
      have := hl.behind kb.file
      omega
    · rw [hl.rest, kl.rest]
      omega

theorem meets_close (hs : x.Abreast file s s') (hm : x.Meets file u (ns, t) (ns', t')) :
    x.Meets file u (ns, t.close s) (ns', t'.close s') := by
  refine hm.pass (t.reaches_close s) fun ht => ?_
  have hpass := ht.passes_if_head h (d := ']') (by decide)
  have hclosed : x.Passes file t (t.close s) (t'.close s') := hpass.congr rfl rfl rfl rfl rfl rfl rfl hs.scope hs.depth
  exact ⟨hclosed.abreast, hclosed.weight⟩

/-- Content blocks, whose content is read side by side. -/
theorem meets_content {body body' : Reads} (hs : x.Abreast page.file s s') (hat : s.At text)
    (hbody : ∀ u u', u.At text → x.Abreast page.file u u' → u.rest.length < s.rest.length →
      u'.rest.length < s'.rest.length → x.Meets page.file u (body u) (body' u')) :
    x.Meets page.file s (content body s) (content body' s') := by
  have hhead' := hs.head?_iff h (d := '[') (by decide)
  by_cases hhead : s.rest.head? = some '['
  · have hne : s.rest ≠ [] := fun hnil => by simp [hnil] at hhead
    have hopen : x.Passes page.file s { s.advance 1 with depth := 0 } { s'.advance 1 with depth := 0 } := by
      have hpass := hs.passes_head h (d := '[') (by decide) hhead
      exact hpass.congr rfl rfl rfl rfl rfl rfl rfl hpass.abreast.scope rfl
    obtain ⟨hlt, hlt'⟩ := hs.length_lt h hopen.abreast hopen.reaches (Cursor.lt_advance hne Nat.one_pos)
    rw [content_open hhead, content_open (hhead'.2 hhead)]
    exact hopen.seq (meets_close h hs (hbody _ _ (hopen.reaches.at hat) hopen.abreast hlt hlt'))
  · rw [content_none hhead, content_none (mt hhead'.1 hhead)]
    exact (Passes.refl hs).meets

section Calls

variable (hp : x.Paired lib chain page page') (hd : x.Beside lib chain page text fuel fuel' deeper deeper')
variable (hs : x.Abreast page.file s s') (hat : s.At text)
variable (hfuel : 2 * s.rest.length ≤ fuel) (hfuel' : 2 * s'.rest.length ≤ fuel')

omit h in
/-- The same kind of node around what both readings get. -/
theorem Meets.branch (hm : x.Meets file u (ns, t) (ns', t')) {kind : Kind} (hkind : kind.isLeaf = false)
    {scope scope' : Scope} (hscope : scope' = scope) :
    x.Meets file u ([Markup.branch page kind start t scope ns], t) ([Markup.branch page' kind start' t' scope' ns'], t') := by
  subst hscope
  exact hm.map (.around hkind _ _ scope' 0)

include hd hs hat hfuel hfuel'

theorem meets_inlineContent : x.Meets page.file s (inlineContent deeper s) (inlineContent deeper' s') :=
  meets_content h hs hat fun u u' hu habreast hlt hlt' =>
    (hd.inline .bracket (some ']') u u' closes_bracket hu habreast (by omega) (by omega)).map .trimSpaces

theorem meets_blockContent : x.Meets page.file s (blockContent deeper s) (blockContent deeper' s') :=
  meets_content h hs hat fun u u' hu habreast hlt hlt' =>
    hd.blocks (some ']') u u' closes_bracket hu habreast (by omega) (by omega)

end Calls

omit h in
/-- What is included differs only in other files, and only if it enters the file of the slice. -/
theorem meets_fetched (hs : x.Abreast file s s') {got got' : Inclusion}
    (hgot : x.Differs (if file = x.file then 0 else got.asked.count x.file) got.nodes got'.nodes) {scope scope' : Scope}
    (hscope : scope' = scope) : x.Meets file s
      ([branch page .inclusion start { s with warnings := s.warnings ++ got.warnings, asked := s.asked ++ got.asked } scope
          got.nodes], { s with warnings := s.warnings ++ got.warnings, asked := s.asked ++ got.asked })
      ([branch page' .inclusion start' { s' with warnings := s'.warnings ++ got'.warnings, asked := s'.asked ++ got'.asked } scope'
          got'.nodes], { s' with warnings := s'.warnings ++ got'.warnings, asked := s'.asked ++ got'.asked }) := by
  have habreast : x.Abreast file { s with warnings := s.warnings ++ got.warnings, asked := s.asked ++ got.asked }
      { s' with warnings := s'.warnings ++ got'.warnings, asked := s'.asked ++ got'.asked } :=
    hs.congr rfl rfl rfl rfl rfl rfl hs.scope hs.depth
  refine Meets.branch ?_ rfl hscope
  by_cases hfile : file = x.file
  · rw [if_pos hfile] at hgot
    generalize hk : 0 = k at hgot
    cases hgot with
    | same hsame hblind =>
      refine .abreast habreast (.same ?_ hsame hblind)
      rw [weight_of_eq hfile, weight_of_eq hfile]
    | edited => cases hk
    | misses hpos => omega
    | twice htwo => omega
  · rw [if_neg hfile] at hgot
    have hcount : (s.asked ++ got.asked).count x.file = s.asked.count x.file + got.asked.count x.file := List.count_append
    generalize got.asked.count x.file = k at hgot hcount
    have hweight : x.weight file { s with warnings := s.warnings ++ got.warnings, asked := s.asked ++ got.asked } =
        x.weight file s + k := by
      rw [weight_of_ne hfile, weight_of_ne hfile]
      exact hcount
    cases hgot with
    | same hsame hblind => exact .abreast habreast (.same hweight hsame hblind)
    | edited hedited => exact .abreast habreast (.edited hweight hedited)
    | misses hpos hmisses => exact .fails (.missed hfile (by dsimp only; omega) hmisses)
    | twice htwo => exact .fails (.twice hfile (by dsimp only; omega))

theorem meets_includeCall (hp : x.Paired lib chain page page') (hs : x.Abreast page.file s s') :
    x.Meets page.file s (includeCall page start s) (includeCall page' start' s') := by
  have htabs := hs.passes_skipWhile h (p := isTab) fun c hc => isTab_of_isPlainLetter hc
  unfold includeCall
  dsimp only
  rcases htabs.abreast.step_string h with ⟨w, hw, hover⟩ | ⟨heq, hpasses⟩
  · rw [hw]
    refine .fails ((hover.before htabs.reaches).fails h ⟨.same rfl rfl rfl (List.prefix_append _ _), ?_⟩)
    exact fun hfile i _ => .around rfl (hidden_fetch hp.includes hfile _ _ _ i)
  · rw [heq]
    cases hw : string? (s.skipWhile isTab).rest with
    | none => exact htabs.meets
    | some w =>
      have hword := htabs.trans (hpasses w hw)
      refine hword.seq ?_
      refine meets_fetched hword.abreast ?_ hword.abreast.scope
      rw [hword.abreast.scope]
      exact hp.fetched w _ _ _



theorem Abreast.step_ruled (hs : x.Abreast file s s') :
    x.Overruns file s (ruled s) ∨ x.Passes file s (ruled s) (ruled s') := by
  rcases hs.step_arguments h with hover | ⟨hargs, hpasses⟩
  · exact Or.inl (hover.after (.same rfl rfl rfl List.prefix_rfl))
  · refine Or.inr (hpasses.congr rfl rfl rfl rfl rfl rfl rfl ?_ hpasses.abreast.depth)
    rw [ruled, ruled, hargs, hpasses.abreast.scope]

section Calls

variable (hd : x.Beside lib chain page text fuel fuel' deeper deeper')
variable (hs : x.Abreast page.file s s') (hat : s.At text)
variable (hfuel : 2 * s.rest.length ≤ fuel) (hfuel' : 2 * s'.rest.length ≤ fuel')
include hd hs hat hfuel hfuel'

theorem meets_textCall : x.Meets page.file s
    ([(textCall page deeper start s).1], (textCall page deeper start s).2)
    ([(textCall page' deeper' start' s').1], (textCall page' deeper' start' s').2) := by
  have hv := (reaches_ruled s).at hat
  have hlength := (reaches_ruled s).length_le
  have hlength' := (reaches_ruled s').length_le
  have hrestored : ∀ v u : Cursor, u.Reaches { u with scope := v.arguments.2.scope } := fun v u =>
    .same rfl rfl rfl List.prefix_rfl
  rw [textCall_eq, textCall_eq]
  refine Meets.seq h (hs.step_ruled h) ?_ fun habreast => ?_
  · exact ((Beyond.of_lays (.refl _) (lays_inlineContent hd.lays hv)).branch page .lang start _).after (hrestored s _)
  · have hinner := meets_inlineContent h hd habreast hv (by omega) (by omega)
    refine (Meets.branch hinner rfl habreast.scope).pass (hrestored s _) fun hu => ?_
    have hsame : x.Passes page.file _ { (inlineContent deeper (ruled s)).2 with scope := s.arguments.2.scope }
        { (inlineContent deeper' (ruled s')).2 with scope := s'.arguments.2.scope } :=
      (Passes.refl hu).congr rfl rfl rfl rfl rfl rfl rfl (by rw [Cursor.scope_arguments, Cursor.scope_arguments, hs.scope]) hu.depth
    exact ⟨hsame.abreast, hsame.weight⟩

/-- Strong or emphasised content, and blocks. -/
theorem meets_styledCall {kind : Kind} (hkind : kind.isLeaf = false) : x.Meets page.file s
    ([branch page kind start (inlineContent deeper s.arguments.2).2 s.scope (inlineContent deeper s.arguments.2).1],
      (inlineContent deeper s.arguments.2).2)
    ([branch page' kind start' (inlineContent deeper' s'.arguments.2).2 s'.scope (inlineContent deeper' s'.arguments.2).1],
      (inlineContent deeper' s'.arguments.2).2) := by
  have hv := s.reaches_arguments.at hat
  have hlength := s.reaches_arguments.length_le
  have hlength' := s'.reaches_arguments.length_le
  refine Meets.seq h ((hs.step_arguments h).imp_right And.right) ?_ fun habreast => ?_
  · exact (Beyond.of_lays (.refl _) (lays_inlineContent hd.lays hv)).branch page kind start _
  · exact Meets.branch (meets_inlineContent h hd habreast hv (by omega) (by omega)) hkind hs.scope

theorem meets_blockCall : x.Meets page.file s
    ([branch page .block start (blockContent deeper s.arguments.2).2 s.scope (blockContent deeper s.arguments.2).1],
      (blockContent deeper s.arguments.2).2)
    ([branch page' .block start' (blockContent deeper' s'.arguments.2).2 s'.scope (blockContent deeper' s'.arguments.2).1],
      (blockContent deeper' s'.arguments.2).2) := by
  have hv := s.reaches_arguments.at hat
  have hlength := s.reaches_arguments.length_le
  have hlength' := s'.reaches_arguments.length_le
  refine Meets.seq h ((hs.step_arguments h).imp_right And.right) ?_ fun habreast => ?_
  · exact (Beyond.of_lays (.refl _) (lays_blockContent hd.lays hv)).branch page .block start _
  · exact Meets.branch (meets_blockContent h hd habreast hv (by omega) (by omega)) rfl hs.scope

omit hd hat hfuel hfuel' in
theorem meets_layoutCall : x.Meets page.file s
    ([], s.arguments.2.skipContent s.arguments.2.rest.length)
    ([], s'.arguments.2.skipContent s'.arguments.2.rest.length) := by
  have hskip := Cursor.reaches_skipContent s.arguments.2 s.arguments.2.rest.length
  refine Meets.seq h ((hs.step_arguments h).imp_right And.right) (.none hskip) fun habreast => ?_
  rcases Abreast.step_skipContent h habreast (Nat.le_refl _) (Nat.le_refl _) with hover | hpasses
  · exact .fails (hover.fails h (.none (.refl _)))
  · exact hpasses.meets

end Calls

/-- What both readings pass is the same text. -/
theorem Passes.since_eq (hs : x.Abreast file s s') (hpass : x.Passes file s t t') : t'.since s' = t.since s := by
  have hlt := Abreast.start_lt_stop h
  have hle := hpass.reaches.le
  unfold Cursor.since
  rcases hs.place with ⟨m, ha⟩ | hl
  · have hpos := ha.pos_add
    rcases hpass.abreast.place with ⟨k, kb⟩ | kl
    · have kpos := kb.pos_add
      have htake : ∀ u : Text, (m ++ u).take (t.pos - s.pos) = m.take (t.pos - s.pos) := fun u =>
        List.take_append_of_le_length (by omega)
      rw [kb.pos', ha.pos', ha.rest, ha.rest', htake, htake]
    · have hweight := hpass.weight
      have := kl.behind ha.file
      rw [weight_of_eq ha.file, weight_of_eq ha.file, if_pos this, if_neg (by omega)] at hweight
      cases hweight
  · rcases hpass.abreast.place with ⟨k, kb⟩ | kl
    · have kpos := kb.pos_add
      have := hl.behind kb.file
      omega
    · have hpos := hl.pos
      have kpos := kl.pos
      have heq : t'.pos - s'.pos = t.pos - s.pos := by omega
      rw [heq, hl.rest]

theorem meets_plainCall (hs : x.Abreast page.file s s') (hpass : x.Passes page.file s t t') (kind : Kind) :
    x.Meets page.file s ([(plainCall page kind s t).1], (plainCall page kind s t).2)
      ([(plainCall page' kind s' t').1], (plainCall page' kind s' t').2) := by
  rcases hpass.abreast.step_arguments h with hover | ⟨-, hargs⟩
  · exact .fails ((hover.before hpass.reaches).fails h (beyond_plainCall page kind s (.refl _)))
  · have hend := hpass.trans hargs
    unfold plainCall
    dsimp only
    split
    · exact hend.leaf .linebreak [' '] false false
    · rw [hend.since_eq h hs]
      exact hend.leaf .citation _ true true
    · exact hend.leaf _ [] false false

/-- A call whose name ends at `t`. -/
theorem meets_call (hp : x.Paired lib chain page page') (hd : x.Beside lib chain page text fuel fuel' deeper deeper')
    (hs : x.Abreast page.file s s') (hpass : x.Passes page.file s t t') (hat : t.At text)
    (hfuel : 2 * t.rest.length ≤ fuel) (hfuel' : 2 * t'.rest.length ≤ fuel') (name : Text)
    (hset : Callee.ofName name = .set → "#set".toList <:+ t.past.reverse) :
    x.Meets page.file s (call page deeper name s t) (call page' deeper' name s' t') := by
  unfold call
  split
  · next heq =>
    refine hpass.seq ?_
    rcases hpass.abreast.step_setRule h (hset heq) with hover | hrule
    · exact .fails (hover.fails h (.none (.refl _)))
    · exact hrule.meets
  · refine hpass.seq ?_
    rcases hpass.abreast.step_skipLine h with hover | hline
    · exact .fails (hover.fails h (.none (.refl _)))
    · exact hline.meets
  · exact hpass.seq (meets_includeCall h hp hpass.abreast)
  · exact hpass.seq (meets_textCall h hd hpass.abreast hat hfuel hfuel')
  · next kind hk =>
    have hkind : kind.isLeaf = false := by rcases styled_of_ofName hk with rfl | rfl <;> rfl
    exact hpass.seq (meets_styledCall h hd hpass.abreast hat hfuel hfuel' hkind)
  · exact hpass.seq (meets_blockCall h hd hpass.abreast hat hfuel hfuel')
  · exact meets_plainCall h hs hpass _
  · exact hpass.seq (meets_layoutCall h hpass.abreast)

omit h in
theorem tail_take_eq {r r' : Text} {k n : Nat} (htake : r'.take k = r.take k) (hn : n + 1 ≤ k) :
    r'.tail.take n = r.tail.take n := by
  have htail : ∀ v : Text, v.tail.take n = ((v.take k).drop 1).take n := fun v => by
    rw [List.drop_take, List.take_take, List.drop_one, Nat.min_eq_left (by omega)]
  rw [htail, htail, htake]

omit h in
theorem meets_math {inside : Nat}
    (htake : s'.rest.take (inside + 2) = s.rest.take (inside + 2))
    (hpass : x.Passes page.file s (s.advance (inside + 2)) (s'.advance (inside + 2))) :
    x.Meets page.file s ([(mathNode page inside s).1], (mathNode page inside s).2)
      ([(mathNode page' inside s').1], (mathNode page' inside s').2) := by
  unfold mathNode
  dsimp only
  rw [tail_take_eq htake (by omega)]
  exact hpass.leaf _ _ false false

theorem meets_raw (hs : x.Abreast page.file s s') (hlength : rawLength s'.rest = rawLength s.rest)
    (htake : s'.rest.take (rawLength s.rest) = s.rest.take (rawLength s.rest))
    (hpass : x.Passes page.file s (s.advance (rawLength s.rest)) (s'.advance (rawLength s.rest))) :
    x.Meets page.file s ([(rawNode page s).1], (rawNode page s).2) ([(rawNode page' s').1], (rawNode page' s').2) := by
  have hfence : fence.isPrefixOf s'.rest = fence.isPrefixOf s.rest := by
    have hword : ∀ c ∈ fence, isPlainLetter c = false := forall_not_isPlainLetter (by decide)
    rcases hs.place with ⟨m, ha⟩ | hl
    · rw [ha.rest, ha.rest', h.oldStarts.isPrefixOf hword, h.newStarts.isPrefixOf hword]
    · rw [hl.rest]
  unfold rawLength at hlength htake hpass
  unfold rawNode
  rw [hfence] at hlength ⊢
  split
  · next hprefix =>
    rw [if_pos hprefix, if_pos hprefix] at hlength
    rw [if_pos hprefix] at htake hpass
    have hinside : (Text.find fence (s'.rest.drop 3)).getD (s'.rest.drop 3).length =
        (Text.find fence (s.rest.drop 3)).getD (s.rest.drop 3).length := Nat.add_right_cancel hlength
    dsimp only
    rw [hinside]
    generalize (Text.find fence (s.rest.drop 3)).getD (s.rest.drop 3).length = n at htake hpass
    have hbody : ∀ v : Text, (v.drop 3).take n = ((v.take (n + 6)).drop 3).take n := fun v => by
      rw [List.drop_take, List.take_take, Nat.min_eq_left (by omega)]
    rw [hbody s'.rest, htake, ← hbody]
    exact hpass.leaf .rawBlock _ false false
  · next hprefix =>
    rw [if_neg hprefix, if_neg hprefix] at hlength
    rw [if_neg hprefix] at htake hpass
    have hinside : (s'.rest.tail.takeWhile (· ≠ '`')).length = (s.rest.tail.takeWhile (· ≠ '`')).length :=
      Nat.add_right_cancel hlength
    have htaken : ∀ v : Text, v.takeWhile (· ≠ '`') = v.take (v.takeWhile (· ≠ '`')).length := fun v =>
      List.prefix_iff_eq_take.1 (List.takeWhile_prefix _)
    have hbody : s'.rest.tail.takeWhile (· ≠ '`') = s.rest.tail.takeWhile (· ≠ '`') := by
      rw [htaken s'.rest.tail, htaken s.rest.tail, hinside]
      exact tail_take_eq htake (by omega)
    dsimp only
    rw [hbody]
    exact hpass.leaf .rawInline _ false false

theorem meets_delimited (hd : x.Beside lib chain page text fuel fuel' deeper deeper') (mode : Mode) {c : Char}
    (hc : c = '*' ∨ c = '_') (hs : x.Abreast page.file s s')
    (hpass : x.Passes page.file s (s.advance 1) (s'.advance 1)) (hat : s.At text)
    (hfuel : 2 * (s.advance 1).rest.length + 1 ≤ fuel) (hfuel' : 2 * (s'.advance 1).rest.length + 1 ≤ fuel') :
    x.Meets page.file s ([(delimited page deeper mode c s).1], (delimited page deeper mode c s).2)
      ([(delimited page' deeper' mode c s').1], (delimited page' deeper' mode c s').2) := by
  have hletter : isPlainLetter c = false := by rcases hc with rfl | rfl <;> decide
  have hcloses : Closes (some c) := fun d hd => by
    cases hd
    rcases hc with rfl | rfl <;> decide
  have hinner := hd.inline mode (some c) _ _ hcloses (hpass.reaches.at hat) hpass.abreast hfuel hfuel'
  refine hpass.seq ?_
  refine Meets.branch (hinner.pass (Cursor.reaches_undelimit _ c) fun ht => ?_) ?_ hs.scope
  · have hclosed := ht.passes_if_head h hletter
    exact ⟨hclosed.abreast, hclosed.weight⟩
  · split <;> rfl

section Pieces

variable (hp : x.Paired lib chain page page') (hd : x.Beside lib chain page text fuel fuel' deeper deeper')
variable (hs : x.Abreast page.file s s') (hat : s.At text)
variable (hfuel : 2 * s.rest.length ≤ fuel) (hfuel' : 2 * s'.rest.length ≤ fuel')
include hp hd hs hat hfuel hfuel'

/-- The content at a mark that both readings pass. -/
theorem meets_marked (mode : Mode) {mark : Mark} (hmark : s.mark? = some mark) (hne : s.rest ≠ [])
    (hextent : mark.extent s'.rest = mark.extent s.rest)
    (htake : s'.rest.take (mark.extent s.rest) = s.rest.take (mark.extent s.rest))
    (hpass : x.Passes page.file s (s.advance (mark.extent s.rest)) (s'.advance (mark.extent s.rest))) :
    x.Meets page.file s (marked page deeper mode mark s) (marked page' deeper' mode mark s') := by
  have hlt := Cursor.lt_advance hne (extent_pos hmark)
  obtain ⟨hlength, hlength'⟩ := hs.length_lt h hpass.abreast hpass.reaches hlt
  cases mark with
  | escape c =>
    cases c with
    | none => exact hpass.leaf .linebreak [' '] false false
    | some c => exact hpass.leaf .text [c] false false
  | comment n => exact hpass.meets
  | math inside => exact meets_math htake hpass
  | raw => exact meets_raw h hs hextent htake hpass
  | delimiter c =>
    exact meets_delimited h hd mode (delimiter_cases hmark) hs hpass hat
      (by dsimp only [Mark.extent] at hlength; omega) (by dsimp only [Mark.extent] at hlength'; omega)
  | citation key =>
    have hsince : (s'.advance (key.length + 1)).since s' = (s.advance (key.length + 1)).since s := by
      rw [Cursor.since_advance_take, Cursor.since_advance_take]
      exact htake
    simp only [marked, hsince]
    exact hpass.leaf .citation _ true true
  | label n => exact hpass.meets
  | call name =>
    dsimp only [Mark.extent] at hpass hlength hlength'
    refine meets_call h hp hd hs hpass (hpass.reaches.at hat) (by omega) (by omega) name fun hset => ?_
    obtain ⟨r, hr⟩ := exists_of_call hmark
    have htext : s.rest.take (name.length + 1) = '#' :: name := by rw [hr, List.take_succ_cons, List.take_left]
    have hname : name = "set".toList := name_of_ofName hset
    rw [hname] at htext ⊢
    refine ⟨s.past.reverse, ?_⟩
    simp only [Cursor.advance, htext, List.reverse_append, List.reverse_reverse]
    rfl

end Pieces

/-- Both readings make a node of the spaces at the head. -/
theorem meets_spaceNode (hs : x.Abreast page.file s s') : x.Meets page.file s
    ([(spaceNode page s).1], (spaceNode page s).2) ([(spaceNode page' s').1], (spaceNode page' s').2) :=
  (hs.passes_skipWhile h fun _ hc => isSpace_of_isPlainLetter hc).leaf .space [' '] _ _

theorem Abreast.headingMarker? (hs : x.Abreast file s s') : headingMarker? s'.rest = Markup.headingMarker? s.rest ∧
    ∀ level n, Markup.headingMarker? s.rest = some (level, n) → x.Passes file s (s.advance n) (s'.advance n) := by
  rcases hs.place with ⟨m, ha⟩ | hl
  · have hpos := ha.pos_add
    rw [ha.rest, ha.rest', h.oldStarts.headingMarker?, h.newStarts.headingMarker?]
    exact ⟨rfl, fun level n hn => hs.passes_advance h fun _ => Or.inl (by have := le_of_headingMarker hn; omega)⟩
  · exact ⟨by rw [hl.rest], fun level n _ => hs.passes_advance h fun hfile => Or.inr (hl.behind hfile)⟩

theorem Abreast.itemMarker? (hs : x.Abreast file s s') : itemMarker? s'.rest = Markup.itemMarker? s.rest ∧
    ∀ n, Markup.itemMarker? s.rest = some n → x.Passes file s (s.advance n) (s'.advance n) := by
  rcases hs.place with ⟨m, ha⟩ | hl
  · have hpos := ha.pos_add
    rw [ha.rest, ha.rest', h.oldStarts.itemMarker?, h.newStarts.itemMarker?]
    exact ⟨rfl, fun n hn => hs.passes_advance h fun _ => Or.inl (by have := le_of_itemMarker hn; omega)⟩
  · exact ⟨by rw [hl.rest], fun n _ => hs.passes_advance h fun hfile => Or.inr (hl.behind hfile)⟩

omit h in
theorem Abreast.atLineStart (hs : x.Abreast file s s') : s'.atLineStart = s.atLineStart := by
  rcases hs.place with ⟨m, ha⟩ | hl
  · unfold Cursor.atLineStart
    rw [ha.past']
  · exact hl.line

section Blocks

variable (hd : x.Beside lib chain page text fuel fuel' deeper deeper')
variable {closer : Option Char} (hcloses : Closes closer)
variable (hs : x.Abreast page.file s s') (hat : s.At text)
variable (hfuel : 2 * s.rest.length + 1 ≤ fuel) (hfuel' : 2 * s'.rest.length + 1 ≤ fuel')
include hd hcloses hs hat hfuel hfuel'

omit h in
theorem meets_lineBlock (kind : Kind) (hkind : kind.isLeaf = false) (level : Int) {n : Nat}
    (hpass : x.Passes page.file s (s.advance n) (s'.advance n)) : x.Meets page.file s
      ([(lineBlock page deeper kind level n closer s).1], (lineBlock page deeper kind level n closer s).2)
      ([(lineBlock page' deeper' kind level n closer s').1], (lineBlock page' deeper' kind level n closer s').2) := by
  have hlength := hpass.reaches.length_le
  have hlength' := (s'.reaches_advance n).length_le
  have hinner := hd.inline .line closer _ _ hcloses (hpass.reaches.at hat) hpass.abreast (by omega) (by omega)
  unfold lineBlock
  rw [hs.scope]
  exact (hpass.seq hinner).map ((Congruent.around hkind _ _ s.scope level).comp .trimSpaces)

omit h in
theorem meets_paragraph : x.Meets page.file s (paragraph page deeper closer s) (paragraph page' deeper' closer s') := by
  have hinner := hd.inline .paragraph closer _ _ hcloses hat hs hfuel hfuel'
  rw [paragraph_eq, paragraph_eq, hs.scope]
  exact hinner.map ((Congruent.asParagraph _ _ s.scope).comp .trimSpaces)

theorem meets_block : x.Meets page.file s (block page deeper closer s) (block page' deeper' closer s') := by
  obtain ⟨hheading, hheadingPass⟩ := hs.headingMarker? h
  obtain ⟨hitem, hitemPass⟩ := hs.itemMarker? h
  unfold block
  rw [hs.atLineStart, hheading, hitem]
  split
  · split
    · next level n hn => exact meets_lineBlock hd hcloses hs hat hfuel hfuel' .heading rfl level (hheadingPass level n hn)
    · next n _ hn => exact meets_lineBlock hd hcloses hs hat hfuel hfuel' .listItem rfl 0 (hitemPass n hn)
    · exact meets_paragraph hd hcloses hs hat hfuel hfuel'
  · exact meets_paragraph hd hcloses hs hat hfuel hfuel'

omit h hs hfuel' in
/-- A block ends where its inline content does. -/
theorem settled_block : (block page deeper closer s).2.rest.head?.any isPlainLetter = false := by
  have hline : ∀ n, ((deeper.inline .line closer (s.advance n)).2.rest.head?.any isPlainLetter) = false := fun n => by
    have hlength := (s.reaches_advance n).length_le
    exact hd.settled .line closer _ hcloses ((s.reaches_advance n).at hat) (by omega)
  have hparagraph : (paragraph page deeper closer s).2.rest.head?.any isPlainLetter = false := by
    rw [paragraph_eq]
    exact hd.settled .paragraph closer s hcloses hat hfuel
  unfold block
  split
  · split
    · exact hline _
    · exact hline _
    · exact hparagraph
  · exact hparagraph

end Blocks

/-- Where a block reads nothing in one reading, it reads nothing in the other. -/
theorem Abreast.pos_iff (hs : x.Abreast file s s') (ht : x.Abreast file t t') (hreach : s.Reaches t) :
    t'.pos = s'.pos ↔ t.pos = s.pos := by
  have hlt := Abreast.start_lt_stop h
  have hle := hreach.le
  rcases hs.place with ⟨m, ha⟩ | hl
  · have hpos := ha.pos_add
    rcases ht.place with ⟨k, kb⟩ | kl
    · rw [kb.pos', ha.pos']
    · have kpos := kl.pos
      have kbehind := kl.behind ha.file
      have hnew := List.length_pos_iff.2 h.ne
      rw [ha.pos']
      simp only [oldIn, newIn, ha.file, if_true] at kpos
      simp only [Respelling.start, stop] at hlt hpos kbehind
      omega
  · rcases ht.place with ⟨k, kb⟩ | kl
    · have kpos := kb.pos_add
      have := hl.behind kb.file
      omega
    · have hpos := hl.pos
      have kpos := kl.pos
      omega

/-- Both readings give up one character if the block reads nothing. -/
theorem Abreast.passes_moved (hs : x.Abreast file s s') (ht : x.Abreast file t t') (hreach : s.Reaches t)
    (hsettled : t.rest.head?.any isPlainLetter = false) :
    x.Passes file t (moved s t) (moved s' t') := by
  simp only [moved, hs.pos_iff h ht hreach]
  split
  · refine ht.passes_advance h fun hfile => ?_
    rcases ht.place with ⟨m, ha⟩ | hl
    · have hpos := ha.pos_add
      cases m with
      | nil =>
        obtain ⟨c, r, hr, hc⟩ := h.oldStarts
        rw [ha.rest, List.nil_append, hr, List.head?_cons, Option.any_some, hc] at hsettled
        cases hsettled
      | cons c m =>
        rw [List.length_cons] at hpos
        exact Or.inl (by omega)
    · exact Or.inr (hl.behind hfile)
  · exact .refl ht

theorem meets_blocksStep (hd : x.Beside lib chain page text fuel fuel' deeper deeper') {closer : Option Char}
    (hcloses : Closes closer) (hs : x.Abreast page.file s s') (hat : s.At text) (hfuel : 2 * s.rest.length + 1 ≤ fuel)
    (hfuel' : 2 * s'.rest.length + 1 ≤ fuel') :
    x.Meets page.file s (blocksStep page deeper closer s) (blocksStep page' deeper' closer s') := by
  have hskip := hs.passes_skipWhile h (p := isSpace) fun _ hc => isSpace_of_isPlainLetter hc
  have hend : ((s'.skipWhile isSpace).rest = [] ∨ ∃ c, closer = some c ∧ (s'.skipWhile isSpace).rest.head? = some c) ↔
      ((s.skipWhile isSpace).rest = [] ∨ ∃ c, closer = some c ∧ (s.skipWhile isSpace).rest.head? = some c) := by
    refine or_congr (hskip.abreast.nil_iff h) (exists_congr fun c => and_congr_right fun hc => ?_)
    exact hskip.abreast.head?_iff h (forall_not_isPlainLetter (by decide) c (hcloses c hc))
  by_cases hstop : (s.skipWhile isSpace).rest = [] ∨ ∃ c, closer = some c ∧ (s.skipWhile isSpace).rest.head? = some c
  · rw [blocksStep_end hstop, blocksStep_end (hend.2 hstop)]
    exact hskip.meets
  · have hlength := hskip.reaches.length_le
    have hlength' := (s'.reaches_skipWhile isSpace).length_le
    have hhead := s.head_skipWhile isSpace
    rw [blocksStep_block hstop, blocksStep_block (mt hend.1 hstop)]
    refine hskip.seq ?_
    have hv := hskip.abreast
    have hvat := hskip.reaches.at hat
    generalize s.skipWhile isSpace = v at *
    generalize s'.skipWhile isSpace = v' at *
    have hne : v.rest ≠ [] := fun hnil => hstop (Or.inl hnil)
    have hblock : x.Meets page.file v (block page deeper closer v) (block page' deeper' closer v') :=
      meets_block h hd hcloses hv hvat (by omega) (by omega)
    have hlays := (lays_block hd.lays closer hvat hne hhead).1
    have hsettled := settled_block hd hcloses hvat (by omega)
    generalize block page deeper closer v = r at *
    generalize block page' deeper' closer v' = r' at *
    have hmoved := hblock.pass (reaches_moved v r.2) fun ht =>
      ⟨(hv.passes_moved h ht hlays.reaches hsettled).abreast, (hv.passes_moved h ht hlays.reaches hsettled).weight⟩
    have hlaysMoved : Lays lib chain page text v (r.1, moved v r.2) := Lays.after hlays (reaches_moved v r.2)
    refine hmoved.append hlaysMoved (hd.lays.blocks closer _ (hlaysMoved.reaches.at hvat)).1 fun hmore => ?_
    obtain ⟨hlt, hlt'⟩ := hv.length_lt h hmore hlaysMoved.reaches (lt_moved hlays.reaches hne)
    exact hd.blocks closer _ _ hcloses (hlaysMoved.reaches.at hvat) hmore (by omega) (by omega)

end Readers

end Respelling

end Proofreader.Markup
