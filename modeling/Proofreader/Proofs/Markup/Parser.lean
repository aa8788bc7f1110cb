import Proofreader.Proofs.Markup.Cursor
import Proofreader.Proofs.Markup.Layout

/-! Every reader lays its nodes out between the cursors that it starts and ends at. Each step is shown to do so
over readers for what lies deeper that do; the fuel of `blocks` and `inline` ties them together. -/

namespace Proofreader.Markup

theorem trimSpaces_sublist (nodes : List Node) : (trimSpaces nodes).Sublist nodes := by
  have hend := (List.dropWhile_sublist isSpaceNode (l := (nodes.dropWhile isSpaceNode).reverse)).reverse
  rw [List.reverse_reverse] at hend
  exact hend.trans (List.dropWhile_sublist _)

theorem exists_trimSpaces (nodes : List Node) : ∃ before after, nodes = before ++ trimSpaces nodes ++ after ∧
    (∀ n ∈ before, isSpaceNode n = true) ∧ ∀ n ∈ after, isSpaceNode n = true := by
  refine ⟨nodes.takeWhile isSpaceNode, ((nodes.dropWhile isSpaceNode).reverse.takeWhile isSpaceNode).reverse, ?_,
    List.all_eq_true.1 List.all_takeWhile, fun n hn => List.all_eq_true.1 List.all_takeWhile n (List.mem_reverse.1 hn)⟩
  rw [trimSpaces, List.append_assoc, ← List.reverse_append, List.takeWhile_append_dropWhile, List.reverse_reverse,
    List.takeWhile_append_dropWhile]

/-- Reading from `s` led to the end of `r` and found its nodes on the way. The files that they include are among those
that were asked for meanwhile. -/
structure Lays (lib : Library) (chain : List FileId) (page : Page) (text : Text) (s : Cursor)
    (r : List Node × Cursor) : Prop where
  reaches : s.Reaches r.2
  laid : ∃ visits, (s.asked ++ visits).Sublist r.2.asked ∧ Laid lib visits chain page.file text s.pos r.1 r.2.pos

structure Deeper.Lays (lib : Library) (chain : List FileId) (page : Page) (text : Text) (deeper : Deeper) : Prop where
  blocks : ∀ stop s, s.At text →
    Markup.Lays lib chain page text s (deeper.blocks stop s) ∧ BlockLevel (deeper.blocks stop s).1
  inline : ∀ mode stop s, s.At text → Markup.Lays lib chain page text s (deeper.inline mode stop s)

/-- What the page includes lies in another file of the library. -/
def Page.Includes (lib : Library) (chain : List FileId) (page : Page) : Prop := ∀ path here scope,
  (page.fetch path here scope).nodes = [] ∨ BlockLevel (page.fetch path here scope).nodes ∧
    ∃ f t visits, (∃ path, f = lib.resolve page.file path) ∧ f ∉ page.file :: chain ∧ lib.load f = some t ∧
      (f :: visits).Sublist (page.fetch path here scope).asked ∧
      Laid lib visits (page.file :: chain) f t 0 (page.fetch path here scope).nodes t.length

variable {lib : Library} {chain : List FileId} {page : Page} {text : Text} {deeper : Deeper}
variable {s t u : Cursor} {nodes more : List Node}

namespace Lays

theorem none (h : s.Reaches t) : Lays lib chain page text s ([], t) :=
  ⟨h, [], (List.append_nil s.asked).symm ▸ h.asked.sublist, .nil h.le⟩

theorem before (h : s.Reaches t) {r : List Node × Cursor} (k : Lays lib chain page text t r) :
    Lays lib chain page text s r := by
  obtain ⟨visits, hasked, hlaid⟩ := k.laid
  exact ⟨h.trans k.reaches, visits, (h.asked.sublist.append_right visits).trans hasked, hlaid.widen h.le (Nat.le_refl _)⟩

theorem after (h : Lays lib chain page text s (nodes, t)) (k : t.Reaches u) : Lays lib chain page text s (nodes, u) := by
  obtain ⟨visits, hasked, hlaid⟩ := h.laid
  exact ⟨h.reaches.trans k, visits, hasked.trans k.asked.sublist, hlaid.widen (Nat.le_refl _) k.le⟩

theorem append (h : Lays lib chain page text s (nodes, t)) (k : Lays lib chain page text t (more, u)) :
    Lays lib chain page text s (nodes ++ more, u) := by
  obtain ⟨visits, hasked, hlaid⟩ := h.laid
  obtain ⟨later, hlater, hmore⟩ := k.laid
  refine ⟨h.reaches.trans k.reaches, visits ++ later, ?_, hlaid.append hmore⟩
  rw [← List.append_assoc]
  exact (hasked.append_right later).trans hlater

theorem trimSpaces (h : Lays lib chain page text s (nodes, t)) :
    Lays lib chain page text s (Markup.trimSpaces nodes, t) := by
  obtain ⟨visits, hasked, hlaid⟩ := h.laid
  obtain ⟨fewer, hfewer, htrim⟩ := hlaid.sublist (trimSpaces_sublist nodes)
  exact ⟨h.reaches, fewer, (hfewer.append_left s.asked).trans hasked, htrim⟩

theorem lt (h : Lays lib chain page text s (nodes, t)) (hnodes : nodes ≠ []) : s.pos < t.pos := by
  obtain ⟨visits, -, hlaid⟩ := h.laid
  exact hlaid.lt hnodes

/-- A node around what was read. -/
theorem around {n : Node} (h : Lays lib chain page text s (nodes, t)) (hfile : n.location.file = page.file)
    (hstart : n.location.start = s.pos) (hlt : s.pos < n.location.stop) (hstop : n.location.stop ≤ t.pos)
    (hv : n.verbatim = false) (hc : n.children = nodes)
    (hb : n.kind = .block ∨ n.kind = .inclusion → BlockLevel nodes) : Lays lib chain page text s ([n], t) := by
  rw [← hstart] at hlt
  have hn : ReadFrom page.file text n :=
    ⟨hfile, Nat.le_of_lt hlt, fun h => absurd (hv.symm.trans h) nofun, fun h => absurd (hv.symm.trans h) nofun, hc ▸ hb⟩
  obtain ⟨visits, hasked, hlaid⟩ := h.laid
  refine ⟨h.reaches, visits, hasked, .single hn hlt (Nat.le_of_eq hstart.symm) hstop ?_⟩
  rw [hstart, hc]
  exact hlaid

theorem branch (h : Lays lib chain page text s (nodes, t)) (hlt : s.pos < t.pos) (kind : Kind) (scope : Scope)
    (hb : kind = .block ∨ kind = .inclusion → BlockLevel nodes) :
    Lays lib chain page text s ([Markup.branch page kind s t scope nodes], t) :=
  h.around rfl rfl hlt (Nat.le_refl _) rfl rfl hb

theorem leaf (h : s.Reaches t) (hlt : s.pos < t.pos) (kind : Kind) (shown : Text) (verbatim : Bool)
    (hv : verbatim = true → shown = text.extract s.pos t.pos)
    (hplain : verbatim = true → kind = .citation ∨ ∀ c ∈ ['\\', '\n'], c ∉ shown) :
    Lays lib chain page text s ([Markup.leaf page kind s t shown verbatim], t) :=
  ⟨h, [], (List.append_nil s.asked).symm ▸ h.asked.sublist, .single ⟨rfl, h.le, hv, hplain, fun _ => nofun⟩ hlt (Nat.le_refl _)
    (Nat.le_refl _) (.nil h.le)⟩

/-- A leaf that passes over at least one character. -/
theorem leaf_advance (hs : s.rest ≠ []) (kind : Kind) {n : Nat} (hn : 0 < n) (shown : Text) :
    Lays lib chain page text s ([Markup.leaf page kind s (s.advance n) shown false], s.advance n) :=
  .leaf (s.reaches_advance n) (Cursor.lt_advance hs hn) kind shown false nofun nofun

end Lays

theorem lays_content {body : Reads} (h : ∀ s, s.At text → Lays lib chain page text s (body s)) (hs : s.At text) :
    Lays lib chain page text s (content body s) := by
  unfold content
  split
  · next r heq =>
    have hopen : s.Reaches { s.advance 1 with depth := 0 } :=
      (s.reaches_advance 1).trans (.same rfl rfl rfl List.prefix_rfl)
    have hbody := h _ (hopen.at hs)
    rcases hr : body { s.advance 1 with depth := 0 } with ⟨nodes, t⟩
    rw [hr] at hbody
    have hclosed := (hbody.before hopen).after (u := { t with depth := s.depth, scope := s.scope })
      (.same rfl rfl rfl List.prefix_rfl)
    dsimp only
    split
    · exact hclosed.after (Cursor.reaches_advance _ 1)
    · exact hclosed
  · exact .none (.refl s)

theorem lays_inlineContent (hd : deeper.Lays lib chain page text) (hs : s.At text) :
    Lays lib chain page text s (inlineContent deeper s) :=
  lays_content (fun u hu => (hd.inline .bracket (some ']') u hu).trimSpaces) hs

theorem lays_blockContent (hd : deeper.Lays lib chain page text) (hs : s.At text) :
    Lays lib chain page text s (blockContent deeper s) :=
  lays_content (fun u hu => (hd.blocks (some ']') u hu).1) hs

theorem blockLevel_blockContent (hd : deeper.Lays lib chain page text) (hs : s.At text) :
    BlockLevel (blockContent deeper s).1 := by
  unfold blockContent content
  split
  · have hopen : s.Reaches { s.advance 1 with depth := 0 } :=
      (s.reaches_advance 1).trans (.same rfl rfl rfl List.prefix_rfl)
    exact (hd.blocks (some ']') _ (hopen.at hs)).2
  · exact nofun

theorem reaches_setRule (s : Cursor) : s.Reaches (setRule s) := by
  have htabs := s.reaches_skipWhile isTab
  unfold setRule
  dsimp only
  split
  · exact htabs
  · next target _ =>
    have hargs := (htabs.trans (Cursor.reaches_advance _ target.length)).trans (Cursor.reaches_arguments _)
    split
    · exact hargs.trans (.same rfl rfl rfl List.prefix_rfl)
    · exact hargs

/-- An inclusion lies where it is called, and what it includes in the file that it names. -/
theorem lays_includeCall (hp : page.Includes lib chain) (h : s.Reaches t) (hlt : s.pos < t.pos) :
    Lays lib chain page text s (includeCall page s t) := by
  have htabs := h.trans (t.reaches_skipWhile isTab)
  unfold includeCall
  dsimp only
  split
  · exact .none htabs
  · next path _ =>
    have hpath := (t.reaches_skipWhile isTab).trans (Cursor.reaches_advance _ (path.length + 2))
    generalize (t.skipWhile isTab).advance (path.length + 2) = v at hpath ⊢
    have hgot := hp path ⟨page.file, s.pos, v.pos⟩ v.scope
    generalize page.fetch path ⟨page.file, s.pos, v.pos⟩ v.scope = got at hgot ⊢
    have hend : s.Reaches { v with warnings := v.warnings ++ got.warnings, asked := v.asked ++ got.asked } :=
      (h.trans hpath).trans (.same rfl rfl rfl (List.prefix_append _ _))
    have hv : s.pos < v.pos := Nat.lt_of_lt_of_le hlt hpath.le
    rcases hgot with hnone | ⟨hlevel, f, text', visits, hf', hf, hl, hasked, hlaid⟩
    · rw [hnone]
      exact (Lays.none hend).branch hv .inclusion v.scope fun _ => nofun
    · refine ⟨hend, f :: visits ++ [], ?_, .inclusion ⟨rfl, hend.le, nofun, nofun, fun _ => hlevel⟩ hv rfl (Nat.le_refl _)
        (Nat.le_refl _) hf' hf hl hlaid (.nil (Nat.le_refl _))⟩
      rw [List.append_nil]
      exact (h.trans hpath).asked.sublist.append hasked

theorem lays_textCall (hd : deeper.Lays lib chain page text) (h : s.Reaches t) (hlt : s.pos < t.pos)
    (hs : s.At text) : Lays lib chain page text s ([(textCall page deeper s t).1], (textCall page deeper s t).2) := by
  have hargs := t.reaches_arguments
  unfold textCall
  rcases hv : t.arguments with ⟨args, v⟩
  rw [hv] at hargs
  have hscope : t.Reaches { v with scope := Scope.withArguments v.scope args } :=
    hargs.trans (.same rfl rfl rfl List.prefix_rfl)
  have hbody := (lays_inlineContent hd ((h.trans hscope).at hs)).before hscope
  dsimp only
  rcases hr : inlineContent deeper { v with scope := Scope.withArguments v.scope args } with ⟨nodes, u⟩
  rw [hr] at hbody
  have hu : s.pos < u.pos := Nat.lt_of_lt_of_le hlt hbody.reaches.le
  exact ((hbody.before h).branch hu .lang (Scope.withArguments v.scope args) (by simp)).after
    (.same rfl rfl rfl List.prefix_rfl)

theorem lays_plainCall (kind : Kind) (h : s.Reaches t) (hlt : s.pos < t.pos) (hs : s.At text) :
    Lays lib chain page text s ([(plainCall page kind s t).1], (plainCall page kind s t).2) := by
  have hargs := t.reaches_arguments
  have hpos := Nat.lt_of_lt_of_le hlt hargs.le
  have hplain : Lays lib chain page text s ([leaf page kind s t.arguments.2 [] false], t.arguments.2) :=
    .leaf (h.trans hargs) hpos kind [] false nofun nofun
  unfold plainCall
  dsimp only
  split
  · exact .leaf (h.trans hargs) hpos .linebreak [' '] false nofun nofun
  · exact .leaf (h.trans hargs) hpos .citation _ true (fun _ => hs.since _) fun _ => Or.inl rfl
  · exact hplain

theorem styled_of_ofName {name : Text} {kind : Kind} (h : Callee.ofName name = .styled kind) :
    kind = .strong ∨ kind = .emph := by
  unfold Callee.ofName at h
  split at h <;> simp_all

theorem lays_call (hp : page.Includes lib chain) (hd : deeper.Lays lib chain page text) (name : Text)
    (h : s.Reaches t) (hlt : s.pos < t.pos) (hs : s.At text) :
    Lays lib chain page text s (call page deeper name s t) := by
  have hargs := t.reaches_arguments
  unfold call
  split
  · exact .none (h.trans (reaches_setRule t))
  · exact .none (h.trans (t.reaches_skipWhile _))
  · exact lays_includeCall hp h hlt
  · exact lays_textCall hd h hlt hs
  · next kind hk =>
    have hbody := (lays_inlineContent hd ((h.trans hargs).at hs)).before hargs
    rcases hr : inlineContent deeper t.arguments.2 with ⟨nodes, u⟩
    rw [hr] at hbody
    have hu : s.pos < u.pos := Nat.lt_of_lt_of_le hlt hbody.reaches.le
    refine (hbody.before h).branch hu kind t.scope fun hb => ?_
    rcases styled_of_ofName hk with rfl | rfl <;> simp at hb
  · have hbody := (lays_blockContent hd ((h.trans hargs).at hs)).before hargs
    have hlevel := blockLevel_blockContent hd ((h.trans hargs).at hs)
    rcases hr : blockContent deeper t.arguments.2 with ⟨nodes, u⟩
    rw [hr] at hbody hlevel
    have hu : s.pos < u.pos := Nat.lt_of_lt_of_le hlt hbody.reaches.le
    exact (hbody.before h).branch hu .block t.scope fun _ => hlevel
  · next kind _ => exact lays_plainCall kind h hlt hs
  · exact .none ((h.trans hargs).trans (Cursor.reaches_skipContent _ _))

theorem lays_mathNode (inside : Nat) (hrest : s.rest ≠ []) :
    Lays lib chain page text s ([(mathNode page inside s).1], (mathNode page inside s).2) :=
  .leaf_advance hrest _ (Nat.succ_pos _) _

theorem lays_rawNode (hrest : s.rest ≠ []) :
    Lays lib chain page text s ([(rawNode page s).1], (rawNode page s).2) := by
  unfold rawNode
  split
  · exact .leaf_advance hrest _ (Nat.succ_pos _) _
  · exact .leaf_advance hrest _ (Nat.succ_pos _) _

theorem lays_delimited (hd : deeper.Lays lib chain page text) (mode : Mode) (c : Char) (hs : s.At text)
    (hrest : s.rest ≠ []) :
    Lays lib chain page text s ([(delimited page deeper mode c s).1], (delimited page deeper mode c s).2) := by
  have hopen := s.reaches_advance 1
  have hbody := hd.inline mode (some c) _ (hopen.at hs)
  have hkind : (if c = '*' then Kind.strong else .emph) = .block ∨ (if c = '*' then Kind.strong else .emph) = .inclusion →
      False := by
    split <;> simp
  unfold delimited
  rcases hr : deeper.inline mode (some c) (s.advance 1) with ⟨nodes, t⟩
  rw [hr] at hbody
  have hclosed : t.Reaches (if t.rest.head? = some c then t.advance 1 else t) := by
    split
    · exact t.reaches_advance 1
    · exact .refl t
  have hlt := Nat.lt_of_lt_of_le (Cursor.lt_advance hrest Nat.one_pos) (hbody.reaches.trans hclosed).le
  exact ((hbody.before hopen).after hclosed).branch hlt _ s.scope fun hb => (hkind hb).elim

theorem lays_marked (hp : page.Includes lib chain) (hd : deeper.Lays lib chain page text) (mode : Mode) (m : Mark)
    (hs : s.At text) (hrest : s.rest ≠ []) : Lays lib chain page text s (marked page deeper mode m s) := by
  cases m with
  | escape c =>
    cases c with
    | none => exact .leaf_advance hrest _ Nat.one_pos _
    | some c => exact .leaf_advance hrest _ Nat.two_pos _
  | comment n => exact .none (s.reaches_advance n)
  | math inside => exact lays_mathNode inside hrest
  | raw => exact lays_rawNode hrest
  | delimiter c => exact lays_delimited hd mode c hs hrest
  | citation key =>
    exact .leaf (s.reaches_advance _) (Cursor.lt_advance hrest (Nat.succ_pos _)) .citation _ true (fun _ => hs.since _)
      fun _ => Or.inl rfl
  | label n => exact .none (s.reaches_advance n)
  | call name =>
    exact lays_call hp hd name (s.reaches_advance _) (Cursor.lt_advance hrest (Nat.succ_pos _)) hs

theorem lays_spaceNode (hs : s.At text) {c : Char} {r : Text} (hrest : s.rest = c :: r) (hc : isSpace c = true) :
    Lays lib chain page text s ([(spaceNode page s).1], (spaceNode page s).2) := by
  have hlt : s.pos < (s.skipWhile isSpace).pos := by
    refine Cursor.lt_advance (by simp [hrest]) ?_
    simp [hrest, hc]
  refine .leaf (s.reaches_skipWhile isSpace) hlt .space [' '] _ (fun hv => ?_) fun _ => Or.inr (by simp)
  rw [decide_eq_true_eq] at hv
  rw [← hv]
  exact hs.since _

theorem ne_of_isSpace {d : Char} (hspace : isSpace d = false) (hescape : d ≠ '\\') : ∀ c ∈ ['\\', '\n'], c ≠ d := by
  rintro c hc rfl
  rcases List.mem_cons.1 hc with rfl | hc
  · exact hescape rfl
  · rw [List.mem_singleton.1 hc] at hspace
    cases hspace

/-- Plain text ends before an escape, as before a space. -/
theorem notMem_take_textRun (stop before : Option Char) (first : Bool) (depth : Nat) {t : Text}
    (hfirst : first = true → t.head? ≠ some '\\') : ∀ c ∈ ['\\', '\n'], c ∉ t.take (textRun stop before first depth t).1 := by
  induction t generalizing before first depth with
  | nil => simp
  | cons d r ih =>
    have hnext : isSpace d = false → d ≠ '\\' → ∀ depth, ∀ c ∈ ['\\', '\n'],
        c ∉ (d :: r).take ((textRun stop (some d) false depth r).1 + 1) := by
      intro hspace hescape depth c hc hmem
      rcases List.mem_cons.1 hmem with hmem | hmem
      · exact ne_of_isSpace hspace hescape c hc hmem
      · exact ih (some d) false depth nofun c hc hmem
    unfold textRun
    split
    · simp
    · next hspace =>
      rw [Bool.not_eq_true] at hspace
      split
      · next hopen => exact hnext hspace (by simp [hopen]) _
      · split
        · next hclose =>
          split
          · simp
          · exact hnext hspace (by simp [hclose]) _
        · split
          · simp
          · next hgoes =>
            refine hnext hspace (fun hescape => ?_) _
            subst hescape
            cases first with
            | true => exact hfirst rfl rfl
            | false => simp [mark?] at hgoes

theorem lays_textNode (stop : Option Char) (hs : s.At text) {c : Char} {r : Text} (hrest : s.rest = c :: r)
    (hspace : isSpace c = false) (hmark : s.mark? = none) :
    Lays lib chain page text s ([(textNode page stop s).1], (textNode page stop s).2) := by
  have hescape : c ≠ '\\' := by
    rintro rfl
    rw [Cursor.mark?, hrest] at hmark
    cases hmark
  have hrun := notMem_take_textRun stop s.past.head? true s.depth (t := s.rest) fun _ => by simpa [hrest] using hescape
  unfold textNode
  generalize textRun stop s.past.head? true s.depth s.rest = run at hrun ⊢
  obtain ⟨n, depth⟩ := run
  have hreaches : s.Reaches { s.advance (max n 1) with depth := depth } :=
    (s.reaches_advance _).trans (.same rfl rfl rfl List.prefix_rfl)
  have hlt : s.pos < (s.advance (max n 1)).pos := Cursor.lt_advance (by simp [hrest]) (by omega)
  refine .leaf hreaches hlt .text _ true (fun _ => hs.since _) fun _ => Or.inr ?_
  have hsince : ({ s.advance (max n 1) with depth := depth } : Cursor).since s = s.rest.take (max n 1) := by
    simp only [Cursor.since, Cursor.advance, Nat.add_sub_cancel_left, List.length_take]
    exact List.take_eq_take_min.symm
  rw [hsince]
  cases n with
  | zero =>
    -- A bracket that closes nothing here is read all the same.
    intro d hd hmem
    rw [hrest, Nat.max_eq_right (Nat.zero_le 1), List.take_succ_cons, List.take_zero, List.mem_singleton] at hmem
    exact ne_of_isSpace hspace hescape d hd hmem
  | succ n =>
    rw [Nat.max_eq_left (Nat.succ_pos n)]
    exact hrun

theorem lays_piece (hp : page.Includes lib chain) (hd : deeper.Lays lib chain page text) (mode : Mode)
    (stop : Option Char) (hs : s.At text) {c : Char} {r : Text} (hrest : s.rest = c :: r) :
    Lays lib chain page text s (piece page deeper mode stop c s) := by
  have hne : s.rest ≠ [] := by simp [hrest]
  unfold piece
  split
  · next hc => exact lays_spaceNode hs hrest hc
  · next hc =>
    split
    · next m _ => exact lays_marked hp hd mode m hs hne
    · next hmark => exact lays_textNode stop hs hrest (by simpa using hc) hmark

theorem lays_inlineStep (hp : page.Includes lib chain) (hd : deeper.Lays lib chain page text) (mode : Mode)
    (stop : Option Char) (hs : s.At text) : Lays lib chain page text s (inlineStep page deeper mode stop s) := by
  unfold inlineStep
  split
  · exact .none (.refl s)
  · next c r hrest =>
    split
    · exact .none (.refl s)
    · have hpiece := lays_piece hp hd mode stop hs hrest
      rcases hr : piece page deeper mode stop c s with ⟨nodes, t⟩
      rw [hr] at hpiece
      exact hpiece.append (hd.inline mode stop t (hpiece.reaches.at hs))

theorem lays_lineBlock (hd : deeper.Lays lib chain page text) {kind : Kind} (hk : kind ≠ .block ∧ kind ≠ .inclusion)
    (level : Int) {marker : Nat} (hpos : 0 < marker) (stop : Option Char) (hs : s.At text) (hrest : s.rest ≠ [])
    (hhead : ∀ c ∈ s.rest.head?, isSpace c = false) : Lays lib chain page text s
      ([(lineBlock page deeper kind level marker stop s).1], (lineBlock page deeper kind level marker stop s).2) := by
  have hmarker := s.reaches_advance marker
  have hinline := hd.inline .line stop _ (hmarker.at hs)
  have hlt := Nat.lt_of_lt_of_le (Cursor.lt_advance hrest hpos) hinline.reaches.le
  have hbody := hinline.before hmarker
  exact hbody.trimSpaces.around rfl rfl (Cursor.lt_trimmedEnd hbody.reaches hlt hhead) (Cursor.trimmedEnd_le _ _) rfl rfl
    fun hb => (hb.elim hk.1 hk.2).elim

theorem pos_of_headingMarker {level n : Nat} (h : headingMarker? text = some (level, n)) : 0 < n := by
  unfold headingMarker? at h
  dsimp only at h
  split at h
  · cases h
    omega
  · cases h

theorem pos_of_itemMarker {n : Nat} (h : itemMarker? text = some n) : 0 < n := by
  unfold itemMarker? at h
  split at h
  · dsimp only at h
    split at h
    · cases h
      omega
    · cases h
  · cases h

theorem blockLevel_of_standsAlone {kind : Kind} (h : standsAlone kind = true) : isBlockLevel kind = true := by
  cases kind <;> first | rfl | exact h

theorem lays_paragraph (hd : deeper.Lays lib chain page text) (stop : Option Char) (hs : s.At text)
    (hhead : ∀ c ∈ s.rest.head?, isSpace c = false) :
    Lays lib chain page text s (paragraph page deeper stop s) ∧ BlockLevel (paragraph page deeper stop s).1 := by
  have hbody := hd.inline .paragraph stop s hs
  unfold paragraph
  rcases hr : deeper.inline .paragraph stop s with ⟨nodes, t⟩
  rw [hr] at hbody
  have htrim := hbody.trimSpaces
  have hnode : ∀ children, children ≠ [] → Lays lib chain page text s (children, t) → Lays lib chain page text s
      ([⟨.paragraph, ⟨page.file, s.pos, t.trimmedEnd s⟩, [], s.scope, 0, false, children⟩], t) := fun children hne h =>
    h.around rfl rfl (Cursor.lt_trimmedEnd h.reaches (h.lt hne) hhead) (Cursor.trimmedEnd_le _ _) rfl rfl (by simp)
  dsimp only
  split
  · exact ⟨.none hbody.reaches, nofun⟩
  · next only heq =>
    rw [heq] at htrim
    split
    · next halone =>
      refine ⟨htrim, fun n hn => ?_⟩
      rw [List.mem_singleton] at hn
      exact hn ▸ blockLevel_of_standsAlone halone
    · exact ⟨hnode _ (by simp) htrim, by simp [BlockLevel, isBlockLevel]⟩
  · next hne _ => exact ⟨hnode _ hne htrim, by simp [BlockLevel, isBlockLevel]⟩

theorem lays_block (hd : deeper.Lays lib chain page text) (stop : Option Char) (hs : s.At text) (hrest : s.rest ≠ [])
    (hhead : ∀ c ∈ s.rest.head?, isSpace c = false) :
    Lays lib chain page text s (block page deeper stop s) ∧ BlockLevel (block page deeper stop s).1 := by
  unfold block
  split
  · split
    · next level n _ hmarker =>
      have hpos := pos_of_headingMarker hmarker
      exact ⟨lays_lineBlock hd (by simp) _ hpos stop hs hrest hhead, by simp [BlockLevel, lineBlock, isBlockLevel]⟩
    · next n _ hmarker =>
      have hpos := pos_of_itemMarker hmarker
      exact ⟨lays_lineBlock hd (by simp) _ hpos stop hs hrest hhead, by simp [BlockLevel, lineBlock, isBlockLevel]⟩
    · exact lays_paragraph hd stop hs hhead
  · exact lays_paragraph hd stop hs hhead

theorem lays_blocksStep (hd : deeper.Lays lib chain page text) (stop : Option Char) (hs : s.At text) :
    Lays lib chain page text s (blocksStep page deeper stop s) ∧ BlockLevel (blocksStep page deeper stop s).1 := by
  have hskip := s.reaches_skipWhile isSpace
  have hhead := s.head_skipWhile isSpace
  unfold blocksStep
  dsimp only
  generalize s.skipWhile isSpace = v at hskip hhead
  split
  · exact ⟨.none hskip, nofun⟩
  · next c r hrest =>
    split
    · exact ⟨.none hskip, nofun⟩
    · obtain ⟨hblock, hlevel⟩ := lays_block hd stop (hskip.at hs) (by simp [hrest]) hhead
      rcases hr : block page deeper stop v with ⟨nodes, t⟩
      rw [hr] at hblock hlevel
      have hmoved : t.Reaches (if t.pos = v.pos then t.advance 1 else t) := by
        split
        · exact t.reaches_advance 1
        · exact .refl t
      have hnext := hblock.after hmoved
      obtain ⟨hmore, hmoreLevel⟩ := hd.blocks stop _ (hnext.reaches.at (hskip.at hs))
      refine ⟨(hnext.append hmore).before hskip, fun n hn => ?_⟩
      exact (List.mem_append.1 hn).elim (hlevel n) (hmoreLevel n)

/-- Readers with any fuel lay out what they read. -/
theorem deeper_lays (hp : page.Includes lib chain) (fuel : Nat) :
    Deeper.Lays lib chain page text ⟨blocks page fuel, inline page fuel⟩ := by
  induction fuel with
  | zero =>
    refine ⟨fun stop s hs => ⟨?_, nofun⟩, fun mode stop s hs => ?_⟩
    · exact .none (.refl s)
    · exact .none (.refl s)
  | succ fuel ih => exact ⟨fun stop s hs => lays_blocksStep ih stop hs, fun mode stop s hs => lays_inlineStep hp ih mode stop hs⟩

theorem lays_parse (hp : page.Includes lib chain) (text : Text) (scope : Scope) :
    Lays lib chain page text (Cursor.start text scope) (parse page text scope) ∧ BlockLevel (parse page text scope).1 :=
  (deeper_lays hp (fuelFor text)).blocks none _ (Cursor.at_start text scope)

end Proofreader.Markup
