import Proofreader.Proofs.Markup.Library
import Proofreader.Proofs.Markup.Reading

/-! Reading a text behind another. What stands in front of it ends with a line, and neither a mark nor the beginning of a
block looks back further. So the text is read as if it stood alone, with the places in its file moved, and so are the
files that it includes. -/

namespace Proofreader.Markup

/-- Text in front of that of a file, up to the end of a line. -/
structure Preface where
  file : FileId
  text : Text
  ends : text.getLast? = some '\n'

namespace Preface

/-- What stands in front of the text of a file. -/
def front (x : Preface) (file : FileId) : Text := if file = x.file then x.text else []

def location (x : Preface) (l : Location) : Location :=
  ⟨l.file, l.start + (x.front l.file).length, l.stop + (x.front l.file).length⟩

mutual

/-- The tree with the places in the file moved. -/
def node (x : Preface) : Node → Node
  | ⟨kind, l, text, scope, level, verbatim, children⟩ =>
    ⟨kind, x.location l, text, scope, level, verbatim, x.nodes children⟩

def nodes (x : Preface) : List Node → List Node
  | [] => []
  | n :: r => x.node n :: x.nodes r

end

def warning (x : Preface) (w : Warning) : Warning := { w with location := w.location.map x.location }

def inclusion (x : Preface) (got : Inclusion) : Inclusion := ⟨x.nodes got.nodes, got.warnings.map x.warning, got.asked⟩

def outcome (x : Preface) (got : Outcome) : Outcome := ⟨got.document.map x.node, got.warnings.map x.warning, got.asked⟩

/-- The same place in the text alone and behind what is in front of it. Literal brackets only count `inside` content
blocks. -/
structure Behind (x : Preface) (file : FileId) (inside : Prop) (s s' : Cursor) : Prop where
  past : s'.past = s.past ++ (x.front file).reverse
  rest : s'.rest = s.rest
  pos : s'.pos = s.pos + (x.front file).length
  scope : s'.scope = s.scope
  depth : inside → s'.depth = s.depth
  warnings : s'.warnings = s.warnings.map x.warning
  asked : s'.asked = s.asked

/-- Reading the text alone and behind what is in front of it comes to the same. -/
structure Follows (x : Preface) (file : FileId) (inside : Prop) (r r' : List Node × Cursor) : Prop where
  nodes : r'.1 = x.nodes r.1
  behind : x.Behind file inside r.2 r'.2

structure Readers (x : Preface) (file : FileId) (deeper deeper' : Deeper) : Prop where
  blocks : ∀ inside stop s s', (stop = some ']' → inside) → x.Behind file inside s s' →
    x.Follows file inside (deeper.blocks stop s) (deeper'.blocks stop s')
  inline : ∀ inside mode stop s s', (stop = some ']' → inside) → x.Behind file inside s s' →
    x.Follows file inside (deeper.inline mode stop s) (deeper'.inline mode stop s')

/-- The page of the text alone and the page with something in front include the same. -/
structure Pages (x : Preface) (page page' : Page) : Prop where
  file : page'.file = page.file
  fetch : ∀ path here scope, page'.fetch path (x.location here) scope = x.inclusion (page.fetch path here scope)

variable {x : Preface} {file : FileId} {inside : Prop} {s s' t t' : Cursor} {ns ms ns' ms' : List Node}

theorem nodes_eq (x : Preface) (ns : List Node) : x.nodes ns = ns.map x.node := by
  induction ns with
  | nil => rfl
  | cons n r ih => rw [nodes, ih, List.map_cons]

theorem nodes_append (x : Preface) (ns ms : List Node) : x.nodes (ns ++ ms) = x.nodes ns ++ x.nodes ms := by
  rw [nodes_eq, nodes_eq, nodes_eq, List.map_append]

theorem kind_node (x : Preface) (n : Node) : (x.node n).kind = n.kind := by
  cases n
  rfl

theorem children_node (x : Preface) (n : Node) : (x.node n).children = x.nodes n.children := by
  cases n
  rfl

theorem nodes_trimSpaces (x : Preface) (ns : List Node) : x.nodes (trimSpaces ns) = trimSpaces (x.nodes ns) := by
  have hspace : isSpaceNode ∘ x.node = isSpaceNode := by
    funext n
    simp only [Function.comp_apply, isSpaceNode, kind_node]
  simp only [nodes_eq, trimSpaces, List.dropWhile_map, ← List.map_reverse, hspace]

/-- What stands in front of a text ends with a line, or there is nothing. -/
theorem head?_reverse_front (x : Preface) (file : FileId) : ∀ c ∈ (x.front file).reverse.head?, c = '\n' := by
  intro c hc
  rw [List.head?_reverse] at hc
  unfold front at hc
  split at hc
  · rw [x.ends] at hc
    exact (Option.some.inj hc).symm
  · cases hc

theorem ne_bracket_of_mark? {before : Option Char} {t : Text} {c : Char} (h : Markup.mark? before t = some (.delimiter c)) :
    c ≠ ']' := by
  cases t with
  | nil => cases h
  | cons d r =>
    obtain ⟨-, rfl | rfl, -⟩ := spelled_of_mark? h
    · decide
    · decide

/-- Where content stops depends on brackets only in a content block. -/
theorem stopsAt_congr {stop : Option Char} (hstop : stop = some ']' → inside) {depth depth' : Nat}
    (hdepth : inside → depth' = depth) (c : Char) : stopsAt stop depth' c = stopsAt stop depth c := by
  unfold stopsAt
  by_cases hc : c = ']'
  · subst hc
    by_cases hs : stop = some ']'
    · rw [hdepth (hstop hs)]
    · simp [hs]
  · simp [hc]

/-- How far text reaches depends on nothing before it but a letter, and on brackets only in a content block. -/
theorem textRun_congr {before before' : Option Char} (hbefore : before'.any isLetter = before.any isLetter) (stop : Option Char)
    (hstop : stop = some ']' → inside) (first : Bool) {depth depth' : Nat} (hdepth : inside → depth' = depth) (t : Text) :
    (textRun stop before' first depth' t).1 = (textRun stop before first depth t).1 ∧
      (inside → (textRun stop before' first depth' t).2 = (textRun stop before first depth t).2) := by
  induction t generalizing before before' first depth depth' with
  | nil => exact ⟨rfl, hdepth⟩
  | cons c r ih =>
    have hnext := fun depth depth' (hdepth : inside → depth' = depth) =>
      ih (rfl : (some c).any isLetter = (some c).any isLetter) false hdepth
    have hcloses : (depth' = 0 ∧ stop = some ']') = (depth = 0 ∧ stop = some ']') :=
      propext (and_congr_left fun h => by rw [hdepth (hstop h)])
    simp only [textRun, mark?_congr hbefore, hcloses]
    split
    · exact ⟨rfl, hdepth⟩
    · split
      · obtain ⟨hlength, hend⟩ := hnext (depth + 1) (depth' + 1) fun h => by rw [hdepth h]
        exact ⟨congrArg (· + 1) hlength, hend⟩
      · split
        · split
          · exact ⟨rfl, hdepth⟩
          · obtain ⟨hlength, hend⟩ := hnext (depth - 1) (depth' - 1) fun h => by rw [hdepth h]
            exact ⟨congrArg (· + 1) hlength, hend⟩
        · split
          · exact ⟨rfl, hdepth⟩
          · obtain ⟨hlength, hend⟩ := hnext depth depth' hdepth
            exact ⟨congrArg (· + 1) hlength, hend⟩

namespace Behind

variable (h : x.Behind file inside s s')
include h

theorem advance (n : Nat) : x.Behind file inside (s.advance n) (s'.advance n) where
  past := by simp only [Cursor.advance, h.rest, h.past, List.append_assoc]
  rest := by simp only [Cursor.advance, h.rest]
  pos := by simp only [Cursor.advance, h.rest, h.pos]; omega
  scope := h.scope
  depth := h.depth
  warnings := h.warnings
  asked := h.asked

theorem skipWhile (p : Char → Bool) : x.Behind file inside (s.skipWhile p) (s'.skipWhile p) := by
  unfold Cursor.skipWhile
  rw [h.rest]
  exact h.advance _

/-- The bracket depth and the rule may be set, alike for both. -/
theorem under {outer : Prop} {depth depth' : Nat} (hdepth : outer → depth' = depth) {scope scope' : Scope}
    (hscope : scope' = scope) :
    x.Behind file outer { s with depth := depth, scope := scope } { s' with depth := depth', scope := scope' } :=
  ⟨h.past, h.rest, h.pos, hscope, hdepth, h.warnings, h.asked⟩

theorem letter : s'.past.head?.any isLetter = s.past.head?.any isLetter := by
  rw [h.past]
  cases s.past with
  | cons c r => rfl
  | nil =>
    cases hhead : (x.front file).reverse.head? with
    | none => rw [List.nil_append, hhead]; rfl
    | some c =>
      rw [List.nil_append, hhead, x.head?_reverse_front file c hhead]
      decide

theorem mark? : s'.mark? = s.mark? := by
  unfold Cursor.mark?
  rw [h.rest, mark?_congr h.letter]

theorem atLineStart : s'.atLineStart = s.atLineStart := by
  have hfront : ∀ c ∈ (x.front file).reverse.head?, decide (c ≠ '\n') = false := fun c hc => by
    simp [x.head?_reverse_front file c hc]
  unfold Cursor.atLineStart
  rw [h.past, takeWhile_append_of_head hfront]

theorem since (k : x.Behind file inside t t') : t'.since s' = t.since s := by
  rw [Cursor.since, Cursor.since, h.rest, h.pos, k.pos, Nat.add_sub_add_right]

theorem trimmedEnd (k : x.Behind file inside t t') (hr : s.Reaches t) :
    t'.trimmedEnd s' = t.trimmedEnd s + (x.front file).length := by
  obtain ⟨u, -, hpast, hpos⟩ := hr.passed
  have hlength : (t.past.take (t.pos - s.pos)).length ≤ t.pos := by
    have := List.length_take_le (t.pos - s.pos) t.past
    omega
  have hspaces := (List.takeWhile_prefix isSpace (l := t.past.take (t.pos - s.pos))).length_le
  have htake : t'.past.take (t'.pos - s'.pos) = t.past.take (t.pos - s.pos) := by
    rw [h.pos, k.pos, Nat.add_sub_add_right, k.past]
    refine List.take_append_of_le_length ?_
    rw [hpast, hpos, List.length_append, List.length_reverse]
    omega
  rw [Cursor.trimmedEnd, Cursor.trimmedEnd, htake, k.pos]
  omega

theorem arguments : s'.arguments.1 = s.arguments.1 ∧ x.Behind file inside s.arguments.2 s'.arguments.2 := by
  unfold Cursor.arguments
  rw [h.rest]
  split
  · exact ⟨rfl, h.advance _⟩
  · exact ⟨rfl, h⟩

theorem skipContent (fuel : Nat) : x.Behind file inside (s.skipContent fuel) (s'.skipContent fuel) := by
  induction fuel generalizing s s' with
  | zero => exact h
  | succ fuel ih =>
    unfold Cursor.skipContent
    rw [h.rest]
    split
    · exact ih (h.advance _)
    · exact h

theorem advanceIf (k : x.Behind file inside t t') : x.Behind file inside (if t.pos = s.pos then t.advance 1 else t)
    (if t'.pos = s'.pos then t'.advance 1 else t') := by
  have hpos : t'.pos = s'.pos ↔ t.pos = s.pos := by rw [h.pos, k.pos, Nat.add_right_cancel_iff]
  simp only [hpos]
  split
  · exact k.advance 1
  · exact k

theorem undelimit (d : Char) : x.Behind file inside (s.undelimit d) (s'.undelimit d) := by
  unfold Cursor.undelimit
  rw [h.rest]
  split
  · exact h.advance 1
  · exact h

theorem close {outer : Prop} (k : x.Behind file outer t t') : x.Behind file inside (t.close s) (t'.close s') := by
  have hnext := k.undelimit ']'
  exact hnext.under h.depth h.scope

end Behind

namespace Follows

theorem none (h : x.Behind file inside s s') : x.Follows file inside ([], s) ([], s') := ⟨rfl, h⟩

theorem append (hns : ns' = x.nodes ns) (k : x.Follows file inside (ms, t) (ms', t')) :
    x.Follows file inside (ns ++ ms, t) (ns' ++ ms', t') := by
  have hms : ms' = x.nodes ms := k.nodes
  refine ⟨?_, k.behind⟩
  rw [hns, hms]
  exact (x.nodes_append ns ms).symm

variable {page page' : Page} (hp : x.Pages page page')
include hp

theorem leaf (h : x.Behind page.file inside s s') (k : x.Behind page.file inside t t') (kind : Kind) (shown : Text) (verbatim : Bool) :
    x.Follows page.file inside ([leaf page kind s t shown verbatim], t) ([Markup.leaf page' kind s' t' shown verbatim], t') := by
  refine ⟨?_, k⟩
  unfold Markup.leaf
  rw [hp.file, h.pos, k.pos, k.scope]
  rfl

theorem branch (h : x.Behind page.file inside s s') (hns : ns' = x.nodes ns) (k : x.Behind page.file inside t t') (kind : Kind)
    (scope : Scope) :
    x.Follows page.file inside ([branch page kind s t scope ns], t) ([Markup.branch page' kind s' t' scope ns'], t') := by
  refine ⟨?_, k⟩
  unfold Markup.branch
  rw [hp.file, h.pos, k.pos, hns]
  rfl

end Follows

section Readers

variable {page page' : Page} {deeper deeper' : Deeper}

theorem follows_content {body body' : Reads}
    (hbody : ∀ t t', x.Behind file True t t' → x.Follows file True (body t) (body' t')) (h : x.Behind file inside s s') :
    x.Follows file inside (content body s) (content body' s') := by
  by_cases hopen : s.rest.head? = some '['
  · have hstart : x.Behind file True { s.advance 1 with depth := 0 } { s'.advance 1 with depth := 0 } :=
      (h.advance 1).under (fun _ => rfl) h.scope
    have hread := hbody _ _ hstart
    rw [content_open hopen, content_open (h.rest ▸ hopen)]
    exact ⟨hread.nodes, h.close hread.behind⟩
  · rw [content_none hopen, content_none (h.rest ▸ hopen)]
    exact .none h

section Calls

variable (hd : x.Readers page.file deeper deeper')
include hd

theorem follows_inlineContent (h : x.Behind page.file inside s s') :
    x.Follows page.file inside (inlineContent deeper s) (inlineContent deeper' s') := by
  refine follows_content (fun t t' ht => ?_) h
  have hinline := hd.inline True .bracket (some ']') t t' (fun _ => trivial) ht
  refine ⟨?_, hinline.behind⟩
  rw [nodes_trimSpaces]
  exact congrArg trimSpaces hinline.nodes

theorem follows_blockContent (h : x.Behind page.file inside s s') :
    x.Follows page.file inside (blockContent deeper s) (blockContent deeper' s') :=
  follows_content (fun t t' ht => hd.blocks True (some ']') t t' (fun _ => trivial) ht) h

omit hd in
theorem behind_setRule (h : x.Behind file inside s s') : x.Behind file inside (setRule s) (setRule s') := by
  have htabs := h.skipWhile isTab
  unfold setRule
  dsimp only
  rw [htabs.rest]
  split
  · exact htabs
  · next target _ =>
    obtain ⟨hargs, hafter⟩ := (htabs.advance target.length).arguments
    rw [hargs]
    split
    · exact hafter.under hafter.depth (by rw [hafter.scope])
    · exact hafter

variable (hp : x.Pages page page')
include hp

omit hd in
theorem follows_includeCall (h : x.Behind page.file inside s s') (k : x.Behind page.file inside t t') :
    x.Follows page.file inside (includeCall page s t) (includeCall page' s' t') := by
  have htabs := k.skipWhile isTab
  unfold includeCall
  dsimp only
  rw [htabs.rest]
  split
  · exact .none htabs
  · next path _ =>
    have hend := htabs.advance (path.length + 2)
    have hhere : (⟨page'.file, s'.pos, ((t'.skipWhile isTab).advance (path.length + 2)).pos⟩ : Location) =
        x.location ⟨page.file, s.pos, ((t.skipWhile isTab).advance (path.length + 2)).pos⟩ := by
      rw [hp.file, h.pos, hend.pos]
      rfl
    rw [hhere, hend.scope, hp.fetch]
    generalize page.fetch path _ _ = got
    refine Follows.branch hp h rfl ?_ .inclusion _
    refine ⟨hend.past, hend.rest, hend.pos, rfl, hend.depth, ?_, ?_⟩
    · exact (congrArg (· ++ _) hend.warnings).trans List.map_append.symm
    · exact congrArg (· ++ got.asked) hend.asked

theorem follows_textCall (h : x.Behind page.file inside s s') (k : x.Behind page.file inside t t') :
    x.Follows page.file inside ([(textCall page deeper s t).1], (textCall page deeper s t).2)
      ([(textCall page' deeper' s' t').1], (textCall page' deeper' s' t').2) := by
  obtain ⟨hargs, hafter⟩ := k.arguments
  unfold textCall
  generalize t.arguments = a at hargs hafter ⊢
  generalize t'.arguments = a' at hargs hafter ⊢
  obtain ⟨args, u⟩ := a
  obtain ⟨args', u'⟩ := a'
  dsimp only at hargs hafter ⊢
  rw [hargs, hafter.scope]
  have hcontent := follows_inlineContent hd
    (hafter.under hafter.depth (rfl : Scope.withArguments u.scope args = _))
  have hbranch := Follows.branch hp h hcontent.nodes hcontent.behind .lang (Scope.withArguments u.scope args)
  exact ⟨hbranch.nodes, hbranch.behind.under hbranch.behind.depth rfl⟩

omit hd in
theorem follows_plainCall (kind : Kind) (h : x.Behind page.file inside s s') (k : x.Behind page.file inside t t') :
    x.Follows page.file inside ([(plainCall page kind s t).1], (plainCall page kind s t).2)
      ([(plainCall page' kind s' t').1], (plainCall page' kind s' t').2) := by
  have hafter := k.arguments.2
  unfold plainCall
  dsimp only
  split
  · exact .leaf hp h hafter _ _ _
  · rw [h.since hafter]
    exact .leaf hp h hafter _ _ _
  · exact .leaf hp h hafter _ _ _

theorem follows_call (name : Text) (h : x.Behind page.file inside s s') (k : x.Behind page.file inside t t') :
    x.Follows page.file inside (call page deeper name s t) (call page' deeper' name s' t') := by
  obtain ⟨-, hargs⟩ := k.arguments
  unfold call
  split
  · exact .none (behind_setRule k)
  · exact .none (k.skipWhile _)
  · exact follows_includeCall hp h k
  · exact follows_textCall hd hp h k
  · rw [k.scope]
    have hcontent := follows_inlineContent hd hargs
    exact .branch hp h hcontent.nodes hcontent.behind _ _
  · rw [k.scope]
    have hcontent := follows_blockContent hd hargs
    exact .branch hp h hcontent.nodes hcontent.behind _ _
  · exact follows_plainCall hp _ h k
  · dsimp only
    rw [hargs.rest]
    exact .none (hargs.skipContent _)

end Calls

section Marks

variable (hp : x.Pages page page')
include hp

theorem follows_mathNode (inner : Nat) (h : x.Behind page.file inside s s') :
    x.Follows page.file inside ([(mathNode page inner s).1], (mathNode page inner s).2)
      ([(mathNode page' inner s').1], (mathNode page' inner s').2) := by
  unfold mathNode
  rw [h.rest]
  exact .leaf hp h (h.advance _) _ _ _

theorem follows_rawNode (h : x.Behind page.file inside s s') :
    x.Follows page.file inside ([(rawNode page s).1], (rawNode page s).2) ([(rawNode page' s').1], (rawNode page' s').2) := by
  unfold rawNode
  rw [h.rest]
  split
  · exact .leaf hp h (h.advance _) _ _ _
  · exact .leaf hp h (h.advance _) _ _ _

theorem follows_spaceNode (h : x.Behind page.file inside s s') :
    x.Follows page.file inside ([(spaceNode page s).1], (spaceNode page s).2) ([(spaceNode page' s').1], (spaceNode page' s').2) := by
  have hskip := h.skipWhile isSpace
  unfold spaceNode
  dsimp only
  rw [h.since hskip]
  exact .leaf hp h hskip _ _ _

theorem follows_textNode {stop : Option Char} (hstop : stop = some ']' → inside) (h : x.Behind page.file inside s s') :
    x.Follows page.file inside ([(textNode page stop s).1], (textNode page stop s).2)
      ([(textNode page' stop s').1], (textNode page' stop s').2) := by
  obtain ⟨hlength, hdepth⟩ := textRun_congr h.letter stop hstop true h.depth s.rest
  unfold textNode
  rw [h.rest]
  generalize textRun stop s.past.head? true s.depth s.rest = p at hlength hdepth ⊢
  generalize textRun stop s'.past.head? true s'.depth s.rest = p' at hlength hdepth ⊢
  obtain ⟨n, depth⟩ := p
  obtain ⟨n', depth'⟩ := p'
  obtain rfl : n' = n := hlength
  have hend : x.Behind page.file inside { s.advance (max n' 1) with depth := depth }
      { s'.advance (max n' 1) with depth := depth' } := (h.advance _).under hdepth h.scope
  dsimp only
  rw [h.since hend]
  exact .leaf hp h hend _ _ _

variable (hd : x.Readers page.file deeper deeper')
include hd

theorem follows_delimited (mode : Mode) {c : Char} (hc : c ≠ ']') (h : x.Behind page.file inside s s') :
    x.Follows page.file inside ([(delimited page deeper mode c s).1], (delimited page deeper mode c s).2)
      ([(delimited page' deeper' mode c s').1], (delimited page' deeper' mode c s').2) := by
  have hinner := hd.inline inside mode (some c) _ _ (fun he => absurd (Option.some.inj he) hc) (h.advance 1)
  unfold delimited
  dsimp only
  rw [h.scope]
  exact .branch hp h hinner.nodes (hinner.behind.undelimit c) _ _

theorem follows_marked (mode : Mode) {m : Mark} (hm : s.mark? = some m) (h : x.Behind page.file inside s s') :
    x.Follows page.file inside (marked page deeper mode m s) (marked page' deeper' mode m s') := by
  cases m with
  | escape c =>
    cases c with
    | none => exact .leaf hp h (h.advance 1) _ _ _
    | some c => exact .leaf hp h (h.advance 2) _ _ _
  | comment n => exact .none (h.advance n)
  | math inner => exact follows_mathNode hp inner h
  | raw => exact follows_rawNode hp h
  | delimiter c => exact follows_delimited hp hd mode (ne_bracket_of_mark? hm) h
  | citation key =>
    have hend := h.advance (key.length + 1)
    unfold marked
    dsimp only
    rw [h.since hend]
    exact .leaf hp h hend _ _ _
  | label n => exact .none (h.advance n)
  | call name => exact follows_call hd hp name h (h.advance _)

theorem follows_piece (mode : Mode) {stop : Option Char} (hstop : stop = some ']' → inside) (c : Char)
    (h : x.Behind page.file inside s s') :
    x.Follows page.file inside (piece page deeper mode stop c s) (piece page' deeper' mode stop c s') := by
  unfold piece
  rw [h.mark?]
  split
  · exact follows_spaceNode hp h
  · split
    · next m hm => exact follows_marked hp hd mode hm h
    · exact follows_textNode hp hstop h

theorem follows_inlineStep (mode : Mode) {stop : Option Char} (hstop : stop = some ']' → inside)
    (h : x.Behind page.file inside s s') :
    x.Follows page.file inside (inlineStep page deeper mode stop s) (inlineStep page' deeper' mode stop s') := by
  unfold inlineStep
  rw [h.rest]
  split
  · exact .none h
  · next c r _ =>
    rw [stopsAt_congr hstop h.depth]
    split
    · exact .none h
    · have hpiece := follows_piece hp hd mode hstop c h
      exact .append hpiece.nodes (hd.inline inside mode stop _ _ hstop hpiece.behind)

end Marks

section Blocks

variable (hp : x.Pages page page') (hd : x.Readers page.file deeper deeper') (hf : deeper.Forward)
variable {stop : Option Char} (hstop : stop = some ']' → inside)
include hp hd hf hstop

theorem follows_lineBlock (kind : Kind) (level : Int) (marker : Nat) (h : x.Behind page.file inside s s') :
    x.Follows page.file inside ([(lineBlock page deeper kind level marker stop s).1], (lineBlock page deeper kind level marker stop s).2)
      ([(lineBlock page' deeper' kind level marker stop s').1], (lineBlock page' deeper' kind level marker stop s').2) := by
  have hinner := hd.inline inside .line stop _ _ hstop (h.advance marker)
  have hreach := (s.reaches_advance marker).trans (hf.inline .line stop (s.advance marker))
  refine ⟨?_, hinner.behind⟩
  unfold lineBlock
  dsimp only
  rw [hp.file, h.pos, h.scope, h.trimmedEnd hinner.behind hreach, hinner.nodes, ← nodes_trimSpaces]
  rfl

theorem follows_paragraph (h : x.Behind page.file inside s s') :
    x.Follows page.file inside (paragraph page deeper stop s) (paragraph page' deeper' stop s') := by
  have hinner := hd.inline inside .paragraph stop _ _ hstop h
  have hend := h.trimmedEnd hinner.behind (hf.inline .paragraph stop s)
  rcases hr : deeper.inline .paragraph stop s with ⟨ns, t⟩
  rcases hr' : deeper'.inline .paragraph stop s' with ⟨ns', t'⟩
  rw [hr, hr'] at hinner hend
  have hns : ns' = x.nodes ns := hinner.nodes
  have hbehind : x.Behind page.file inside t t' := hinner.behind
  rw [paragraph, paragraph, hr, hr']
  dsimp only at hend ⊢
  rw [hns, ← nodes_trimSpaces, hp.file, h.pos, h.scope, hend]
  rcases trimSpaces ns with _ | ⟨n, _ | ⟨m, ms⟩⟩
  · exact .none hbehind
  · simp only [nodes, kind_node]
    split
    · exact ⟨rfl, hbehind⟩
    · exact ⟨rfl, hbehind⟩
  · exact ⟨rfl, hbehind⟩

theorem follows_block (h : x.Behind page.file inside s s') :
    x.Follows page.file inside (block page deeper stop s) (block page' deeper' stop s') := by
  have hparagraph := follows_paragraph hp hd hf hstop h
  unfold block
  rw [h.atLineStart, h.rest]
  split
  · split
    · exact follows_lineBlock hp hd hf hstop _ _ _ h
    · exact follows_lineBlock hp hd hf hstop _ _ _ h
    · exact hparagraph
  · exact hparagraph

theorem follows_blocksStep (h : x.Behind page.file inside s s') :
    x.Follows page.file inside (blocksStep page deeper stop s) (blocksStep page' deeper' stop s') := by
  have hskip := h.skipWhile isSpace
  unfold blocksStep
  dsimp only
  rw [hskip.rest]
  generalize s.skipWhile isSpace = v at hskip ⊢
  generalize s'.skipWhile isSpace = v' at hskip ⊢
  split
  · exact .none hskip
  · split
    · exact .none hskip
    · have hblock := follows_block hp hd hf hstop hskip
      have hmoved := hskip.advanceIf hblock.behind
      exact .append hblock.nodes (hd.blocks inside stop _ _ hstop hmoved)

end Blocks

/-- Readers with the same fuel come to the same. -/
theorem readers (hp : x.Pages page page') (fuel : Nat) :
    x.Readers page.file ⟨blocks page fuel, inline page fuel⟩ ⟨blocks page' fuel, inline page' fuel⟩ := by
  induction fuel with
  | zero => exact ⟨fun _ _ _ _ _ h => .none h, fun _ _ _ _ _ _ h => .none h⟩
  | succ fuel ih =>
    have hforward := deeper_forward page fuel
    exact ⟨fun inside stop s s' hstop h => follows_blocksStep hp ih hforward hstop h,
      fun inside mode stop s s' hstop h => follows_inlineStep hp ih mode hstop h⟩

/-- What is left of a text reads alike, whatever stands in front of it. -/
theorem follows_reader (hp : x.Pages page page') (stop : Option Char) (hstop : stop = some ']' → inside)
    (h : x.Behind page.file inside s s') :
    x.Follows page.file inside ((reader page).blocks stop s) ((reader page').blocks stop s') := by
  unfold reader
  dsimp only
  rw [h.rest]
  exact (readers hp (2 * s.rest.length + 2)).blocks inside stop s s' hstop h

end Readers

end Preface

/-- The library with a text for one file. -/
def Library.put (lib : Library) (file : FileId) (text : Text) : Library := { lib with files := (file, text) :: lib.files }

namespace Library

variable {lib : Library} {file : FileId} {text : Text}

theorem load_put (lib : Library) (file : FileId) (text : Text) : (lib.put file text).load file = some text := by
  simp [load, put]

theorem load_put_of_ne {other : FileId} (h : other ≠ file) : (lib.put file text).load other = lib.load other := by
  simp [load, put, List.lookup_cons, beq_false_of_ne h]

end Library

namespace Preface

variable {x : Preface} {file : FileId} {scope : Scope}

theorem front_of_ne (h : file ≠ x.file) : x.front file = [] := if_neg h

theorem behind_start (h : file ≠ x.file) (inside : Prop) (text : Text) (scope : Scope) :
    x.Behind file inside (Cursor.start text scope) (Cursor.start text scope) := by
  refine ⟨?_, rfl, ?_, rfl, fun _ => rfl, rfl, rfl⟩
  · rw [front_of_ne h]
    rfl
  · rw [front_of_ne h]
    rfl

theorem pages_of_readFile {lib lib' : Library} {levels : Nat} {chain : List FileId} (hresolve : lib'.resolve = lib.resolve)
    (h : ∀ other at? scope, lib'.readFile levels (file :: chain) other (at?.map x.location) scope =
      x.outcome (lib.readFile levels (file :: chain) other at? scope)) :
    x.Pages (lib.page levels chain file) (lib'.page levels chain file) := by
  refine ⟨rfl, fun path here scope => ?_⟩
  have hread := h (lib.resolve file path) (some here) scope
  rw [Option.map_some] at hread
  unfold Library.page
  dsimp only
  rw [hresolve, hread]
  cases hdocument : (lib.readFile levels (file :: chain) (lib.resolve file path) (some here) scope).document with
  | none => simp [outcome, inclusion, hdocument, nodes]
  | some n => simp [outcome, inclusion, hdocument, children_node]

/-- Nothing that is read while the file is open depends on its text, and of the places in it only that of the include is
reported. -/
theorem readFile_put (x : Preface) (lib : Library) (text text' : Text) {levels : Nat} {chain : List FileId} (hx : x.file ∈ chain)
    (file : FileId) (at? : Option Location) (scope : Scope) :
    (lib.put x.file text').readFile levels chain file (at?.map x.location) scope =
      x.outcome ((lib.put x.file text).readFile levels chain file at? scope) := by
  induction levels generalizing chain file at? scope with
  | zero =>
    by_cases hc : file ∈ chain
    · rw [Library.readFile_of_mem hc, Library.readFile_of_mem hc]
      rfl
    · rw [Library.readFile_of_missing hc (Or.inl rfl), Library.readFile_of_missing hc (Or.inl rfl)]
      rfl
  | succ levels ih =>
    by_cases hc : file ∈ chain
    · rw [Library.readFile_of_mem hc, Library.readFile_of_mem hc]
      rfl
    · have hne : file ≠ x.file := fun he => hc (he ▸ hx)
      have hload : ∀ text, (lib.put x.file text).load file = lib.load file := fun _ => Library.load_put_of_ne hne
      cases hl : lib.load file with
      | none =>
        rw [Library.readFile_of_missing hc (Or.inr ((hload text').trans hl)),
          Library.readFile_of_missing hc (Or.inr ((hload text).trans hl))]
        rfl
      | some own =>
        rw [Library.readFile_eq hc ((hload text').trans hl), Library.readFile_eq hc ((hload text).trans hl)]
        have hpages : x.Pages ((lib.put x.file text).page levels chain file) ((lib.put x.file text').page levels chain file) :=
          pages_of_readFile rfl (ih (List.mem_cons_of_mem file hx))
        have hread := follows_reader hpages none nofun (behind_start hne False own scope)
        rw [← parse_eq, ← parse_eq] at hread
        rw [hread.nodes, hread.behind.warnings, hread.behind.asked]
        simp [outcome, node, location, front_of_ne hne]

theorem pages_put (x : Preface) (lib : Library) (text text' : Text) (levels : Nat) (chain : List FileId) :
    x.Pages ((lib.put x.file text).page levels chain x.file) ((lib.put x.file text').page levels chain x.file) :=
  pages_of_readFile rfl (x.readFile_put lib text text' List.mem_cons_self)

end Preface

end Proofreader.Markup
