import Proofreader.Proofs.Markup.ContentBlock
import Proofreader.Proofs.Markup.Library
import Proofreader.Proofs.Markup.Reading

/-! Calls with a content block, at whose head a rule may stand. The node that a call is read as ends behind the bracket that
matches the opening one, and reading goes on there under the rules from before. -/

namespace Proofreader.Markup

/-! ### Arguments -/

/-- What may stand between parentheses. Strings and inner parentheses are closed, and a backslash takes the next character. -/
inductive Arguments : Text → Prop
  | nil : Arguments []
  | plain {c : Char} {r : Text} : c ∉ ['(', ')', '"', '\\'] → Arguments r → Arguments (c :: r)
  | escape {c : Char} {r : Text} : Arguments r → Arguments ('\\' :: c :: r)
  | string {x r : Text} : (∀ c ∈ x, c ∉ ['"', '\\']) → Arguments r → Arguments ('"' :: (x ++ '"' :: r))
  | group {a r : Text} : Arguments a → Arguments r → Arguments ('(' :: (a ++ ')' :: r))

theorem Arguments.plain_append {x r : Text} (hx : ∀ c ∈ x, c ∉ ['(', ')', '"', '\\']) (hr : Arguments r) :
    Arguments (x ++ r) := by
  induction x with
  | nil => exact hr
  | cons c x ih =>
    obtain ⟨hc, hx⟩ := List.forall_mem_cons.1 hx
    exact .plain hc (ih hx)

/-- Arguments in their parentheses, if there are any. -/
def parenthesized : Option Text → Text
  | none => []
  | some a => '(' :: (a ++ [')'])

section Parentheses

variable {page : Page} {mode : Mode} {stop : Option Char} {s : Cursor} {a t x : Text} {opening closing : Char}

/-- Characters that are skipped count. -/
theorem balancedLength_append (opening closing : Char) (depth : Nat) (x t : Text) :
    balancedLength opening closing x.length depth (x ++ t) = x.length + balancedLength opening closing 0 depth t := by
  induction x with
  | nil => rw [List.length_nil, List.nil_append, Nat.zero_add]
  | cons c x ih =>
    rw [List.length_cons, List.cons_append, balancedLength, ih]
    omega

theorem untilQuote?_append (hx : ∀ c ∈ x, c ∉ ['"', '\\']) (t : Text) : untilQuote? (x ++ '"' :: t) = some x.length := by
  induction x with
  | nil => rfl
  | cons c x ih =>
    obtain ⟨hc, hx⟩ := List.forall_mem_cons.1 hx
    have hne : ∀ d ∈ ['"', '\\'], c ≠ d := fun d hd he => hc (he ▸ hd)
    rw [List.cons_append, untilQuote?_cons hne, ih hx]
    rfl

/-- Behind closed arguments as many parentheses are open as before. -/
theorem Arguments.balancedLength_append (h : Arguments a) (depth : Nat) (t : Text) :
    balancedLength '(' ')' 0 (depth + 1) (a ++ t) = a.length + balancedLength '(' ')' 0 (depth + 1) t := by
  induction h generalizing depth t with
  | nil => rw [List.length_nil, List.nil_append, Nat.zero_add]
  | @plain c r hc _ ih =>
    simp only [List.mem_cons, List.not_mem_nil, or_false, not_or] at hc
    obtain ⟨hopen, hclose, hquote, hescape⟩ := hc
    rw [List.cons_append, balancedLength, if_neg hquote, if_neg hescape, if_neg hopen, if_neg hclose, ih, List.length_cons]
    omega
  | @escape c r _ ih =>
    rw [List.cons_append, List.cons_append, balancedLength, if_neg (by decide), if_pos rfl, balancedLength, ih,
      List.length_cons, List.length_cons]
    omega
  | @string x r hx _ ih =>
    have hskip := Markup.balancedLength_append '(' ')' (depth + 1) (x ++ ['"']) (r ++ t)
    rw [List.append_assoc, List.singleton_append, List.length_append, List.length_singleton] at hskip
    rw [List.cons_append, List.append_assoc, List.cons_append, balancedLength, if_pos rfl, untilQuote?_append hx]
    dsimp only
    rw [hskip, ih]
    simp only [List.length_cons, List.length_append]
    omega
  | @group a r _ _ ih ih' =>
    rw [List.cons_append, List.append_assoc, List.cons_append, balancedLength, if_neg (by decide), if_neg (by decide),
      if_pos rfl, ih (depth + 1), balancedLength, if_neg (by decide), if_neg (by decide), if_neg (by decide), if_pos rfl,
      if_neg (by omega), Nat.add_sub_cancel, ih' depth]
    simp only [List.length_cons, List.length_append]
    omega

theorem Cursor.arguments_parenthesized {args : Option Text} (hs : s.rest = parenthesized args ++ t)
    (hargs : ∀ a ∈ args, Arguments a) (hnone : args = none → t.head? ≠ some '(') :
    s.arguments = (args.getD [], s.advance (parenthesized args).length) := by
  cases args with
  | none =>
    unfold arguments
    split
    · next r hr =>
      have hhead : t.head? = some '(' := congrArg List.head? (hs.symm.trans hr)
      exact absurd hhead (hnone rfl)
    · rfl
  | some a =>
    have hrest : s.rest = '(' :: (a ++ ')' :: t) := by
      rw [hs]
      simp [parenthesized]
    have hlength : balancedLength '(' ')' 0 0 s.rest = a.length + 2 := by
      rw [hrest, balancedLength, if_neg (by decide), if_neg (by decide), if_pos rfl,
        (hargs a rfl).balancedLength_append 0, balancedLength, if_neg (by decide), if_neg (by decide), if_neg (by decide),
        if_pos rfl, if_pos (Nat.le_refl 1)]
    unfold arguments
    rw [hlength, hrest]
    simp [parenthesized]

/-! ### Rules for text -/

/-- A rule for text, with these arguments. -/
def textRule (a : Text) : Text := "#set text".toList ++ parenthesized (some a)

/-- A rule for text shows nothing; what is read behind it is read under it. -/
theorem inline_textRule (page : Page) (mode : Mode) (hs : s.rest = textRule a ++ t) (ha : Arguments a)
    (hstop : stop ≠ some '#') : (reader page).inline mode stop s = (reader page).inline mode stop
      { s.advance (textRule a).length with scope := Scope.withArguments s.scope a } := by
  have hrest : s.rest = '#' :: ("set text".toList ++ parenthesized (some a) ++ t) := hs
  have hmark : s.mark? = some (.call "set".toList) := by
    rw [Cursor.mark?, hrest]
    rfl
  have hblank : (s.advance 4).skipWhile isTab = s.advance 5 := by
    have htake : (s.advance 4).rest.takeWhile isTab = [' '] := by
      change (s.rest.drop 4).takeWhile isTab = [' ']
      rw [hrest]
      rfl
    rw [Cursor.skipWhile, htake]
    exact s.advance_advance 4 1
  have hname : name? (s.advance 5).rest = some "text".toList := by
    change name? (s.rest.drop 5) = some "text".toList
    rw [hrest]
    rfl
  have hargs : (s.advance 9).arguments = (a, (s.advance 9).advance (parenthesized (some a)).length) := by
    have hbehind : (s.advance 9).rest = parenthesized (some a) ++ t := by
      change s.rest.drop 9 = parenthesized (some a) ++ t
      rw [hrest]
      rfl
    exact Cursor.arguments_parenthesized hbehind (fun b hb => Option.some.inj hb ▸ ha) fun he => by cases he
  have hset : setRule (s.advance 4) = { s.advance (textRule a).length with scope := Scope.withArguments s.scope a } := by
    have hlength : (textRule a).length = 9 + (parenthesized (some a)).length := List.length_append
    unfold setRule
    dsimp only
    rw [hblank, hname]
    have htext : (s.advance 5).advance "text".toList.length = s.advance 9 := s.advance_advance 5 4
    dsimp only
    rw [htext, hargs, if_pos rfl, hlength, ← s.advance_advance]
    rfl
  have hstops : (stopsAt stop s.depth '#' || (isSpace '#' && endsAtSpace mode s.rest)) = false := by
    simp [stopsAt, hstop, isSpace]
  have hpiece : piece page (reader page) mode stop '#' s = ([], setRule (s.advance 4)) := by
    unfold piece
    rw [if_neg (by decide), hmark]
    rfl
  rw [reader_inline, inlineStep_cons page _ mode stop hrest, hstops, if_neg Bool.false_ne_true, hpiece, hset]
  rfl

end Parentheses

/-! ### Content under a rule -/

variable {page : Page} {file : FileId} {s u : Cursor} {w t : Text} {a b d : Nat} {n : Node} {ns : List Node}

/-- A rule for text at the head of a content block, behind whitespace. -/
structure HeadRule where
  blank : Text
  args : Text
  spaces : ∀ c ∈ blank, isSpace c = true
  closed : Arguments args

def HeadRule.source (rule : HeadRule) : Text := rule.blank ++ textRule rule.args

/-- What stands at the head of a content block, if it is a rule. -/
def ruleSource (rule : Option HeadRule) : Text := rule.elim [] HeadRule.source

/-- The scope that a rule at the head leaves. -/
def underRule (rule : Option HeadRule) (scope : Scope) : Scope :=
  rule.elim scope fun rule => Scope.withArguments scope rule.args

/-- Functions that a content block belongs to. -/
inductive Holder where
  | strong
  | emph
  | block
  | text
deriving DecidableEq

namespace Holder

def name : Holder → Text
  | strong => "strong".toList
  | emph => "emph".toList
  | block => "block".toList
  | text => "text".toList

/-- The kind of the node that is read. -/
def kind : Holder → Kind
  | strong => .strong
  | emph => .emph
  | block => .block
  | text => .lang

theorem name?_name (holder : Holder) : name? holder.name = some holder.name := by
  cases holder with
  | strong => rfl
  | emph => rfl
  | block => rfl
  | text => rfl

end Holder

/-- A call with a content block of words, whitespace and balanced brackets, at whose head a rule may stand. -/
structure ContentCall where
  holder : Holder
  args : Option Text
  rule : Option HeadRule
  body : Text
  closed : ∀ a ∈ args, Arguments a
  plain : ∀ c ∈ body, c ∉ markCharacters
  balanced : bracketDepth 0 body = some 0

namespace ContentCall

/-- What stands before the bracket. -/
def head (c : ContentCall) : Text := '#' :: (c.holder.name ++ parenthesized c.args)

/-- What stands between the brackets. -/
def content (c : ContentCall) : Text := ruleSource c.rule ++ c.body

def source (c : ContentCall) : Text := c.head ++ '[' :: (c.content ++ [']'])

/-- The scope of the call's own arguments. -/
def own (c : ContentCall) (outer : Scope) : Scope :=
  if c.holder = .text then Scope.withArguments outer (c.args.getD []) else outer

/-- The scope of what stands behind the rule. -/
def inner (c : ContentCall) (outer : Scope) : Scope := underRule c.rule (c.own outer)

end ContentCall

/-- Behind a rule at the head of the content, and under it. -/
def Cursor.under (s : Cursor) (rule : Option HeadRule) : Cursor :=
  { s.advance (ruleSource rule).length with scope := underRule rule s.scope }

theorem trimSpaces_append (h : ∀ n ∈ ns, isSpaceNode n = true) (ms : List Node) : trimSpaces (ns ++ ms) = trimSpaces ms := by
  rw [trimSpaces, List.dropWhile_append_of_pos h]
  rfl

/-- Whitespace at the head of inline content shows a space at most. -/
theorem inline_blank (page : Page) (hrest : s.rest = w ++ t) (hspaces : ∀ c ∈ w, isSpace c = true)
    (ht : ∃ c ∈ t.head?, isSpace c = false) : ∃ ns, (∀ n ∈ ns, isSpaceNode n = true) ∧
      (reader page).inline .bracket (some ']') s = (ns ++ ((reader page).inline .bracket (some ']') (s.advance w.length)).1,
        ((reader page).inline .bracket (some ']') (s.advance w.length)).2) := by
  obtain ⟨d, hd, hword⟩ := ht
  have hnext : ∀ c ∈ t.head?, isSpace c = false := fun c hc => Option.mem_unique hd hc ▸ hword
  cases w with
  | nil => exact ⟨[], nofun, rfl⟩
  | cons c w =>
    have hc : isSpace c = true := hspaces c List.mem_cons_self
    have hgo : (stopsAt (some ']') s.depth c || (isSpace c && endsAtSpace .bracket s.rest)) = false := by
      have hne : c ≠ ']' := fun he => by
        rw [he] at hc
        cases hc
      have hafter : s.rest.dropWhile isSpace = t := by
        rw [hrest, dropWhile_append_of_head hnext, List.dropWhile_eq_nil_iff.2 hspaces, List.nil_append]
      have hsome : t ≠ [] := fun he => by
        rw [he] at hd
        cases hd
      simp [stopsAt, Ne.symm hne, endsAtSpace, hafter, hsome]
    have hnode : ∃ n, isSpaceNode n = true ∧
        piece page (reader page) .bracket (some ']') c s = ([n], s.advance (c :: w).length) := by
      have htake : s.rest.takeWhile isSpace = c :: w := by
        rw [hrest, takeWhile_append_of_head hnext, List.takeWhile_eq_self_iff.2 hspaces]
      unfold piece spaceNode Cursor.skipWhile
      rw [if_pos hc, htake]
      exact ⟨_, rfl, rfl⟩
    obtain ⟨n, hn, hpiece⟩ := hnode
    refine ⟨[n], fun m hm => List.mem_singleton.1 hm ▸ hn, ?_⟩
    rw [reader_inline, inlineStep_cons page _ _ _ hrest, hgo, if_neg Bool.false_ne_true, hpiece]

theorem inline_headRule (page : Page) (mode : Mode) (rule : HeadRule) (hrest : s.rest = rule.source ++ t) :
    (reader page).inline mode (some ']') (s.advance rule.blank.length) =
      (reader page).inline mode (some ']') (s.under (some rule)) := by
  have hbehind : (s.advance rule.blank.length).rest = textRule rule.args ++ t := by
    change s.rest.drop rule.blank.length = _
    rw [hrest, HeadRule.source, List.append_assoc, List.drop_left]
  have hunder : s.under (some rule) = { (s.advance rule.blank.length).advance (textRule rule.args).length with
      scope := Scope.withArguments s.scope rule.args } := by
    rw [s.advance_advance, ← List.length_append]
    rfl
  rw [inline_textRule page mode hbehind rule.closed (by decide), hunder]
  rfl

/-- Inline content passes over a rule at its head. -/
theorem inline_under (page : Page) (rule : Option HeadRule) (hrest : s.rest = ruleSource rule ++ t) :
    ∃ ns, (∀ n ∈ ns, isSpaceNode n = true) ∧ (reader page).inline .bracket (some ']') s =
      (ns ++ ((reader page).inline .bracket (some ']') (s.under rule)).1,
        ((reader page).inline .bracket (some ']') (s.under rule)).2) := by
  cases rule with
  | none => exact ⟨[], nofun, rfl⟩
  | some rule =>
    have hsource : s.rest = rule.source ++ t := hrest
    obtain ⟨ns, hns, hread⟩ := inline_blank page (t := textRule rule.args ++ t)
      (by rw [hsource, HeadRule.source, List.append_assoc]) rule.spaces ⟨'#', rfl, rfl⟩
    rw [inline_headRule page _ rule hsource] at hread
    exact ⟨ns, hns, hread⟩

namespace Cursor

theorem rest_under {rule : Option HeadRule} (hrest : s.rest = ruleSource rule ++ t) : (s.under rule).rest = t := by
  change s.rest.drop (ruleSource rule).length = t
  rw [hrest, List.drop_left]

theorem advance_under (s : Cursor) (rule : Option HeadRule) (w : Text) : { (s.under rule).advance w.length with depth := d } =
    { s.advance (ruleSource rule ++ w).length with depth := d, scope := underRule rule s.scope } := by
  rw [List.length_append, ← s.advance_advance]
  rfl

theorem close_of_head (h : u.rest.head? = some ']') (s : Cursor) :
    u.close s = { u.advance 1 with depth := s.depth, scope := s.scope } := by
  rw [close, if_pos h]

/-- Behind its content a block is closed by its bracket. -/
theorem close_advance (hrest : s.rest = '[' :: (w ++ ']' :: t)) (scope : Scope) :
    close { ({ s.advance 1 with depth := 0 } : Cursor).advance w.length with depth := 0, scope := scope } s =
      s.advance (w.length + 2) := by
  have hbehind : ((s.advance 1).advance w.length).rest.head? = some ']' := by
    change ((s.rest.drop 1).drop w.length).head? = some ']'
    rw [hrest, List.drop_one, List.tail_cons, List.drop_left]
    rfl
  have hadvance : s.advance (w.length + 2) = ((s.advance 1).advance w.length).advance 1 := by
    rw [s.advance_advance, s.advance_advance]
    congr 1
    omega
  calc close { ({ s.advance 1 with depth := 0 } : Cursor).advance w.length with depth := 0, scope := scope } s
      = { ((s.advance 1).advance w.length).advance 1 with depth := s.depth, scope := s.scope } :=
        close_of_head (by exact hbehind) s
    _ = s.advance (w.length + 2) := by
      rw [hadvance]
      rfl

end Cursor

section Content

variable {rule : Option HeadRule} (page : Page) (hzero : s.depth = 0)
  (hrest : s.rest = ruleSource rule ++ (w ++ ']' :: t)) (hplain : ∀ c ∈ w, c ∉ markCharacters)
  (hbalanced : bracketDepth 0 w = some 0)
include hzero hrest hplain hbalanced

theorem inline_content : ∃ ns, (reader page).inline .bracket (some ']') s =
      (ns, { (s.under rule).advance w.length with depth := 0 }) ∧
    Renders page.file (s.under rule).scope (s.under rule).pos ((s.under rule).pos + w.length) w (trimSpaces ns) := by
  obtain ⟨before, hbefore, hread⟩ := inline_under page rule hrest
  obtain ⟨p, v, d, ns, rfl, hp, hinner, hns, hend⟩ := passesInline page (Or.inl rfl) (Cursor.rest_under hrest) hplain
    (hzero.symm ▸ hbalanced)
  obtain rfl : v = [] := hend.resolve_right nofun
  rw [List.append_nil] at *
  obtain rfl : 0 = d := Option.some.inj (hbalanced.symm.trans (hzero ▸ hp))
  refine ⟨before ++ ns, by rw [hread, hinner], ?_⟩
  rw [trimSpaces_append hbefore]
  exact hns.trimSpaces

theorem blocks_content (hleads : NoBracketLeads w) : ∃ ns, (reader page).blocks (some ']') s =
      (ns, { (s.under rule).advance w.length with depth := 0 }) ∧
    Renders page.file (s.under rule).scope s.pos ((s.under rule).pos + w.length) w ns := by
  have hbefore : (s.under rule).BeforeBlocks w t :=
    ⟨Cursor.rest_under hrest, hplain, hzero.symm ▸ hbalanced, hleads⟩
  cases rule with
  | none => exact passesBlocks page hbefore (head?_dropWhile_of_balanced hbalanced)
  | some rule =>
    have hsource : s.rest = rule.blank ++ (textRule rule.args ++ (w ++ ']' :: t)) := by
      rw [hrest]
      exact List.append_assoc rule.blank _ _
    have hbehind : (s.advance rule.blank.length).rest = textRule rule.args ++ (w ++ ']' :: t) := by
      change s.rest.drop rule.blank.length = _
      rw [hsource, List.drop_left]
    have hhead : (s.advance rule.blank.length).rest =
        '#' :: ("set text".toList ++ parenthesized (some rule.args) ++ (w ++ ']' :: t)) := hbehind
    have hskip : s.skipWhile isSpace = s.advance rule.blank.length := by
      have hnext : ∀ c ∈ (textRule rule.args ++ (w ++ ']' :: t)).head?, isSpace c = false := fun c hc =>
        Option.some.inj hc ▸ rfl
      rw [Cursor.skipWhile, hsource, takeWhile_append_of_head hnext, List.takeWhile_eq_self_iff.2 rule.spaces]
    have hpos : (s.advance rule.blank.length).pos = s.pos + rule.blank.length := Cursor.pos_passed hsource
    have hunder : (s.under (some rule)).pos = s.pos + rule.source.length := Cursor.pos_passed hrest
    have hlength : rule.source.length = rule.blank.length + (textRule rule.args).length := List.length_append
    rw [← blocks_skipWhile, hskip]
    obtain ⟨ns, hread, hns⟩ := blocks_passed hhead rfl (by decide) (by rw [hhead]; rfl) (by rw [hhead]; rfl) (by omega) hbefore
      (inline_headRule page .paragraph rule hrest) fun p u d hw hmoved hu hfirst => passesBlocks page hu hfirst
    exact ⟨ns, hread, hns.widen (by omega) (Nat.le_refl _)⟩

end Content

/-- Reading between the brackets takes the content and no more. -/
theorem content_closed {body : Reads} {rule : Option HeadRule} (hrest : s.rest = '[' :: ((ruleSource rule ++ w) ++ ']' :: t))
    (hbody : body { s.advance 1 with depth := 0 } =
      (ns, { (Cursor.under { s.advance 1 with depth := 0 } rule).advance w.length with depth := 0 })) :
    content body s = (ns, s.advance ((ruleSource rule ++ w).length + 2)) := by
  rw [content_open (by rw [hrest]; rfl), hbody, Cursor.advance_under]
  exact congrArg (ns, ·) (Cursor.close_advance hrest _)

section Closed

variable {rule : Option HeadRule} (page : Page)
  (hrest : s.rest = '[' :: ((ruleSource rule ++ w) ++ ']' :: t)) (hplain : ∀ c ∈ w, c ∉ markCharacters)
  (hbalanced : bracketDepth 0 w = some 0)
include hrest

theorem rest_open : ({ s.advance 1 with depth := 0 } : Cursor).rest = ruleSource rule ++ (w ++ ']' :: t) := by
  change s.rest.drop 1 = _
  rw [hrest, List.drop_one, List.tail_cons, List.append_assoc]

theorem pos_open : ({ s.advance 1 with depth := 0 } : Cursor).pos = s.pos + 1 ∧
    (Cursor.under { s.advance 1 with depth := 0 } rule).pos = s.pos + 1 + (ruleSource rule).length := by
  have hopen : ({ s.advance 1 with depth := 0 } : Cursor).pos = s.pos + 1 := Cursor.pos_passed (w := ['[']) hrest
  exact ⟨hopen, hopen ▸ Cursor.pos_passed (rest_open hrest)⟩

include hplain hbalanced

theorem inlineContent_closed : ∃ ns,
    inlineContent (reader page) s = (ns, s.advance ((ruleSource rule ++ w).length + 2)) ∧
    Renders page.file (underRule rule s.scope) (s.pos + 1) (s.pos + 1 + (ruleSource rule ++ w).length) w ns := by
  obtain ⟨ns, hread, hns⟩ := inline_content page rfl (rest_open hrest) hplain hbalanced
  obtain ⟨-, hpos⟩ := pos_open hrest
  rw [hpos, Nat.add_assoc (s.pos + 1), ← List.length_append] at hns
  refine ⟨trimSpaces ns, content_closed hrest ?_, hns.widen (Nat.le_add_right _ _) (Nat.le_refl _)⟩
  rw [hread]

theorem blockContent_closed (hleads : NoBracketLeads w) : ∃ ns,
    blockContent (reader page) s = (ns, s.advance ((ruleSource rule ++ w).length + 2)) ∧
    Renders page.file (underRule rule s.scope) (s.pos + 1) (s.pos + 1 + (ruleSource rule ++ w).length) w ns := by
  obtain ⟨ns, hread, hns⟩ := blocks_content page rfl (rest_open hrest) hplain hbalanced hleads
  obtain ⟨hopen, hpos⟩ := pos_open hrest
  rw [hpos, hopen, Nat.add_assoc (s.pos + 1), ← List.length_append] at hns
  exact ⟨ns, content_closed hrest hread, hns⟩

end Closed

theorem name?_append (hw : name? w = some w) (ht : ∀ c ∈ t.head?, isNamePart c = false) : name? (w ++ t) = some w := by
  cases w with
  | nil => cases hw
  | cons c w =>
    rw [List.cons_append, name?, takeWhile_append_of_head ht]
    exact hw

section Callee

variable {v t : Cursor} {name args : Text} {kind : Kind} (page : Page) (u : Cursor)

theorem call_styled (hcallee : Callee.ofName name = .styled kind)
    (hcontent : inlineContent (reader page) s.arguments.2 = (ns, t)) :
    call page (reader page) name u s = ([branch page kind u t s.scope ns], t) := by
  unfold call
  rw [hcallee]
  dsimp only
  rw [hcontent]

theorem call_block (hcallee : Callee.ofName name = .block) (hcontent : blockContent (reader page) s.arguments.2 = (ns, t)) :
    call page (reader page) name u s = ([branch page .block u t s.scope ns], t) := by
  unfold call
  rw [hcallee]
  dsimp only
  rw [hcontent]

theorem call_text (hcallee : Callee.ofName name = .text) (hargs : s.arguments = (args, v))
    (hcontent : inlineContent (reader page) { v with scope := Scope.withArguments v.scope args } = (ns, t)) :
    call page (reader page) name u s =
      ([branch page .lang u t (Scope.withArguments v.scope args) ns], { t with scope := v.scope }) := by
  unfold call
  rw [hcallee]
  dsimp only [textCall]
  rw [hargs]
  dsimp only
  rw [hcontent]

end Callee

namespace ContentCall

/-- The node that a call is read as. It ends behind the closing bracket and stands for the whole body, under the rule at the
head. -/
structure ReadAs (c : ContentCall) (file : FileId) (outer : Scope) (start : Nat) (n : Node) : Prop where
  kind : n.kind = c.holder.kind
  location : n.location = ⟨file, start, start + c.source.length⟩
  scope : n.scope = c.own outer
  renders : Renders file (c.inner outer) (start + c.head.length + 1) (start + c.head.length + 1 + c.content.length) c.body
    n.children

variable (c : ContentCall)

theorem source_append (t : Text) :
    c.source ++ t = '#' :: (c.holder.name ++ (parenthesized c.args ++ '[' :: (c.content ++ ']' :: t))) := by
  simp [source, head]

theorem length_source : c.source.length = c.head.length + (c.content.length + 2) := by
  simp [source]

/-- The name of a call ends at its parenthesis or bracket. -/
theorem mark?_source (hrest : s.rest = c.source ++ t) : s.mark? = some (.call c.holder.name) := by
  have hstop : ∀ d ∈ (parenthesized c.args ++ '[' :: (c.content ++ ']' :: t)).head?, isNamePart d = false := fun d hd => by
    cases hargs : c.args with
    | none =>
      rw [hargs] at hd
      exact Option.some.inj hd ▸ rfl
    | some a =>
      rw [hargs] at hd
      exact Option.some.inj hd ▸ rfl
  rw [Cursor.mark?, hrest, source_append]
  change (name? _).map Mark.call = _
  rw [name?_append c.holder.name?_name hstop]
  rfl

/-- Behind the head of a call its content block opens. -/
theorem arguments_head (hrest : s.rest = c.source ++ t) :
    (s.advance (c.holder.name.length + 1)).arguments = (c.args.getD [], s.advance c.head.length) := by
  have hbehind : (s.advance (c.holder.name.length + 1)).rest = parenthesized c.args ++ '[' :: (c.content ++ ']' :: t) := by
    change s.rest.drop (c.holder.name.length + 1) = _
    rw [hrest, source_append, List.drop_succ_cons, List.drop_left]
  have hhead : c.head.length = c.holder.name.length + 1 + (parenthesized c.args).length := by
    simp [head]
    omega
  rw [Cursor.arguments_parenthesized hbehind c.closed fun _ => nofun, s.advance_advance, hhead]

theorem readAs_branch (page : Page) (ns : List Node) (hrest : s.rest = c.source ++ t)
    (hns : Renders page.file (c.inner s.scope) (s.pos + c.head.length + 1) (s.pos + c.head.length + 1 + c.content.length)
      c.body ns) :
    c.ReadAs page.file s.scope s.pos (branch page c.holder.kind s (s.advance c.source.length) (c.own s.scope) ns) := by
  refine ⟨rfl, ?_, rfl, hns⟩
  rw [← Cursor.pos_passed hrest]
  rfl

/-- A call is read as one node, and reading goes on behind its closing bracket as before the call. -/
theorem call_eq (page : Page) (hrest : s.rest = c.source ++ t) (hleads : c.holder = .block → NoBracketLeads c.body) :
    ∃ n, c.ReadAs page.file s.scope s.pos n ∧
      call page (reader page) c.holder.name s (s.advance (c.holder.name.length + 1)) = ([n], s.advance c.source.length) := by
  have hargs := c.arguments_head hrest
  have hopen : ∀ scope, ({ s.advance c.head.length with scope := scope } : Cursor).rest = '[' :: (c.content ++ ']' :: t) := by
    intro scope
    change s.rest.drop c.head.length = _
    rw [hrest, source, List.append_assoc, List.drop_left, List.cons_append, List.append_assoc, List.singleton_append]
  have hpos : (s.advance c.head.length).pos = s.pos + c.head.length :=
    Cursor.pos_passed (hrest.trans (List.append_assoc c.head _ t))
  have hend : (s.advance c.head.length).advance (c.content.length + 2) = s.advance c.source.length := by
    rw [s.advance_advance, length_source]
  have hinline : ∀ scope, ∃ ns, inlineContent (reader page) { s.advance c.head.length with scope := scope } =
      (ns, { s.advance c.source.length with scope := scope }) ∧ Renders page.file (underRule c.rule scope)
        (s.pos + c.head.length + 1) (s.pos + c.head.length + 1 + c.content.length) c.body ns := fun scope => by
    rw [← hpos, ← hend]
    exact inlineContent_closed page (hopen scope) c.plain c.balanced
  have hblocks : c.holder = .block → ∃ ns, blockContent (reader page) (s.advance c.head.length) =
      (ns, s.advance c.source.length) ∧ Renders page.file (underRule c.rule s.scope) (s.pos + c.head.length + 1)
        (s.pos + c.head.length + 1 + c.content.length) c.body ns := fun hholder => by
    rw [← hpos, ← hend]
    exact blockContent_closed page (hopen s.scope) c.plain c.balanced (hleads hholder)
  have hread := fun ns => c.readAs_branch page ns hrest
  rw [inner, own] at hread
  cases hholder : c.holder with
  | strong =>
    rw [hholder] at hargs hread
    obtain ⟨ns, hcontent, hns⟩ := hinline s.scope
    exact ⟨_, hread ns hns, call_styled page s rfl (hargs ▸ hcontent)⟩
  | emph =>
    rw [hholder] at hargs hread
    obtain ⟨ns, hcontent, hns⟩ := hinline s.scope
    exact ⟨_, hread ns hns, call_styled page s rfl (hargs ▸ hcontent)⟩
  | block =>
    rw [hholder] at hargs hread
    obtain ⟨ns, hcontent, hns⟩ := hblocks hholder
    exact ⟨_, hread ns hns, call_block page s rfl (hargs ▸ hcontent)⟩
  | text =>
    rw [hholder] at hargs hread
    obtain ⟨ns, hcontent, hns⟩ := hinline (Scope.withArguments s.scope (c.args.getD []))
    refine ⟨_, hread ns hns, ?_⟩
    rw [call_text page s rfl hargs hcontent]
    rfl

/-- In the midst of inline content a call is one node, and what stands behind its closing bracket is read as if the call did
not stand before. -/
theorem inline_eq {stop : Option Char} (page : Page) (mode : Mode) (hstop : stop ≠ some '#') (hrest : s.rest = c.source ++ t)
    (hleads : c.holder = .block → NoBracketLeads c.body) : ∃ n, c.ReadAs page.file s.scope s.pos n ∧
      (reader page).inline mode stop s = (n :: ((reader page).inline mode stop (s.advance c.source.length)).1,
        ((reader page).inline mode stop (s.advance c.source.length)).2) := by
  obtain ⟨n, hn, hcall⟩ := c.call_eq page hrest hleads
  have hcons := hrest.trans (c.source_append t)
  have hstops : (stopsAt stop s.depth '#' || (isSpace '#' && endsAtSpace mode s.rest)) = false := by
    simp [stopsAt, hstop, isSpace]
  have hpiece : piece page (reader page) mode stop '#' s = ([n], s.advance c.source.length) := by
    unfold piece
    rw [if_neg (by decide), c.mark?_source hrest]
    exact hcall
  refine ⟨n, hn, ?_⟩
  rw [reader_inline, inlineStep_cons page _ mode stop hcons, hstops, if_neg Bool.false_ne_true, hpiece]
  rfl

end ContentCall

/-- The node is the first of all, alone or in a paragraph. -/
def IsFirst (n : Node) (ns : List Node) : Prop :=
  ∃ r, ns = n :: r ∨ ∃ p q, ns = p :: q ∧ p.kind = .paragraph ∧ p.children = n :: r

theorem exists_trimSpaces_cons (hn : isSpaceNode n = false) (ns : List Node) : ∃ ms, trimSpaces (n :: ns) = n :: ms := by
  obtain ⟨before, after, he, hbefore, hafter⟩ := exists_trimSpaces (n :: ns)
  have hne : ∀ l : List Node, (∀ m ∈ l, isSpaceNode m = true) → l.head? ≠ some n := fun l hl hhead =>
    Bool.false_ne_true (hn.symm.trans (hl n (List.mem_of_mem_head? hhead)))
  have hhead : (before ++ trimSpaces (n :: ns) ++ after).head? = some n := he ▸ rfl
  rw [List.head?_append, List.head?_append, Option.or_eq_some_iff, Option.or_eq_some_iff] at hhead
  obtain (hhead | ⟨-, hhead⟩) | ⟨-, hhead⟩ := hhead
  · exact absurd hhead (hne before hbefore)
  · exact List.head?_eq_some_iff.1 hhead
  · exact absurd hhead (hne after hafter)

namespace IsFirst

variable {r : List Node}

/-- What is first in a paragraph that does not begin with a space is first of all. -/
theorem of_paragraph {stop : Option Char} (hn : isSpaceNode n = false)
    (hinline : ((reader page).inline .paragraph stop s).1 = n :: ns) : IsFirst n (paragraph page (reader page) stop s).1 := by
  obtain ⟨ms, hms⟩ := exists_trimSpaces_cons hn ns
  unfold paragraph
  dsimp only
  rw [hinline, hms]
  split
  · next heq => cases heq
  · next only heq =>
    obtain ⟨rfl, -⟩ := List.cons.inj heq
    split
    · exact ⟨[], Or.inl rfl⟩
    · exact ⟨[], Or.inr ⟨_, [], rfl, rfl, rfl⟩⟩
  · exact ⟨ms, Or.inr ⟨_, [], rfl, rfl, rfl⟩⟩

theorem append (h : IsFirst n ns) (ms : List Node) : IsFirst n (ns ++ ms) := by
  obtain ⟨r, rfl | ⟨p, q, rfl, hp⟩⟩ := h
  · exact ⟨r ++ ms, Or.inl rfl⟩
  · exact ⟨r, Or.inr ⟨p, q ++ ms, rfl, hp⟩⟩

theorem mem_preorders (h : IsFirst n ns) : n ∈ Node.preorders ns := by
  obtain ⟨r, rfl | ⟨p, q, rfl, -, hp⟩⟩ := h
  · simp [Node.preorders, n.mem_preorder_self]
  · have hchild : n ∈ p.preorder := Node.mem_preorder_of_child (hp ▸ List.mem_cons_self) n.mem_preorder_self
    simp [Node.preorders, hchild]

/-- Nothing that stands in the file before the end of the first node is shown outside of it. -/
theorem mem_preorder {lib : Library} {visits chain : List FileId} {text : Text} (hfirst : IsFirst n ns)
    (h : Laid lib visits chain file text a ns b) {m : Node} (hm : m ∈ Node.preorders ns) (hleaf : m.kind.isLeaf = true)
    (hfile : m.location.file = file) (hlt : m.location.start < n.location.stop) : m ∈ n.preorder := by
  obtain ⟨r, rfl | ⟨p, q, rfl, hkind, hp⟩⟩ := hfirst
  · exact h.mem_preorder_of_lt hm hfile hlt
  · cases h with
    | inclusion _ _ he => exact absurd (hkind.symm.trans he) nofun
    | own _ _ _ _ hchildren hmore =>
      rw [hp] at hchildren
      have hend : n.location.stop ≤ _ := (hchildren.behind).elim fun _ => Laid.le
      rw [Node.preorders, Node.preorder_eq, ← Node.preorders_eq, hp, List.cons_append, List.mem_cons, List.mem_append] at hm
      obtain rfl | hm | hm := hm
      · rw [hkind] at hleaf
        cases hleaf
      · exact hchildren.mem_preorder_of_lt hm hfile hlt
      · obtain ⟨-, hstart, -⟩ | ⟨-, hout⟩ := hmore.mem_cases hm
        · omega
        · exact absurd (hfile ▸ List.mem_cons_self) hout

end IsFirst

namespace ContentCall

variable (c : ContentCall)

/-- Where blocks begin with a call, its node is the first of all. -/
theorem blocks_isFirst {stop : Option Char} (page : Page) (hstop : stop ≠ some '#') (hrest : s.rest = c.source ++ t)
    (hleads : c.holder = .block → NoBracketLeads c.body) :
    ∃ n, c.ReadAs page.file s.scope s.pos n ∧ IsFirst n ((reader page).blocks stop s).1 := by
  obtain ⟨n, hn, hinline⟩ := c.inline_eq page .paragraph hstop hrest hleads
  have hcons := hrest.trans (c.source_append t)
  have hspace : isSpaceNode n = false := by
    rw [isSpaceNode, hn.kind]
    cases c.holder <;> rfl
  have hblock := block_eq_paragraph page stop (by rw [hcons]; rfl) (by rw [hcons]; rfl)
  obtain ⟨-, hblocks⟩ := blocks_block hcons rfl hstop hblock
  rw [hblocks]
  exact ⟨n, hn, (IsFirst.of_paragraph hspace (congrArg Prod.fst hinline)).append _⟩

end ContentCall

namespace Library

/-- The node of a call with content ends behind the bracket that matches the opening one, and stands for all that is between
the brackets under the rule at its head. Behind it reading goes on as if the call did not stand before, so nothing of the
call is shown elsewhere. In a block no bracket may lead a paragraph. -/
theorem read_contentCall (lib : Library) (c : ContentCall) (hleads : c.holder = .block → NoBracketLeads c.body) :
    (∀ (page : Page) (mode : Mode) (stop : Option Char) (s : Cursor) (t : Text), stop ≠ some '#' → s.rest = c.source ++ t →
      ∃ n, c.ReadAs page.file s.scope s.pos n ∧
        (reader page).inline mode stop s = (n :: ((reader page).inline mode stop (s.advance c.source.length)).1,
          ((reader page).inline mode stop (s.advance c.source.length)).2)) ∧
    ∀ (main : FileId) (t : Text), lib.load main = some (c.source ++ t) → ∃ root n, (lib.read main).document = some root ∧
      n ∈ root.preorder ∧ c.ReadAs main .unset 0 n ∧ ∀ m ∈ root.preorder, m.location.file = main → m.kind.isLeaf = true →
        m.location.start < c.source.length → m ∈ n.preorder := by
  refine ⟨fun page mode stop s t hstop hrest => c.inline_eq page mode hstop hrest hleads, fun main t hl => ?_⟩
  have hstop : (none : Option Char) ≠ some '#' := nofun
  obtain ⟨n, hn, hfirst⟩ := c.blocks_isFirst (lib.page (lib.files.length - 1) [] main) hstop
    (s := Cursor.start (c.source ++ t) .unset) rfl hleads
  rw [← parse_eq] at hfirst
  have hend : n.location.stop = c.source.length := by rw [hn.location, Cursor.start, Nat.zero_add]
  have hread := lib.read_of_load hl
  generalize parse (lib.page (lib.files.length - 1) [] main) (c.source ++ t) .unset = found at hfirst hread
  obtain ⟨ns, u⟩ := found
  have hroot : (lib.read main).document = some ⟨.document, ⟨main, 0, (c.source ++ t).length⟩, [], .unset, 0, false, ns⟩ := by
    rw [hread]
  obtain ⟨text, hlaidOut⟩ := lib.laidOut_read main hroot
  obtain ⟨visits, -, hlaid⟩ := hlaidOut.laid
  refine ⟨_, n, hroot, ?_, hn, fun m hm hfile hleaf hlt => ?_⟩
  · rw [Node.preorder_eq, ← Node.preorders_eq]
    exact List.mem_cons_of_mem _ hfirst.mem_preorders
  · rw [Node.preorder_eq, ← Node.preorders_eq, List.mem_cons] at hm
    rcases hm with rfl | hm
    · cases hleaf
    · exact hfirst.mem_preorder hlaid hm hleaf hfile (hend ▸ hlt)

theorem forall_of_all {P : Char → Prop} [DecidablePred P] (h : w.all (P ·) = true) : ∀ c ∈ w, P c := fun c hc =>
  of_decide_eq_true (List.all_eq_true.1 h c hc)

/-- A block under a rule, of two paragraphs with brackets around words of both. -/
def quoted : ContentCall where
  holder := .block
  args := none
  rule := some ⟨"\n".toList, "lang: ".toList ++ '"' :: ("de".toList ++ ['"']), List.all_eq_true.1 rfl,
    .plain_append (forall_of_all rfl) (.string (forall_of_all rfl) .nil)⟩
  body := "\n[eins\n\nzwei] [drei]\n".toList
  closed := nofun
  plain := forall_of_all rfl
  balanced := rfl

def quotation : Library where
  files := [("a", "#block[\n#set text(lang: \"de\")\n[eins\n\nzwei] [drei]\n] four\n".toList)]
  resolve := fun _ path => String.ofList path

theorem read_contentCall_quoted : (quoted.holder = .block → NoBracketLeads quoted.body) ∧
    ∃ root n, (quotation.read "a").document = some root ∧ n ∈ root.preorder ∧ n.kind = .block ∧
      n.location = ⟨"a", 0, 51⟩ ∧
      ((Node.preorders n.children).filter (·.kind = .text)).flatMap (·.text) = "[einszwei][drei]".toList ∧
      ∀ m ∈ Node.preorders n.children, m.kind.isLeaf = true → m.scope = ⟨some "de", none⟩ := by
  have hleads : quoted.holder = .block → NoBracketLeads quoted.body := fun _ => by decide +kernel
  obtain ⟨root, n, hroot, hmem, hn, -⟩ := (quotation.read_contentCall quoted hleads).2 "a" " four\n".toList rfl
  exact ⟨hleads, root, n, hroot, hmem, hn.kind, hn.location, hn.renders.words, fun m hm hleaf =>
    (hn.renders.leaves m hm hleaf).2.1⟩

/-- A block of two paragraphs, of which the second begins with the bracket that closes one in the first. -/
def torn : ContentCall where
  holder := .block
  args := none
  rule := none
  body := "[a\n\n] b".toList
  closed := nofun
  plain := forall_of_all rfl
  balanced := rfl

def tornBlock : Library where
  files := [("a", "#block[[a\n\n] b] c\n".toList)]
  resolve := fun _ path => String.ofList path

/-- The block ends at the bracket that leads its second paragraph, and the rest of that is shown behind the block. -/
theorem block_past_bracket : bracketDepth 0 torn.body = some 0 ∧ tornBlock.load "a" = some (torn.source ++ " c\n".toList) ∧
    ∃ root, (tornBlock.read "a").document = some root ∧ (∀ n ∈ root.preorder, ¬torn.ReadAs "a" .unset 0 n) ∧
      (∃ n ∈ root.preorder, n.kind = .block ∧ n.location = ⟨"a", 0, 12⟩) ∧
      ∃ n ∈ root.preorder, n.kind = .text ∧ n.text = "b]".toList ∧ n.location = ⟨"a", 13, 15⟩ := by
  have hread : (tornBlock.read "a").document.any (fun root =>
      root.preorder.all (fun n => n.kind ≠ .block || n.location ≠ ⟨"a", 0, torn.source.length⟩) &&
      (root.preorder.any (fun n => n.kind = .block && n.location = ⟨"a", 0, 12⟩) &&
        root.preorder.any fun n => n.kind = .text && n.text = "b]".toList && n.location = ⟨"a", 13, 15⟩)) = true := by
    decide +kernel
  obtain ⟨root, hroot, hall⟩ := (Option.any_eq_true _ _).1 hread
  simp only [Bool.and_eq_true, List.all_eq_true, List.any_eq_true, Bool.or_eq_true, decide_eq_true_eq] at hall
  obtain ⟨hnone, ⟨n, hn, hblock⟩, m, hm, htext⟩ := hall
  refine ⟨rfl, rfl, root, hroot, fun k hk hread => ?_, ⟨n, hn, hblock⟩, ⟨m, hm, htext.1.1, htext.1.2, htext.2⟩⟩
  have hlocation : k.location = ⟨"a", 0, torn.source.length⟩ := hread.location.trans (by rw [Nat.zero_add])
  exact (hnone k hk).elim (fun hkind => hkind hread.kind) fun hne => hne hlocation

end Library

end Proofreader.Markup
