import Proofreader.Proofs.Markup.Includes
import Proofreader.Proofs.Style.Stream

/-! Language rules are lexically scoped. What reading comes by is told in order: the rules, the leaves, and where content
blocks and files begin and end. From what was told before a leaf alone follows which rules are open there, and the leaf
has the scope that the last of them give it. -/

namespace Proofreader.Markup

/-- What reading comes by. Content blocks and files are opened and closed. -/
inductive Event where
  | rule (args : Text)
  | opened
  | closed
  | leaf (n : Node)

/-- The place of a cursor, with nothing said of language and includes. -/
def Cursor.bare (s : Cursor) : Cursor := { s with scope := .unset, warnings := [], asked := [] }

/-- Between two places of `file`, which the files of `chain` include, reading comes by these events, in content that `stop`
closes. -/
inductive Library.Tells (lib : Library) : (chain : List FileId) → (file : FileId) → (stop : Option Char) → Cursor →
    List Event → Cursor → Prop
  | stay {chain : List FileId} {file : FileId} {stop : Option Char} (s : Cursor) : Tells lib chain file stop s [] s
  | seq {chain : List FileId} {file : FileId} {stop : Option Char} {s t u : Cursor} {es fs : List Event} :
      Tells lib chain file stop s es t → Tells lib chain file stop t fs u → Tells lib chain file stop s (es ++ fs) u
  | pass {chain : List FileId} {file : FileId} {stop : Option Char} {s t : Cursor} : Passes s t →
      Tells lib chain file stop s [] t
  | leaf {chain : List FileId} {file : FileId} {stop : Option Char} {s t : Cursor} {n : Node} : Shows stop s n.kind t →
      n.location = ⟨file, s.pos, t.pos⟩ → n.children = [] → Tells lib chain file stop s [.leaf n] t
  | delimited {chain : List FileId} {file : FileId} {stop : Option Char} {s t : Cursor} {c : Char} {es : List Event} :
      s.mark? = some (.delimiter c) → Tells lib chain file (some c) (s.advance 1) es t →
      (∀ d ∈ t.rest.head?, d = c ∨ isSpace d = true) → Tells lib chain file stop s es (t.undelimit c)
  | rule {chain : List FileId} {file : FileId} {stop : Option Char} {s v : Cursor} :
      s.mark? = some (.call "set".toList) → v = (s.advance 4).skipWhile isTab → name? v.rest = some "text".toList →
      Tells lib chain file stop s [.rule (v.advance 4).arguments.1] (v.advance 4).arguments.2
  | content {chain : List FileId} {file : FileId} {stop : Option Char} {s t : Cursor} {es : List Event} :
      s.rest.head? = some '[' → Tells lib chain file (some ']') { s.advance 1 with depth := 0 } es t → t.Closes →
      Tells lib chain file stop s (.opened :: (es ++ [.closed])) (t.close s)
  /-- The arguments of a call are a rule in its content block. -/
  | text {chain : List FileId} {file : FileId} {stop : Option Char} {s v t : Cursor} {es : List Event} :
      s.mark? = some (.call "text".toList) → v = (s.advance 5).arguments.2 → v.rest.head? = some '[' →
      Tells lib chain file (some ']') { v.advance 1 with depth := 0 } es t → t.Closes →
      Tells lib chain file stop s (.opened :: .rule (s.advance 5).arguments.1 :: (es ++ [.closed])) (t.close s)
  | textless {chain : List FileId} {file : FileId} {stop : Option Char} {s v : Cursor} :
      s.mark? = some (.call "text".toList) → v = (s.advance 5).arguments.2 → v.rest.head? ≠ some '[' →
      Tells lib chain file stop s [.opened, .rule (s.advance 5).arguments.1, .closed] v
  | inclusion {chain : List FileId} {file target : FileId} {stop : Option Char} {s v t : Cursor} {path text : Text}
      {es : List Event} : s.mark? = some (.call "include".toList) → v = (s.advance 8).skipWhile isTab →
      string? v.rest = some path → target = lib.resolve file path → target ∉ file :: chain → lib.load target = some text →
      Tells lib (file :: chain) target none (Cursor.start text .unset) es t → t.rest = [] →
      Tells lib chain file stop s (.opened :: (es ++ [.closed])) (v.advance (path.length + 2))
  | unread {chain : List FileId} {file target : FileId} {stop : Option Char} {s v : Cursor} {path : Text} :
      s.mark? = some (.call "include".toList) → v = (s.advance 8).skipWhile isTab → string? v.rest = some path →
      target = lib.resolve file path → target ∈ file :: chain ∨ lib.load target = none →
      Tells lib chain file stop s [] (v.advance (path.length + 2))

/-- The arguments of the rules that are open behind `past`, which is told backwards, the last rule first. Rules of the
`closed` blocks that reading has left are not open. -/
def openRules : (closed : Nat) → (past : List Event) → List Text
  | _, [] => []
  | closed, .leaf _ :: past => openRules closed past
  | closed, .closed :: past => openRules (closed + 1) past
  | 0, .opened :: past => openRules 0 past
  | closed + 1, .opened :: past => openRules closed past
  | 0, .rule args :: past => args :: openRules 0 past
  | closed + 1, .rule _ :: past => openRules (closed + 1) past

/-- The language that a rule names, with the region that it names beside or in the tag. -/
def ruleLanguage? (args : Text) : Option Language :=
  (argument? "lang".toList none args).map fun tag =>
    match argument? "region".toList none args with
    | some region => ⟨(Language.ofTag (String.ofList tag)).code, nonEmpty? (upperCase (String.ofList region))⟩
    | none => Language.ofTag (String.ofList tag)

def ruleRegion? (args : Text) : Option String :=
  (argument? "region".toList none args).bind fun region => nonEmpty? (upperCase (String.ofList region))

/-- What open rules, the last one first, say together. A rule with a language replaces language and region, one with a region
alone keeps the language. -/
def inForce : (rules : List Text) → Scope
  | [] => .unset
  | args :: outer =>
    match ruleLanguage? args, ruleRegion? args with
    | some language, _ => ⟨some language.code, language.region⟩
    | none, some region => ⟨(inForce outer).lang, some region⟩
    | none, none => inForce outer

/-- What is shown: the leaves that are no spaces. -/
def isShown (n : Node) : Bool := n.kind.isLeaf && n.kind ≠ .space

def shownIn (ns : List Node) : List Node := (Node.preorders ns).filter isShown

def shown (es : List Event) : List Node :=
  (es.filterMap fun | .leaf n => some n | _ => none).filter isShown

/-- Behind `past`, each leaf has the scope of the rules that are open there. -/
def Obeyed (past es : List Event) : Prop :=
  ∀ before n after, es = before ++ .leaf n :: after → n.scope = inForce (openRules 0 (before.reverse ++ past))

/-- The rules name languages by codes that are not empty. -/
def NamesCodes (es : List Event) : Prop := ∀ args, .rule args ∈ es → ∀ language ∈ ruleLanguage? args, language.code ≠ ""

/-- Blocks that are left have no rule that is open. -/
def Balanced (es : List Event) : Prop := ∀ closed past, openRules (closed + 1) (es.reverse ++ past) = openRules (closed + 1) past

/-- What is told of reading says of the nodes found which scopes they have. -/
structure Told (lib : Library) (chain : List FileId) (file : FileId) (stop : Option Char) (s : Cursor) (ns : List Node)
    (t : Cursor) (es : List Event) : Prop where
  tells : lib.Tells chain file stop s.bare es t.bare
  balanced : Balanced es
  shown : shownIn ns = shown es
  childless : ∀ n ∈ ns, isSpaceNode n = true → n.children = []
  obeyed : ∀ past, inForce (openRules 0 past) = s.scope →
    Obeyed past es ∧ inForce (openRules 0 (es.reverse ++ past)) = t.scope
  nested : NamesCodes es → s.scope.Proper → (∀ n ∈ ns, n.Nested s.scope) ∧ s.scope.Refines t.scope ∧ t.scope.Proper

section Rules

theorem withArguments_eq (s : Scope) (args : Text) : Scope.withArguments s args =
    match ruleLanguage? args, ruleRegion? args with
    | some language, _ => ⟨some language.code, language.region⟩
    | none, some region => ⟨s.lang, some region⟩
    | none, none => s := by
  unfold Scope.withArguments ruleLanguage? ruleRegion?
  cases argument? "lang".toList none args with
  | none =>
    cases argument? "region".toList none args with
    | none => rfl
    | some region =>
      dsimp only [Option.map_none, Option.map_some, Option.bind_some]
      cases nonEmpty? (upperCase (String.ofList region)) with
      | none => rfl
      | some r => rfl
  | some tag =>
    cases argument? "region".toList none args with
    | none => rfl
    | some region => rfl

theorem inForce_cons (args : Text) (outer : List Text) : inForce (args :: outer) = Scope.withArguments (inForce outer) args := by
  rw [inForce, withArguments_eq]

theorem nonEmpty?_ne (s : String) : nonEmpty? s ≠ some "" := by
  unfold nonEmpty?
  split
  · exact nofun
  · next h => exact fun he => h (Option.some.inj he)

/-- A rule refines the scope that it changes. -/
theorem refines_withArguments (s : Scope) (args : Text) : s.Refines (Scope.withArguments s args) := by
  rw [withArguments_eq]
  split
  · exact nofun
  · exact fun h => ⟨h, nofun⟩
  · exact .refl _

theorem region_ofTag (tag : String) : (Language.ofTag tag).region ≠ some "" := by
  unfold Language.ofTag
  dsimp only
  exact nonEmpty?_ne _

theorem region_ruleLanguage {args : Text} {language : Language} (h : ruleLanguage? args = some language) :
    language.region ≠ some "" := by
  obtain ⟨tag, -, rfl⟩ := Option.map_eq_some_iff.1 h
  split
  · exact nonEmpty?_ne _
  · exact region_ofTag _

theorem proper_withArguments {s : Scope} {args : Text} (hs : s.Proper)
    (h : ∀ language ∈ ruleLanguage? args, language.code ≠ "") : (Scope.withArguments s args).Proper := by
  rw [withArguments_eq]
  split
  · next _ _ language hlanguage =>
    exact ⟨fun he => h language hlanguage (Option.some.inj he), region_ruleLanguage hlanguage⟩
  · next _ _ region _ hregion =>
    obtain ⟨text, -, htext⟩ := Option.bind_eq_some_iff.1 hregion
    exact ⟨hs.lang, htext ▸ nonEmpty?_ne _⟩
  · exact hs

end Rules

section Events

variable {past es fs : List Event} {ns ms : List Node} {n : Node}

theorem Balanced.append (h : Balanced es) (k : Balanced fs) : Balanced (es ++ fs) := by
  intro closed past
  rw [List.reverse_append, List.append_assoc, k, h]

theorem balanced_rule (args : Text) : Balanced [.rule args] := fun _ _ => rfl

/-- A block with all that it holds is balanced, and leaves the rules around it as they were. -/
theorem Balanced.block (h : Balanced es) : Balanced (.opened :: (es ++ [.closed])) ∧
    ∀ past, openRules 0 ((.opened :: (es ++ [.closed])).reverse ++ past) = openRules 0 past := by
  have hblock : ∀ closed past, openRules closed ((.opened :: (es ++ [.closed])).reverse ++ past) = openRules closed past := by
    intro closed past
    have he : (Event.opened :: (es ++ [.closed])).reverse ++ past = .closed :: (es.reverse ++ .opened :: past) := by simp
    rw [he]
    cases closed with
    | zero => exact h 0 _
    | succ closed => exact h (closed + 1) _
  exact ⟨fun closed => hblock (closed + 1), hblock 0⟩

theorem obeyed_nil (past : List Event) : Obeyed past [] := by
  intro before n after h
  simp at h

theorem Obeyed.append (h : Obeyed past es) (k : Obeyed (es.reverse ++ past) fs) : Obeyed past (es ++ fs) := by
  intro before n after he
  rcases List.append_eq_append_iff.1 he with ⟨mid, rfl, hf⟩ | ⟨mid, hes, hf⟩
  · have := k mid n after hf
    rwa [← List.append_assoc, ← List.reverse_append] at this
  · cases mid with
    | nil =>
      have := k [] n after hf.symm
      rw [List.append_nil] at hes
      subst hes
      simpa using this
    | cons e mid =>
      obtain ⟨rfl, -⟩ := List.cons.inj hf
      exact h before n mid hes

theorem obeyed_single {e : Event} (h : ∀ n, e = .leaf n → n.scope = inForce (openRules 0 past)) : Obeyed past [e] := by
  intro before n after he
  obtain ⟨rfl, he, -⟩ := List.append_eq_singleton_iff.1 he.symm |>.resolve_right (by simp)
  exact h n (List.cons.inj he).1

theorem Obeyed.block (h : Obeyed (.opened :: past) es) : Obeyed past (.opened :: (es ++ [.closed])) := by
  have hopened : Obeyed past [.opened] := obeyed_single nofun
  exact hopened.append (h.append (obeyed_single nofun))

theorem shown_block (es : List Event) : shown (.opened :: (es ++ [.closed])) = shown es := by
  simp [shown]

theorem shownIn_append (ns ms : List Node) : shownIn (ns ++ ms) = shownIn ns ++ shownIn ms := by
  simp [shownIn, Node.preorders_eq]

theorem shown_append (es fs : List Event) : shown (es ++ fs) = shown es ++ shown fs := by
  simp [shown]

theorem shownIn_single (hn : n.kind.isLeaf = false) : shownIn [n] = shownIn n.children := by
  simp [shownIn, Node.preorders_eq, Node.preorder_eq n, isShown, hn]

theorem shownIn_leaf (hn : n.children = []) : shownIn [n] = shown [.leaf n] := by
  simp [shownIn, shown, Node.preorders_eq, Node.preorder_eq n, hn]

theorem shownIn_spaces (h : ∀ n ∈ ns, isSpaceNode n = true ∧ n.children = []) : shownIn ns = [] := by
  induction ns with
  | nil => rfl
  | cons n r ih =>
    obtain ⟨⟨hkind, hchildren⟩, hr⟩ := List.forall_mem_cons.1 h
    have hspace : n.kind = .space := by simpa [isSpaceNode] using hkind
    rw [← List.singleton_append, shownIn_append, ih hr, shownIn_leaf hchildren]
    simp [shown, isShown, hspace]

end Events

section Bare

variable {stop : Option Char} {s t : Cursor} {kind : Kind}

namespace Cursor

theorem arguments_bare (s : Cursor) : s.bare.arguments = (s.arguments.1, s.arguments.2.bare) := by
  unfold arguments bare
  dsimp only
  split
  · rfl
  · rfl

theorem after_arguments_bare (s : Cursor) : s.bare.arguments.2 = s.arguments.2.bare := by
  rw [arguments_bare]

theorem skipContent_bare (s : Cursor) (fuel : Nat) : s.bare.skipContent fuel = (s.skipContent fuel).bare := by
  induction fuel generalizing s with
  | zero => rfl
  | succ fuel ih =>
    unfold skipContent
    have hrest : s.bare.rest = s.rest := rfl
    rw [hrest]
    split
    · exact ih (s.advance _)
    · rfl

theorem close_bare (t s : Cursor) : t.bare.close s.bare = (t.close s).bare := by
  unfold close bare
  dsimp only
  split
  · rfl
  · rfl

theorem undelimit_bare (t : Cursor) (c : Char) : t.bare.undelimit c = (t.undelimit c).bare := by
  unfold undelimit bare
  dsimp only
  split
  · rfl
  · rfl

end Cursor

theorem setRule_bare (h : name? (s.skipWhile isTab).rest ≠ some "text".toList) :
    setRule s.bare = (setRule s).bare := by
  have hrest : (s.bare.skipWhile isTab).rest = (s.skipWhile isTab).rest := rfl
  unfold setRule
  dsimp only
  rw [hrest]
  split
  · rfl
  · next target htarget =>
    have hne : target ≠ "text".toList := fun he => h (he ▸ htarget)
    rw [if_neg hne, if_neg hne]
    exact Cursor.after_arguments_bare ((s.skipWhile isTab).advance target.length)

/-- Passing over text looks at the place only. -/
theorem Passes.bare (h : Passes s t) : Passes s.bare t.bare := by
  cases h with
  | spaces => exact .spaces
  | heading h => exact .heading h
  | item h => exact .item h
  | comment h => exact .comment h
  | label h => exact .label h
  | line h he => exact .line h he
  | set h htext =>
    rw [← setRule_bare htext]
    exact .set h htext
  | pathless h hnone => exact .pathless h hnone
  | @call name h he =>
    rw [← Cursor.after_arguments_bare]
    exact .call h he
  | @layout name t h he ht =>
    rw [← Cursor.skipContent_bare]
    exact .layout h he (ht ▸ (Cursor.after_arguments_bare _).symm)

theorem Shows.bare (h : Shows stop s kind t) : Shows stop s.bare kind t.bare := by
  cases h with
  | space hrest hc => exact .space hrest hc
  | text page h => exact .text page h
  | linebreak h => exact .linebreak h
  | escape h => exact .escape h
  | math page h => exact .math page h
  | citation h => exact .citation h
  | raw page h =>
    have hraw : (rawNode page s).1.kind = (rawNode page s.bare).1.kind ∧ (rawNode page s).2.bare = (rawNode page s.bare).2 := by
      unfold rawNode Cursor.bare
      dsimp only
      split
      · exact ⟨rfl, rfl⟩
      · exact ⟨rfl, rfl⟩
    rw [hraw.1, hraw.2]
    exact .raw page h
  | @call name _ h he =>
    rw [← Cursor.after_arguments_bare]
    exact .call h he

end Bare

/-- What a page has for an include: nothing, or the blocks of a file with what is told of them. -/
inductive Library.Retells (lib : Library) (chain : List FileId) (file target : FileId) (scope : Scope) : List Node → Prop
  | unread : target ∈ file :: chain ∨ lib.load target = none → Retells lib chain file target scope []
  | file {text : Text} {ns : List Node} {t : Cursor} {es : List Event} : target ∉ file :: chain →
      lib.load target = some text → Told lib (file :: chain) target none (Cursor.start text scope) ns t es → t.rest = [] →
      Retells lib chain file target scope ns

section Told

variable {lib : Library} {chain : List FileId} {file : FileId} {page : Page} {stop : Option Char} {s t u : Cursor}
variable {ns ms : List Node} {n : Node} {es fs : List Event}

namespace Told

theorem stay (s : Cursor) : Told lib chain file stop s [] s [] where
  tells := .stay s.bare
  balanced := fun _ _ => rfl
  shown := rfl
  childless := nofun
  obeyed := fun past hpast => ⟨obeyed_nil past, hpast⟩
  nested := fun _ hs => ⟨nofun, .refl _, hs⟩

theorem seq (h : Told lib chain file stop s ns t es) (k : Told lib chain file stop t ms u fs) :
    Told lib chain file stop s (ns ++ ms) u (es ++ fs) where
  tells := h.tells.seq k.tells
  balanced := h.balanced.append k.balanced
  shown := by rw [shownIn_append, shown_append, h.shown, k.shown]
  childless := fun n hn => (List.mem_append.1 hn).elim (h.childless n) (k.childless n)
  obeyed := fun past hpast => by
    obtain ⟨hes, ht⟩ := h.obeyed past hpast
    obtain ⟨hfs, hu⟩ := k.obeyed _ ht
    refine ⟨hes.append hfs, ?_⟩
    rwa [List.reverse_append, List.append_assoc]
  nested := fun hcodes hs => by
    obtain ⟨hns, hst, ht⟩ := h.nested (fun args hargs => hcodes args (List.mem_append_left _ hargs)) hs
    obtain ⟨hms, htu, hu⟩ := k.nested (fun args hargs => hcodes args (List.mem_append_right _ hargs)) ht
    refine ⟨fun n hn => ?_, hst.trans htu, hu⟩
    exact (List.mem_append.1 hn).elim (hns n) fun hn => (hms n hn).widen hst

theorem trim (h : Told lib chain file stop s ns t es) : Told lib chain file stop s (trimSpaces ns) t es := by
  have hsub := trimSpaces_sublist ns
  refine ⟨h.tells, h.balanced, ?_, fun n hn => h.childless n (hsub.subset hn), h.obeyed, fun hcodes hs => ?_⟩
  · obtain ⟨before, after, he, hbefore, hafter⟩ := exists_trimSpaces ns
    have hchildless := h.childless
    rw [he] at hchildless
    have hb : shownIn before = [] := shownIn_spaces fun n hn => ⟨hbefore n hn, hchildless n (by simp [hn]) (hbefore n hn)⟩
    have ha : shownIn after = [] := shownIn_spaces fun n hn => ⟨hafter n hn, hchildless n (by simp [hn]) (hafter n hn)⟩
    rw [← h.shown]
    conv_rhs => rw [he]
    rw [shownIn_append, shownIn_append, hb, ha, List.nil_append, List.append_nil]
  · obtain ⟨hns, hst⟩ := h.nested hcodes hs
    exact ⟨fun n hn => hns n (hsub.subset hn), hst⟩

/-- Nothing is told, and nothing is found. -/
theorem silent (h : lib.Tells chain file stop s.bare [] t.bare) (ht : t.scope = s.scope) :
    Told lib chain file stop s [] t [] where
  tells := h
  balanced := fun _ _ => rfl
  shown := rfl
  childless := nofun
  obeyed := fun past hpast => ⟨obeyed_nil past, hpast.trans ht.symm⟩
  nested := fun _ hs => ⟨nofun, ht ▸ .refl _, ht ▸ hs⟩

/-- A node around what was found, under the scope that it begins with. -/
theorem around (h : Told lib chain file stop s n.children t es) (hn : n.kind.isLeaf = false) (hscope : n.scope = s.scope) :
    Told lib chain file stop s [n] t es where
  tells := h.tells
  balanced := h.balanced
  shown := (shownIn_single hn).trans h.shown
  childless := by
    intro m hm hspace
    obtain rfl := List.mem_singleton.1 hm
    have hkind : m.kind = .space := by simpa [isSpaceNode] using hspace
    rw [hkind] at hn
    cases hn
  obeyed := h.obeyed
  nested := fun hcodes hs => by
    obtain ⟨hns, hst⟩ := h.nested hcodes hs
    refine ⟨fun m hm => ?_, hst⟩
    obtain rfl := List.mem_singleton.1 hm
    exact .node (hscope ▸ .refl _) (hscope ▸ hs) fun c hc => hscope ▸ hns c hc

/-- A block that begins under the scope around it, told of some file. -/
theorem block {chain' : List FileId} {file' : FileId} {stop' : Option Char} {v w : Cursor}
    (h : Told lib chain' file' stop' v ns w es)
    (htells : lib.Tells chain file stop s.bare (.opened :: (es ++ [.closed])) t.bare) (hv : v.scope = s.scope)
    (ht : t.scope = s.scope) : Told lib chain file stop s ns t (.opened :: (es ++ [.closed])) where
  tells := htells
  balanced := h.balanced.block.1
  shown := by rw [shown_block, h.shown]
  childless := h.childless
  obeyed := fun past hpast => by
    have hopened : inForce (openRules 0 (.opened :: past)) = v.scope := hpast.trans hv.symm
    exact ⟨(h.obeyed _ hopened).1.block, by rw [h.balanced.block.2, hpast, ht]⟩
  nested := fun hcodes hs => by
    obtain ⟨hns, -⟩ := h.nested (fun args hargs => hcodes args (by simp [hargs])) (hv ▸ hs)
    exact ⟨fun n hn => hv ▸ hns n hn, ht ▸ .refl _, ht ▸ hs⟩

/-- A call with a rule for its content block. -/
theorem call {chain' : List FileId} {file' : FileId} {stop' : Option Char} {v w : Cursor} {args : Text}
    (h : Told lib chain' file' stop' v n.children w es) (hv : v.scope = Scope.withArguments s.scope args)
    (htells : lib.Tells chain file stop s.bare (.opened :: .rule args :: (es ++ [.closed])) t.bare)
    (hn : n.kind.isLeaf = false) (hscope : n.scope = v.scope) (ht : t.scope = s.scope) :
    Told lib chain file stop s [n] t (.opened :: .rule args :: (es ++ [.closed])) where
  tells := htells
  balanced := ((balanced_rule args).append h.balanced).block.1
  shown := by
    rw [shownIn_single hn, h.shown]
    exact (shown_block (.rule args :: es)).symm
  childless := by
    intro m hm hspace
    obtain rfl := List.mem_singleton.1 hm
    have hkind : m.kind = .space := by simpa [isSpaceNode] using hspace
    rw [hkind] at hn
    cases hn
  obeyed := fun past hpast => by
    have hrule : inForce (openRules 0 (.rule args :: .opened :: past)) = v.scope := by
      rw [hv, ← hpast]
      exact inForce_cons args _
    have hone : Obeyed (.opened :: past) [.rule args] := obeyed_single (by simp)
    have hobeyed : Obeyed (.opened :: past) ([.rule args] ++ es) := hone.append (h.obeyed _ hrule).1
    refine ⟨hobeyed.block, ?_⟩
    rw [ht, ← hpast]
    exact congrArg inForce (((balanced_rule args).append h.balanced).block.2 past)
  nested := fun hcodes hs => by
    have hproper : v.scope.Proper := hv ▸ proper_withArguments hs (hcodes args (by simp))
    have hrefines : s.scope.Refines v.scope := hv ▸ refines_withArguments s.scope args
    obtain ⟨hns, -⟩ := h.nested (fun args hargs => hcodes args (by simp [hargs])) hproper
    refine ⟨fun m hm => ?_, ht ▸ .refl _, ht ▸ hs⟩
    obtain rfl := List.mem_singleton.1 hm
    exact .node (hscope ▸ hrefines) (hscope ▸ hproper) fun c hc => hscope ▸ hns c hc

/-- The same is told from a place to another that have the same scopes. -/
theorem between {stop' : Option Char} {v w : Cursor} (h : Told lib chain file stop' v ns w es)
    (htells : lib.Tells chain file stop s.bare es t.bare) (hv : v.scope = s.scope) (ht : t.scope = w.scope) :
    Told lib chain file stop s ns t es where
  tells := htells
  balanced := h.balanced
  shown := h.shown
  childless := h.childless
  obeyed := fun past hpast => ht ▸ h.obeyed past (hpast.trans hv.symm)
  nested := fun hcodes hs => by
    rw [← hv] at hs ⊢
    rw [ht]
    exact h.nested hcodes hs

theorem leaf {kind : Kind} (shown : Text) (verbatim : Bool) (h : Shows stop s kind t) :
    Told lib chain page.file stop s [leaf page kind s t shown verbatim] t [.leaf (leaf page kind s t shown verbatim)] where
  tells := .leaf h.bare rfl rfl
  balanced := fun _ _ => rfl
  shown := shownIn_leaf rfl
  childless := by
    intro n hn _
    rw [List.mem_singleton.1 hn]
    rfl
  obeyed := fun past hpast => by
    refine ⟨obeyed_single fun n hn => ?_, hpast.trans h.same.1.symm⟩
    obtain rfl := Event.leaf.inj hn
    exact h.same.1.trans hpast.symm
  nested := fun _ hs => by
    rw [h.same.1]
    refine ⟨fun n hn => ?_, .refl _, hs⟩
    rw [List.mem_singleton.1 hn]
    refine .node ?_ ?_ nofun
    · change s.scope.Refines t.scope
      exact h.same.1 ▸ .refl _
    · change t.scope.Proper
      exact h.same.1 ▸ hs

theorem rule {args : Text} (htells : lib.Tells chain file stop s.bare [.rule args] t.bare)
    (ht : t.scope = Scope.withArguments s.scope args) : Told lib chain file stop s [] t [.rule args] where
  tells := htells
  balanced := balanced_rule args
  shown := rfl
  childless := nofun
  obeyed := fun past hpast => by
    refine ⟨obeyed_single nofun, ?_⟩
    rw [ht, ← hpast]
    exact inForce_cons args _
  nested := fun hcodes hs => by
    rw [ht]
    exact ⟨nofun, refines_withArguments _ _, proper_withArguments hs (hcodes args List.mem_cons_self)⟩

end Told

/-- All that is read on a page can be told, if what its includes contribute can. -/
theorem Read.told (h : Read page stop s ns t)
    (hp : ∀ path here scope, lib.Retells chain page.file (lib.resolve page.file path) scope (page.fetch path here scope).nodes) :
    ∃ es, Told lib chain page.file stop s ns t es := by
  induction h with
  | stay s => exact ⟨[], .stay s⟩
  | seq _ _ ih ih' =>
    obtain ⟨es, hes⟩ := ih
    obtain ⟨fs, hfs⟩ := ih'
    exact ⟨es ++ fs, hes.seq hfs⟩
  | trim _ ih =>
    obtain ⟨es, hes⟩ := ih
    exact ⟨es, hes.trim⟩
  | pass h => exact ⟨[], .silent (.pass h.bare) h.same.1⟩
  | leaf shown verbatim h => exact ⟨_, .leaf shown verbatim h⟩
  | node _ hleaf _ _ hscope ih =>
    obtain ⟨es, hes⟩ := ih
    exact ⟨es, hes.around hleaf hscope⟩
  | @delimited stop s t u c ns hm _ hends hu ih =>
    obtain ⟨es, hes⟩ := ih
    subst hu
    have htells : lib.Tells chain page.file stop s.bare es (t.undelimit c).bare :=
      t.undelimit_bare c ▸ .delimited hm hes.tells hends
    have hread := hes.between (s := s) htells rfl (t.scope_undelimit c)
    have hkind : ∀ kind, kind = (if c = '*' then Kind.strong else .emph) → kind.isLeaf = false := by
      rintro kind rfl
      split
      · rfl
      · rfl
    exact ⟨es, hread.around (hkind _ rfl) rfl⟩
  | @rule stop s v hm hv hname =>
    have htells : lib.Tells chain page.file stop s.bare [.rule (v.bare.advance 4).arguments.1] (v.bare.advance 4).arguments.2 :=
      .rule hm (hv ▸ rfl) hname
    have hargs : (v.bare.advance 4).arguments = ((v.advance 4).arguments.1, (v.advance 4).arguments.2.bare) :=
      (v.advance 4).arguments_bare
    rw [hargs] at htells
    exact ⟨_, .rule htells rfl⟩
  | @content stop s t ns hopen _ hcloses ih =>
    obtain ⟨es, hes⟩ := ih
    have htells : lib.Tells chain page.file stop s.bare (.opened :: (es ++ [.closed])) (t.close s).bare :=
      t.close_bare s ▸ .content hopen hes.tells hcloses
    exact ⟨_, hes.block htells rfl rfl⟩
  | @text stop s v t scope ns hm hv hscope hopen _ hcloses ih =>
    obtain ⟨es, hes⟩ := ih
    have hargs : (s.bare.advance 5).arguments = ((s.advance 5).arguments.1, (s.advance 5).arguments.2.bare) :=
      (s.advance 5).arguments_bare
    have htells : lib.Tells chain page.file stop s.bare
        (.opened :: .rule (s.bare.advance 5).arguments.1 :: (es ++ [.closed])) (t.close s).bare :=
      t.close_bare s ▸ .text hm (v := v.bare) (by rw [hargs, hv]) hopen hes.tells hcloses
    rw [hargs] at htells
    exact ⟨_, hes.call (n := branch page .lang s (t.close s) scope ns) hscope htells rfl rfl rfl⟩
  | @textless stop s v scope hm hv hscope hnone =>
    have hargs : (s.bare.advance 5).arguments = ((s.advance 5).arguments.1, (s.advance 5).arguments.2.bare) :=
      (s.advance 5).arguments_bare
    have htells : lib.Tells chain page.file stop s.bare [.opened, .rule (s.bare.advance 5).arguments.1, .closed] v.bare :=
      .textless hm (by rw [hargs, hv]) hnone
    rw [hargs] at htells
    have hv' : v.scope = s.scope := hv ▸ Cursor.scope_arguments _
    have hnothing : Told lib chain page.file stop { v with scope := scope } [] { v with scope := scope } [] := .stay _
    exact ⟨_, hnothing.call (n := branch page .lang s v scope []) hscope htells rfl rfl hv'⟩
  | @inclusion stop s v t path got hm hv hpath ht hgot =>
    have hv' : v.bare = (s.bare.advance 8).skipWhile isTab := hv ▸ rfl
    have hanswer := hp path ⟨page.file, s.pos, t.pos⟩ s.scope
    rw [← hgot] at hanswer
    have ht' : t.bare = v.bare.advance (path.length + 2) := ht ▸ rfl
    have hscope : t.scope = s.scope := ht ▸ hv ▸ rfl
    generalize got.nodes = nodes at hanswer ⊢
    cases hanswer with
    | unread hnone =>
      have htells : lib.Tells chain page.file stop s.bare [] t.bare := ht' ▸ .unread hm hv' hpath rfl hnone
      have hread := Told.silent (s := s) (t := { t with warnings := t.warnings ++ got.warnings, asked := t.asked ++ got.asked })
        htells hscope
      exact ⟨[], hread.around (n := branch page .inclusion s t s.scope []) rfl rfl⟩
    | @file text ns w es hmem hl hes hend =>
      have htells : lib.Tells chain page.file stop s.bare (.opened :: (es ++ [.closed])) t.bare :=
        ht' ▸ .inclusion hm hv' hpath rfl hmem hl hes.tells hend
      have hread := hes.block (s := s)
        (t := { t with warnings := t.warnings ++ got.warnings, asked := t.asked ++ got.asked }) htells rfl hscope
      exact ⟨_, hread.around (n := branch page .inclusion s t s.scope nodes) rfl rfl⟩

end Told

namespace Library

variable {lib : Library} {chain : List FileId} {file : FileId} {at? : Option Location} {scope : Scope} {text : Text}

/-- What is read in a file can be told. -/
theorem told_readFile {levels : Nat} (h : lib.Open chain) (hlevels : lib.files.length ≤ levels + chain.length)
    (hc : file ∉ chain) (hl : lib.load file = some text) : ∃ ns ws asked t es, lib.readFile levels chain file at? scope =
      ⟨some ⟨.document, ⟨file, 0, text.length⟩, [], .unset, 0, false, ns⟩, ws, asked⟩ ∧
        Told lib chain file none (Cursor.start text scope) ns t es ∧ t.rest = [] := by
  induction levels generalizing chain file at? scope text with
  | zero => exact absurd (h.mem_of_load (by omega) hl) hc
  | succ levels ih =>
    have hopen := h.cons hc hl
    have hnext : lib.files.length ≤ levels + (file :: chain).length := by
      rw [List.length_cons]
      omega
    have hp : ∀ path here scope, lib.Retells chain file (lib.resolve file path) scope
        ((lib.page levels chain file).fetch path here scope).nodes := by
      intro path here scope
      unfold page
      dsimp only
      by_cases hmem : lib.resolve file path ∈ file :: chain
      · rw [readFile_of_mem hmem]
        exact .unread (Or.inl hmem)
      · cases hload : lib.load (lib.resolve file path) with
        | none =>
          rw [readFile_of_missing hmem (Or.inr hload)]
          exact .unread (Or.inr hload)
        | some source =>
          obtain ⟨ns, ws, asked, t, es, hread, htold, hend⟩ := ih hopen hnext hmem hload
          rw [hread]
          exact .file hmem hload htold hend
    obtain ⟨hread, hend⟩ := read_parse (lib.page levels chain file) text scope
    obtain ⟨es, hes⟩ := hread.told hp
    exact ⟨_, _, _, _, es, readFile_eq hc hl, hes, hend⟩

/-- Wherever arguments stand in a file, a language among them has a code. -/
def NamesCodes (lib : Library) : Prop := ∀ file source, lib.load file = some source → ∀ n,
  ∀ language ∈ ruleLanguage? (Cursor.start (source.drop n) .unset).arguments.1, language.code ≠ ""

variable {stop : Option Char} {s t : Cursor} {es : List Event} {source : Text}

theorem Tells.reaches (h : lib.Tells chain file stop s es t) : s.Reaches t := by
  induction h with
  | stay s => exact .refl s
  | seq _ _ ih ih' => exact ih.trans ih'
  | pass h => exact h.reaches
  | leaf h => exact h.reaches
  | @delimited _ _ _ s t c _ _ _ _ ih => exact ((s.reaches_advance 1).trans ih).trans (t.reaches_undelimit c)
  | @rule _ _ _ s v _ hv _ =>
    have hname : s.Reaches v := hv ▸ (s.reaches_advance 4).trans (Cursor.reaches_skipWhile _ _)
    exact (hname.trans (v.reaches_advance 4)).trans (Cursor.reaches_arguments _)
  | @content _ _ _ s t _ _ _ _ ih => exact (s.reaches_open.trans ih).trans (t.reaches_close s)
  | @text _ _ _ s v t _ _ hv _ _ _ ih =>
    have hargs : s.Reaches v := hv ▸ (s.reaches_advance 5).trans (Cursor.reaches_arguments _)
    exact ((hargs.trans v.reaches_open).trans ih).trans (t.reaches_close s)
  | @textless _ _ _ s v _ hv _ => exact hv ▸ (s.reaches_advance 5).trans (Cursor.reaches_arguments _)
  | @inclusion _ _ _ _ s v _ _ _ _ _ hv _ _ _ _ _ _ _ =>
    exact (hv ▸ (s.reaches_advance 8).trans (Cursor.reaches_skipWhile _ _) : s.Reaches v).trans (v.reaches_advance _)
  | @unread _ _ _ _ s v _ _ hv _ _ _ =>
    exact (hv ▸ (s.reaches_advance 8).trans (Cursor.reaches_skipWhile _ _) : s.Reaches v).trans (v.reaches_advance _)

/-- A rule has its arguments from some place of a file. -/
theorem Tells.namesCodes (h : lib.Tells chain file stop s es t) (hs : s.At source) (hl : lib.load file = some source)
    (hlib : lib.NamesCodes) : Markup.NamesCodes es := by
  have hargs : ∀ {file source} {v : Cursor}, lib.load file = some source → v.At source →
      ∀ language ∈ ruleLanguage? v.arguments.1, language.code ≠ "" := by
    intro file source v hl hv
    have he : v.arguments.1 = (Cursor.start (source.drop v.pos) .unset).arguments.1 := by
      rw [← hv.rest]
      unfold Cursor.arguments Cursor.start
      split <;> simp_all
    rw [he]
    exact hlib file source hl v.pos
  induction h generalizing source with
  | stay => exact nofun
  | seq h _ ih ih' =>
    intro args hmem
    exact (List.mem_append.1 hmem).elim (ih hs hl args) (ih' (h.reaches.at hs) hl args)
  | pass | unread => exact nofun
  | leaf => exact fun args hmem => by simp at hmem
  | @delimited _ _ _ s _ _ _ _ _ _ ih => exact ih ((s.reaches_advance 1).at hs) hl
  | @rule _ _ _ s v _ hv _ =>
    have hname : s.Reaches v := hv ▸ (s.reaches_advance 4).trans (Cursor.reaches_skipWhile _ _)
    intro args hmem
    obtain rfl := Event.rule.inj (List.mem_singleton.1 hmem)
    exact hargs hl ((hname.trans (v.reaches_advance 4)).at hs)
  | @content _ _ _ s _ _ _ _ _ ih =>
    intro args hmem
    exact ih (s.reaches_open.at hs) hl args (by simpa using hmem)
  | @text _ _ _ s v t _ _ hv _ _ _ ih =>
    have hreach : s.Reaches v := hv ▸ (s.reaches_advance 5).trans (Cursor.reaches_arguments _)
    intro args hmem
    rcases (by simpa using hmem : args = _ ∨ _) with rfl | hmem
    · exact hargs hl ((s.reaches_advance 5).at hs)
    · exact ih ((hreach.trans v.reaches_open).at hs) hl args hmem
  | @textless _ _ _ s v _ hv _ =>
    intro args hmem
    obtain rfl : args = _ := by simpa using hmem
    exact hargs hl ((s.reaches_advance 5).at hs)
  | @inclusion _ _ target _ s v t path text es _ _ _ _ _ hload _ _ ih =>
    intro args hmem
    exact ih (Cursor.at_start text .unset) hload args (by simpa using hmem)

/-- Language rules are lexically scoped. All that is shown of the main file and of all that it includes is told in order,
from the beginning of the text to its end, and each leaf has the scope of the rules that are open there. Every piece of the
flattened document is in the language that the scope of its own node says, with the default for what no rule sets. -/
theorem read_scoped (lib : Library) (main : FileId) :
    match lib.load main with
    | none => (lib.read main).document = none
    | some source => ∃ root es t, (lib.read main).document = some root ∧
        lib.Tells [] main none (Cursor.start source .unset) es t ∧ t.rest = [] ∧ shownIn root.children = shown es ∧
        (∀ before n after, es = before ++ .leaf n :: after → n.scope = inForce (openRules 0 before.reverse)) ∧
        (lib.NamesCodes → ∀ table base, root.segments table base = root.segmentsBy table (·.upon base)) := by
  have hc : main ∉ [] := List.not_mem_nil
  cases hl : lib.load main with
  | none => exact congrArg Outcome.document (readFile_of_missing hc (Or.inr hl))
  | some source =>
    obtain ⟨ns, ws, asked, t, es, hread, htold, hend⟩ : ∃ ns ws asked t es, lib.read main =
        ⟨some ⟨.document, ⟨main, 0, source.length⟩, [], .unset, 0, false, ns⟩, ws, asked⟩ ∧
          Told lib [] main none (Cursor.start source .unset) ns t es ∧ t.rest = [] :=
      told_readFile (open_nil lib) (Nat.le_refl _) hc hl
    rw [hread]
    refine ⟨_, es, _, rfl, htold.tells, hend, htold.shown, fun before n after he => ?_, fun hlib table base => ?_⟩
    · have := (htold.obeyed [] rfl).1 before n after he
      rwa [List.append_nil] at this
    · have hcodes := htold.tells.namesCodes (Cursor.at_start source .unset) hl hlib
      obtain ⟨hnested, -⟩ := htold.nested hcodes Scope.proper_unset
      have hroot : Node.Nested .unset ⟨.document, ⟨main, 0, source.length⟩, [], .unset, 0, false, ns⟩ :=
        .node (.refl _) Scope.proper_unset hnested
      have := Node.segments_eq_segmentsBy table base hroot
      rwa [Scope.upon_unset] at this

/-- Rules in content blocks, in the arguments of a call and in an included file. -/
def mixed : Library where
  files := [("a", "#set text(lang: \"de\") Ja #block[#set text(region: \"at\") So] #text(lang: \"fr\")[Oui] #include \"b\" Ende".toList),
    ("b", "Auch #set text(lang: \"it-ch\") Si".toList)]
  resolve := fun _ path => String.ofList path

theorem namesCodes_mixed : mixed.NamesCodes := by
  intro file source hl n
  have hshort : ∀ f ∈ mixed.files, f.2.length < 120 ∧ ∀ n < 120,
      ∀ language ∈ ruleLanguage? (Cursor.start (f.2.drop n) .unset).arguments.1, language.code ≠ "" := by decide +kernel
  obtain ⟨hlength, hcodes⟩ := hshort (file, source) (mem_of_lookup hl)
  by_cases hn : n < 120
  · exact hcodes n hn
  · rw [List.drop_eq_nil_of_le (by dsimp only at hlength; omega)]
    exact nofun

theorem read_scoped_mixed : mixed.NamesCodes ∧ ∃ root es, (mixed.read "a").document = some root ∧
    (shownIn root.children).map (fun n => (n.text, n.scope)) = [("Ja".toList, ⟨some "de", none⟩),
      ("So".toList, ⟨some "de", some "AT"⟩), ("Oui".toList, ⟨some "fr", none⟩), ("Auch".toList, ⟨some "de", none⟩),
      ("Si".toList, ⟨some "it", some "CH"⟩), ("Ende".toList, ⟨some "de", none⟩)] ∧
    shownIn root.children = shown es ∧
    (∀ before n after, es = before ++ .leaf n :: after → n.scope = inForce (openRules 0 before.reverse)) ∧
    ∀ table base, root.segments table base = root.segmentsBy table (·.upon base) := by
  have hscoped := mixed.read_scoped "a"
  have hload : (mixed.load "a").isSome = true := by decide +kernel
  obtain ⟨source, hsource⟩ := Option.isSome_iff_exists.1 hload
  rw [hsource] at hscoped
  obtain ⟨root, es, -, hroot, -, -, hshown, hrules, hsegments⟩ := hscoped
  have htexts : (mixed.read "a").document.map (fun root => (shownIn root.children).map fun n => (n.text, n.scope)) =
      some [("Ja".toList, ⟨some "de", none⟩), ("So".toList, ⟨some "de", some "AT"⟩), ("Oui".toList, ⟨some "fr", none⟩),
        ("Auch".toList, ⟨some "de", none⟩), ("Si".toList, ⟨some "it", some "CH"⟩), ("Ende".toList, ⟨some "de", none⟩)] := by
    decide +kernel
  rw [hroot] at htexts
  exact ⟨namesCodes_mixed, root, es, hroot, Option.some.inj htexts, hshown, hrules, hsegments namesCodes_mixed⟩

end Library

end Proofreader.Markup
