import Mathlib.Data.List.TakeWhile
import Proofreader.Proofs.Markup.Progress

/-! Reading as a relation. `Read` lists what a reader can do between two cursors of a page: pass over text, show a leaf,
put a node around what it reads, follow a language rule, enter a content block, and include a file. Readers do nothing
else, so what every constructor keeps is kept by reading a whole file. -/

namespace Proofreader.Markup

/-- Passing over text that shows nothing and is no rule for text. -/
inductive Passes (s : Cursor) : Cursor → Prop
  | spaces : Passes s (s.skipWhile isSpace)
  | heading {level n : Nat} : headingMarker? s.rest = some (level, n) → Passes s (s.advance n)
  | item {n : Nat} : itemMarker? s.rest = some n → Passes s (s.advance n)
  | comment {n : Nat} : s.mark? = some (.comment n) → Passes s (s.advance n)
  | label {n : Nat} : s.mark? = some (.label n) → Passes s (s.advance n)
  | line {name : Text} : s.mark? = some (.call name) → Callee.ofName name = .line →
      Passes s ((s.advance (name.length + 1)).skipWhile (· ≠ '\n'))
  /-- A rule for something else than text. -/
  | set : s.mark? = some (.call "set".toList) → name? ((s.advance 4).skipWhile isTab).rest ≠ some "text".toList →
      Passes s (setRule (s.advance 4))
  | pathless : s.mark? = some (.call "include".toList) → string? ((s.advance 8).skipWhile isTab).rest = none →
      Passes s ((s.advance 8).skipWhile isTab)
  /-- The name and the arguments of a call whose content is read. -/
  | call {name : Text} : s.mark? = some (.call name) →
      (∃ kind, Callee.ofName name = .styled kind) ∨ Callee.ofName name = .block →
      Passes s (s.advance (name.length + 1)).arguments.2
  | layout {name : Text} {t : Cursor} : s.mark? = some (.call name) → Callee.ofName name = .layout →
      t = (s.advance (name.length + 1)).arguments.2 → Passes s (t.skipContent t.rest.length)

/-- Text that a leaf of the kind stands for, in content that `stop` closes. -/
inductive Shows (stop : Option Char) (s : Cursor) : Kind → Cursor → Prop
  | space {c : Char} {r : Text} : s.rest = c :: r → isSpace c = true → Shows stop s .space (s.skipWhile isSpace)
  | text (page : Page) : s.mark? = none → Shows stop s .text (textNode page stop s).2
  | linebreak : s.mark? = some (.escape none) → Shows stop s .linebreak (s.advance 1)
  | escape {c : Char} : s.mark? = some (.escape (some c)) → Shows stop s .text (s.advance 2)
  | math (page : Page) {inside : Nat} : s.mark? = some (.math inside) →
      Shows stop s (mathNode page inside s).1.kind (mathNode page inside s).2
  | raw (page : Page) : s.mark? = some .raw → Shows stop s (rawNode page s).1.kind (rawNode page s).2
  | citation {key : Text} : s.mark? = some (.citation key) → Shows stop s .citation (s.advance (key.length + 1))
  | call {name : Text} {kind : Kind} : s.mark? = some (.call name) → Callee.ofName name = .plain kind →
      Shows stop s kind (s.advance (name.length + 1)).arguments.2

namespace Cursor

/-- Content blocks end at their bracket or with the text. -/
def Closes (t : Cursor) : Prop := t.rest.head? = some ']' ∨ ∀ c ∈ t.rest, isSpace c = true

/-- Behind the bracket of a content block that was opened under the rule and among the brackets of `s`. -/
def close (t s : Cursor) : Cursor :=
  { (if t.rest.head? = some ']' then t.advance 1 else t) with depth := s.depth, scope := s.scope }

/-- Behind the delimiter of strong or emphasised text, which may have ended without. -/
def undelimit (t : Cursor) (c : Char) : Cursor := if t.rest.head? = some c then t.advance 1 else t

end Cursor

/-- The page is read from one cursor up to another in content that `stop` closes, and the nodes are found on the way. -/
inductive Read (page : Page) : (stop : Option Char) → Cursor → List Node → Cursor → Prop
  | stay {stop : Option Char} (s : Cursor) : Read page stop s [] s
  | seq {stop : Option Char} {s t u : Cursor} {ns ms : List Node} : Read page stop s ns t → Read page stop t ms u →
      Read page stop s (ns ++ ms) u
  | trim {stop : Option Char} {s t : Cursor} {ns : List Node} : Read page stop s ns t → Read page stop s (trimSpaces ns) t
  | pass {stop : Option Char} {s t : Cursor} : Passes s t → Read page stop s [] t
  | leaf {stop : Option Char} {s t : Cursor} {kind : Kind} (shown : Text) (verbatim : Bool) : Shows stop s kind t →
      Read page stop s [leaf page kind s t shown verbatim] t
  | node {stop : Option Char} {s t : Cursor} {n : Node} : Read page stop s n.children t → n.kind.isLeaf = false →
      n.kind ≠ .inclusion → n.location.file = page.file → n.scope = s.scope → Read page stop s [n] t
  /-- Strong or emphasised text ends at its delimiter, or with the line or paragraph. -/
  | delimited {stop : Option Char} {s t u : Cursor} {c : Char} {ns : List Node} : s.mark? = some (.delimiter c) →
      Read page (some c) (s.advance 1) ns t → (∀ d ∈ t.rest.head?, d = c ∨ isSpace d = true) → u = t.undelimit c →
      Read page stop s [branch page (if c = '*' then .strong else .emph) s u s.scope ns] u
  /-- A rule for text, down to the end of the content block. -/
  | rule {stop : Option Char} {s v : Cursor} : s.mark? = some (.call "set".toList) → v = (s.advance 4).skipWhile isTab →
      name? v.rest = some "text".toList → Read page stop s [] { (v.advance 4).arguments.2 with
        scope := Scope.withArguments s.scope (v.advance 4).arguments.1 }
  | content {stop : Option Char} {s t : Cursor} {ns : List Node} : s.rest.head? = some '[' →
      Read page (some ']') { s.advance 1 with depth := 0 } ns t → t.Closes → Read page stop s ns (t.close s)
  /-- A rule for the content block of a call. -/
  | text {stop : Option Char} {s v t : Cursor} {scope : Scope} {ns : List Node} : s.mark? = some (.call "text".toList) →
      v = (s.advance 5).arguments.2 → scope = Scope.withArguments s.scope (s.advance 5).arguments.1 →
      v.rest.head? = some '[' → Read page (some ']') { v.advance 1 with depth := 0, scope := scope } ns t → t.Closes →
      Read page stop s [branch page .lang s (t.close s) scope ns] (t.close s)
  | textless {stop : Option Char} {s v : Cursor} {scope : Scope} : s.mark? = some (.call "text".toList) →
      v = (s.advance 5).arguments.2 → scope = Scope.withArguments s.scope (s.advance 5).arguments.1 →
      v.rest.head? ≠ some '[' → Read page stop s [branch page .lang s v scope []] v
  | inclusion {stop : Option Char} {s v t : Cursor} {path : Text} {got : Inclusion} :
      s.mark? = some (.call "include".toList) → v = (s.advance 8).skipWhile isTab → string? v.rest = some path →
      t = v.advance (path.length + 2) → got = page.fetch path ⟨page.file, s.pos, t.pos⟩ s.scope →
      Read page stop s [branch page .inclusion s t s.scope got.nodes]
        { t with warnings := t.warnings ++ got.warnings, asked := t.asked ++ got.asked }

variable {page : Page} {stop : Option Char} {s t u : Cursor} {ns : List Node} {m n : Nat}

namespace Cursor

theorem scope_arguments (s : Cursor) : s.arguments.2.scope = s.scope := by
  unfold arguments
  split
  · rfl
  · rfl

theorem depth_arguments (s : Cursor) : s.arguments.2.depth = s.depth := by
  unfold arguments
  split
  · rfl
  · rfl

theorem warnings_arguments (s : Cursor) : s.arguments.2.warnings = s.warnings := by
  unfold arguments
  split
  · rfl
  · rfl

theorem scope_skipContent (s : Cursor) (fuel : Nat) : (s.skipContent fuel).scope = s.scope := by
  induction fuel generalizing s with
  | zero => rfl
  | succ fuel ih =>
    unfold skipContent
    split
    · exact ih _
    · rfl

theorem warnings_skipContent (s : Cursor) (fuel : Nat) : (s.skipContent fuel).warnings = s.warnings := by
  induction fuel generalizing s with
  | zero => rfl
  | succ fuel ih =>
    unfold skipContent
    split
    · exact ih _
    · rfl

theorem reaches_close (t s : Cursor) : t.Reaches (t.close s) := by
  unfold close
  split
  · exact (t.reaches_advance 1).trans (.same rfl rfl rfl List.prefix_rfl)
  · exact .same rfl rfl rfl List.prefix_rfl

theorem warnings_close (t s : Cursor) : (t.close s).warnings = t.warnings := by
  unfold close
  split
  · rfl
  · rfl

theorem reaches_undelimit (t : Cursor) (c : Char) : t.Reaches (t.undelimit c) := by
  unfold undelimit
  split
  · exact t.reaches_advance 1
  · exact .refl t

theorem warnings_undelimit (t : Cursor) (c : Char) : (t.undelimit c).warnings = t.warnings := by
  unfold undelimit
  split
  · rfl
  · rfl

theorem scope_undelimit (t : Cursor) (c : Char) : (t.undelimit c).scope = t.scope := by
  unfold undelimit
  split
  · rfl
  · rfl

end Cursor

namespace Passes

theorem reaches (h : Passes s t) : s.Reaches t := by
  cases h with
  | spaces => exact s.reaches_skipWhile _
  | heading | item | comment | label => exact s.reaches_advance _
  | line | pathless => exact (s.reaches_advance _).trans (Cursor.reaches_skipWhile _ _)
  | set => exact (s.reaches_advance 4).trans (reaches_setRule _)
  | call => exact (s.reaches_advance _).trans (Cursor.reaches_arguments _)
  | layout _ _ ht =>
    subst ht
    exact ((s.reaches_advance _).trans (Cursor.reaches_arguments _)).trans (Cursor.reaches_skipContent _ _)

/-- Where no rule for text is met, the scope stays. -/
theorem same (h : Passes s t) : t.scope = s.scope ∧ t.warnings = s.warnings := by
  cases h with
  | spaces | heading | item | comment | label | line | pathless => exact ⟨rfl, rfl⟩
  | set _ htext =>
    unfold setRule
    dsimp only
    split
    · exact ⟨rfl, rfl⟩
    · next target htarget =>
      have hne : target ≠ "text".toList := fun he => htext (he ▸ htarget)
      rw [if_neg hne]
      exact ⟨Cursor.scope_arguments _, Cursor.warnings_arguments _⟩
  | call => exact ⟨Cursor.scope_arguments _, Cursor.warnings_arguments _⟩
  | layout _ _ ht =>
    subst ht
    exact ⟨(Cursor.scope_skipContent _ _).trans (Cursor.scope_arguments _),
      (Cursor.warnings_skipContent _ _).trans (Cursor.warnings_arguments _)⟩

end Passes

theorem reaches_rawNode (page : Page) (s : Cursor) : s.Reaches (rawNode page s).2 := by
  unfold rawNode
  split
  · exact s.reaches_advance _
  · exact s.reaches_advance _

namespace Shows

variable {kind : Kind}

theorem reaches (h : Shows stop s kind t) : s.Reaches t := by
  cases h with
  | space => exact s.reaches_skipWhile _
  | text => exact (s.reaches_advance _).trans (.same rfl rfl rfl List.prefix_rfl)
  | linebreak | escape | math | citation => exact s.reaches_advance _
  | raw page => exact reaches_rawNode page s
  | call => exact (s.reaches_advance _).trans (Cursor.reaches_arguments _)

theorem same (h : Shows stop s kind t) : t.scope = s.scope ∧ t.warnings = s.warnings := by
  cases h with
  | space | text | linebreak | escape | math | citation => exact ⟨rfl, rfl⟩
  | raw page =>
    unfold rawNode
    split
    · exact ⟨rfl, rfl⟩
    · exact ⟨rfl, rfl⟩
  | call => exact ⟨Cursor.scope_arguments _, Cursor.warnings_arguments _⟩

end Shows

theorem Cursor.reaches_open (s : Cursor) : s.Reaches { s.advance 1 with depth := 0 } :=
  (s.reaches_advance 1).trans (.same rfl rfl rfl List.prefix_rfl)

namespace Read

theorem before (h : Read page stop s [] t) (k : Read page stop t ns u) : Read page stop s ns u := h.seq k

theorem after (h : Read page stop s ns t) (k : Read page stop t [] u) : Read page stop s ns u := by
  have := h.seq k
  rwa [List.append_nil] at this

theorem reaches (h : Read page stop s ns t) : s.Reaches t := by
  induction h with
  | stay s => exact .refl s
  | seq _ _ ih ih' => exact ih.trans ih'
  | trim _ ih => exact ih
  | pass h => exact h.reaches
  | leaf _ _ h => exact h.reaches
  | node _ _ _ _ _ ih => exact ih
  | @delimited _ s t u c _ _ _ _ hu ih => exact hu ▸ ((s.reaches_advance 1).trans ih).trans (t.reaches_undelimit c)
  | @rule _ s v _ hv _ =>
    have hname : s.Reaches v := hv ▸ (s.reaches_advance 4).trans (Cursor.reaches_skipWhile _ _)
    exact ((hname.trans (v.reaches_advance 4)).trans (Cursor.reaches_arguments _)).trans (.same rfl rfl rfl List.prefix_rfl)
  | @content _ s t _ _ _ _ ih => exact (s.reaches_open.trans ih).trans (t.reaches_close s)
  | @text _ s v t scope _ _ hv _ _ _ _ ih =>
    have hargs : s.Reaches v := hv ▸ (s.reaches_advance 5).trans (Cursor.reaches_arguments _)
    have hopen : s.Reaches { v.advance 1 with depth := 0, scope := scope } :=
      (hargs.trans (v.reaches_advance 1)).trans (.same rfl rfl rfl List.prefix_rfl)
    exact (hopen.trans ih).trans (t.reaches_close s)
  | @textless _ s v _ _ hv _ _ => exact hv ▸ (s.reaches_advance 5).trans (Cursor.reaches_arguments _)
  | @inclusion _ s v t path got _ hv _ ht _ =>
    have hname : s.Reaches v := hv ▸ (s.reaches_advance 8).trans (Cursor.reaches_skipWhile _ _)
    have hpath : s.Reaches t := ht ▸ hname.trans (v.reaches_advance _)
    exact hpath.trans (.same rfl rfl rfl (List.prefix_append _ _))

end Read

/-- Calls that the language depends on have a name of their own, and only includes are inclusions. -/
theorem name_of_ofName {name : Text} {callee : Callee} (h : Callee.ofName name = callee) : match callee with
    | .set => name = "set".toList
    | .inclusion => name = "include".toList
    | .text => name = "text".toList
    | .styled kind => kind = .strong ∨ kind = .emph
    | .plain kind => kind ≠ .inclusion
    | _ => True := by
  unfold Callee.ofName at h
  split at h <;> subst h
  case h_1 he => exact String.ofList_injective (he.trans String.ofList_toList.symm)
  case h_5 he => exact String.ofList_injective (he.trans String.ofList_toList.symm)
  case h_6 he => exact String.ofList_injective (he.trans String.ofList_toList.symm)
  all_goals simp

/-- Only calls show inclusions. -/
theorem Shows.ne_inclusion {kind : Kind} (h : Shows stop s kind t) : kind ≠ .inclusion := by
  cases h with
  | space | text | linebreak | escape | citation => exact nofun
  | math page =>
    unfold mathNode leaf
    dsimp only
    split <;> nofun
  | raw page =>
    unfold rawNode leaf
    split <;> nofun
  | call _ he => exact name_of_ofName he

/-- Inline content ends with the text, where it is stopped, or at spaces that end it. -/
def Cursor.Ends (mode : Mode) (stop : Option Char) (t : Cursor) : Prop :=
  ∀ c ∈ t.rest.head?, stopsAt stop t.depth c = true ∨ isSpace c = true ∧ endsAtSpace mode t.rest = true

theorem Cursor.Ends.head {mode : Mode} (h : t.Ends mode stop) : ∀ c ∈ t.rest.head?, stop = some c ∨ isSpace c = true := by
  intro c hc
  refine (h c hc).imp (fun hstop => ?_) And.left
  unfold stopsAt at hstop
  simp only [Bool.and_eq_true, decide_eq_true_eq] at hstop
  exact hstop.1

theorem Cursor.Ends.closes (h : t.Ends .bracket (some ']')) : t.Closes := by
  unfold Closes
  cases hrest : t.rest with
  | nil => exact Or.inr nofun
  | cons c r =>
    rcases h c (by rw [hrest]; rfl) with hstop | ⟨-, hspaces⟩
    · unfold stopsAt at hstop
      simp only [Bool.and_eq_true, decide_eq_true_eq] at hstop
      exact Or.inl hstop.1.symm
    · rw [hrest] at hspaces
      have hnil : (c :: r).dropWhile isSpace = [] := by simpa [endsAtSpace] using hspaces
      exact Or.inr (List.dropWhile_eq_nil_iff.1 hnil)

theorem closes_of_head (h : ∀ c ∈ t.rest.head?, some ']' = some c) : t.Closes := by
  unfold Cursor.Closes
  cases hrest : t.rest with
  | nil => exact Or.inr nofun
  | cons c r => exact Or.inl (h c (by rw [hrest]; rfl)).symm

/-- The readers read blocks of less than `m` characters up to their end, and inline content of less than `n`. -/
structure ReadsBelow (page : Page) (m n : Nat) : Prop where
  blocks : ∀ stop s, s.rest.length < m → Read page stop s ((reader page).blocks stop s).1 ((reader page).blocks stop s).2 ∧
    ∀ c ∈ ((reader page).blocks stop s).2.rest.head?, stop = some c
  inline : ∀ mode stop s, s.rest.length < n →
    Read page stop s ((reader page).inline mode stop s).1 ((reader page).inline mode stop s).2 ∧
      ((reader page).inline mode stop s).2.Ends mode stop

theorem content_open {body : Reads} (h : s.rest.head? = some '[') :
    content body s = ((body { s.advance 1 with depth := 0 }).1, (body { s.advance 1 with depth := 0 }).2.close s) := by
  obtain ⟨r, hr⟩ := List.head?_eq_some_iff.1 h
  unfold content Cursor.close
  rw [hr]
  generalize body _ = b
  dsimp only
  by_cases hclosed : b.2.rest.head? = some ']'
  · rw [if_pos hclosed, if_pos hclosed]
    rfl
  · rw [if_neg hclosed, if_neg hclosed]
    rfl

theorem content_none {body : Reads} (h : s.rest.head? ≠ some '[') : content body s = ([], s) := by
  unfold content
  split
  · next r hr => exact absurd (by rw [hr]; rfl) h
  · rfl

theorem length_open_lt (h : s.rest.head? = some '[') (hs : s.rest.length ≤ n) : (s.advance 1).rest.length < n := by
  have hne : s.rest ≠ [] := fun hnil => by rw [hnil] at h; cases h
  exact Nat.lt_of_lt_of_le (Cursor.length_advance_lt hne Nat.one_pos) hs

theorem read_content {body : Reads} (h : ∀ s : Cursor, s.rest.length < n →
      Read page (some ']') s (body s).1 (body s).2 ∧ (body s).2.Closes) (hs : s.rest.length ≤ n) :
    Read page stop s (content body s).1 (content body s).2 := by
  by_cases hopen : s.rest.head? = some '['
  · obtain ⟨hbody, hcloses⟩ := h { s.advance 1 with depth := 0 } (length_open_lt hopen hs)
    rw [content_open hopen]
    exact .content hopen hbody hcloses
  · rw [content_none hopen]
    exact .stay s

section Reader

theorem read_setRule (hm : s.mark? = some (.call "set".toList)) : Read page stop s [] (setRule (s.advance 4)) := by
  by_cases htext : name? ((s.advance 4).skipWhile isTab).rest = some "text".toList
  · have hrule : Read page stop s [] _ := .rule hm rfl htext
    unfold setRule
    dsimp only
    rw [htext]
    dsimp only
    rw [if_pos rfl, Cursor.scope_arguments]
    exact hrule
  · exact .pass (.set hm htext)

theorem read_includeCall (hm : s.mark? = some (.call "include".toList)) :
    Read page stop s (includeCall page s (s.advance 8)).1 (includeCall page s (s.advance 8)).2 := by
  unfold includeCall
  dsimp only
  split
  · next hnone => exact .pass (.pathless hm hnone)
  · next path hpath => exact .inclusion hm rfl hpath rfl rfl

theorem read_rawNode (hm : s.mark? = some .raw) : Read page stop s [(rawNode page s).1] (rawNode page s).2 := by
  have hleaf : ∀ shown, Read page stop s [leaf page _ s _ shown false] _ := fun shown => .leaf shown false (.raw page hm)
  unfold rawNode at hleaf ⊢
  split
  · next hfence =>
    simp only [hfence, if_true] at hleaf
    exact hleaf _
  · next hfence =>
    simp only [hfence] at hleaf
    exact hleaf _

theorem read_plainCall {name : Text} {kind : Kind} (hm : s.mark? = some (.call name)) (he : Callee.ofName name = .plain kind) :
    Read page stop s [(plainCall page kind s (s.advance (name.length + 1))).1]
      (plainCall page kind s (s.advance (name.length + 1))).2 := by
  have hshows : Shows stop s kind _ := .call hm he
  unfold plainCall
  dsimp only
  split
  · exact .leaf _ _ hshows
  · exact .leaf _ _ hshows
  · exact .leaf _ _ hshows

variable (hr : ReadsBelow page m n)
include hr

theorem read_inlineContent (hs : s.rest.length ≤ n) :
    Read page stop s (inlineContent (reader page) s).1 (inlineContent (reader page) s).2 := by
  refine read_content (fun t ht => ?_) hs
  obtain ⟨hbody, hends⟩ := hr.inline .bracket (some ']') t ht
  exact ⟨hbody.trim, hends.closes⟩

theorem read_blockContent (hs : s.rest.length ≤ m) :
    Read page stop s (blockContent (reader page) s).1 (blockContent (reader page) s).2 := by
  refine read_content (fun t ht => ?_) hs
  obtain ⟨hbody, hends⟩ := hr.blocks (some ']') t ht
  exact ⟨hbody, closes_of_head hends⟩

theorem read_textCall (hm : s.mark? = some (.call "text".toList)) (hs : (s.advance 5).rest.length ≤ n) :
    Read page stop s [(textCall page (reader page) s (s.advance 5)).1] (textCall page (reader page) s (s.advance 5)).2 := by
  have hlength := Nat.le_trans (s.advance 5).reaches_arguments.length_le hs
  have hscope : (s.advance 5).arguments.2.scope = s.scope := (s.advance 5).scope_arguments
  have hdepth : (s.advance 5).arguments.2.depth = s.depth := (s.advance 5).depth_arguments
  have htext := fun scope ns t => @Read.text page stop s _ t scope ns hm rfl
  have htextless := fun scope => @Read.textless page stop s _ scope hm rfl
  unfold textCall
  generalize (s.advance 5).arguments = a at *
  obtain ⟨args, v⟩ := a
  dsimp only at *
  rw [hscope]
  by_cases hopen : v.rest.head? = some '['
  · have hlt := length_open_lt hopen hlength
    rw [inlineContent, content_open (s := { v with scope := Scope.withArguments s.scope args }) hopen]
    obtain ⟨hbody, hends⟩ := hr.inline .bracket (some ']')
      { v.advance 1 with depth := 0, scope := Scope.withArguments s.scope args } hlt
    have hread := htext _ _ _ rfl hopen hbody.trim hends.closes
    unfold Cursor.close at hread ⊢
    dsimp only
    rw [hdepth]
    exact hread
  · rw [inlineContent, content_none (s := { v with scope := Scope.withArguments s.scope args }) hopen]
    have hsame : { v with scope := s.scope } = v := by rw [← hscope]
    change Read page stop s _ { v with scope := s.scope }
    rw [hsame]
    exact htextless _ rfl hopen

/-- A call does what its name says. -/
theorem read_call {name : Text} (hm : s.mark? = some (.call name)) (hn : (s.advance (name.length + 1)).rest.length ≤ n)
    (hle : n ≤ m) : Read page stop s (call page (reader page) name s (s.advance (name.length + 1))).1
      (call page (reader page) name s (s.advance (name.length + 1))).2 := by
  have hargs := Nat.le_trans (s.advance (name.length + 1)).reaches_arguments.length_le hn
  unfold call
  split
  · next he =>
    obtain rfl : name = _ := name_of_ofName he
    exact read_setRule hm
  · next he => exact .pass (.line hm he)
  · next he =>
    obtain rfl : name = _ := name_of_ofName he
    exact read_includeCall hm
  · next he =>
    obtain rfl : name = _ := name_of_ofName he
    exact read_textCall hr hm hn
  · next kind he =>
    have hcontent : Read page stop _ _ _ := read_inlineContent hr hargs
    have hbody := (Read.pass (.call hm (Or.inl ⟨kind, he⟩))).before hcontent
    rcases (name_of_ofName he : kind = .strong ∨ kind = .emph) with rfl | rfl
    · exact .node hbody rfl nofun rfl rfl
    · exact .node hbody rfl nofun rfl rfl
  · next he =>
    have hcontent : Read page stop _ _ _ := read_blockContent hr (Nat.le_trans hargs hle)
    have hbody := (Read.pass (.call hm (Or.inr he))).before hcontent
    exact .node hbody rfl nofun rfl rfl
  · next he => exact read_plainCall hm he
  · next he => exact .pass (.layout hm he rfl)

theorem read_delimited (mode : Mode) {c : Char} (hm : s.mark? = some (.delimiter c)) (hs : (s.advance 1).rest.length < n) :
    Read page stop s [(delimited page (reader page) mode c s).1] (delimited page (reader page) mode c s).2 := by
  obtain ⟨hbody, hends⟩ := hr.inline mode (some c) (s.advance 1) hs
  refine .delimited hm hbody (fun d hd => ?_) rfl
  exact (hends.head d hd).imp_left fun h => (Option.some.inj h).symm

theorem read_marked (mode : Mode) {k : Mark} (hm : s.mark? = some k) (hne : s.rest ≠ []) (hs : s.rest.length ≤ n)
    (hle : n ≤ m) : Read page stop s (marked page (reader page) mode k s).1 (marked page (reader page) mode k s).2 := by
  cases k with
  | escape c =>
    cases c with
    | none => exact .leaf _ _ (.linebreak hm)
    | some c => exact .leaf _ _ (.escape hm)
  | comment n => exact .pass (.comment hm)
  | math inside => exact .leaf _ _ (.math page hm)
  | raw => exact read_rawNode hm
  | delimiter c =>
    exact read_delimited hr mode hm (Nat.lt_of_lt_of_le (Cursor.length_advance_lt hne Nat.one_pos) hs)
  | citation key => exact .leaf _ _ (.citation hm)
  | label n => exact .pass (.label hm)
  | call name => exact read_call hr hm (Nat.le_trans (s.reaches_advance _).length_le hs) hle

theorem read_piece (mode : Mode) {c : Char} {r : Text} (hrest : s.rest = c :: r) (hs : s.rest.length ≤ n) (hle : n ≤ m) :
    Read page stop s (piece page (reader page) mode stop c s).1 (piece page (reader page) mode stop c s).2 := by
  unfold piece
  split
  · next hc => exact .leaf _ _ (.space hrest hc)
  · split
    · next k hm => exact read_marked hr mode hm (by simp [hrest]) hs hle
    · next hm => exact .leaf _ _ (.text page hm)

theorem read_inlineStep (mode : Mode) (hs : s.rest.length ≤ n) (hle : n ≤ m) :
    Read page stop s (inlineStep page (reader page) mode stop s).1 (inlineStep page (reader page) mode stop s).2 ∧
      (inlineStep page (reader page) mode stop s).2.Ends mode stop := by
  unfold inlineStep
  split
  · next hrest => exact ⟨.stay s, by simp [Cursor.Ends, hrest]⟩
  · next c r hrest =>
    split
    · next hend =>
      refine ⟨.stay s, fun d hd => ?_⟩
      rw [hrest, List.head?_cons, Option.mem_some_iff] at hd
      subst hd
      simpa [Bool.or_eq_true] using hend
    · have hlt := Nat.lt_of_lt_of_le (length_piece_lt (reader_forward page) page mode stop hrest) hs
      obtain ⟨hmore, hends⟩ := hr.inline mode stop _ hlt
      exact ⟨(read_piece hr mode hrest hs hle).seq hmore, hends⟩

theorem read_paragraph (hs : s.rest.length < n) :
    Read page stop s (paragraph page (reader page) stop s).1 (paragraph page (reader page) stop s).2 := by
  have hbody := (hr.inline .paragraph stop s hs).1.trim
  unfold paragraph
  dsimp only
  split
  · next heq =>
    rw [heq] at hbody
    exact hbody
  · next heq =>
    rw [heq] at hbody
    split
    · exact hbody
    · exact .node hbody rfl nofun rfl rfl
  · exact .node hbody rfl nofun rfl rfl

theorem read_block (hs : s.rest.length < n) :
    Read page stop s (block page (reader page) stop s).1 (block page (reader page) stop s).2 := by
  have hline : ∀ marker, (s.advance marker).rest.length < n := fun marker =>
    Nat.lt_of_le_of_lt (s.reaches_advance marker).length_le hs
  unfold block
  split
  · split
    · next hmarker =>
      exact .node ((Read.pass (.heading hmarker)).before (hr.inline .line stop _ (hline _)).1.trim) rfl nofun rfl rfl
    · next hmarker =>
      exact .node ((Read.pass (.item hmarker)).before (hr.inline .line stop _ (hline _)).1.trim) rfl nofun rfl rfl
    · exact read_paragraph hr hs
  · exact read_paragraph hr hs

omit hr in
theorem length_inline_lt (page : Page) (mode : Mode) {c : Char} {r : Text} (hrest : s.rest = c :: r) (hstop : stop ≠ some c)
    (hc : isSpace c = false) : ((reader page).inline mode stop s).2.rest.length < s.rest.length := by
  have hends : (stopsAt stop s.depth c || (isSpace c && endsAtSpace mode s.rest)) = false := by
    simp [stopsAt, hstop, hc]
  have hmore := ((reader_forward page).inline mode stop (piece page (reader page) mode stop c s).2).length_le
  rw [reader_inline, inlineStep_cons page _ mode stop hrest, hends, if_neg Bool.false_ne_true]
  exact Nat.lt_of_le_of_lt hmore (length_piece_lt (reader_forward page) page mode stop hrest)

omit hr in
/-- A block that is begun takes at least one character. -/
theorem pos_block_ne (page : Page) (stop : Option Char) {c : Char} {r : Text} (hrest : s.rest = c :: r) (hstop : stop ≠ some c)
    (hc : isSpace c = false) : (block page (reader page) stop s).2.pos ≠ s.pos := by
  have hne : s.rest ≠ [] := by simp [hrest]
  have hforward := reader_forward page
  have hline : ∀ marker, 0 < marker → ((reader page).inline .line stop (s.advance marker)).2.rest.length < s.rest.length :=
    fun marker hpos => Nat.lt_of_le_of_lt (hforward.inline .line stop _).length_le (Cursor.length_advance_lt hne hpos)
  have hparagraph : (paragraph page (reader page) stop s).2.rest.length < s.rest.length := by
    have hinline := length_inline_lt page .paragraph hrest hstop hc
    unfold paragraph
    dsimp only
    split
    · exact hinline
    · split
      · exact hinline
      · exact hinline
    · exact hinline
  have hlt : (block page (reader page) stop s).2.rest.length < s.rest.length := by
    unfold block
    split
    · split
      · next hmarker => exact hline _ (pos_of_headingMarker hmarker)
      · next hmarker => exact hline _ (pos_of_itemMarker hmarker)
      · exact hparagraph
    · exact hparagraph
  have hlength := (reaches_block hforward page stop s).length_eq
  omega

theorem read_blocksStep (hs : s.rest.length ≤ m) (hle : m < n) :
    Read page stop s (blocksStep page (reader page) stop s).1 (blocksStep page (reader page) stop s).2 ∧
      ∀ c ∈ (blocksStep page (reader page) stop s).2.rest.head?, stop = some c := by
  have hskip : Read page stop s [] (s.skipWhile isSpace) := .pass .spaces
  have hhead := s.head_skipWhile isSpace
  have hlength := Nat.le_trans (s.reaches_skipWhile isSpace).length_le hs
  unfold blocksStep
  dsimp only
  generalize s.skipWhile isSpace = v at hskip hhead hlength
  split
  · next hrest => exact ⟨hskip, by simp [hrest]⟩
  · next c r hrest =>
    split
    · next hstop => exact ⟨hskip, by simp [hrest, hstop]⟩
    · next hstop =>
      have hmoved := pos_block_ne page stop hrest hstop (hhead c (by rw [hrest]; rfl))
      have hblock := hskip.before (read_block hr (Nat.lt_of_le_of_lt hlength hle))
      have hlt := length_moved_lt (reaches_block (reader_forward page) page stop v) (by simp [hrest])
      rw [if_neg hmoved] at hlt ⊢
      obtain ⟨hmore, hends⟩ := hr.blocks stop _ (Nat.lt_of_lt_of_le hlt hlength)
      exact ⟨hblock.seq hmore, hends⟩

end Reader

theorem readsBelow (page : Page) (n : Nat) : ReadsBelow page n n := by
  induction n with
  | zero => exact ⟨fun stop s hs => absurd hs (Nat.not_lt_zero _), fun mode stop s hs => absurd hs (Nat.not_lt_zero _)⟩
  | succ n ih =>
    have hinline : ReadsBelow page n (n + 1) := by
      refine ⟨ih.blocks, fun mode stop s hs => ?_⟩
      rw [reader_inline]
      exact read_inlineStep ih mode (Nat.le_of_lt_succ hs) (Nat.le_refl n)
    refine ⟨fun stop s hs => ?_, hinline.inline⟩
    rw [reader_blocks]
    exact read_blocksStep hinline (Nat.le_of_lt_succ hs) (Nat.lt_succ_self n)

/-- A file is read to its end. -/
theorem read_parse (page : Page) (text : Text) (scope : Scope) :
    Read page none (Cursor.start text scope) (parse page text scope).1 (parse page text scope).2 ∧
      (parse page text scope).2.rest = [] := by
  obtain ⟨hread, hends⟩ := (readsBelow page (text.length + 1)).blocks none (Cursor.start text scope) (Nat.lt_succ_self _)
  rw [parse_eq]
  refine ⟨hread, List.head?_eq_none_iff.1 (Option.eq_none_iff_forall_not_mem.2 fun c hc => ?_)⟩
  cases hends c hc

end Proofreader.Markup
