import Proofreader.Proofs.Markup.Includes

/-! Reading in two libraries. What a reader does depends on other files only through what it has asked for, in order. So
readings in two libraries are the same up to the first file in which the libraries differ, and are the same altogether
where no such file is asked for. -/

namespace Proofreader.Markup

/-- The two lists begin alike, up to a file with `U`. -/
def Forks (U : FileId → Prop) (l l' : List FileId) : Prop :=
  ∃ shared f, U f ∧ shared ++ [f] <+: l ∧ shared ++ [f] <+: l'

/-- Two results are the same, or a file with `U` has been asked for after the same other files. -/
def UpTo (U : FileId → Prop) (r r' : List Node × Cursor) : Prop := r = r' ∨ Forks U r.2.asked r'.2.asked

/-- The same for what an include gets. -/
def Inclusion.UpTo (U : FileId → Prop) (got got' : Inclusion) : Prop := got = got' ∨ Forks U got.asked got'.asked

variable {U : FileId → Prop}

namespace Forks

variable {l l' m m' : List FileId}

theorem mono (h : Forks U l l') (hm : l <+: m) (hm' : l' <+: m') : Forks U m m' := by
  obtain ⟨shared, f, hf, hl, hl'⟩ := h
  exact ⟨shared, f, hf, hl.trans hm, hl'.trans hm'⟩

theorem append_left (h : Forks U l l') (front : List FileId) : Forks U (front ++ l) (front ++ l') := by
  obtain ⟨shared, f, hf, hl, hl'⟩ := h
  refine ⟨front ++ shared, f, hf, ?_, ?_⟩
  · rw [List.append_assoc]
    exact (List.prefix_append_right_inj front).2 hl
  · rw [List.append_assoc]
    exact (List.prefix_append_right_inj front).2 hl'

/-- The first file with `U` is the same. -/
theorem find?_eq (h : Forks U l l') {p : FileId → Bool} (hp : ∀ f, U f → p f = true) :
    l.find? p = l'.find? p ∧ (l.find? p).isSome = true := by
  obtain ⟨shared, f, hf, ⟨more, rfl⟩, ⟨more', rfl⟩⟩ := h
  have hfound : ((shared ++ [f]).find? p).isSome = true :=
    List.find?_isSome.2 ⟨f, List.mem_append_right _ (List.mem_singleton_self f), hp f hf⟩
  have hmore : ∀ more, (shared ++ [f] ++ more).find? p = (shared ++ [f]).find? p := fun more => by
    rw [List.find?_append, Option.or_of_isSome hfound]
  rw [hmore, hmore]
  exact ⟨rfl, hfound⟩

end Forks

namespace UpTo

variable {r r' : List Node × Cursor}

theorem refl (r : List Node × Cursor) : UpTo U r r := Or.inl rfl

/-- Results that are alike are followed by results that are alike. -/
theorem bind (h : UpTo U r r') (k k' : List Node × Cursor → List Node × Cursor) (hk : ∀ r, UpTo U (k r) (k' r))
    (hnext : r.2.asked <+: (k r).2.asked) (hnext' : r'.2.asked <+: (k' r').2.asked) : UpTo U (k r) (k' r') := by
  rcases h with rfl | h
  · exact hk r
  · exact Or.inr (h.mono hnext hnext')

theorem map (h : UpTo U r r') (k : List Node × Cursor → List Node × Cursor) (hk : ∀ r, r.2.asked <+: (k r).2.asked) :
    UpTo U (k r) (k r') :=
  h.bind k k (fun r => .refl (k r)) (hk r) (hk r')

end UpTo

/-- Readers that give results that are alike. -/
structure Deeper.UpTo (U : FileId → Prop) (deeper deeper' : Deeper) : Prop where
  blocks : ∀ stop s, Markup.UpTo U (deeper.blocks stop s) (deeper'.blocks stop s)
  inline : ∀ mode stop s, Markup.UpTo U (deeper.inline mode stop s) (deeper'.inline mode stop s)

variable {deeper deeper' : Deeper} {file : FileId} {fetch fetch' : Text → Location → Scope → Inclusion}

theorem upTo_content {body body' : Reads} (h : ∀ s, UpTo U (body s) (body' s)) (s : Cursor) :
    UpTo U (content body s) (content body' s) := by
  unfold content
  split
  · refine (h { s.advance 1 with depth := 0 }).map (fun r =>
      (r.1, if ({ r.2 with depth := s.depth, scope := s.scope } : Cursor).rest.head? = some ']' then
        ({ r.2 with depth := s.depth, scope := s.scope } : Cursor).advance 1
        else { r.2 with depth := s.depth, scope := s.scope })) fun r => ?_
    dsimp only
    split
    · exact List.prefix_rfl
    · exact List.prefix_rfl
  · exact .refl _

section Readers

variable (hd : deeper.UpTo U deeper')
include hd

theorem upTo_inlineContent (s : Cursor) : UpTo U (inlineContent deeper s) (inlineContent deeper' s) :=
  upTo_content (fun t => (hd.inline .bracket (some ']') t).map (fun r => (trimSpaces r.1, r.2)) fun _ => List.prefix_rfl) s

omit hd in
theorem upTo_includeCall
    (hfetch : ∀ path here scope, (fetch path here scope).UpTo U (fetch' path here scope)) (start s : Cursor) :
    UpTo U (includeCall ⟨file, fetch⟩ start s) (includeCall ⟨file, fetch'⟩ start s) := by
  unfold includeCall
  dsimp only
  split
  · exact .refl _
  · next path _ =>
    rcases hfetch path ⟨file, start.pos, ((s.skipWhile isTab).advance (path.length + 2)).pos⟩
      ((s.skipWhile isTab).advance (path.length + 2)).scope with h | h
    · rw [h]
      exact .refl _
    · exact Or.inr (h.append_left _)

theorem upTo_textCall (start s : Cursor) :
    UpTo U ([(textCall ⟨file, fetch⟩ deeper start s).1], (textCall ⟨file, fetch⟩ deeper start s).2)
      ([(textCall ⟨file, fetch'⟩ deeper' start s).1], (textCall ⟨file, fetch'⟩ deeper' start s).2) := by
  unfold textCall
  rcases s.arguments with ⟨args, t⟩
  refine (upTo_inlineContent hd { t with scope := Scope.withArguments t.scope args }).map
    (fun r => ([branch ⟨file, fetch⟩ .lang start r.2 (Scope.withArguments t.scope args) r.1],
      { r.2 with scope := t.scope })) fun _ => List.prefix_rfl

theorem upTo_call
    (hfetch : ∀ path here scope, (fetch path here scope).UpTo U (fetch' path here scope)) (name : Text) (start s : Cursor) :
    UpTo U (call ⟨file, fetch⟩ deeper name start s) (call ⟨file, fetch'⟩ deeper' name start s) := by
  unfold call
  split
  · exact .refl _
  · exact .refl _
  · exact upTo_includeCall hfetch start s
  · exact upTo_textCall hd start s
  · next kind _ =>
    exact (upTo_inlineContent hd s.arguments.2).map
      (fun r => ([branch ⟨file, fetch⟩ kind start r.2 s.scope r.1], r.2)) fun _ => List.prefix_rfl
  · exact (upTo_content (hd.blocks (some ']')) s.arguments.2).map
      (fun r => ([branch ⟨file, fetch⟩ .block start r.2 s.scope r.1], r.2)) fun _ => List.prefix_rfl
  · exact .refl _
  · exact .refl _

theorem upTo_delimited (mode : Mode) (c : Char) (s : Cursor) :
    UpTo U ([(delimited ⟨file, fetch⟩ deeper mode c s).1], (delimited ⟨file, fetch⟩ deeper mode c s).2)
      ([(delimited ⟨file, fetch'⟩ deeper' mode c s).1], (delimited ⟨file, fetch'⟩ deeper' mode c s).2) := by
  unfold delimited
  refine (hd.inline mode (some c) (s.advance 1)).map (fun r =>
    ([branch ⟨file, fetch⟩ (if c = '*' then .strong else .emph) s (r.2.undelimit c) s.scope r.1], r.2.undelimit c))
    fun r => ?_
  exact (r.2.reaches_undelimit c).asked

theorem upTo_piece
    (hfetch : ∀ path here scope, (fetch path here scope).UpTo U (fetch' path here scope))
    (mode : Mode) (stop : Option Char) (c : Char) (s : Cursor) :
    UpTo U (piece ⟨file, fetch⟩ deeper mode stop c s) (piece ⟨file, fetch'⟩ deeper' mode stop c s) := by
  unfold piece
  split
  · exact .refl _
  · split
    · next mark _ =>
      cases mark with
      | delimiter d => exact upTo_delimited hd mode d s
      | call name => exact upTo_call hd hfetch name s _
      | escape e =>
        cases e with
        | none => exact .refl _
        | some e => exact .refl _
      | comment | math | raw | citation | label => exact .refl _
    · exact .refl _

theorem upTo_inlineStep (hf : deeper.Forward) (hf' : deeper'.Forward)
    (hfetch : ∀ path here scope, (fetch path here scope).UpTo U (fetch' path here scope))
    (mode : Mode) (stop : Option Char) (s : Cursor) :
    UpTo U (inlineStep ⟨file, fetch⟩ deeper mode stop s) (inlineStep ⟨file, fetch'⟩ deeper' mode stop s) := by
  unfold inlineStep
  split
  · exact .refl _
  · next c r _ =>
    split
    · exact .refl _
    · refine (upTo_piece hd hfetch mode stop c s).bind
        (fun r => (r.1 ++ (deeper.inline mode stop r.2).1, (deeper.inline mode stop r.2).2))
        (fun r => (r.1 ++ (deeper'.inline mode stop r.2).1, (deeper'.inline mode stop r.2).2)) (fun r => ?_)
        (hf.inline mode stop _).asked (hf'.inline mode stop _).asked
      exact (hd.inline mode stop r.2).map (fun q => (r.1 ++ q.1, q.2)) fun _ => List.prefix_rfl

omit hd in
theorem paragraph_snd (page : Page) (deeper : Deeper) (stop : Option Char) (s : Cursor) :
    (paragraph page deeper stop s).2 = (deeper.inline .paragraph stop s).2 := by
  unfold paragraph
  dsimp only
  split
  · rfl
  · split
    · rfl
    · rfl
  · rfl

theorem upTo_paragraph (stop : Option Char) (s : Cursor) :
    UpTo U (paragraph ⟨file, fetch⟩ deeper stop s) (paragraph ⟨file, fetch'⟩ deeper' stop s) := by
  rcases hd.inline .paragraph stop s with h | h
  · left
    unfold paragraph
    rw [h]
  · right
    rw [paragraph_snd, paragraph_snd]
    exact h

theorem upTo_block (stop : Option Char) (s : Cursor) :
    UpTo U (block ⟨file, fetch⟩ deeper stop s) (block ⟨file, fetch'⟩ deeper' stop s) := by
  unfold block
  split
  · cases headingMarker? s.rest with
    | some marker =>
      obtain ⟨level, n⟩ := marker
      exact (hd.inline .line stop (s.advance n)).map (fun r =>
        ([⟨.heading, ⟨file, s.pos, r.2.trimmedEnd s⟩, [], s.scope, level, false, trimSpaces r.1⟩], r.2))
        fun _ => List.prefix_rfl
    | none =>
      cases itemMarker? s.rest with
      | some n =>
        exact (hd.inline .line stop (s.advance n)).map (fun r =>
          ([⟨.listItem, ⟨file, s.pos, r.2.trimmedEnd s⟩, [], s.scope, 0, false, trimSpaces r.1⟩], r.2))
          fun _ => List.prefix_rfl
      | none => exact upTo_paragraph hd stop s
  · exact upTo_paragraph hd stop s

theorem upTo_blocksStep (hf : deeper.Forward) (hf' : deeper'.Forward) (stop : Option Char) (s : Cursor) :
    UpTo U (blocksStep ⟨file, fetch⟩ deeper stop s) (blocksStep ⟨file, fetch'⟩ deeper' stop s) := by
  unfold blocksStep
  dsimp only
  generalize s.skipWhile isSpace = v
  split
  · exact .refl _
  · next c r _ =>
    split
    · exact .refl _
    · refine (upTo_block hd stop v).bind
        (fun r => (r.1 ++ (deeper.blocks stop (if r.2.pos = v.pos then r.2.advance 1 else r.2)).1,
          (deeper.blocks stop (if r.2.pos = v.pos then r.2.advance 1 else r.2)).2))
        (fun r => (r.1 ++ (deeper'.blocks stop (if r.2.pos = v.pos then r.2.advance 1 else r.2)).1,
          (deeper'.blocks stop (if r.2.pos = v.pos then r.2.advance 1 else r.2)).2)) (fun r => ?_)
        ((reaches_moved v _).trans (hf.blocks stop _)).asked ((reaches_moved v _).trans (hf'.blocks stop _)).asked
      exact (hd.blocks stop _).map (fun q => (r.1 ++ q.1, q.2)) fun _ => List.prefix_rfl

end Readers

section Pages

variable (hfetch : ∀ path here scope, (fetch path here scope).UpTo U (fetch' path here scope))
include hfetch

theorem deeper_upTo (file : FileId) (fuel : Nat) :
    Deeper.UpTo U ⟨blocks ⟨file, fetch⟩ fuel, inline ⟨file, fetch⟩ fuel⟩
    ⟨blocks ⟨file, fetch'⟩ fuel, inline ⟨file, fetch'⟩ fuel⟩ := by
  induction fuel with
  | zero => exact ⟨fun _ _ => .refl _, fun _ _ _ => .refl _⟩
  | succ fuel ih =>
    have hf := deeper_forward ⟨file, fetch⟩ fuel
    have hf' := deeper_forward ⟨file, fetch'⟩ fuel
    exact ⟨upTo_blocksStep ih hf hf', upTo_inlineStep ih hf hf' hfetch⟩

theorem upTo_parse (file : FileId) (text : Text) (scope : Scope) :
    UpTo U (parse ⟨file, fetch⟩ text scope) (parse ⟨file, fetch'⟩ text scope) :=
  (deeper_upTo hfetch file (fuelFor text)).blocks none _

end Pages

namespace Library

variable {lib lib' : Library} {main : FileId} {levels : Nat} {chain : List FileId} {at? : Option Location} {scope : Scope}

/-- A file that is not being read is asked for first. -/
theorem asked_readFile (hc : file ∉ chain) : [file] <+: (lib.readFile levels chain file at? scope).asked := by
  unfold readFile
  rw [if_neg (mt List.contains_iff_mem.1 hc)]
  split
  · exact List.cons_prefix_cons.2 ⟨rfl, List.nil_prefix⟩
  · exact List.prefix_rfl

/-- The libraries have the same text for every file that includes lead to from the main file, if it is not one with `U`. -/
structure AgreeOff (U : FileId → Prop) (main : FileId) (lib lib' : Library) : Prop where
  resolve : lib.resolve = lib'.resolve
  load : ∀ f, lib.Leads main f → ¬ U f → lib.load f = lib'.load f

theorem AgreeOff.upTo_readFile (h : AgreeOff U main lib lib') (hfile : lib.Leads main file) :
    lib.readFile levels chain file at? scope = lib'.readFile levels chain file at? scope ∨
      Forks U (lib.readFile levels chain file at? scope).asked (lib'.readFile levels chain file at? scope).asked := by
  induction levels generalizing chain file at? scope with
  | zero =>
    left
    by_cases hc : file ∈ chain
    · rw [readFile_of_mem hc, readFile_of_mem hc]
    · rw [readFile_of_missing hc (Or.inl rfl), readFile_of_missing hc (Or.inl rfl)]
  | succ levels ih =>
    by_cases hc : file ∈ chain
    · rw [readFile_of_mem hc, readFile_of_mem hc]
      exact Or.inl rfl
    · by_cases hU : U file
      · exact Or.inr ⟨[], file, hU, asked_readFile hc, asked_readFile hc⟩
      · have hload := h.load file hfile hU
        cases hl : lib.load file with
        | none =>
          rw [readFile_of_missing hc (Or.inr hl), readFile_of_missing hc (Or.inr (hload.symm.trans hl))]
          exact Or.inl rfl
        | some text =>
          have hfetch : ∀ path here scope, ((lib.page levels chain file).fetch path here scope).UpTo U
              ((lib'.page levels chain file).fetch path here scope) := by
            intro path here scope
            dsimp only [page]
            rw [← h.resolve]
            rcases ih (hfile.resolve path) with hsame | hforks
            · exact Or.inl (by rw [hsame])
            · exact Or.inr hforks
          rw [readFile_eq hc hl, readFile_eq hc (hload.symm.trans hl)]
          rcases upTo_parse hfetch file text scope with hsame | hforks
          · left
            unfold page at hsame ⊢
            rw [hsame]
          · exact Or.inr (hforks.append_left [file])

/-- Both libraries read the same document, or ask for a file with `U` after the same other files. -/
theorem AgreeOff.upTo_read (h : AgreeOff U main lib lib') :
    lib.read main = lib'.read main ∨ Forks U (lib.read main).asked (lib'.read main).asked := by
  have hread : ∀ {l : Library}, l.files.length ≤ max lib.files.length lib'.files.length →
      l.read main = l.readFile (max lib.files.length lib'.files.length) [] main none .unset := fun hle =>
    readFile_levels (open_nil _) (Nat.le_refl _) hle
  rw [hread (Nat.le_max_left _ _), hread (Nat.le_max_right _ _)]
  exact h.upTo_readFile .main

/-- A document is the same in a library that agrees about the files that were asked for. -/
theorem read_eq (hresolve : lib.resolve = lib'.resolve) (hload : ∀ f ∈ (lib.read main).asked, lib.load f = lib'.load f) :
    lib.read main = lib'.read main := by
  have h : AgreeOff (· ∉ (lib.read main).asked) main lib lib' := ⟨hresolve, fun f _ hf => hload f (not_not.1 hf)⟩
  rcases h.upTo_read with hsame | ⟨shared, f, hf, hshared, -⟩
  · exact hsame
  · exact absurd (hshared.subset (List.mem_append_right _ (List.mem_singleton_self f))) hf

/-- Which of some files is asked for first does not depend on their texts. -/
theorem AgreeOff.find?_asked (h : AgreeOff U main lib lib') {p : FileId → Bool} (hp : ∀ f, U f → p f = true) :
    (lib.read main).asked.find? p = (lib'.read main).asked.find? p := by
  rcases h.upTo_read with hsame | hforks
  · rw [hsame]
  · exact (hforks.find?_eq hp).1

end Library

end Proofreader.Markup
