import Proofreader.Proofs.Markup.Library

/-! Reading asks for the files that includes lead to, and for no others: only an include adds to what was asked for,
and it adds what reading its file asks for. -/

namespace Proofreader.Markup

variable {P : FileId → Prop}

/-- Only files with `P` have been asked for. -/
def Cursor.Asks (P : FileId → Prop) (s : Cursor) : Prop := ∀ f ∈ s.asked, P f

/-- Includes on the page ask for files with `P` only. -/
def Page.Asks (P : FileId → Prop) (page : Page) : Prop :=
  ∀ path here scope, ∀ f ∈ (page.fetch path here scope).asked, P f

structure Deeper.Asks (P : FileId → Prop) (deeper : Deeper) : Prop where
  blocks : ∀ stop s, s.Asks P → (deeper.blocks stop s).2.Asks P
  inline : ∀ mode stop s, s.Asks P → (deeper.inline mode stop s).2.Asks P

namespace Cursor

variable {s : Cursor}

theorem asked_arguments (s : Cursor) : s.arguments.2.asked = s.asked := by
  unfold arguments
  split
  · rfl
  · rfl

theorem asked_skipContent (s : Cursor) (fuel : Nat) : (s.skipContent fuel).asked = s.asked := by
  induction fuel generalizing s with
  | zero => rfl
  | succ fuel ih =>
    unfold skipContent
    split
    · exact ih _
    · rfl

theorem Asks.arguments (h : s.Asks P) : s.arguments.2.Asks P := by
  unfold Asks
  rw [asked_arguments]
  exact h

end Cursor

variable {page : Page} {deeper : Deeper} {s t : Cursor}

theorem asked_setRule (s : Cursor) : (setRule s).asked = s.asked := by
  unfold setRule
  dsimp only
  split
  · rfl
  · split
    · exact Cursor.asked_arguments _
    · exact Cursor.asked_arguments _

theorem asks_content {body : Reads} (h : ∀ s, s.Asks P → (body s).2.Asks P) (hs : s.Asks P) :
    (content body s).2.Asks P := by
  unfold content
  split
  · have hbody := h { s.advance 1 with depth := 0 } hs
    dsimp only
    split
    · exact hbody
    · exact hbody
  · exact hs

theorem asks_inlineContent (hd : deeper.Asks P) (hs : s.Asks P) : (inlineContent deeper s).2.Asks P :=
  asks_content (fun u hu => hd.inline .bracket (some ']') u hu) hs

theorem asks_includeCall (hp : page.Asks P) (ht : t.Asks P) : (includeCall page s t).2.Asks P := by
  unfold includeCall
  dsimp only
  split
  · exact ht
  · intro f hf
    rcases List.mem_append.1 hf with hf | hf
    · exact ht f hf
    · exact hp _ _ _ f hf

theorem asks_call (hp : page.Asks P) (hd : deeper.Asks P) (name : Text) (ht : t.Asks P) :
    (call page deeper name s t).2.Asks P := by
  unfold call
  split
  · unfold Cursor.Asks
    rw [asked_setRule]
    exact ht
  · exact ht
  · exact asks_includeCall hp ht
  · exact asks_inlineContent hd ht.arguments
  · exact asks_inlineContent hd ht.arguments
  · exact asks_content (hd.blocks (some ']')) ht.arguments
  · exact ht.arguments
  · unfold Cursor.Asks
    rw [Cursor.asked_skipContent]
    exact ht.arguments

theorem asks_delimited (page : Page) (hd : deeper.Asks P) (mode : Mode) (c : Char) (hs : s.Asks P) :
    (delimited page deeper mode c s).2.Asks P := by
  have hbody := hd.inline mode (some c) (s.advance 1) hs
  unfold delimited
  dsimp only
  split
  · exact hbody
  · exact hbody

theorem asks_rawNode (hs : s.Asks P) : (rawNode page s).2.Asks P := by
  unfold rawNode
  split
  · exact hs
  · exact hs

theorem asks_marked (hp : page.Asks P) (hd : deeper.Asks P) (mode : Mode) (m : Mark) (hs : s.Asks P) :
    (marked page deeper mode m s).2.Asks P := by
  cases m with
  | escape c =>
    cases c with
    | none => exact hs
    | some c => exact hs
  | comment n => exact hs
  | math inside => exact hs
  | raw => exact asks_rawNode hs
  | delimiter c => exact asks_delimited page hd mode c hs
  | citation key => exact hs
  | label n => exact hs
  | call name => exact asks_call hp hd name hs

theorem asks_piece (hp : page.Asks P) (hd : deeper.Asks P) (mode : Mode) (stop : Option Char) (c : Char)
    (hs : s.Asks P) : (piece page deeper mode stop c s).2.Asks P := by
  unfold piece
  split
  · exact hs
  · split
    · next m _ => exact asks_marked hp hd mode m hs
    · exact hs

theorem asks_inlineStep (hp : page.Asks P) (hd : deeper.Asks P) (mode : Mode) (stop : Option Char) (hs : s.Asks P) :
    (inlineStep page deeper mode stop s).2.Asks P := by
  unfold inlineStep
  split
  · exact hs
  · next c r _ =>
    split
    · exact hs
    · exact hd.inline mode stop _ (asks_piece hp hd mode stop c hs)

theorem asks_paragraph (hd : deeper.Asks P) (stop : Option Char) (hs : s.Asks P) :
    (paragraph page deeper stop s).2.Asks P := by
  have hbody := hd.inline .paragraph stop s hs
  unfold paragraph
  dsimp only
  split
  · exact hbody
  · split
    · exact hbody
    · exact hbody
  · exact hbody

theorem asks_block (page : Page) (hd : deeper.Asks P) (stop : Option Char) (hs : s.Asks P) :
    (block page deeper stop s).2.Asks P := by
  unfold block
  split
  · split
    · exact hd.inline .line stop _ hs
    · exact hd.inline .line stop _ hs
    · exact asks_paragraph hd stop hs
  · exact asks_paragraph hd stop hs

theorem asks_blocksStep (hd : deeper.Asks P) (stop : Option Char) (hs : s.Asks P) :
    (blocksStep page deeper stop s).2.Asks P := by
  unfold blocksStep
  dsimp only
  split
  · exact hs
  · split
    · exact hs
    · refine hd.blocks stop _ ?_
      have hskip : (s.skipWhile isSpace).Asks P := hs
      have hblock := asks_block page hd stop hskip
      split
      · exact hblock
      · exact hblock

/-- Readers with any fuel ask for nothing else. -/
theorem deeper_asks (hp : page.Asks P) (fuel : Nat) : Deeper.Asks P ⟨blocks page fuel, inline page fuel⟩ := by
  induction fuel with
  | zero => exact ⟨fun _ _ hs => hs, fun _ _ _ hs => hs⟩
  | succ fuel ih => exact ⟨fun stop _ hs => asks_blocksStep ih stop hs, fun mode stop _ hs => asks_inlineStep hp ih mode stop hs⟩

theorem asks_parse (hp : page.Asks P) (text : Text) (scope : Scope) : (parse page text scope).2.Asks P :=
  (deeper_asks hp (fuelFor text)).blocks none _ (List.forall_mem_nil _)

namespace Library

variable {lib : Library} {main : FileId}

/-- From a file that includes lead to, reading asks for files that includes lead to. -/
theorem leads_of_mem_readFile {levels : Nat} {chain : List FileId} {file : FileId} {at? : Option Location}
    {scope : Scope} (h : lib.Leads main file) : ∀ f ∈ (lib.readFile levels chain file at? scope).asked, lib.Leads main f := by
  induction levels generalizing chain file at? scope with
  | zero =>
    unfold readFile
    split
    · exact List.forall_mem_nil _
    · exact List.forall_mem_singleton.2 h
  | succ levels ih =>
    by_cases hc : file ∈ chain
    · unfold readFile
      rw [if_pos (List.contains_iff_mem.2 hc)]
      exact List.forall_mem_nil _
    · cases hl : lib.load file with
      | some text =>
        rw [readFile_eq hc hl]
        have hpage : (lib.page levels chain file).Asks (lib.Leads main) := fun path _ _ => ih (h.resolve path)
        exact List.forall_mem_cons.2 ⟨h, asks_parse hpage text scope⟩
      | none =>
        unfold readFile
        rw [if_neg (mt List.contains_iff_mem.1 hc), hl]
        exact List.forall_mem_singleton.2 h

theorem leads_of_mem_read : ∀ f ∈ (lib.read main).asked, lib.Leads main f := leads_of_mem_readFile .main

end Library

end Proofreader.Markup
