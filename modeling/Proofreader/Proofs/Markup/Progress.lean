import Proofreader.Proofs.Markup.Lexeme
import Proofreader.Proofs.Markup.Parser

/-! Reading comes to an end. Every reader only moves on, each piece of content takes at least one character, and what a
reader does depends on what the readers do with shorter texts. So readers with enough fuel are all the same, whatever
they answer where fuel runs out: they are `reader`, which needs none. -/

namespace Proofreader.Markup

/-- Readers that only move on. -/
structure Deeper.Forward (deeper : Deeper) : Prop where
  blocks : ∀ stop (s : Cursor), s.Reaches (deeper.blocks stop s).2
  inline : ∀ mode stop (s : Cursor), s.Reaches (deeper.inline mode stop s).2

/-- The same readers of blocks for less than `m` characters, and of inline content for less than `n`. -/
structure Deeper.Agree (m n : Nat) (deeper other : Deeper) : Prop where
  blocks : ∀ stop s, s.rest.length < m → deeper.blocks stop s = other.blocks stop s
  inline : ∀ mode stop s, s.rest.length < n → deeper.inline mode stop s = other.inline mode stop s

variable {page : Page} {deeper other : Deeper} {s t : Cursor}

section Forward

theorem reaches_content {body : Reads} (h : ∀ s : Cursor, s.Reaches (body s).2) (s : Cursor) :
    s.Reaches (content body s).2 := by
  unfold content
  split
  · have hopen : s.Reaches { s.advance 1 with depth := 0 } :=
      (s.reaches_advance 1).trans (.same rfl rfl rfl List.prefix_rfl)
    have hbody := hopen.trans (h { s.advance 1 with depth := 0 })
    generalize body { s.advance 1 with depth := 0 } = r at hbody ⊢
    obtain ⟨nodes, t⟩ := r
    have hclosed : s.Reaches { t with depth := s.depth, scope := s.scope } :=
      hbody.trans (.same rfl rfl rfl List.prefix_rfl)
    dsimp only
    split
    · exact hclosed.trans (Cursor.reaches_advance _ 1)
    · exact hclosed
  · exact .refl s

variable (hd : deeper.Forward)
include hd

theorem reaches_inlineContent (s : Cursor) : s.Reaches (inlineContent deeper s).2 := by
  refine reaches_content (fun t => ?_) s
  exact hd.inline .bracket (some ']') t

theorem reaches_textCall (page : Page) (start s : Cursor) : s.Reaches (textCall page deeper start s).2 := by
  have hargs := s.reaches_arguments
  unfold textCall
  generalize s.arguments = r at hargs ⊢
  obtain ⟨args, t⟩ := r
  have hscope : s.Reaches { t with scope := Scope.withArguments t.scope args } :=
    hargs.trans (.same rfl rfl rfl List.prefix_rfl)
  exact (hscope.trans (reaches_inlineContent hd _)).trans (.same rfl rfl rfl List.prefix_rfl)

omit hd in
theorem reaches_includeCall (page : Page) (start s : Cursor) : s.Reaches (includeCall page start s).2 := by
  have htabs := s.reaches_skipWhile isTab
  unfold includeCall
  dsimp only
  split
  · exact htabs
  · exact (htabs.trans (Cursor.reaches_advance _ _)).trans (.same rfl rfl rfl (List.prefix_append _ _))

theorem reaches_call (page : Page) (name : Text) (start s : Cursor) : s.Reaches (call page deeper name start s).2 := by
  have hargs := s.reaches_arguments
  unfold call
  split
  · exact reaches_setRule s
  · exact s.reaches_skipWhile _
  · exact reaches_includeCall page start s
  · exact reaches_textCall hd page start s
  · exact hargs.trans (reaches_inlineContent hd _)
  · exact hargs.trans (reaches_content (hd.blocks (some ']')) _)
  · exact hargs
  · exact hargs.trans (Cursor.reaches_skipContent _ _)

theorem reaches_delimited (page : Page) (mode : Mode) (c : Char) (s : Cursor) :
    (s.advance 1).Reaches (delimited page deeper mode c s).2 := by
  have hbody := hd.inline mode (some c) (s.advance 1)
  unfold delimited
  generalize deeper.inline mode (some c) (s.advance 1) = r at hbody ⊢
  obtain ⟨nodes, t⟩ := r
  dsimp only
  split
  · exact hbody.trans (t.reaches_advance 1)
  · exact hbody

/-- A mark takes at least one character. -/
theorem exists_advance_marked (page : Page) (mode : Mode) {m : Mark} (hm : s.mark? = some m) :
    ∃ n, 0 < n ∧ (s.advance n).Reaches (marked page deeper mode m s).2 := by
  cases m with
  | escape c =>
    cases c with
    | none => exact ⟨1, Nat.one_pos, .refl _⟩
    | some c => exact ⟨2, Nat.two_pos, .refl _⟩
  | comment n => exact ⟨n, pos_of_mark? (Or.inl hm), .refl _⟩
  | math inside => exact ⟨inside + 2, Nat.succ_pos _, .refl _⟩
  | raw =>
    change ∃ n, 0 < n ∧ (s.advance n).Reaches (rawNode page s).2
    unfold rawNode
    split
    · exact ⟨_, Nat.succ_pos _, .refl _⟩
    · exact ⟨_, Nat.succ_pos _, .refl _⟩
  | delimiter c => exact ⟨1, Nat.one_pos, reaches_delimited hd page mode c s⟩
  | citation key => exact ⟨key.length + 1, Nat.succ_pos _, .refl _⟩
  | label n => exact ⟨n, pos_of_mark? (Or.inr hm), .refl _⟩
  | call name => exact ⟨name.length + 1, Nat.succ_pos _, reaches_call hd page name s _⟩

/-- Each piece of content takes at least one character. -/
theorem exists_advance_piece (page : Page) (mode : Mode) (stop : Option Char) {c : Char} {r : Text} (hrest : s.rest = c :: r) :
    ∃ n, 0 < n ∧ (s.advance n).Reaches (piece page deeper mode stop c s).2 := by
  unfold piece
  split
  · next hc => exact ⟨(s.rest.takeWhile isSpace).length, by simp [hrest, hc], .refl _⟩
  · split
    · next m hm => exact exists_advance_marked hd page mode hm
    · exact ⟨_, Nat.lt_of_lt_of_le Nat.one_pos (Nat.le_max_right _ _), .same rfl rfl rfl List.prefix_rfl⟩

theorem reaches_piece (page : Page) (mode : Mode) (stop : Option Char) {c : Char} {r : Text} (hrest : s.rest = c :: r) :
    s.Reaches (piece page deeper mode stop c s).2 := by
  obtain ⟨n, -, h⟩ := exists_advance_piece hd page mode stop hrest
  exact (s.reaches_advance n).trans h

theorem length_piece_lt (page : Page) (mode : Mode) (stop : Option Char) {c : Char} {r : Text} (hrest : s.rest = c :: r) :
    (piece page deeper mode stop c s).2.rest.length < s.rest.length := by
  obtain ⟨n, hn, h⟩ := exists_advance_piece hd page mode stop hrest
  exact Nat.lt_of_le_of_lt h.length_le (Cursor.length_advance_lt (by simp [hrest]) hn)

theorem reaches_inlineStep (page : Page) (mode : Mode) (stop : Option Char) (s : Cursor) :
    s.Reaches (inlineStep page deeper mode stop s).2 := by
  unfold inlineStep
  split
  · exact .refl s
  · next hrest =>
    split
    · exact .refl s
    · exact (reaches_piece hd page mode stop hrest).trans (hd.inline mode stop _)

theorem reaches_paragraph (page : Page) (stop : Option Char) (s : Cursor) : s.Reaches (paragraph page deeper stop s).2 := by
  have hbody := hd.inline .paragraph stop s
  unfold paragraph
  dsimp only
  split
  · exact hbody
  · split
    · exact hbody
    · exact hbody
  · exact hbody

theorem reaches_block (page : Page) (stop : Option Char) (s : Cursor) : s.Reaches (block page deeper stop s).2 := by
  unfold block
  split
  · split
    · exact (s.reaches_advance _).trans (hd.inline .line stop _)
    · exact (s.reaches_advance _).trans (hd.inline .line stop _)
    · exact reaches_paragraph hd page stop s
  · exact reaches_paragraph hd page stop s

omit hd in
/-- Where a block has read nothing a character is given up. -/
theorem reaches_moved (s t : Cursor) : t.Reaches (if t.pos = s.pos then t.advance 1 else t) := by
  split
  · exact t.reaches_advance 1
  · exact .refl t

omit hd in
theorem length_moved_lt (h : s.Reaches t) (hrest : s.rest ≠ []) :
    (if t.pos = s.pos then t.advance 1 else t).rest.length < s.rest.length := by
  have hlength := h.length_eq
  have hpos := h.le
  split
  · next heq =>
    have hne : t.rest ≠ [] := fun hnil => hrest (List.length_eq_zero_iff.1 (by rw [hnil] at hlength; simpa [heq] using hlength))
    exact Nat.lt_of_lt_of_le (Cursor.length_advance_lt hne Nat.one_pos) h.length_le
  · omega

theorem reaches_blocksStep (page : Page) (stop : Option Char) (s : Cursor) :
    s.Reaches (blocksStep page deeper stop s).2 := by
  have hskip := s.reaches_skipWhile isSpace
  unfold blocksStep
  dsimp only
  split
  · exact hskip
  · split
    · exact hskip
    · exact ((hskip.trans (reaches_block hd page stop _)).trans (reaches_moved _ _)).trans (hd.blocks stop _)

end Forward

theorem inlineStep_nil (page : Page) (deeper : Deeper) (mode : Mode) (stop : Option Char) (hrest : s.rest = []) :
    inlineStep page deeper mode stop s = ([], s) := by
  unfold inlineStep
  rw [hrest]

theorem inlineStep_cons (page : Page) (deeper : Deeper) (mode : Mode) (stop : Option Char) {c : Char} {r : Text}
    (hrest : s.rest = c :: r) : inlineStep page deeper mode stop s =
      if stopsAt stop s.depth c || (isSpace c && endsAtSpace mode s.rest) then ([], s) else
        ((piece page deeper mode stop c s).1 ++ (deeper.inline mode stop (piece page deeper mode stop c s).2).1,
          (deeper.inline mode stop (piece page deeper mode stop c s).2).2) := by
  unfold inlineStep
  split
  · next hnil =>
    rw [hnil] at hrest
    cases hrest
  · next d v hcons =>
    obtain ⟨rfl, rfl⟩ := List.cons.inj (hcons.symm.trans hrest)
    rfl

theorem deeper_forward (page : Page) (fuel : Nat) : Deeper.Forward ⟨blocks page fuel, inline page fuel⟩ := by
  induction fuel with
  | zero => exact ⟨fun _ => .refl, fun _ _ => .refl⟩
  | succ fuel ih => exact ⟨reaches_blocksStep ih page, reaches_inlineStep ih page⟩

section Agree

variable {m n : Nat}

theorem content_congr {body body' : Reads} (h : ∀ s : Cursor, s.rest.length < n → body s = body' s) (hs : s.rest.length ≤ n) :
    content body s = content body' s := by
  unfold content
  split
  · next r hrest =>
    rw [h]
    exact Nat.lt_of_lt_of_le (Cursor.length_advance_lt (by simp [hrest]) Nat.one_pos) hs
  · rfl

theorem inlineContent_congr (h : deeper.Agree m n other) (hs : s.rest.length ≤ n) :
    inlineContent deeper s = inlineContent other s :=
  content_congr (fun t ht => by rw [h.inline .bracket (some ']') t ht]) hs

theorem call_congr (h : deeper.Agree n n other) (page : Page) (name : Text) (start : Cursor) (hs : s.rest.length ≤ n) :
    call page deeper name start s = call page other name start s := by
  have hargs := Nat.le_trans s.reaches_arguments.length_le hs
  unfold call
  split
  · rfl
  · rfl
  · rfl
  · rcases he : s.arguments with ⟨args, t⟩
    rw [he] at hargs
    rw [textCall, textCall, he]
    dsimp only
    rw [inlineContent_congr (s := { t with scope := Scope.withArguments t.scope args }) h hargs]
  · rw [inlineContent_congr h hargs]
  · rw [blockContent, content_congr (h.blocks (some ']')) hargs]
    rfl
  · rfl
  · rfl

theorem piece_congr (h : deeper.Agree s.rest.length s.rest.length other) (page : Page) (mode : Mode) (stop : Option Char)
    {c : Char} {r : Text} (hrest : s.rest = c :: r) :
    piece page deeper mode stop c s = piece page other mode stop c s := by
  have hlt : ∀ {n}, 0 < n → (s.advance n).rest.length < s.rest.length := Cursor.length_advance_lt (by simp [hrest])
  unfold piece
  split
  · rfl
  · split
    · next mark _ =>
      cases mark with
      | delimiter d => rw [marked, marked, delimited, delimited, h.inline mode (some d) _ (hlt Nat.one_pos)]
      | call name => exact call_congr h page name s (Nat.le_of_lt (hlt (Nat.succ_pos _)))
      | escape e => cases e <;> rfl
      | comment | math | raw | citation | label => rfl
    · rfl

/-- Inline content depends on the readers for what is left behind its first character. -/
theorem inlineStep_congr (ho : other.Forward) (h : deeper.Agree s.rest.length s.rest.length other) (page : Page) (mode : Mode)
    (stop : Option Char) : inlineStep page deeper mode stop s = inlineStep page other mode stop s := by
  unfold inlineStep
  split
  · rfl
  · next c r hrest =>
    split
    · rfl
    · rw [piece_congr h page mode stop hrest]
      have hlt := length_piece_lt ho page mode stop hrest
      generalize piece page other mode stop c s = p at hlt ⊢
      obtain ⟨nodes, t⟩ := p
      exact congrArg (fun p => (nodes ++ p.1, p.2)) (h.inline mode stop t hlt)

theorem block_congr (h : deeper.Agree m (s.rest.length + 1) other) (page : Page) (stop : Option Char) :
    block page deeper stop s = block page other stop s := by
  have hline : ∀ kind level marker, lineBlock page deeper kind level marker stop s =
      lineBlock page other kind level marker stop s := by
    intro kind level marker
    rw [lineBlock, lineBlock, h.inline .line stop _ (Nat.lt_succ_of_le (s.reaches_advance marker).length_le)]
  have hparagraph : paragraph page deeper stop s = paragraph page other stop s := by
    rw [paragraph, paragraph, h.inline .paragraph stop s (Nat.lt_succ_self _)]
  unfold block
  rw [hparagraph]
  split
  · split
    · rw [hline]
    · rw [hline]
    · rfl
  · rfl

/-- Blocks depend on the readers of inline content for all that is left, and of blocks for less. -/
theorem blocksStep_congr (ho : other.Forward) (h : deeper.Agree s.rest.length (s.rest.length + 1) other) (page : Page)
    (stop : Option Char) : blocksStep page deeper stop s = blocksStep page other stop s := by
  have hskip := (s.reaches_skipWhile isSpace).length_le
  unfold blocksStep
  dsimp only
  generalize s.skipWhile isSpace = v at hskip
  split
  · rfl
  · next c r hrest =>
    split
    · rfl
    · have hv : deeper.Agree s.rest.length (v.rest.length + 1) other :=
        ⟨h.blocks, fun mode stop t ht => h.inline mode stop t (by omega)⟩
      rw [block_congr hv page stop]
      have hlt := length_moved_lt (reaches_block ho page stop v) (by simp [hrest])
      generalize block page other stop v = p at hlt ⊢
      obtain ⟨nodes, t⟩ := p
      exact congrArg (fun p => (nodes ++ p.1, p.2)) (h.blocks stop _ (Nat.lt_of_lt_of_le hlt hskip))

end Agree

/-- Readers that answer as `last` does when their fuel has run out. -/
def readers (page : Page) (last : Deeper) : (fuel : Nat) → Deeper
  | 0 => last
  | fuel + 1 => ⟨blocksStep page (readers page last fuel), inlineStep page (readers page last fuel)⟩

/-- Readers with the fuel that they need. -/
def reader (page : Page) : Deeper where
  blocks stop s := blocks page (2 * s.rest.length + 2) stop s
  inline mode stop s := inline page (2 * s.rest.length + 1) mode stop s

/-- Readers with enough fuel agree: blocks take one unit more than the inline content of as many characters, and that takes
one more than the blocks of one character less. -/
theorem agree_readers (page : Page) (last : Deeper) {fuel fuel' m n : Nat} (hm : 2 * m ≤ fuel) (hn : 2 * n ≤ fuel + 1)
    (hm' : 2 * m ≤ fuel') (hn' : 2 * n ≤ fuel' + 1) :
    (readers page last fuel).Agree m n ⟨blocks page fuel', inline page fuel'⟩ := by
  induction fuel generalizing fuel' m n with
  | zero => exact ⟨fun stop s hs => by omega, fun mode stop s hs => by omega⟩
  | succ fuel ih =>
    cases fuel' with
    | zero => exact ⟨fun stop s hs => by omega, fun mode stop s hs => by omega⟩
    | succ fuel' =>
      have hforward := deeper_forward page fuel'
      refine ⟨fun stop s hs => ?_, fun mode stop s hs => ?_⟩
      · exact blocksStep_congr hforward (ih (by omega) (by omega) (by omega) (by omega)) page stop
      · exact inlineStep_congr hforward (ih (by omega) (by omega) (by omega) (by omega)) page mode stop

/-- Readers with enough fuel are the readers with the fuel that they need, whatever others answer without any. -/
theorem readers_agree (page : Page) (last : Deeper) {fuel m n : Nat} (hm : 2 * m ≤ fuel) (hn : 2 * n ≤ fuel + 1) :
    (readers page last fuel).Agree m n (reader page) where
  blocks stop s hs := (agree_readers page last (m := s.rest.length + 1) (n := 0)
    (by omega) (by omega) (Nat.le_refl _) (by omega)).blocks stop s (Nat.lt_succ_self _)
  inline mode stop s hs := (agree_readers page last (m := 0) (n := s.rest.length + 1)
    (by omega) (by omega) (by omega) (Nat.le_refl _)).inline mode stop s (Nat.lt_succ_self _)

theorem readers_eq (page : Page) (fuel : Nat) :
    readers page ⟨blocks page 0, inline page 0⟩ fuel = ⟨blocks page fuel, inline page fuel⟩ := by
  induction fuel with
  | zero => rfl
  | succ fuel ih =>
    rw [readers, ih]
    rfl

/-- The readers with any fuel that is enough. -/
theorem deeper_agree (page : Page) {fuel m n : Nat} (hm : 2 * m ≤ fuel) (hn : 2 * n ≤ fuel + 1) :
    Deeper.Agree m n ⟨blocks page fuel, inline page fuel⟩ (reader page) :=
  readers_eq page fuel ▸ readers_agree page _ hm hn

theorem reader_forward (page : Page) : (reader page).Forward where
  blocks stop s := (deeper_forward page _).blocks stop s
  inline mode stop s := (deeper_forward page _).inline mode stop s

/-- Blocks are read by a step of the readers. -/
theorem reader_blocks (page : Page) (stop : Option Char) (s : Cursor) :
    (reader page).blocks stop s = blocksStep page (reader page) stop s :=
  blocksStep_congr (reader_forward page) (deeper_agree page (by omega) (by omega)) page stop

theorem reader_inline (page : Page) (mode : Mode) (stop : Option Char) (s : Cursor) :
    (reader page).inline mode stop s = inlineStep page (reader page) mode stop s :=
  inlineStep_congr (reader_forward page) (deeper_agree page (by omega) (by omega)) page mode stop

theorem le_fuelFor (text : Text) : 2 * (text.length + 1) ≤ fuelFor text := by
  unfold fuelFor
  omega

theorem parse_eq (page : Page) (text : Text) (scope : Scope) :
    parse page text scope = (reader page).blocks none (Cursor.start text scope) := by
  have hagree := deeper_agree page (n := 0) (le_fuelFor text) (Nat.zero_le _)
  exact hagree.blocks none (Cursor.start text scope) (Nat.lt_succ_self _)

/-- Content blocks are passed over until none follows. -/
theorem Cursor.head?_skipContent (s : Cursor) {fuel : Nat} (h : s.rest.length ≤ fuel) :
    (s.skipContent fuel).rest.head? ≠ some '[' := by
  induction fuel generalizing s with
  | zero =>
    have hnil : s.rest = [] := List.length_eq_zero_iff.1 (Nat.le_zero.1 h)
    simp [skipContent, hnil]
  | succ fuel ih =>
    unfold skipContent
    split
    · next r hrest =>
      have hne : s.rest ≠ [] := by simp [hrest]
      have hlt := Cursor.length_advance_lt hne (balancedLength_pos '[' ']' 0 0 hne)
      exact ih _ (by omega)
    · next hne =>
      intro hhead
      obtain ⟨r, hr⟩ := List.head?_eq_some_iff.1 hhead
      exact hne r hr

end Proofreader.Markup
