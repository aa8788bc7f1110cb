import Proofreader.Proofs.Markup.Reading
import Proofreader.Proofs.Respelling.Abreast

/-! How far the readers go. Nothing that a mark takes before its content is shown, each piece of content takes at least one
character, and inline content never ends at a letter while there is fuel. -/

namespace Proofreader.Markup

variable {lib : Library} {chain : List FileId} {page : Page} {text : Text} {deeper : Deeper} {x : Respelling}
variable {s t u : Cursor} {ns : List Node}

namespace Cursor

theorem pos_advance (s : Cursor) (n : Nat) : (s.advance n).pos = s.pos + min n s.rest.length := by
  simp [advance]

end Cursor

/-- A mark takes at least one character. -/
theorem extent_pos {before : Option Char} {t : Text} {mark : Mark} (h : mark? before t = some mark) :
    0 < mark.extent t := by
  cases mark with
  | escape e =>
    cases e with
    | none => exact Nat.one_pos
    | some e => exact Nat.two_pos
  | comment n => exact pos_of_mark? (Or.inl h)
  | math inside => exact Nat.succ_pos _
  | raw =>
    rw [Mark.extent, rawLength]
    split
    · exact Nat.succ_pos _
    · exact Nat.succ_pos _
  | delimiter d => exact Nat.one_pos
  | citation key => exact Nat.succ_pos _
  | label n => exact pos_of_mark? (Or.inr h)
  | call name => exact Nat.succ_pos _

/-- Reading goes beyond `t`, and nothing of the file up to there is shown. -/
structure Beyond (file : FileId) (t : Cursor) (r : List Node × Cursor) : Prop where
  reaches : t.Reaches r.2
  hidden : ∀ {x : Respelling}, file = x.file → ∀ i < t.pos, x.Hidden i r.1

namespace Beyond

variable {file : FileId}

theorem none (h : t.Reaches u) : Beyond file t ([], u) := ⟨h, fun _ _ _ => .nil⟩

theorem of_lays {r : List Node × Cursor} (h : t.Reaches u) (k : Lays lib chain page text u r) : Beyond page.file t r :=
  ⟨h.trans k.reaches, fun hfile _ hi => Respelling.hidden_of_lays k hfile (Or.inl (Nat.lt_of_lt_of_le hi h.le))⟩

theorem after {v : Cursor} (h : Beyond file t (ns, u)) (k : u.Reaches v) : Beyond file t (ns, v) :=
  ⟨h.reaches.trans k, h.hidden⟩

theorem before {r : List Node × Cursor} (h : Beyond file u r) (k : t.Reaches u) : Beyond file t r :=
  ⟨k.trans h.reaches, fun hfile i hi => h.hidden hfile i (Nat.lt_of_lt_of_le hi k.le)⟩

theorem branch (h : Beyond file t (ns, u)) (page : Page) (kind : Kind) (s : Cursor) (scope : Scope) :
    Beyond file t ([Markup.branch page kind s u scope ns], u) :=
  ⟨h.reaches, fun hfile i hi => .around rfl (h.hidden hfile i hi)⟩

theorem leaf (h : t.Reaches u) (page : Page) (kind : Kind) (s : Cursor) (shown : Text) :
    Beyond file t ([Markup.leaf page kind s u shown false], u) :=
  ⟨h, fun _ _ _ => .around rfl .nil⟩

/-- A citation is never shown as text. -/
theorem citation (h : t.Reaches u) (page : Page) (s : Cursor) (shown : Text) :
    Beyond file t ([Markup.leaf page .citation s u shown true], u) :=
  ⟨h, fun _ _ _ => .single (fun hs => hs.2.1 rfl) .nil⟩

end Beyond

namespace Respelling

/-- The first reading passes over the beginning of the slice. -/
structure Overruns (x : Respelling) (file : FileId) (s t : Cursor) : Prop where
  file : file = x.file
  le : s.pos ≤ x.start
  lt : x.start < t.pos

namespace Overruns

variable {file : FileId}

theorem before (h : x.Overruns file t u) (k : s.Reaches t) : x.Overruns file s u := ⟨h.file, Nat.le_trans k.le h.le, h.lt⟩

theorem after (h : x.Overruns file s t) (k : t.Reaches u) : x.Overruns file s u := ⟨h.file, h.le, Nat.lt_of_lt_of_le h.lt k.le⟩

theorem fails (h : x.Overruns file s t) (hx : x.Neutral) {r : List Node × Cursor} (k : Beyond file t r) :
    x.Fails file s r.1 r.2 :=
  .lost h.file (Nat.le_refl _) (Abreast.start_lt_stop hx) h.le (Nat.lt_of_lt_of_le h.lt k.reaches.le)
    (k.hidden h.file _ h.lt)

end Overruns

/-- What the readings get from `t` on, which they pass to or the first one overruns. -/
theorem Meets.seq {file : FileId} {t' : Cursor} (hx : x.Neutral)
    (h : x.Overruns file s t ∨ x.Passes file s t t') {r r' : List Node × Cursor} (hbeyond : Beyond file t r)
    (k : x.Abreast file t t' → x.Meets file t r r') : x.Meets file s r r' := by
  rcases h with hoverruns | hpasses
  · exact .fails (hoverruns.fails hx hbeyond)
  · exact hpasses.seq (k hpasses.abreast)

end Respelling

/-- What is included is in other files. -/
theorem hidden_fetch (hp : page.Includes lib chain) (hfile : page.file = x.file) (path : Text) (here : Location)
    (scope : Scope) (i : Nat) : x.Hidden i (page.fetch path here scope).nodes := by
  rcases hp path here scope with hnone | ⟨-, f, t, visits, -, hf, -, -, hlaid⟩
  · rw [hnone]
    exact .nil
  · rintro n hn ⟨-, -, hnf, -⟩
    have hin : n.location.file ∈ page.file :: chain := by
      rw [hnf, hfile]
      exact List.mem_cons_self
    rcases hlaid.mem_cases hn with ⟨hfn, -⟩ | ⟨-, hout⟩
    · exact hf (hfn ▸ hin)
    · exact hout (List.mem_cons_of_mem _ hin)

theorem beyond_plainCall (page : Page) (kind : Kind) (start : Cursor) (h : t.arguments.2.Reaches u) :
    Beyond page.file t.arguments.2 ([(plainCall page kind start t).1], u) := by
  refine Beyond.after ?_ h
  unfold plainCall
  dsimp only
  split
  · exact .leaf (.refl _) page _ _ _
  · exact .citation (.refl _) page _ _
  · exact .leaf (.refl _) page _ _ _

section Content

variable (hp : page.Includes lib chain) (hd : deeper.Lays lib chain page text)
include hp hd

theorem beyond_call (name : Text) (start : Cursor) (ht : t.At text) : Beyond page.file t (call page deeper name start t) := by
  have hargs := t.reaches_arguments
  unfold call
  split
  · exact .none (reaches_setRule t)
  · exact .none (t.reaches_skipWhile _)
  · unfold includeCall
    have htabs := t.reaches_skipWhile isTab
    dsimp only
    split
    · exact .none htabs
    · next path _ =>
      have hend := htabs.trans (Cursor.reaches_advance _ (path.length + 2))
      exact ⟨hend.trans (.same rfl rfl rfl (List.prefix_append _ _)), fun hfile i _ =>
        .around rfl (hidden_fetch hp hfile _ _ _ i)⟩
  · unfold textCall
    rcases hv : t.arguments with ⟨args, v⟩
    rw [hv] at hargs
    have hscope : t.Reaches { v with scope := Scope.withArguments v.scope args } :=
      hargs.trans (.same rfl rfl rfl List.prefix_rfl)
    have hbody := Beyond.of_lays hscope (lays_inlineContent hd (hscope.at ht))
    dsimp only
    rcases hr : inlineContent deeper { v with scope := Scope.withArguments v.scope args } with ⟨nodes, u⟩
    rw [hr] at hbody
    exact (hbody.branch page .lang start _).after (.same rfl rfl rfl List.prefix_rfl)
  · have hbody := Beyond.of_lays hargs (lays_inlineContent hd (hargs.at ht))
    exact hbody.branch page _ start _
  · have hbody := Beyond.of_lays hargs (lays_blockContent hd (hargs.at ht))
    exact hbody.branch page _ start _
  · exact (beyond_plainCall page _ start (.refl _)).before hargs
  · exact .none (hargs.trans (Cursor.reaches_skipContent _ _))

/-- Nothing that a mark takes before its content is shown. -/
theorem beyond_marked (mode : Mode) {mark : Mark} (hs : s.At text) :
    Beyond page.file (s.advance (mark.extent s.rest)) (marked page deeper mode mark s) := by
  cases mark with
  | escape c =>
    cases c with
    | none => exact .leaf (.refl _) page _ _ _
    | some c => exact .leaf (.refl _) page _ _ _
  | comment n => exact .none (.refl _)
  | math inside => exact .leaf (.refl _) page _ _ _
  | raw =>
    simp only [Mark.extent, rawLength, marked, rawNode]
    split
    · exact .leaf (.refl _) page _ _ _
    · exact .leaf (.refl _) page _ _ _
  | delimiter c =>
    have hbody := Beyond.of_lays (.refl _) (hd.inline mode (some c) _ ((s.reaches_advance 1).at hs))
    change Beyond page.file (s.advance 1) ([(delimited page deeper mode c s).1], (delimited page deeper mode c s).2)
    unfold delimited
    rcases hr : deeper.inline mode (some c) (s.advance 1) with ⟨nodes, t⟩
    rw [hr] at hbody
    exact (hbody.after (t.reaches_undelimit c)).branch page _ s _
  | citation key => exact .citation (.refl _) page _ _
  | label n => exact .none (.refl _)
  | call name => exact beyond_call hp hd name s ((s.reaches_advance _).at hs)

/-- Each piece of content takes at least one character. -/
theorem lt_piece (mode : Mode) (stop : Option Char) (hs : s.At text) {c : Char} {r : Text} (hrest : s.rest = c :: r) :
    s.pos < (piece page deeper mode stop c s).2.pos := by
  have hne : s.rest ≠ [] := by simp [hrest]
  unfold piece
  split
  · next hc =>
    refine Cursor.lt_advance hne ?_
    simp [hrest, hc]
  · split
    · next mark hmark =>
      have hlt := Cursor.lt_advance hne (extent_pos hmark)
      exact Nat.lt_of_lt_of_le hlt (beyond_marked hp hd mode hs).reaches.le
    · exact Cursor.lt_advance hne (by omega)

omit hd in
/-- Inline content ends where it must, never at a letter. -/
theorem not_letter_of_inline {stop : Option Char} (hstop : stop.any isPlainLetter = false) {fuel : Nat} (mode : Mode)
    (hs : s.At text) (hfuel : 2 * s.rest.length + 1 ≤ fuel) :
    (inline page fuel mode stop s).2.rest.head?.any isPlainLetter = false := by
  induction fuel generalizing s with
  | zero => omega
  | succ fuel ih =>
    change (inlineStep page ⟨blocks page fuel, inline page fuel⟩ mode stop s).2.rest.head?.any isPlainLetter = false
    have hdeeper : Deeper.Lays lib chain page text ⟨blocks page fuel, inline page fuel⟩ := deeper_lays hp fuel
    unfold inlineStep
    split
    · next hrest => rw [hrest]; rfl
    · next c r hrest =>
      split
      · next hend =>
        simp only [hrest, List.head?_cons, Option.any_some]
        simp only [stopsAt, Bool.or_eq_true, Bool.and_eq_true, decide_eq_true_eq] at hend
        rcases hend with ⟨rfl, -⟩ | ⟨hspace, -⟩
        · exact hstop
        · by_contra hletter
          rw [isSpace_of_isPlainLetter (by simpa using hletter)] at hspace
          cases hspace
      · have hreach := (lays_piece hp hdeeper mode stop hs hrest).reaches
        have hlt := lt_piece hp hdeeper mode stop hs hrest
        have hlength := hreach.length_eq
        exact ih (hreach.at hs) (by omega)

end Content

end Proofreader.Markup
