import Proofreader.Proofs.Respelling.Extent

/-! The first reading inside the slice. It reads the rest of the slice as text and single spaces and goes on behind
it, or part of the slice is not shown. -/

namespace Proofreader.Markup

theorem Cursor.since_advance_take (s : Cursor) (n : Nat) : (s.advance n).since s = s.rest.take n := by
  simp only [Cursor.since, Cursor.advance, Nat.add_sub_cancel_left, List.length_take]
  rw [List.take_eq_take_iff]
  omega

theorem textNode_eq (page : Page) (stop : Option Char) (s : Cursor) {n depth : Nat} (hn : 0 < n)
    (h : textRun stop s.past.head? true s.depth s.rest = (n, depth)) : textNode page stop s =
      (⟨.text, ⟨page.file, s.pos, s.pos + (s.rest.take n).length⟩, s.rest.take n, s.scope, 0, true, []⟩,
        { s.advance n with depth := depth }) := by
  have hmax : max n 1 = n := by omega
  have hsince := s.since_advance_take n
  simp only [textNode, h, hmax, leaf, Prod.mk.injEq, Node.mk.injEq, true_and, and_true]
  exact ⟨rfl, hsince, rfl⟩

/-- Where content does not end, a piece of it is read and then the rest. -/
theorem inlineStep_piece (page : Page) (deeper : Deeper) {mode : Mode} {stop : Option Char} {s : Cursor} {c : Char} {r : Text}
    (hrest : s.rest = c :: r) (hstop : stopsAt stop s.depth c = false) (hspace : (isSpace c && endsAtSpace mode s.rest) = false) :
    inlineStep page deeper mode stop s =
      ((piece page deeper mode stop c s).1 ++ (deeper.inline mode stop (piece page deeper mode stop c s).2).1,
        (deeper.inline mode stop (piece page deeper mode stop c s).2).2) := by
  rw [inlineStep_cons page deeper mode stop hrest, hstop, hspace, if_neg (by simp)]

theorem not_endsAtSpace {z : Text} (hz : z.all isSpace = false) (hline : '\n' ∉ z) (mode : Mode) (t : Text) :
    endsAtSpace mode (z ++ t) = false := by
  obtain ⟨c, r, -, hdrop⟩ := exists_dropWhile hz
  have hcount : ((z ++ t).takeWhile isSpace).count '\n' = 0 := by
    rw [(takeWhile_append_of_not_all hz t).1]
    exact List.count_eq_zero.2 fun hmem => hline ((List.takeWhile_prefix isSpace).subset hmem)
  have hne : ((z ++ t).dropWhile isSpace).isEmpty = false := by
    rw [List.dropWhile_append, hdrop]
    rfl
  simp only [endsAtSpace, hcount, hne, Bool.false_or]
  cases mode <;> simp

namespace Respelling

variable (x : Respelling)

/-- What the text behind the slice adds to plain text that passes over the slice. -/
def exitRun (stop : Option Char) (depth : Nat) : Nat × Nat := textRun stop x.old.getLast? false depth x.after

/-- Where plain text ends that passes over the slice, which ends `n` characters on. -/
def exit (stop : Option Char) (s : Cursor) (n : Nat) : Cursor :=
  { s.advance (n + (x.exitRun stop s.depth).1) with depth := (x.exitRun stop s.depth).2 }

/-- The first reading stands inside the slice or where it begins, with `z` of it left. -/
structure Within (z : Text) (s : Cursor) : Prop where
  suffix : z <:+ x.old
  ne : z ≠ []
  rest : s.rest = z ++ x.after
  pos : s.pos + z.length = x.stop

/-- The rest `z` of the slice, which begins at offset `a`, is shown by the leaves, the last of which is text. -/
structure Spells (file : FileId) (scope : Scope) (a : Nat) (ns : List Node) (u : Text) : Prop where
  leaves : Leaves file scope a ns u
  last : ∃ n ∈ ns.getLast?, n.kind = .text
  meets : ∀ n ∈ ns, x.start < n.location.stop ∧ n.location.start < x.stop

variable {x} {s : Cursor} {z : Text} {file : FileId} {scope : Scope} {a : Nat} {ns : List Node} {u w : Text}

theorem Spells.single (hw : w ≠ []) (ha : x.start ≤ a) (hlt : a < x.stop) :
    x.Spells file scope a [⟨.text, ⟨file, a, a + w.length⟩, w, scope, 0, true, []⟩] w := by
  have hpos := List.length_pos_iff.2 hw
  refine ⟨?_, ⟨_, rfl, rfl⟩, ?_⟩
  · have hleaf : Leaves file scope a [⟨.text, ⟨file, a, a + w.length⟩, w, scope, 0, true, []⟩] (w ++ []) :=
      .cons (Or.inl rfl) hw (.nil _)
    rwa [List.append_nil] at hleaf
  · rintro n hn
    rw [List.mem_singleton.1 hn]
    exact ⟨by dsimp only; omega, hlt⟩

theorem Spells.cons {kind : Kind} (hkind : kind = .text ∨ kind = .space) (hw : w ≠ []) (ha : x.start ≤ a) (hlt : a < x.stop)
    (h : x.Spells file scope (a + w.length) ns u) :
    x.Spells file scope a (⟨kind, ⟨file, a, a + w.length⟩, w, scope, 0, true, []⟩ :: ns) (w ++ u) := by
  have hpos := List.length_pos_iff.2 hw
  refine ⟨.cons hkind hw h.leaves, ?_, ?_⟩
  · obtain ⟨n, hn, hlast⟩ := h.last
    refine ⟨n, ?_, hlast⟩
    rw [List.getLast?_cons, Option.mem_def.1 hn]
    rfl
  · intro n hn
    rcases List.mem_cons.1 hn with rfl | hn
    · exact ⟨by dsimp only; omega, hlt⟩
    · exact h.meets n hn

namespace Within

variable (h : x.Neutral) (hs : x.Within z s)
include h hs

theorem not_mem {c : Char} (hc : c ∈ ['*', '_', '[', ']', '\\', '\n']) : c ∉ z :=
  fun hmem => h.plain c hc (hs.suffix.subset hmem)

omit h in
theorem start_le : x.start ≤ s.pos ∧ s.pos < x.stop := by
  have hle := hs.suffix.length_le
  have hpos := List.length_pos_iff.2 hs.ne
  have := hs.pos
  unfold start stop at *
  omega

omit h in
theorem getLast? : z.getLast? = x.old.getLast? := by
  obtain ⟨w, hw⟩ := hs.suffix
  rw [← hw, List.getLast?_append_of_ne_nil _ hs.ne]

theorem exists_letter : ∃ c ∈ z, isPlainLetter c = true := by
  have hends := h.ends
  rw [← hs.getLast?] at hends
  obtain ⟨c, hc, hletter⟩ := (Option.any_eq_true _ _).1 hends
  exact ⟨c, List.mem_of_getLast? hc, hletter⟩

theorem not_spaces : z.all isSpace = false := by
  obtain ⟨c, hc, hletter⟩ := hs.exists_letter h
  rw [List.all_eq_false]
  exact ⟨c, hc, by rw [isSpace_of_isPlainLetter hletter]; exact Bool.false_ne_true⟩

omit h in
theorem advance {n : Nat} (hn : n < z.length) : x.Within (z.drop n) (s.advance n) := by
  have hpos := hs.pos
  have hlength : min n s.rest.length = n := by
    rw [hs.rest, List.length_append]
    omega
  refine ⟨(List.drop_suffix n z).trans hs.suffix, ?_, ?_, ?_⟩
  · exact fun hnil => by
      have := List.drop_eq_nil_iff.1 hnil
      omega
  · simp only [Cursor.advance, hs.rest, List.drop_append_of_le_length (Nat.le_of_lt hn)]
  · rw [Cursor.pos_advance, hlength, List.length_drop]
    omega

end Within

/-- Inside the slice, a single space is a leaf of its own. -/
theorem Within.spaceNode (h : x.Neutral) (hs : x.Within z s) (page : Page) (hsingle : (s.skipWhile isSpace).since s = [' ']) :
    Markup.spaceNode page s = (⟨.space, ⟨page.file, s.pos, s.pos + 1⟩, z.take 1, s.scope, 0, true, []⟩, s.advance 1) ∧
      1 < z.length := by
  have hskip : s.rest.takeWhile isSpace = [' '] := by
    rw [Cursor.skipWhile, Cursor.since_advance_take] at hsingle
    rw [← hsingle]
    exact List.prefix_iff_eq_take.1 (List.takeWhile_prefix isSpace)
  have hone : s.skipWhile isSpace = s.advance 1 := by rw [Cursor.skipWhile, hskip, List.length_singleton]
  have hspaces := hs.not_spaces h
  rw [hs.rest, (takeWhile_append_of_not_all hspaces x.after).1] at hskip
  obtain ⟨c, r, rfl⟩ := List.exists_cons_of_ne_nil hs.ne
  have hc : c = ' ' ∧ isSpace c = true := by
    rw [List.takeWhile_cons] at hskip
    split at hskip
    · next hc => exact ⟨(List.cons.inj hskip).1, hc⟩
    · cases hskip
  have hr : r ≠ [] := by
    rintro rfl
    rw [List.all_cons, hc.2, List.all_nil] at hspaces
    cases hspaces
  have hpos : (s.advance 1).pos = s.pos + 1 := by
    rw [Cursor.pos_advance, hs.rest, List.cons_append, List.length_cons, Nat.min_eq_left (by omega)]
  rw [hone] at hsingle
  refine ⟨?_, by have := List.length_pos_iff.2 hr; rw [List.length_cons]; omega⟩
  simp only [Markup.spaceNode, hone, leaf, hsingle, hpos, hc.1, decide_true, List.take_succ_cons, List.take_zero]
  rfl

section Inside

variable {lib : Library} {chain : List FileId} {page : Page} {text : Text} {stop : Option Char}
variable (h : x.Neutral) (hp : page.Includes lib chain) (hfile : page.file = x.file) (hstop : ∀ c ∈ stop, c ∈ ['*', '_', ']'])

/-- What the reading inside the slice comes to. -/
inductive Leaving (x : Respelling) (page : Page) (mode : Mode) (stop : Option Char) (fuel : Nat) (z : Text) (s : Cursor) :
    List Node × Cursor → Prop
  | fails {r : List Node × Cursor} : x.Fails page.file s r.1 r.2 → Leaving x page mode stop fuel z s r
  | shown {ns : List Node} {g : Nat} : g ≤ fuel → 2 * (x.exit stop s z.length).rest.length + 1 ≤ g →
      x.Spells page.file s.scope s.pos ns (z ++ x.after.take (x.exitRun stop s.depth).1) →
      Leaving x page mode stop fuel z s (ns ++ (inline page g mode stop (x.exit stop s z.length)).1,
        (inline page g mode stop (x.exit stop s z.length)).2)

theorem exit_advance {k : Nat} (hk : k < z.length) :
    x.exit stop (s.advance k) (z.drop k).length = x.exit stop s z.length := by
  have hlength : k + ((z.drop k).length + (x.exitRun stop s.depth).1) = z.length + (x.exitRun stop s.depth).1 := by
    rw [List.length_drop]
    omega
  have hadvance := s.advance_advance k ((z.drop k).length + (x.exitRun stop s.depth).1)
  rw [hlength] at hadvance
  unfold exit
  rw [← hadvance]
  rfl

/-- Inside the slice content does not end. -/
theorem Within.goes_on {c : Char} {r : Text} (h : x.Neutral) (hstop : ∀ c ∈ stop, c ∈ ['*', '_', ']'])
    (hs : x.Within (c :: r) s) (mode : Mode) :
    stopsAt stop s.depth c = false ∧ (isSpace c && endsAtSpace mode s.rest) = false := by
  refine ⟨?_, ?_⟩
  · have hne : stop ≠ some c := fun he =>
      hs.not_mem h ((by simp : ['*', '_', ']'] ⊆ ['*', '_', '[', ']', '\\', '\n']) (hstop c he)) List.mem_cons_self
    simp [stopsAt, hne]
  · rw [hs.rest, not_endsAtSpace (hs.not_spaces h) (hs.not_mem h (by simp)), Bool.and_false]

theorem Within.exit_lt (hs : x.Within z s) (stop : Option Char) : (x.exit stop s z.length).rest.length < s.rest.length := by
  have hpos := List.length_pos_iff.2 hs.ne
  have hdrop : (x.exit stop s z.length).rest.length = s.rest.length - (z.length + (x.exitRun stop s.depth).1) := List.length_drop
  rw [hdrop, hs.rest, List.length_append]
  omega

/-- Text inside the slice ends there, or it shows all the rest of the slice and goes on behind it. -/
theorem Within.textNode_cases {c : Char} {r : Text} (h : x.Neutral) (hs : x.Within (c :: r) s) (hspace : isSpace c = false)
    (page : Page) (stop : Option Char) :
    (∃ k, 0 < k ∧ k < (c :: r).length ∧ textNode page stop s =
      (⟨.text, ⟨page.file, s.pos, s.pos + k⟩, (c :: r).take k, s.scope, 0, true, []⟩, s.advance k)) ∨
    textNode page stop s = (⟨.text, ⟨page.file, s.pos, s.pos + ((c :: r) ++ x.after.take (x.exitRun stop s.depth).1).length⟩,
      (c :: r) ++ x.after.take (x.exitRun stop s.depth).1, s.scope, 0, true, []⟩, x.exit stop s (c :: r).length) := by
  have hnot : ∀ d ∈ ['*', '_', '[', ']', '\\', '\n'], c ≠ d := fun d hd hcd =>
    hs.not_mem h hd (hcd ▸ List.mem_cons_self)
  have hr : ∀ d ∈ ['[', ']'], d ∉ r := fun d hd hmem =>
    hs.not_mem h ((by simp : ['[', ']'] ⊆ ['*', '_', '[', ']', '\\', '\n']) hd) (List.mem_cons_of_mem _ hmem)
  have hrun : textRun stop s.past.head? true s.depth s.rest =
      lengthen (textRun stop (some c) false s.depth (r ++ x.after)) := by
    rw [hs.rest]
    exact textRun_first hspace (hnot '[' (by simp)) (hnot ']' (by simp))
  rcases textRun_within hr stop s.depth c x.after with ⟨n, hn, hend⟩ | hpast
  · rw [hend] at hrun
    have hlength : n + 1 < (c :: r).length := Nat.succ_lt_succ hn
    have htake : s.rest.take (n + 1) = (c :: r).take (n + 1) := by
      rw [hs.rest, List.take_append_of_le_length (Nat.le_of_lt hlength)]
    have hnode := textNode_eq page stop s (Nat.succ_pos n) hrun
    rw [htake, List.length_take_of_le (Nat.le_of_lt hlength)] at hnode
    exact Or.inl ⟨n + 1, Nat.succ_pos n, hlength, hnode⟩
  · rw [hs.getLast?] at hpast
    rw [hpast] at hrun
    have hcount : lengthen (r.length + (x.exitRun stop s.depth).1, (x.exitRun stop s.depth).2) =
        ((c :: r).length + (x.exitRun stop s.depth).1, (x.exitRun stop s.depth).2) := by
      rw [lengthen, List.length_cons, Nat.add_right_comm]
    have htake : s.rest.take ((c :: r).length + (x.exitRun stop s.depth).1) =
        (c :: r) ++ x.after.take (x.exitRun stop s.depth).1 := by
      rw [hs.rest, List.take_length_add_append]
    have hpos : 0 < (c :: r).length + (x.exitRun stop s.depth).1 := by
      rw [List.length_cons]
      omega
    have hnode := textNode_eq page stop s hpos (hrun.trans hcount)
    rw [htake] at hnode
    exact Or.inr hnode

include hfile

theorem Fails.here (hs : x.Within z s) {r : List Node × Cursor} (hidden : x.Hidden s.pos r.1) (hlt : s.pos < r.2.pos) :
    x.Fails page.file s r.1 r.2 :=
  .lost hfile hs.start_le.1 hs.start_le.2 (Nat.le_refl _) hlt hidden

omit hfile in
/-- A leaf inside the slice, and what follows it. -/
theorem Leaving.cons (hs : x.Within z s) {kind : Kind} (hkind : kind = .text ∨ kind = .space) {k : Nat} (hpos : 0 < k)
    (hk : k < z.length) {mode : Mode} {fuel : Nat} {r : List Node × Cursor}
    (hlays : Lays lib chain page text s
      ([⟨kind, ⟨page.file, s.pos, s.pos + k⟩, z.take k, s.scope, 0, true, []⟩], s.advance k))
    (ih : Leaving x page mode stop fuel (z.drop k) (s.advance k) r) : Leaving x page mode stop (fuel + 1) z s
      (⟨kind, ⟨page.file, s.pos, s.pos + k⟩, z.take k, s.scope, 0, true, []⟩ :: r.1, r.2) := by
  have hlength : (z.take k).length = k := List.length_take_of_le (Nat.le_of_lt hk)
  have hat : (s.advance k).pos = s.pos + k := by
    rw [Cursor.pos_advance, hs.rest, List.length_append]
    omega
  cases ih with
  | fails hfails => exact .fails (hfails.prepend hlays)
  | @shown ns g hg hfuel hspells =>
    rw [exit_advance hk] at hfuel ⊢
    have hne : z.take k ≠ [] := List.length_pos_iff.1 (by omega)
    have hrest : x.Spells page.file s.scope (s.pos + (z.take k).length) ns
        (z.drop k ++ x.after.take (x.exitRun stop s.depth).1) := by rwa [hlength, ← hat]
    have hcons := hrest.cons hkind hne hs.start_le.1 hs.start_le.2
    rw [← List.append_assoc, List.take_append_drop, hlength] at hcons
    exact .shown (Nat.le_succ_of_le hg) hfuel hcons

include h hp hstop

/-- From inside the slice the reading shows the rest of it and goes on behind it. -/
theorem leaving {fuel : Nat} (mode : Mode) (hs : x.Within z s) (hat : s.At text) (hfuel : 2 * s.rest.length + 1 ≤ fuel) :
    Leaving x page mode stop fuel z s (inline page fuel mode stop s) := by
  induction fuel generalizing z s with
  | zero => omega
  | succ fuel ih =>
    obtain ⟨c, r, rfl⟩ := List.exists_cons_of_ne_nil hs.ne
    have hrest : s.rest = c :: (r ++ x.after) := hs.rest
    have hdeeper : Deeper.Lays lib chain page text ⟨blocks page fuel, inline page fuel⟩ := deeper_lays hp fuel
    obtain ⟨hends, hspaces⟩ := hs.goes_on h hstop mode
    have hstep := inlineStep_piece page ⟨blocks page fuel, inline page fuel⟩ hrest hends hspaces
    have hpiece := lays_piece hp hdeeper mode stop hat hrest
    have hplt := lt_piece hp hdeeper mode stop hat hrest
    have hlost : x.Hidden s.pos (piece page ⟨blocks page fuel, inline page fuel⟩ mode stop c s).1 →
        Leaving x page mode stop (fuel + 1) (c :: r) s (inline page (fuel + 1) mode stop s) := fun hidden => by
      change Leaving _ _ _ _ _ _ _ (inlineStep page ⟨blocks page fuel, inline page fuel⟩ mode stop s)
      rw [hstep]
      exact .fails ((Fails.here hfile hs hidden hplt).append (hdeeper.inline mode stop _ (hpiece.reaches.at hat)))
    have hinside : ∀ k, 0 < k → k < (c :: r).length → Leaving x page mode stop fuel ((c :: r).drop k) (s.advance k)
        (inline page fuel mode stop (s.advance k)) := fun k hpos hk => by
      refine ih (hs.advance hk) ((s.reaches_advance k).at hat) ?_
      have hdrop : (s.advance k).rest.length = s.rest.length - k := List.length_drop
      rw [hrest, List.length_cons] at hdrop hfuel
      omega
    change Leaving _ _ _ _ _ _ _ (inlineStep page ⟨blocks page fuel, inline page fuel⟩ mode stop s)
    rw [hstep]
    by_cases hspace : isSpace c = true
    · have hpieceEq : piece page ⟨blocks page fuel, inline page fuel⟩ mode stop c s =
          ([(spaceNode page s).1], (spaceNode page s).2) := by
        unfold piece
        rw [if_pos hspace]
      by_cases hsingle : (s.skipWhile isSpace).since s = [' ']
      · obtain ⟨hnode, hlength⟩ := hs.spaceNode h page hsingle
        rw [hpieceEq, hnode] at hpiece ⊢
        exact (hinside 1 Nat.one_pos hlength).cons hs (Or.inr rfl) Nat.one_pos hlength hpiece
      · rw [← hstep]
        refine hlost ?_
        rw [hpieceEq]
        exact .around (decide_eq_false hsingle) .nil
    · cases hmark : s.mark? with
      | some mark =>
        have hpieceEq : piece page ⟨blocks page fuel, inline page fuel⟩ mode stop c s =
            marked page ⟨blocks page fuel, inline page fuel⟩ mode mark s := by
          unfold piece
          rw [if_neg hspace, hmark]
        rw [← hstep]
        refine hlost ?_
        rw [hpieceEq]
        exact (beyond_marked hp hdeeper mode hat).hidden hfile _
          (Cursor.lt_advance (by simp [hrest]) (extent_pos hmark))
      | none =>
        have hpieceEq : piece page ⟨blocks page fuel, inline page fuel⟩ mode stop c s =
            ([(textNode page stop s).1], (textNode page stop s).2) := by
          unfold piece
          rw [if_neg hspace, hmark]
        rcases hs.textNode_cases h (by simpa using hspace) page stop with ⟨k, hpos, hk, hnode⟩ | hnode
        · rw [hpieceEq, hnode] at hpiece ⊢
          exact (hinside k hpos hk).cons hs (Or.inl rfl) hpos hk hpiece
        · have hlt := hs.exit_lt stop
          rw [hpieceEq, hnode]
          exact .shown (Nat.le_succ fuel) (by omega)
            (.single (List.append_ne_nil_of_left_ne_nil hs.ne _) hs.start_le.1 hs.start_le.2)

end Inside

end Respelling

end Proofreader.Markup
