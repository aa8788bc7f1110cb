import Proofreader.Proofs.Respelling.Marks

/-! Plain text across a slice that is respelled. In front of the slice it ends at the same place before and after, unless
it ends at a mark that reaches into the slice. The letters it always passes over. -/

namespace Proofreader.Markup

/-- Plain text one character longer. -/
def lengthen (run : Nat × Nat) : Nat × Nat := (run.1 + 1, run.2)

section TextRun

variable {stop before before' : Option Char} {first : Bool} {depth : Nat} {c : Char} {r z after : Text}

theorem textRun_cons (stop before : Option Char) (first : Bool) (depth : Nat) (c : Char) (r : Text) :
    textRun stop before first depth (c :: r) =
      if isSpace c then (0, depth)
      else if c = '[' then lengthen (textRun stop (some c) false (depth + 1) r)
      else if c = ']' then
        if depth = 0 ∧ stop = some ']' then (0, depth) else lengthen (textRun stop (some c) false (depth - 1) r)
      else if !first && (stop = some c || (mark? before (c :: r)).isSome) then (0, depth)
      else lengthen (textRun stop (some c) false depth r) := by
  rfl

/-- Of the character before, only a letter counts. -/
theorem textRun_congr (h : before.any isLetter = before'.any isLetter) (stop : Option Char) (first : Bool) (depth : Nat)
    (t : Text) : textRun stop before first depth t = textRun stop before' first depth t := by
  cases t with
  | nil => rfl
  | cons c r => rw [textRun_cons, textRun_cons, mark?_congr h]

/-- The first character is part of the text whatever it is. -/
theorem textRun_first (hspace : isSpace c = false) (hopen : c ≠ '[') (hclose : c ≠ ']') :
    textRun stop before true depth (c :: r) = lengthen (textRun stop (some c) false depth r) := by
  simp [textRun_cons, hspace, hopen, hclose]

theorem textRun_letter (hc : isPlainLetter c = true) (hstop : stop.any isPlainLetter = false) :
    textRun stop before first depth (c :: r) = lengthen (textRun stop (some c) false depth r) := by
  have hne : stop ≠ some c := by
    rintro rfl
    rw [Option.any_some, hc] at hstop
    cases hstop
  simp [textRun_cons, isSpace_of_isPlainLetter hc, ne_of_isPlainLetter hc (d := '[') (by decide),
    ne_of_isPlainLetter hc (d := ']') (by decide), hne, mark?_of_isPlainLetter hc]

theorem textRun_letters {u : Text} (hne : u ≠ []) (hu : ∀ c ∈ u, isPlainLetter c = true)
    (hstop : stop.any isPlainLetter = false) (after : Text) : textRun stop before first depth (u ++ after) =
      (u.length + (textRun stop u.getLast? false depth after).1, (textRun stop u.getLast? false depth after).2) := by
  induction u generalizing before first with
  | nil => exact absurd rfl hne
  | cons c u ih =>
    rw [List.cons_append, textRun_letter (hu c List.mem_cons_self) hstop]
    cases u with
    | nil => simp [lengthen, Nat.add_comm]
    | cons d u =>
      rw [ih (List.cons_ne_nil d u) fun e he => hu e (List.mem_cons_of_mem _ he), List.getLast?_cons_cons, lengthen,
        List.length_cons (a := c), Nat.add_right_comm]

/-- Without brackets plain text ends inside a stretch or passes over all of it. -/
theorem textRun_within (hz : ∀ d ∈ ['[', ']'], d ∉ z) (stop : Option Char) (depth : Nat) (c : Char) (after : Text) :
    (∃ n < z.length, textRun stop (some c) false depth (z ++ after) = (n, depth)) ∨
    textRun stop (some c) false depth (z ++ after) =
      (z.length + (textRun stop (c :: z).getLast? false depth after).1, (textRun stop (c :: z).getLast? false depth after).2) := by
  induction z generalizing c with
  | nil => exact Or.inr (by simp)
  | cons d z ih =>
    have hne : ∀ e ∈ ['[', ']'], d ≠ e := fun e he hde => hz e he (hde ▸ List.mem_cons_self)
    rw [List.cons_append, textRun_cons]
    split
    · exact Or.inl ⟨0, Nat.succ_pos _, rfl⟩
    · rw [if_neg (hne '[' (by simp)), if_neg (hne ']' (by simp))]
      split
      · exact Or.inl ⟨0, Nat.succ_pos _, rfl⟩
      · rcases ih (fun e he hmem => hz e he (List.mem_cons_of_mem _ hmem)) d with ⟨n, hn, heq⟩ | heq
        · exact Or.inl ⟨n + 1, Nat.succ_lt_succ hn, by rw [heq, lengthen]⟩
        · refine Or.inr ?_
          rw [heq, List.getLast?_cons_cons, lengthen, List.length_cons (a := d), Nat.add_right_comm]

end TextRun

/-- Where plain text ends before and after, from a place in front of the slice. -/
inductive RunAgree (x : Respelling) (stop before : Option Char) (m : Text) : Nat × Nat → Nat × Nat → Prop
  | front {n depth : Nat} : n < m.length → RunAgree x stop before m (n, depth) (n, depth)
  /-- Before it ends at a mark that reaches into the slice. -/
  | doomed {n depth : Nat} {run : Nat × Nat} {c : Char} {r : Text} {mark : Mark} : m.drop n = c :: r → n < m.length →
      isSpace c = false → stop ≠ some c → mark? (before.toList ++ m.take n).getLast? (c :: (r ++ x.oldTail)) = some mark →
      r.length + 1 < mark.extent (c :: (r ++ x.oldTail)) → RunAgree x stop before m (n, depth) run
  | into (last : Option Char) (first : Bool) (depth : Nat) : RunAgree x stop before m
      (m.length + (textRun stop last first depth x.oldTail).1, (textRun stop last first depth x.oldTail).2)
      (m.length + (textRun stop last first depth x.newTail).1, (textRun stop last first depth x.newTail).2)

namespace RunAgree

variable {x : Respelling} {stop before : Option Char} {c : Char} {m : Text} {run run' : Nat × Nat}

theorem cons (h : RunAgree x stop (some c) m run run') : RunAgree x stop before (c :: m) (lengthen run) (lengthen run') := by
  cases h with
  | front hn => exact .front (Nat.succ_lt_succ hn)
  | @doomed n depth run d r mark hd hn hspace hstop hmark hextent =>
    refine .doomed (n := n + 1) hd (Nat.succ_lt_succ hn) hspace hstop ?_ hextent
    have hlast : (before.toList ++ (c :: m).take (n + 1)).getLast? = ((some c).toList ++ m.take n).getLast? := by
      cases before <;> simp
    rw [hlast]
    exact hmark
  | into last first depth =>
    have hlength : ∀ n, (c :: m).length + n = m.length + n + 1 := fun n => by
      rw [List.length_cons, Nat.add_right_comm]
    have hinto := @RunAgree.into x stop before (c :: m) last first depth
    rw [hlength, hlength] at hinto
    exact hinto

end RunAgree

namespace Respelling.Neutral

variable {x : Respelling} (h : x.Neutral)
include h

theorem textRun_agree {m : Text} (hm : m <:+ x.before) (stop before : Option Char) (first : Bool) (depth : Nat) :
    RunAgree x stop before m (textRun stop before first depth (m ++ x.oldTail))
      (textRun stop before first depth (m ++ x.newTail)) := by
  induction m generalizing before first depth with
  | nil =>
    have hinto := @RunAgree.into x stop before [] before first depth
    simp only [List.length_nil, Nat.zero_add] at hinto
    exact hinto
  | cons c m ih =>
    have hrest : ∀ depth, RunAgree x stop before (c :: m) (lengthen (textRun stop (some c) false depth (m ++ x.oldTail)))
        (lengthen (textRun stop (some c) false depth (m ++ x.newTail))) := fun depth =>
      (ih ((List.suffix_cons c m).trans hm) (some c) false depth).cons
    have hend : ∀ depth, RunAgree x stop before (c :: m) (0, depth) (0, depth) := fun depth => .front (Nat.succ_pos _)
    rw [List.cons_append, List.cons_append, textRun_cons, textRun_cons]
    split
    · exact hend depth
    · next hspace =>
      split
      · exact hrest _
      · split
        · split
          · exact hend depth
          · exact hrest _
        · cases first with
          | true => simpa using hrest depth
          | false =>
            by_cases hstop : stop = some c
            · simpa [hstop] using hend depth
            · have hmark := h.mark_agree hm before
              simp only [hstop, decide_false, Bool.false_or, Bool.not_false, Bool.true_and]
              generalize hold : mark? before (c :: (m ++ x.oldTail)) = o at hmark ⊢
              generalize mark? before (c :: (m ++ x.newTail)) = o' at hmark ⊢
              cases hmark with
              | front => simpa using hend depth
              | behind hextent =>
                simp only [Option.isSome_some, if_true]
                refine .doomed (n := 0) rfl (Nat.succ_pos _) (by simpa using hspace) hstop ?_ hextent
                cases before <;> simpa using hold
              | nowhere => simpa using hrest depth

end Respelling.Neutral

end Proofreader.Markup
