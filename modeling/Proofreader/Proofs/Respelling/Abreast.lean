import Proofreader.Proofs.Markup.Asked
import Proofreader.Proofs.Respelling.Tree

/-! Two readings of a page side by side, before and after a slice is respelled. In the file of the slice they are abreast
in front of the slice and again behind it. In other files they are abreast all along, and differ in what is included. -/

namespace Proofreader.Markup

namespace Respelling

variable (x : Respelling)

/-- How much of the slice the file has. -/
def oldIn (file : FileId) : Nat := if file = x.file then x.old.length else 0

/-- How many of the letters the file has. -/
def newIn (file : FileId) : Nat := if file = x.file then x.new.length else 0

/-- Both readings stand at the same place in front of the slice, with `m` up to it. -/
structure Ahead (file : FileId) (m : Text) (s s' : Cursor) : Prop where
  file : file = x.file
  before : x.before = s.past.reverse ++ m
  pos : s.pos = s.past.length
  rest : s.rest = m ++ x.oldTail
  past' : s'.past = s.past
  pos' : s'.pos = s.pos
  rest' : s'.rest = m ++ x.newTail

/-- Both readings have the same left, and nothing of the slice. -/
structure Level (file : FileId) (s s' : Cursor) : Prop where
  behind : file = x.file → x.stop ≤ s.pos
  rest : s'.rest = s.rest
  pos : s'.pos + x.oldIn file = s.pos + x.newIn file
  letter : s'.past.head?.any isLetter = s.past.head?.any isLetter
  line : s'.atLineStart = s.atLineStart

structure Abreast (file : FileId) (s s' : Cursor) : Prop where
  scope : s'.scope = s.scope
  depth : s'.depth = s.depth
  place : (∃ m, x.Ahead file m s s') ∨ x.Level file s s'

/-- How much of what differs has been read: the slice in its own file, its file in others. -/
def weight (file : FileId) (s : Cursor) : Nat :=
  if file = x.file then if x.stop ≤ s.pos then 1 else 0 else s.asked.count x.file

/-- From `s` up to `t` the first reading got nodes that do not show all of the slice, or entered its file twice. -/
inductive Fails (file : FileId) (s : Cursor) (ns : List Node) (t : Cursor) : Prop
  | lost {i : Nat} : file = x.file → x.start ≤ i → i < x.stop → s.pos ≤ i → i < t.pos → x.Hidden i ns → Fails file s ns t
  | missed : file ≠ x.file → s.asked.count x.file < t.asked.count x.file → x.Misses ns → Fails file s ns t
  | twice : file ≠ x.file → s.asked.count x.file + 2 ≤ t.asked.count x.file → Fails file s ns t

/-- The nodes of both readings from `s` up to `t` are the same, or have the run that shows the slice. -/
inductive Changes (file : FileId) (s t : Cursor) (ns ns' : List Node) : Prop
  | same : x.weight file t = x.weight file s → Same ns ns' → x.Blind ns → Changes file s t ns ns'
  | edited : x.weight file t = x.weight file s + 1 → x.Edited ns ns' → Changes file s t ns ns'

/-- What the readings get from `s` on: the first one fails, or they are abreast again. -/
inductive Meets (file : FileId) (s : Cursor) (r r' : List Node × Cursor) : Prop
  | fails : x.Fails file s r.1 r.2 → Meets file s r r'
  | abreast : x.Abreast file r.2 r'.2 → x.Changes file s r.2 r.1 r'.1 → Meets file s r r'

/-- Both readings pass on without nodes, and not over the slice. -/
structure Passes (file : FileId) (s t t' : Cursor) : Prop where
  abreast : x.Abreast file t t'
  weight : x.weight file t = x.weight file s
  reaches : s.Reaches t

variable {x} {lib : Library} {chain : List FileId} {page : Page} {text : Text}
variable {file : FileId} {s t u s' t' u' : Cursor} {ns ns' more more' : List Node} {m : Text} {n i : Nat}

theorem weight_of_eq (h : file = x.file) (s : Cursor) : x.weight file s = if x.stop ≤ s.pos then 1 else 0 := if_pos h

theorem weight_of_ne (h : file ≠ x.file) (s : Cursor) : x.weight file s = s.asked.count x.file := if_neg h

/-- Reading hides what lies before or after it. -/
theorem hidden_of_lays (h : Lays lib chain page text s (ns, t)) (hfile : page.file = x.file)
    (hi : i < s.pos ∨ t.pos ≤ i) : x.Hidden i ns := by
  obtain ⟨visits, -, hlaid⟩ := h.laid
  rintro n hn ⟨-, -, hnf, hstart, hstop⟩
  rcases hlaid.mem_cases hn with ⟨-, ha, hb⟩ | ⟨-, hout⟩
  · dsimp only at hb
    omega
  · exact hout (by rw [hnf, hfile]; exact List.mem_cons_self)

/-- In other files, reading shows nothing of the slice unless it enters its file. -/
theorem blind_of_lays (h : Lays lib chain page text s (ns, t)) (hfile : page.file ≠ x.file)
    (hcount : t.asked.count x.file ≤ s.asked.count x.file) : x.Blind ns := by
  obtain ⟨visits, hasked, hlaid⟩ := h.laid
  have hvisits : x.file ∉ visits := by
    have hle := hasked.count_le x.file
    rw [List.count_append] at hle
    dsimp only at hle
    exact List.count_eq_zero.1 (by omega)
  rintro i - - n hn ⟨-, -, hnf, -⟩
  rcases hlaid.mem_cases hn with ⟨hf, -⟩ | ⟨hv, -⟩
  · exact hfile (hf.symm.trans hnf)
  · exact hvisits (hnf ▸ hv)

theorem count_le (h : s.Reaches t) : s.asked.count x.file ≤ t.asked.count x.file := h.asked.count_le x.file

namespace Fails

theorem append (h : x.Fails page.file s ns t) (k : Lays lib chain page text t (more, u)) :
    x.Fails page.file s (ns ++ more) u := by
  have hle := k.reaches.le
  have hcount := count_le (x := x) k.reaches
  cases h with
  | lost hfile hi hj hs ht hidden =>
    exact .lost hfile hi hj hs (Nat.lt_of_lt_of_le ht hle) (hidden.append (hidden_of_lays k hfile (Or.inl ht)))
  | missed hfile hlt hmisses =>
    by_cases hnew : u.asked.count x.file ≤ t.asked.count x.file
    · obtain ⟨i, hi, hj, hidden⟩ := hmisses
      exact .missed hfile (Nat.lt_of_lt_of_le hlt hcount) ⟨i, hi, hj, hidden.append (blind_of_lays k hfile hnew i hi hj)⟩
    · exact .twice hfile (by omega)
  | twice hfile htwice => exact .twice hfile (Nat.le_trans htwice hcount)

theorem prepend (h : x.Fails page.file t ns u) (k : Lays lib chain page text s (more, t)) :
    x.Fails page.file s (more ++ ns) u := by
  have hle := k.reaches.le
  have hcount := count_le (x := x) k.reaches
  dsimp only at hle hcount
  cases h with
  | lost hfile hi hj hs ht hidden =>
    exact .lost hfile hi hj (Nat.le_trans hle hs) ht ((hidden_of_lays k hfile (Or.inr hs)).append hidden)
  | missed hfile hlt hmisses =>
    by_cases hnew : t.asked.count x.file ≤ s.asked.count x.file
    · obtain ⟨i, hi, hj, hidden⟩ := hmisses
      exact .missed hfile (by omega) ⟨i, hi, hj, (blind_of_lays k hfile hnew i hi hj).append hidden⟩
    · exact .twice hfile (by omega)
  | twice hfile htwice => exact .twice hfile (by omega)

theorem before (h : x.Fails file t ns u) (k : s.Reaches t) : x.Fails file s ns u := by
  have hle := k.le
  have hcount := count_le (x := x) k
  cases h with
  | lost hfile hi hj hs ht hidden => exact .lost hfile hi hj (Nat.le_trans hle hs) ht hidden
  | missed hfile hlt hmisses => exact .missed hfile (Nat.lt_of_le_of_lt hcount hlt) hmisses
  | twice hfile htwice => exact .twice hfile (by omega)

theorem after (h : x.Fails file s ns t) (k : t.Reaches u) : x.Fails file s ns u := by
  have hcount := count_le (x := x) k
  cases h with
  | lost hfile hi hj hs ht hidden => exact .lost hfile hi hj hs (Nat.lt_of_lt_of_le ht k.le) hidden
  | missed hfile hlt hmisses => exact .missed hfile (Nat.lt_of_lt_of_le hlt hcount) hmisses
  | twice hfile htwice => exact .twice hfile (Nat.le_trans htwice hcount)

theorem map (h : x.Fails file s ns t) {w : List Node → List Node} (hw : ∀ i, x.Hidden i ns → x.Hidden i (w ns)) :
    x.Fails file s (w ns) t := by
  cases h with
  | lost hfile hi hj hs ht hidden => exact .lost hfile hi hj hs ht (hw _ hidden)
  | missed hfile hlt hmisses =>
    obtain ⟨i, hi, hj, hidden⟩ := hmisses
    exact .missed hfile hlt ⟨i, hi, hj, hw i hidden⟩
  | twice hfile htwice => exact .twice hfile htwice

end Fails

namespace Changes

theorem nil (hweight : x.weight file t = x.weight file s) : x.Changes file s t [] [] := .same hweight (.refl []) .nil

theorem weight_le (hs : x.weight file u = x.weight file s + 2) : file ≠ x.file := by
  intro hfile
  rw [weight_of_eq hfile] at hs
  split at hs <;> omega

end Changes

namespace Meets

theorem append (h : x.Meets page.file s (ns, t) (ns', t')) (hs : Lays lib chain page text s (ns, t))
    (ht : Lays lib chain page text t (more, u))
    (k : x.Abreast page.file t t' → x.Meets page.file t (more, u) (more', u')) :
    x.Meets page.file s (ns ++ more, u) (ns' ++ more', u') := by
  cases h with
  | fails hfails => exact .fails (hfails.append ht)
  | abreast habreast hchanges =>
    cases k habreast with
    | fails hfails => exact .fails (hfails.prepend hs)
    | abreast kabreast kchanges =>
      cases hchanges with
      | same hweight hsame hblind =>
        cases kchanges with
        | same kweight ksame kblind =>
          exact .abreast kabreast (.same (kweight.trans hweight) (hsame.append ksame) (hblind.append kblind))
        | edited kweight kedited =>
          exact .abreast kabreast (.edited (by rw [kweight, hweight]) (.after hsame hblind kedited))
      | edited hweight hedited =>
        cases kchanges with
        | same kweight ksame kblind =>
          exact .abreast kabreast (.edited (kweight.trans hweight) (.before hedited ksame kblind))
        | edited kweight kedited =>
          have htwo : x.weight page.file u = x.weight page.file s + 2 := by
            dsimp only at hweight kweight
            omega
          have hfile := Changes.weight_le htwo
          rw [weight_of_ne hfile, weight_of_ne hfile] at htwo
          exact .fails (.twice hfile (Nat.le_of_eq htwo.symm))

theorem map (h : x.Meets file s (ns, t) (ns', t')) {w w' : List Node → List Node} (hw : x.Congruent w w') :
    x.Meets file s (w ns, t) (w' ns', t') := by
  cases h with
  | fails hfails => exact .fails (hfails.map fun _ => hw.hidden)
  | abreast habreast hchanges =>
    cases hchanges with
    | same hweight hsame hblind =>
      exact .abreast habreast (.same hweight (hw.same hsame) fun i hi hj => hw.hidden (hblind i hi hj))
    | edited hweight hedited => exact .abreast habreast (.edited hweight (hw.edited hedited))

/-- Both readings go on from where they are abreast, without nodes. -/
theorem pass (h : x.Meets file s (ns, t) (ns', t')) (ht : t.Reaches u)
    (k : x.Abreast file t t' → x.Abreast file u u' ∧ x.weight file u = x.weight file t) :
    x.Meets file s (ns, u) (ns', u') := by
  cases h with
  | fails hfails => exact .fails (hfails.after ht)
  | abreast habreast hchanges =>
    obtain ⟨kabreast, kweight⟩ := k habreast
    cases hchanges with
    | same hweight hsame hblind => exact .abreast kabreast (.same (kweight.trans hweight) hsame hblind)
    | edited hweight hedited => exact .abreast kabreast (.edited (kweight.trans hweight) hedited)

end Meets

namespace Passes

theorem refl (h : x.Abreast file s s') : x.Passes file s s s' := ⟨h, rfl, .refl s⟩

theorem trans (h : x.Passes file s t t') (k : x.Passes file t u u') : x.Passes file s u u' :=
  ⟨k.abreast, k.weight.trans h.weight, h.reaches.trans k.reaches⟩

theorem meets (h : x.Passes file s t t') : x.Meets file s ([], t) ([], t') := .abreast h.abreast (.nil h.weight)

/-- What the readings get from `t` on, once they have passed to it. -/
theorem seq (h : x.Passes file s t t') {r r' : List Node × Cursor} (k : x.Meets file t r r') : x.Meets file s r r' := by
  cases k with
  | fails hfails => exact .fails (hfails.before h.reaches)
  | abreast habreast hchanges =>
    refine .abreast habreast ?_
    cases hchanges with
    | same hweight hsame hblind => exact .same (hweight.trans h.weight) hsame hblind
    | edited hweight hedited => exact .edited (by rw [hweight, h.weight]) hedited

/-- Nothing of the slice has been passed. -/
theorem blind (h : x.Passes file s t t') (hfile : file = x.file) {i : Nat} (hi : x.start ≤ i) (hj : i < x.stop) :
    i < s.pos ∨ t.pos ≤ i := by
  have hweight := h.weight
  rw [weight_of_eq hfile, weight_of_eq hfile] at hweight
  rcases h.abreast.place with ⟨m, ha⟩ | hl
  · have hpos : t.pos ≤ x.start := by
      rw [ha.pos, start, ha.before, List.length_append, List.length_reverse]
      omega
    omega
  · rw [if_pos (hl.behind hfile)] at hweight
    split at hweight
    · omega
    · cases hweight

/-- Both readings make a leaf of what they pass. -/
theorem leaf (h : x.Passes page.file s t t') {page' : Page} (kind : Kind) (shown : Text) (verbatim verbatim' : Bool) :
    x.Meets page.file s ([leaf page kind s t shown verbatim], t) ([Markup.leaf page' kind s' t' shown verbatim'], t') := by
  refine .abreast h.abreast (.same h.weight (.cons ?_ (.refl [])) fun i hi hj => .single ?_ .nil)
  · rw [Node.bare_eq, Node.bare_eq]
    simp only [Markup.leaf, h.abreast.scope]
  · rintro ⟨-, -, hfile, hstart, hstop⟩
    dsimp only [Markup.leaf] at hfile hstart hstop
    have := h.blind hfile hi hj
    omega

end Passes

/-- What stands on the line up to here, with more read. -/
theorem all_isBlank_append {t t' : Text} (h : (t'.takeWhile (· ≠ '\n')).all isBlank = (t.takeWhile (· ≠ '\n')).all isBlank)
    (w : Text) : ((w ++ t').takeWhile (· ≠ '\n')).all isBlank = ((w ++ t).takeWhile (· ≠ '\n')).all isBlank := by
  induction w with
  | nil => exact h
  | cons c w ih =>
    rw [List.cons_append, List.cons_append, List.takeWhile_cons, List.takeWhile_cons]
    split
    · rw [List.all_cons, List.all_cons, ih]
    · rfl

/-- A stretch of `n` characters does not reach into the slice. -/
def Clear (x : Respelling) (file : FileId) (s : Cursor) (n : Nat) : Prop :=
  file = x.file → s.pos + n ≤ x.start ∨ x.stop ≤ s.pos

namespace Ahead

variable (h : x.Ahead file m s s')
include h

theorem pos_add : s.pos + m.length = x.start := by
  rw [h.pos, start, h.before, List.length_append, List.length_reverse]

theorem suffix : m <:+ x.before := ⟨s.past.reverse, h.before.symm⟩

theorem advance (hn : n ≤ m.length) : x.Ahead file (m.drop n) (s.advance n) (s'.advance n) := by
  have htake : ∀ u : Text, (m ++ u).take n = m.take n := fun u => List.take_append_of_le_length hn
  have hdrop : ∀ u : Text, (m ++ u).drop n = m.drop n ++ u := fun u => List.drop_append_of_le_length hn
  refine ⟨h.file, ?_, ?_, ?_, ?_, ?_, ?_⟩
  · simp only [Cursor.advance, h.rest, htake, List.reverse_append, List.reverse_reverse, List.append_assoc,
      List.take_append_drop, h.before]
  · simp only [Cursor.advance, List.length_append, List.length_reverse, h.pos, Nat.add_comm]
  · simp only [Cursor.advance, h.rest, hdrop]
  · simp only [Cursor.advance, h.rest, h.rest', htake, h.past']
  · simp only [Cursor.advance, h.rest, h.rest', htake, h.pos']
  · simp only [Cursor.advance, h.rest', hdrop]

end Ahead

namespace Level

theorem advance (h : x.Level file s s') (n : Nat) : x.Level file (s.advance n) (s'.advance n) := by
  refine ⟨fun hfile => ?_, ?_, ?_, ?_, ?_⟩
  · have := h.behind hfile
    simp only [Cursor.advance]
    omega
  · simp only [Cursor.advance, h.rest]
  · have := h.pos
    simp only [Cursor.advance, h.rest]
    omega
  · simp only [Cursor.advance, h.rest]
    cases (s.rest.take n).reverse with
    | nil => exact h.letter
    | cons c r => rfl
  · simp only [Cursor.atLineStart, Cursor.advance, h.rest]
    exact all_isBlank_append h.line _

end Level

namespace Abreast

variable (h : x.Neutral) (hs : x.Abreast file s s')
include h

theorem start_lt_stop : x.start < x.stop := Nat.lt_add_of_pos_right (List.length_pos_iff.2 h.starts.ne_nil)

include hs

theorem passes_advance (hn : x.Clear file s n) : x.Passes file s (s.advance n) (s'.advance n) := by
  have hlt := start_lt_stop h
  have hreaches := s.reaches_advance n
  rcases hs.place with ⟨m, ha⟩ | hl
  · have hpos := ha.pos_add
    have hle : n ≤ m.length := by
      have := hn ha.file
      omega
    have hnext := ha.advance hle
    refine ⟨⟨hs.scope, hs.depth, Or.inl ⟨_, hnext⟩⟩, ?_, hreaches⟩
    have := hnext.pos_add
    rw [weight_of_eq ha.file, weight_of_eq ha.file, if_neg (by omega), if_neg (by omega)]
  · have hnext := hl.advance n
    refine ⟨⟨hs.scope, hs.depth, Or.inr hnext⟩, ?_, hreaches⟩
    by_cases hfile : file = x.file
    · rw [weight_of_eq hfile, weight_of_eq hfile, if_pos (hl.behind hfile), if_pos (hnext.behind hfile)]
    · rw [weight_of_ne hfile, weight_of_ne hfile]
      rfl

end Abreast

end Respelling

end Proofreader.Markup
