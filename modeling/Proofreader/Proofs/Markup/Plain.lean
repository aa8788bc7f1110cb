import Mathlib.Data.List.SplitBy
import Proofreader.Proofs.Collections
import Proofreader.Proofs.Markup.Library
import Proofreader.Proofs.Markup.Reading

/-! Plain prose: text without any mark, in which whitespace parts words and paragraphs. Its runs of whitespace and of other
characters are all that the reader finds in it, and its paragraphs lie between the runs that have two line ends. -/

namespace Proofreader.Markup

/-- Characters that begin a mark, a heading or a list item somewhere. -/
def markCharacters : List Char := ['\\', '$', '`', '*', '_', '@', '#', '<', '/', '=', '-', '+']

/-- No character means anything but itself, and all whitespace is that of the markup. -/
structure Plain (source : Text) : Prop where
  unmarked : ∀ c ∈ source, c ∉ markCharacters
  spaces : ∀ c ∈ source, isBlank c = true → isSpace c = true

instance (source : Text) : Decidable (Plain source) :=
  decidable_of_iff (source.all fun c => decide (c ∉ markCharacters) && decide (isBlank c = true → isSpace c = true)) (by
    simp only [List.all_eq_true, Bool.and_eq_true, decide_eq_true_eq]
    exact ⟨fun h => ⟨fun c hc => (h c hc).1, fun c hc => (h c hc).2⟩, fun h c hc => ⟨h.unmarked c hc, h.spaces c hc⟩⟩)

/-- Characters that are all whitespace or all none, with the offset of the first. -/
structure Run where
  start : Nat
  text : Text
deriving DecidableEq

namespace Run

def isWord (r : Run) : Bool := r.text.any (! isSpace ·)

/-- Whitespace that paragraphs end at. -/
def isBreak (r : Run) : Bool := 2 ≤ r.text.count '\n'

def location (file : FileId) (r : Run) : Location := ⟨file, r.start, r.start + r.text.length⟩

end Run

/-- Parts of a text with the offsets at which they follow each other. -/
def placed : (start : Nat) → List Text → List Run
  | _, [] => []
  | start, part :: parts => ⟨start, part⟩ :: placed (start + part.length) parts

/-- The maximal runs of whitespace and of other characters. -/
def runs (source : Text) : List Run := placed 0 (source.splitBy fun a b => isSpace a == isSpace b)

/-- From the first word to the last. -/
def trimRuns (rs : List Run) : List Run :=
  ((rs.dropWhile (! ·.isWord)).reverse.dropWhile (! ·.isWord)).reverse

def paragraphsOf (rs : List Run) : List (List Run) := ((rs.splitOnP Run.isBreak).map trimRuns).filter (· ≠ [])

/-- The paragraphs of a plain text, each from its first word to its last. -/
def paragraphs (source : Text) : List (List Run) := paragraphsOf (runs source)

/-- Runs that follow each other from `start` on, words and whitespace by turns. -/
inductive Runs : (start : Nat) → List Run → Prop
  | nil {start : Nat} : Runs start []
  | cons {r : Run} {rs : List Run} : r.text ≠ [] → (r.isWord = true → ∀ c ∈ r.text, isSpace c = false) →
      (∀ q ∈ rs.head?, q.isWord = !r.isWord) → Runs (r.start + r.text.length) rs → Runs r.start (r :: rs)

variable {start : Nat} {r : Run} {rs : List Run}

section Runs

theorem Runs.isSpace_of_gap (h : r.isWord = false) : ∀ c ∈ r.text, isSpace c = true := by
  intro c hc
  by_contra hne
  exact Bool.false_ne_true (h.symm.trans (List.any_eq_true.2 ⟨c, hc, by simpa using hne⟩))

theorem isWord_of_mem (h : ∀ c ∈ r.text, ∀ d ∈ r.text, isSpace c = isSpace d) {c : Char} (hc : c ∈ r.text) :
    r.isWord = !isSpace c := by
  unfold Run.isWord
  cases hs : isSpace c with
  | false => exact List.any_eq_true.2 ⟨c, hc, by simp [hs]⟩
  | true =>
    rw [Bool.not_true, List.any_eq_false]
    intro d hd
    simp [← h c hc d hd, hs]

theorem text_placed (start : Nat) (parts : List Text) : (placed start parts).map Run.text = parts := by
  induction parts generalizing start with
  | nil => rfl
  | cons part parts ih => rw [placed, List.map_cons, ih]

theorem runs_placed {parts : List Text} (hne : ∀ p ∈ parts, p ≠ [])
    (hsame : ∀ p ∈ parts, ∀ c ∈ p, ∀ d ∈ p, isSpace c = isSpace d)
    (hturn : parts.IsChain fun a b => ∃ ha hb, (isSpace (a.getLast ha) == isSpace (b.head hb)) = false) (start : Nat) :
    Runs start (placed start parts) := by
  induction parts generalizing start with
  | nil => exact .nil
  | cons p parts ih =>
    obtain ⟨hp, hrest⟩ := List.forall_mem_cons.1 hne
    obtain ⟨hsamep, hsamerest⟩ := List.forall_mem_cons.1 hsame
    refine .cons (r := ⟨start, p⟩) hp (fun hword c hc => ?_) (fun q hq => ?_) (ih hrest hsamerest hturn.tail _)
    · rw [isWord_of_mem (r := ⟨start, p⟩) hsamep hc] at hword
      simpa using hword
    · cases parts with
      | nil => cases hq
      | cons b parts =>
        obtain rfl : _ = q := Option.some.inj hq
        obtain ⟨ha, hb, hne⟩ := (List.isChain_cons_cons.1 hturn).1
        rw [isWord_of_mem (r := ⟨start, p⟩) hsamep (List.getLast_mem ha),
          isWord_of_mem (r := ⟨_, b⟩) (hsamerest b List.mem_cons_self) (List.head_mem hb)]
        cases hx : isSpace (p.getLast ha) <;> cases hy : isSpace (b.head hb) <;> simp_all

theorem same_of_isChain {p : Text} (h : p.IsChain fun a b => (isSpace a == isSpace b) = true) :
    ∀ c ∈ p, ∀ d ∈ p, isSpace c = isSpace d := by
  have : IsTrans Char fun a b => isSpace a = isSpace b := ⟨fun _ _ _ => Eq.trans⟩
  have : Std.Symm fun a b : Char => isSpace a = isSpace b := ⟨fun _ _ => Eq.symm⟩
  have hpairs := List.isChain_iff_pairwise.1 (h.imp fun a b hab => eq_of_beq hab)
  exact hpairs.forall_of_forall fun _ _ => rfl

theorem runs_runs (source : Text) : Runs 0 (runs source) := by
  have hturn := List.isChain_getLast_head_splitBy (fun a b => isSpace a == isSpace b) source
  exact runs_placed (fun p hp => List.ne_nil_of_mem_splitBy hp)
    (fun p hp => same_of_isChain (List.isChain_of_mem_splitBy hp)) hturn 0

theorem flatten_runs (source : Text) : ((runs source).map Run.text).flatten = source := by
  rw [runs, text_placed, List.flatten_splitBy]

end Runs

/-- The runs of a paragraph that begins here, and those behind it: whitespace ends it that is a break or the end of all. -/
def cut : List Run → List Run × List Run
  | [] => ([], [])
  | r :: rs => if !r.isWord && (rs.isEmpty || r.isBreak) then ([], r :: rs) else (r :: (cut rs).1, (cut rs).2)

section Paragraphs

theorem cut_append (rs : List Run) : (cut rs).1 ++ (cut rs).2 = rs := by
  induction rs with
  | nil => rfl
  | cons r rs ih =>
    unfold cut
    split
    · rfl
    · rw [List.cons_append, ih]

/-- Words have no line ends. -/
theorem not_isBreak_of_isWord (h : Runs start (r :: rs)) (hr : r.isWord = true) : r.isBreak = false := by
  cases h with
  | cons _ hword =>
    have hcount : r.text.count '\n' = 0 := List.count_eq_zero.2 fun hmem => by
      have := hword hr '\n' hmem
      revert this
      decide
    simp [Run.isBreak, hcount]

theorem Runs.tail (h : Runs start (r :: rs)) : Runs (r.start + r.text.length) rs := by
  cases h with
  | cons _ _ _ h => exact h

theorem Runs.next (h : Runs start (r :: rs)) : ∀ q ∈ rs.head?, q.isWord = !r.isWord := by
  cases h with
  | cons _ _ h _ => exact h

theorem Runs.head_ne (h : Runs start (r :: rs)) : r.text ≠ [] := by
  cases h with
  | cons h _ _ _ => exact h

theorem Runs.word (h : Runs start (r :: rs)) (hr : r.isWord = true) : ∀ c ∈ r.text, isSpace c = false := by
  cases h with
  | cons _ h _ _ => exact h hr

theorem Runs.of_mem (h : Runs start rs) (hr : r ∈ rs) : r.text ≠ [] ∧ (r.isWord = true → ∀ c ∈ r.text, isSpace c = false) := by
  induction h with
  | nil => cases hr
  | cons hne hword _ _ ih =>
    rcases List.mem_cons.1 hr with rfl | hr
    · exact ⟨hne, hword⟩
    · exact ih hr

/-- A run stands at its offset. -/
theorem extract_placed {parts : List Text} (before : Text) (hr : r ∈ placed before.length parts) :
    (before ++ parts.flatten).extract r.start (r.start + r.text.length) = r.text := by
  induction parts generalizing before with
  | nil => cases hr
  | cons part parts ih =>
    rcases List.mem_cons.1 hr with rfl | hr
    · simp [Text.extract]
    · rw [← List.length_append] at hr
      have := ih _ hr
      rwa [List.append_assoc] at this

theorem extract_run {source : Text} (hr : r ∈ runs source) : source.extract r.start (r.start + r.text.length) = r.text := by
  have := extract_placed [] hr
  rwa [List.nil_append, List.flatten_splitBy] at this

theorem cut_word (h : r.isWord = true) : cut (r :: rs) = (r :: (cut rs).1, (cut rs).2) := by
  rw [cut, h]
  rfl

theorem length_cut_lt (hr : r.isWord = true) : (cut (r :: rs)).2.length < (r :: rs).length := by
  have := congrArg List.length (cut_append rs)
  rw [cut_word hr]
  simp only [List.length_append, List.length_cons] at this ⊢
  omega

/-- Between its ends a paragraph has no break, and it does not end in whitespace. -/
theorem cut_spec (h : Runs start rs) : (∀ q ∈ (cut rs).1, q.isBreak = false) ∧ (∀ q ∈ (cut rs).1.getLast?, q.isWord = true) ∧
    ((cut rs).2 = [] ∨ ∃ g rest, (cut rs).2 = g :: rest ∧ g.isWord = false ∧ (rest = [] ∨ g.isBreak = true)) := by
  induction rs generalizing start with
  | nil => exact ⟨nofun, nofun, Or.inl rfl⟩
  | cons r rs ih =>
    obtain ⟨hbreaks, hlast, hend⟩ := ih h.tail
    unfold cut
    split
    · next hstop =>
      simp only [Bool.and_eq_true, Bool.not_eq_true', Bool.or_eq_true, List.isEmpty_iff] at hstop
      exact ⟨nofun, nofun, Or.inr ⟨r, rs, rfl, hstop⟩⟩
    · next hgo =>
      refine ⟨List.forall_mem_cons.2 ⟨?_, hbreaks⟩, fun q hq => ?_, hend⟩
      · cases hr : r.isWord with
        | true => exact not_isBreak_of_isWord h hr
        | false => simp_all
      · cases hr : r.isWord with
        | true =>
          cases hc : (cut rs).1 with
          | nil =>
            rw [hc] at hq
            obtain rfl : r = q := Option.some.inj hq
            exact hr
          | cons c cs =>
            rw [hc] at hq hlast
            exact hlast q hq
        | false =>
          -- whitespace that does not end the paragraph is followed by a word
          cases rs with
          | nil => simp_all
          | cons w rs =>
            have hw : w.isWord = true := by simpa [hr] using h.next w rfl
            rw [cut_word hw] at hq hlast
            exact hlast q hq

theorem trimRuns_gap (h : r.isWord = false) : trimRuns (r :: rs) = trimRuns rs := by
  simp [trimRuns, h]

/-- What begins and ends with a word has nothing to trim. -/
theorem trimRuns_eq (hhead : ∀ q ∈ rs.head?, q.isWord = true) (hlast : ∀ q ∈ rs.getLast?, q.isWord = true) :
    trimRuns rs = rs := by
  have hdrop : ∀ {l : List Run}, (∀ q ∈ l.head?, q.isWord = true) → l.dropWhile (! ·.isWord) = l := by
    intro l hl
    cases l with
    | nil => rfl
    | cons q l => simp [hl q rfl]
  unfold trimRuns
  rw [hdrop hhead, hdrop (by rwa [List.head?_reverse]), List.reverse_reverse]

theorem trimRuns_snoc (h : r.isWord = false) : trimRuns (rs ++ [r]) = trimRuns rs := by
  unfold trimRuns
  rw [List.dropWhile_append]
  split
  · next hempty => simp [h, List.isEmpty_iff.1 hempty]
  · simp [h]

theorem paragraphsOf_nil : paragraphsOf [] = [] := rfl

/-- Whitespace before the first word is in no paragraph. -/
theorem paragraphsOf_gap (h : r.isWord = false) : paragraphsOf (r :: rs) = paragraphsOf rs := by
  unfold paragraphsOf
  rw [List.splitOnP_cons_eq_if_modifyHead]
  split
  · rfl
  · obtain ⟨p, ps, hps⟩ := List.exists_cons_of_ne_nil (List.splitOnP_ne_nil Run.isBreak rs)
    rw [hps, List.modifyHead_cons, List.map_cons, List.map_cons, trimRuns_gap h]

theorem paragraphsOf_word (h : Runs start (r :: rs)) (hr : r.isWord = true) :
    paragraphsOf (r :: rs) = (cut (r :: rs)).1 :: paragraphsOf (cut (r :: rs)).2 := by
  obtain ⟨hbreaks, hlast, hend⟩ := cut_spec h
  have happend := cut_append (r :: rs)
  have hhead : ∀ q ∈ (cut (r :: rs)).1.head?, q.isWord = true := by
    rw [cut_word hr]
    exact fun q hq => Option.some.inj hq ▸ hr
  have hne : (cut (r :: rs)).1 ≠ [] := by simp [cut_word hr]
  generalize cut (r :: rs) = c at *
  obtain ⟨p, b⟩ := c
  have htrim := trimRuns_eq hhead hlast
  rw [← happend]
  dsimp only at *
  rcases hend with rfl | ⟨g, rest, rfl, hg, hstop⟩
  · rw [List.append_nil, paragraphsOf, List.splitOnP_eq_singleton hbreaks]
    simp [htrim, hne, paragraphsOf_nil]
  · rw [paragraphsOf_gap hg]
    cases hb : g.isBreak with
    | true =>
      rw [paragraphsOf, List.splitOnP_append_cons_of_forall_mem hbreaks g hb]
      simp [htrim, hne, paragraphsOf]
    | false =>
      obtain rfl : rest = [] := hstop.resolve_right (by simp [hb])
      have hall : ∀ q ∈ p ++ [g], q.isBreak = false := by
        intro q hq
        rcases List.mem_append.1 hq with hq | hq
        · exact hbreaks q hq
        · rw [List.mem_singleton.1 hq, hb]
      rw [paragraphsOf, List.splitOnP_eq_singleton hall]
      simp [trimRuns_snoc hg, htrim, hne, paragraphsOf_nil]

theorem Runs.prefix {p b : List Run} (h : Runs start (p ++ b)) : Runs start p := by
  induction p generalizing start with
  | nil => exact .nil
  | cons r p ih =>
    cases h with
    | cons hne hword hnext hrest =>
      refine .cons hne hword (fun q hq => hnext q ?_) (ih hrest)
      change q ∈ (p ++ b).head?
      rw [List.head?_append, hq]
      rfl

theorem Runs.suffix {p b : List Run} (h : Runs start (p ++ b)) : ∃ start, Runs start b := by
  induction p generalizing start with
  | nil => exact ⟨start, h⟩
  | cons r p ih => exact ih h.tail

/-- A paragraph begins and ends with a word. -/
structure IsProse (p : List Run) : Prop where
  runs : ∃ start, Runs start p
  head : ∃ w q, p = w :: q ∧ w.isWord = true
  last : ∀ q ∈ p.getLast?, q.isWord = true

/-- Paragraphs are parts of the text, and there are some where there is a word. -/
theorem paragraphsOf_spec (h : Runs start rs) : (∀ p ∈ paragraphsOf rs, IsProse p ∧ p ⊆ rs) ∧
    (paragraphsOf rs = [] ↔ ∀ r ∈ rs, r.isWord = false) := by
  induction hn : rs.length using Nat.strong_induction_on generalizing rs start with
  | _ n ih =>
    cases rs with
    | nil => exact ⟨nofun, fun _ => nofun, fun _ => rfl⟩
    | cons r rs =>
      subst hn
      cases hr : r.isWord with
      | false =>
        obtain ⟨hprose, hnil⟩ := ih _ (Nat.lt_succ_self _) h.tail rfl
        rw [paragraphsOf_gap hr]
        refine ⟨fun p hp => ⟨(hprose p hp).1, fun q hq => List.mem_cons_of_mem r ((hprose p hp).2 hq)⟩, ?_⟩
        rw [hnil, List.forall_mem_cons, and_iff_right hr]
      | true =>
        have happend := cut_append (r :: rs)
        have hruns := h
        rw [← happend] at hruns
        obtain ⟨_, hrest⟩ := hruns.suffix
        obtain ⟨hprose, -⟩ := ih _ (length_cut_lt hr) hrest rfl
        rw [paragraphsOf_word h hr]
        refine ⟨List.forall_mem_cons.2 ⟨⟨⟨⟨_, hruns.prefix⟩, ?_, (cut_spec h).2.1⟩, ?_⟩, fun p hp => ?_⟩, ?_⟩
        · exact ⟨r, (cut rs).1, by rw [cut_word hr], hr⟩
        · exact fun q hq => happend ▸ List.mem_append_left _ hq
        · exact ⟨(hprose p hp).1, fun q hq => happend ▸ List.mem_append_right _ ((hprose p hp).2 hq)⟩
        · refine ⟨nofun, fun hall => ?_⟩
          rw [hall r List.mem_cons_self] at hr
          cases hr

end Paragraphs

/-- The leaf for a run: a word is shown as it stands, whitespace of any length as one space. -/
def Run.node (file : FileId) (r : Run) : Node :=
  if r.isWord then ⟨.text, r.location file, r.text, .unset, 0, true, []⟩
  else ⟨.space, r.location file, [' '], .unset, 0, r.text = [' '], []⟩

/-- A node for a paragraph of these runs. -/
structure IsParagraph (file : FileId) (p : List Run) (n : Node) : Prop where
  kind : n.kind = .paragraph
  scope : n.scope = .unset
  children : n.children = p.map (Run.node file)

/-- Reading has come to the first of the runs, and no rule and no include was met. -/
structure Cursor.Before (s : Cursor) (rs : List Run) : Prop where
  rest : s.rest = (rs.map Run.text).flatten
  runs : Runs s.pos rs
  unmarked : ∀ c ∈ s.rest, c ∉ markCharacters
  scope : s.scope = .unset
  warnings : s.warnings = []

section Reader

variable {page : Page} {s : Cursor}

theorem mark?_plain {before : Option Char} {c : Char} {r : Text} (h : c ∉ markCharacters) : mark? before (c :: r) = none := by
  simp only [mark?]
  split
  case h_10 => rfl
  all_goals exact absurd (by decide) h

theorem headingMarker?_plain {t : Text} (h : ∀ c ∈ t.head?, c ∉ markCharacters) : headingMarker? t = none := by
  cases t with
  | nil => rfl
  | cons c t =>
    have hc : c ≠ '=' := fun he => h c rfl (he ▸ by decide)
    simp [headingMarker?, hc]

theorem itemMarker?_plain {t : Text} (h : ∀ c ∈ t.head?, c ∉ markCharacters) : itemMarker? t = none := by
  cases t with
  | nil => rfl
  | cons c t =>
    have hminus : c ≠ '-' := fun he => h c rfl (he ▸ by decide)
    have hplus : c ≠ '+' := fun he => h c rfl (he ▸ by decide)
    simp [itemMarker?, hminus, hplus]

theorem fence_plain {t : Text} (h : ∀ c ∈ t.head?, c ∉ markCharacters) : fence.isPrefixOf t = false := by
  cases t with
  | nil => rfl
  | cons c t =>
    have hc : c ≠ '`' := fun he => h c rfl (he ▸ by decide)
    simp [fence, List.isPrefixOf, hc.symm]

/-- Plain text reaches up to the next whitespace. -/
theorem textRun_plain {w r : Text} (hword : ∀ c ∈ w, isSpace c = false) (hplain : ∀ c ∈ w, c ∉ markCharacters)
    (hr : ∀ c ∈ r.head?, isSpace c = true) (before : Option Char) (first : Bool) (depth : Nat) :
    (textRun none before first depth (w ++ r)).1 = w.length := by
  induction w generalizing before first depth with
  | nil =>
    cases r with
    | nil => rfl
    | cons c r => simp [textRun, hr c rfl]
  | cons c w ih =>
    obtain ⟨hc, hword⟩ := List.forall_mem_cons.1 hword
    obtain ⟨hmark, hplain⟩ := List.forall_mem_cons.1 hplain
    rw [List.cons_append, textRun, hc, mark?_plain hmark]
    simp only [ih hword hplain, Bool.false_eq_true, if_false]
    split
    · rfl
    · split
      · simp
      · simp

theorem Runs.start_eq (h : Runs start (r :: rs)) : start = r.start := by
  cases h with
  | cons => rfl

theorem Runs.isSpace_head (h : Runs start (r :: rs)) : ∀ c ∈ r.text.head?, isSpace c = !r.isWord := by
  intro c hc
  cases hr : r.isWord with
  | true => exact h.word hr c (List.mem_of_mem_head? hc)
  | false => exact Runs.isSpace_of_gap hr c (List.mem_of_mem_head? hc)

/-- What stands behind a run is of the other sort. -/
theorem Runs.isSpace_next (h : Runs start (r :: rs)) : ∀ c ∈ ((rs.map Run.text).flatten).head?, isSpace c = r.isWord := by
  intro c hc
  cases rs with
  | nil => cases hc
  | cons q rs =>
    have hq := h.tail
    rw [List.map_cons, List.flatten_cons, List.head?_append_of_ne_nil _ hq.head_ne] at hc
    rw [hq.isSpace_head c hc, h.next q rfl, Bool.not_not]

namespace Cursor.Before

theorem rest_eq (h : s.Before (r :: rs)) : s.rest = r.text ++ (rs.map Run.text).flatten := by
  rw [h.rest, List.map_cons, List.flatten_cons]

theorem advance (h : s.Before (r :: rs)) (depth : Nat) : { s.advance r.text.length with depth := depth }.Before rs := by
  have hrest := h.rest_eq
  refine ⟨?_, ?_, fun c hc => h.unmarked c ?_, h.scope, h.warnings⟩
  · simp [Cursor.advance, hrest]
  · have := h.runs.tail
    rw [← h.runs.start_eq] at this
    simpa [Cursor.advance, hrest] using this
  · exact List.mem_of_mem_drop hc

end Cursor.Before

theorem location_advance (h : s.Before (r :: rs)) (file : FileId) :
    r.location file = ⟨file, s.pos, (s.advance r.text.length).pos⟩ := by
  simp [Run.location, Cursor.advance, h.rest_eq, h.runs.start_eq]

theorem since_advance (h : s.Before (r :: rs)) : (s.advance r.text.length).since s = r.text :=
  Cursor.since_advance h.rest_eq

/-- A word is shown as it stands. -/
theorem textNode_plain (page : Page) (h : s.Before (r :: rs)) (hr : r.isWord = true) :
    ∃ t, textNode page none s = (r.node page.file, t) ∧ t.Before rs := by
  have hlength := List.length_pos_iff.2 h.runs.head_ne
  have hnext : ∀ c ∈ ((rs.map Run.text).flatten).head?, isSpace c = true := fun c hc => (h.runs.isSpace_next c hc).trans hr
  have hrun := textRun_plain (h.runs.word hr) (fun c hc => h.unmarked c (by rw [h.rest_eq]; exact List.mem_append_left _ hc))
    hnext s.past.head? true s.depth
  rw [← h.rest_eq] at hrun
  unfold textNode
  generalize textRun none s.past.head? true s.depth s.rest = p at hrun
  obtain ⟨n, depth⟩ := p
  dsimp only at hrun
  subst hrun
  dsimp only
  rw [Nat.max_eq_left hlength]
  refine ⟨_, Prod.ext ?_ rfl, h.advance depth⟩
  rw [Run.node, if_pos hr, location_advance h]
  unfold leaf
  dsimp only
  congr 1
  · exact since_advance h
  · exact h.scope

theorem takeWhile_gap (h : s.Before (r :: rs)) (hr : r.isWord = false) :
    s.rest.takeWhile isSpace = r.text ∧ s.rest.dropWhile isSpace = (rs.map Run.text).flatten := by
  have hspaces := Runs.isSpace_of_gap hr
  have hnext := h.runs.isSpace_next
  rw [h.rest_eq, List.takeWhile_append_of_pos hspaces, List.dropWhile_append_of_pos hspaces]
  generalize (rs.map Run.text).flatten = t at hnext
  cases t with
  | nil => exact ⟨List.append_nil _, rfl⟩
  | cons c t =>
    have hc : isSpace c = false := (hnext c rfl).trans hr
    simp [hc]

/-- Whitespace of any length is shown as one space. -/
theorem spaceNode_plain (page : Page) (h : s.Before (r :: rs)) (hr : r.isWord = false) :
    ∃ t, spaceNode page s = (r.node page.file, t) ∧ t.Before rs := by
  unfold spaceNode Cursor.skipWhile
  rw [(takeWhile_gap h hr).1]
  refine ⟨_, Prod.ext ?_ rfl, h.advance s.depth⟩
  have hscope : (s.advance r.text.length).scope = .unset := h.scope
  rw [Run.node, if_neg (by simp [hr]), location_advance h]
  unfold leaf
  dsimp only
  rw [since_advance h, hscope]

theorem flatten_eq_nil (h : Runs start rs) : (rs.map Run.text).flatten = [] ↔ rs = [] := by
  cases rs with
  | nil => simp
  | cons r rs => simp [h.head_ne]

/-- Among plain runs, a break or the end of all ends a paragraph. -/
theorem endsAtSpace_plain (h : s.Before (r :: rs)) (hr : r.isWord = false) :
    endsAtSpace .paragraph s.rest = (rs.isEmpty || r.isBreak) := by
  obtain ⟨htake, hdrop⟩ := takeWhile_gap h hr
  have hafter : ∀ c ∈ ((rs.map Run.text).flatten).head?, c ∉ markCharacters := fun c hc =>
    h.unmarked c (by rw [h.rest_eq]; exact List.mem_append_right _ (List.mem_of_mem_head? hc))
  have hempty : ((rs.map Run.text).flatten).isEmpty = rs.isEmpty := by
    rw [Bool.eq_iff_iff, List.isEmpty_iff, List.isEmpty_iff, flatten_eq_nil h.runs.tail]
  unfold endsAtSpace
  rw [htake, hdrop]
  dsimp only
  rw [hempty, headingMarker?_plain hafter, itemMarker?_plain hafter, fence_plain hafter]
  simp [Run.isBreak]

/-- A paragraph takes its runs one by one. -/
theorem inline_plain (page : Page) (h : s.Before rs) :
    ∃ t, (reader page).inline .paragraph none s = ((cut rs).1.map (Run.node page.file), t) ∧ t.Before (cut rs).2 := by
  induction rs generalizing s with
  | nil =>
    have hnil : s.rest = [] := h.rest
    rw [reader_inline, inlineStep, hnil]
    exact ⟨s, rfl, h⟩
  | cons r rs ih =>
    obtain ⟨c, u, htext⟩ := List.exists_cons_of_ne_nil h.runs.head_ne
    have hrest : s.rest = c :: (u ++ (rs.map Run.text).flatten) := by rw [h.rest_eq, htext, List.cons_append]
    have hspace : isSpace c = !r.isWord := h.runs.isSpace_head c (by rw [htext]; rfl)
    have hmark : s.mark? = none := by
      rw [Cursor.mark?, hrest]
      exact mark?_plain (h.unmarked c (by rw [hrest]; exact List.mem_cons_self))
    have hpiece : ∃ t, piece page (reader page) .paragraph none c s = ([r.node page.file], t) ∧ t.Before rs := by
      unfold piece
      cases hr : r.isWord with
      | true =>
        obtain ⟨t, ht, hbefore⟩ := textNode_plain page h hr
        rw [hspace, hr, hmark, ht]
        exact ⟨t, rfl, hbefore⟩
      | false =>
        obtain ⟨t, ht, hbefore⟩ := spaceNode_plain page h hr
        rw [hspace, hr, ht]
        exact ⟨t, rfl, hbefore⟩
    have hstop : (stopsAt none s.depth c || (isSpace c && endsAtSpace .paragraph s.rest)) =
        (!r.isWord && (rs.isEmpty || r.isBreak)) := by
      rw [hspace]
      cases hr : r.isWord with
      | true => rfl
      | false =>
        rw [endsAtSpace_plain h hr]
        rfl
    rw [reader_inline]
    unfold inlineStep
    split
    · next hnil =>
      rw [hrest] at hnil
      cases hnil
    · next d v hcons =>
      obtain ⟨rfl, -⟩ := List.cons.inj (hcons.symm.trans hrest)
      rw [hstop, cut]
      split
      · exact ⟨s, rfl, h⟩
      · obtain ⟨t, ht, hbefore⟩ := hpiece
        obtain ⟨w, hw, hend⟩ := ih hbefore
        refine ⟨w, ?_, hend⟩
        rw [ht]
        change ([r.node page.file] ++ ((reader page).inline .paragraph none t).1, ((reader page).inline .paragraph none t).2) = _
        rw [hw]
        rfl

theorem isSpaceNode_node (file : FileId) (r : Run) : isSpaceNode (r.node file) = !r.isWord := by
  unfold Run.node
  split
  · next h => rw [h]; rfl
  · next h => rw [Bool.eq_false_iff.2 h]; rfl

theorem trimSpaces_map (file : FileId) (p : List Run) : trimSpaces (p.map (Run.node file)) = (trimRuns p).map (Run.node file) := by
  have hsame : (isSpaceNode ∘ Run.node file) = fun r => !r.isWord := funext (isSpaceNode_node file)
  simp only [trimSpaces, trimRuns, List.dropWhile_map, ← List.map_reverse, hsame]

theorem block_eq_paragraph {s : Cursor} (page : Page) (stop : Option Char) (hheading : headingMarker? s.rest = none)
    (hitem : itemMarker? s.rest = none) : block page (reader page) stop s = paragraph page (reader page) stop s := by
  unfold block
  rw [hheading, hitem]
  split
  · rfl
  · rfl

/-- A paragraph that begins with a word reaches up to the break behind it. -/
theorem block_plain (page : Page) (h : s.Before (r :: rs)) (hr : r.isWord = true) : ∃ n t,
    block page (reader page) none s = ([n], t) ∧ IsParagraph page.file (cut (r :: rs)).1 n ∧ t.Before (cut (r :: rs)).2 := by
  have hhead : ∀ c ∈ s.rest.head?, c ∉ markCharacters := fun c hc => h.unmarked c (List.mem_of_mem_head? hc)
  have hblock : block page (reader page) none s = paragraph page (reader page) none s :=
    block_eq_paragraph page _ (headingMarker?_plain hhead) (itemMarker?_plain hhead)
  have hcut : cut (r :: rs) = (r :: (cut rs).1, (cut rs).2) := cut_word hr
  have htrim : trimRuns (cut (r :: rs)).1 = (cut (r :: rs)).1 := by
    refine trimRuns_eq (fun q hq => ?_) (cut_spec h.runs).2.1
    rw [hcut] at hq
    exact Option.some.inj hq ▸ hr
  have hkind : (r.node page.file).kind = .text := by rw [Run.node, if_pos hr]
  obtain ⟨t, ht, hend⟩ := inline_plain page h
  rw [hblock]
  unfold paragraph
  rw [ht]
  dsimp only
  rw [trimSpaces_map, htrim]
  rw [hcut] at hend ⊢
  dsimp only at hend ⊢
  rw [List.map_cons]
  split
  · next hnil => cases hnil
  · next only hone =>
    obtain ⟨rfl, hnil⟩ := List.cons.inj hone
    rw [hkind]
    exact ⟨_, t, rfl, ⟨rfl, h.scope, by rw [List.map_cons, hnil]⟩, hend⟩
  · exact ⟨_, t, rfl, ⟨rfl, h.scope, rfl⟩, hend⟩

theorem skip_plain (h : s.Before rs) : ∃ rest, (s.skipWhile isSpace).Before rest ∧ paragraphsOf rest = paragraphsOf rs ∧
    (∀ q ∈ rest.head?, q.isWord = true) ∧ rest.length ≤ rs.length := by
  cases rs with
  | nil =>
    have hnil : s.rest = [] := h.rest
    refine ⟨[], ?_, rfl, nofun, Nat.le_refl _⟩
    exact ⟨by simp [Cursor.skipWhile, Cursor.advance, hnil], .nil, by simp [Cursor.skipWhile, Cursor.advance, hnil],
      h.scope, h.warnings⟩
  | cons r rs =>
    cases hr : r.isWord with
    | true =>
      have htake : s.rest.takeWhile isSpace = [] := by
        obtain ⟨c, u, htext⟩ := List.exists_cons_of_ne_nil h.runs.head_ne
        have hspace : isSpace c = false := h.runs.word hr c (by rw [htext]; exact List.mem_cons_self)
        rw [h.rest_eq, htext]
        simp [hspace]
      refine ⟨r :: rs, ?_, rfl, fun q hq => Option.some.inj hq ▸ hr, Nat.le_refl _⟩
      rw [Cursor.skipWhile, htake]
      exact ⟨h.rest, h.runs, h.unmarked, h.scope, h.warnings⟩
    | false =>
      refine ⟨rs, ?_, (paragraphsOf_gap hr).symm, fun q hq => ?_, Nat.le_succ _⟩
      · rw [Cursor.skipWhile, (takeWhile_gap h hr).1]
        exact h.advance s.depth
      · rw [h.runs.next q hq, hr]
        rfl

/-- The blocks of a plain text are its paragraphs. -/
theorem blocks_plain (page : Page) (h : s.Before rs) : ∃ nodes t, (reader page).blocks none s = (nodes, t) ∧
    List.Forall₂ (IsParagraph page.file) (paragraphsOf rs) nodes ∧ t.warnings = [] := by
  induction hn : rs.length using Nat.strong_induction_on generalizing rs s with
  | _ n ih =>
    obtain ⟨rest, hbefore, hparagraphs, hword, hlength⟩ := skip_plain h
    rw [reader_blocks, ← hparagraphs]
    unfold blocksStep
    dsimp only
    generalize s.skipWhile isSpace = v at hbefore
    cases rest with
    | nil =>
      have hnil : v.rest = [] := hbefore.rest
      rw [hnil]
      exact ⟨[], v, rfl, .nil, hbefore.warnings⟩
    | cons r rest =>
      have hr := hword r rfl
      obtain ⟨c, u, htext⟩ := List.exists_cons_of_ne_nil hbefore.runs.head_ne
      have hrest : v.rest = c :: (u ++ (rest.map Run.text).flatten) := by rw [hbefore.rest_eq, htext, List.cons_append]
      have hspace : isSpace c = false := hbefore.runs.word hr c (by rw [htext]; exact List.mem_cons_self)
      have hmoved := pos_block_ne page none hrest nofun hspace
      obtain ⟨node, t, hblock, hnode, hend⟩ := block_plain page hbefore hr
      have hlt : (cut (r :: rest)).2.length < n := Nat.lt_of_lt_of_le (length_cut_lt hr) (hn ▸ hlength)
      obtain ⟨nodes, w, hmore, hnodes, hwarnings⟩ := ih _ hlt hend rfl
      rw [hrest, paragraphsOf_word hbefore.runs hr]
      dsimp only
      rw [if_neg nofun, hblock]
      rw [hblock] at hmoved
      dsimp only at hmoved ⊢
      rw [if_neg hmoved]
      refine ⟨node :: nodes, w, ?_, .cons hnode hnodes, hwarnings⟩
      change ([node] ++ ((reader page).blocks none t).1, ((reader page).blocks none t).2) = _
      rw [hmore]
      rfl

end Reader

theorem Library.read_of_load (lib : Library) {main : FileId} {source : Text} (hl : lib.load main = some source) :
    lib.read main = ⟨some ⟨.document, ⟨main, 0, source.length⟩, [], .unset, 0, false,
        (parse (lib.page (lib.files.length - 1) [] main) source .unset).1⟩,
      (parse (lib.page (lib.files.length - 1) [] main) source .unset).2.warnings,
      main :: (parse (lib.page (lib.files.length - 1) [] main) source .unset).2.asked⟩ := by
  have hlevels : lib.files.length = lib.files.length - 1 + 1 := by
    have := List.length_pos_of_mem (mem_of_lookup hl)
    omega
  exact (congrArg (lib.readFile · [] main none .unset) hlevels).trans (readFile_eq List.not_mem_nil hl)

/-- A plain main file is read as its paragraphs, without any warning. -/
theorem Library.read_plain (lib : Library) {main : FileId} {source : Text} (hl : lib.load main = some source)
    (hplain : Plain source) : ∃ nodes, List.Forall₂ (IsParagraph main) (paragraphs source) nodes ∧
      (lib.read main).document = some ⟨.document, ⟨main, 0, source.length⟩, [], .unset, 0, false, nodes⟩ ∧
      (lib.read main).warnings = [] := by
  have hbefore : (Cursor.start source .unset).Before (runs source) :=
    ⟨(flatten_runs source).symm, runs_runs source, hplain.unmarked, rfl, rfl⟩
  obtain ⟨nodes, t, hblocks, hnodes, hwarnings⟩ := blocks_plain (lib.page (lib.files.length - 1) [] main) hbefore
  rw [← parse_eq] at hblocks
  rw [lib.read_of_load hl, hblocks]
  exact ⟨nodes, hnodes, rfl, hwarnings⟩

end Proofreader.Markup
