import Proofreader.Markup.Parser
import Proofreader.Proofs.Markup.Lexeme
import Proofreader.Text.Letter

/-! A slice of a file and the letters that take its place. Whatever the markup looks for in front of the slice it finds
there alike before and after, unless it reaches into the slice: for that the slice holds nothing that other
marks look for, and the letters complete no name and no label. -/

namespace Proofreader

def isPlainLetter (c : Char) : Bool := isLetter c && !c.isDigit

section Letter

variable {c d : Char}

theorem ne_of_isPlainLetter (hc : isPlainLetter c = true) (hd : isPlainLetter d = false) : c ≠ d := by
  rintro rfl
  rw [hc] at hd
  cases hd

theorem forall_not_isPlainLetter {t : Text} (h : t.any isPlainLetter = false) : ∀ c ∈ t, isPlainLetter c = false := by
  simpa using h

theorem isAlphanum_of_isPlainLetter (h : isPlainLetter c = true) : c.isAlphanum = c.isAlpha := by
  rw [isPlainLetter, Bool.and_eq_true, Bool.not_eq_true'] at h
  rw [Char.isAlphanum, h.2, Bool.or_false]

end Letter

namespace Markup

theorem isSpace_of_isPlainLetter {c : Char} (h : isPlainLetter c = true) : isSpace c = false := by
  have hne : ∀ d, isPlainLetter d = false → c ≠ d := fun d => ne_of_isPlainLetter h
  simp [isSpace, hne ' ' (by decide), hne '\t' (by decide), hne '\r' (by decide), hne '\n' (by decide)]

/-- Of the characters of keys and names a plain letter is one of the first letters. -/
theorem isKeyPart_of_isPlainLetter {c : Char} (h : isPlainLetter c = true) : isKeyPart c = c.isAlpha := by
  have hne : ∀ d, isPlainLetter d = false → c ≠ d := fun d => ne_of_isPlainLetter h
  simp [isKeyPart, isAlphanum_of_isPlainLetter h, hne '_' (by decide), hne ':' (by decide), hne '.' (by decide),
    hne '-' (by decide)]

theorem isNamePart_of_isPlainLetter {c : Char} (h : isPlainLetter c = true) : isNamePart c = c.isAlpha := by
  have hne : ∀ d, isPlainLetter d = false → c ≠ d := fun d => ne_of_isPlainLetter h
  simp [isNamePart, isAlphanum_of_isPlainLetter h, hne '_' (by decide), hne '-' (by decide)]

theorem isNameStart_of_isPlainLetter {c : Char} (h : isPlainLetter c = true) : isNameStart c = c.isAlpha := by
  simp [isNameStart, ne_of_isPlainLetter h (d := '_') (by decide)]

end Markup

/-- The code points of the blank characters. -/
def blankPoints : List Nat :=
  [9, 10, 11, 12, 13, 28, 29, 30, 31, 32, 0x85, 0xA0, 0x1680, 0x2000, 0x2001, 0x2002, 0x2003, 0x2004, 0x2005, 0x2006,
    0x2007, 0x2008, 0x2009, 0x200A, 0x2028, 0x2029, 0x202F, 0x205F, 0x3000]

theorem isBlank_of_isPlainLetter {c : Char} (h : isPlainLetter c = true) : isBlank c = false := by
  have hnone : ∀ n ∈ blankPoints, isPlainLetter (Char.ofNat n) = false := by decide +kernel
  by_contra hblank
  have hmem : c.toNat ∈ blankPoints := by
    simp only [isBlank, Bool.not_eq_false, Bool.or_eq_true, Bool.and_eq_true, decide_eq_true_eq] at hblank
    simp only [blankPoints, List.mem_cons, List.not_mem_nil, or_false]
    omega
  have := hnone _ hmem
  rw [Char.ofNat_toNat, h] at this
  cases this

namespace Markup

/-- Letters that take the place of a slice, between what stands before and after it in its file. -/
structure Respelling where
  file : FileId
  before : Text
  old : Text
  new : Text
  after : Text

/-- The text ends in a key or a name, or where one is to come. -/
def NameOpen (t : Text) : Prop := ∃ earlier mark key, t = earlier ++ mark ++ key ∧ key.all isKeyPart = true ∧
  (mark = ['@'] ∨ mark = ['#'] ∨ ∃ tabs, tabs.all isTab = true ∧ mark = "#set".toList ++ tabs)

/-- The text ends in the beginning of a label. -/
def LabelOpen (t : Text) : Prop := ∃ earlier key, t = earlier ++ '<' :: key ∧ key.all isKeyPart = true

def Starts (t : Text) : Prop := ∃ c r, t = c :: r ∧ isPlainLetter c = true

namespace Respelling

/-- The slice holds nothing that marks outside look for, and the letters complete no mark that begins before. -/
structure Neutral (x : Respelling) : Prop where
  starts : Starts x.old
  ends : x.old.getLast?.any isPlainLetter = true
  plain : ∀ c ∈ ['*', '_', '[', ']', '\\', '\n'], c ∉ x.old
  ne : x.new ≠ []
  letters : ∀ c ∈ x.new, isPlainLetter c = true
  name : NameOpen x.before → x.new.head?.any isKeyPart = true → x.old.head?.any isKeyPart = true
  label : LabelOpen x.before → x.new.all isKeyPart = true → (x.after.dropWhile isKeyPart).head? ≠ some '>'

def oldTail (x : Respelling) : Text := x.old ++ x.after
def newTail (x : Respelling) : Text := x.new ++ x.after

end Respelling

section Starts

variable {m u : Text} {p : Char → Bool}

theorem Starts.append (h : Starts u) (t : Text) : Starts (u ++ t) := by
  obtain ⟨c, r, rfl, hc⟩ := h
  exact ⟨c, r ++ t, rfl, hc⟩

theorem Starts.ne_nil (h : Starts u) : u ≠ [] := by
  obtain ⟨c, r, rfl, -⟩ := h
  exact List.cons_ne_nil c r

theorem Starts.head? (h : Starts u) (hp : ∀ c, isPlainLetter c = true → p c = false) : u.head?.any p = false := by
  obtain ⟨c, r, rfl, hc⟩ := h
  exact hp c hc

theorem Starts.head?_ne (h : Starts u) {d : Char} (hd : isPlainLetter d = false) : u.head? ≠ some d := by
  obtain ⟨c, r, rfl, hc⟩ := h
  exact fun he => ne_of_isPlainLetter hc hd (Option.some.inj he)

theorem Starts.head (h : Starts u) (hp : ∀ c, isPlainLetter c = true → p c = false) : ∀ c ∈ u.head?, p c = false := by
  obtain ⟨c, r, rfl, hc⟩ := h
  exact fun d hd => Option.some.inj hd ▸ hp c hc

theorem Starts.head_ne (h : Starts u) : ∀ c ∈ u.head?, ∀ d, isPlainLetter d = false → c ≠ d := by
  obtain ⟨c, r, rfl, hc⟩ := h
  exact fun d hd e he => Option.some.inj hd ▸ ne_of_isPlainLetter hc he

theorem Starts.takeWhile (h : Starts u) (hp : ∀ c, isPlainLetter c = true → p c = false) :
    (m ++ u).takeWhile p = m.takeWhile p :=
  takeWhile_append_of_head (h.head hp) m

theorem Starts.dropWhile (h : Starts u) (hp : ∀ c, isPlainLetter c = true → p c = false) :
    (m ++ u).dropWhile p = m.dropWhile p ++ u :=
  dropWhile_append_of_head (h.head hp) m

theorem Starts.isPrefixOf (h : Starts u) {word : Text} (hword : ∀ c ∈ word, isPlainLetter c = false) :
    word.isPrefixOf (m ++ u) = word.isPrefixOf m :=
  isPrefixOf_append_of_head (fun c hc hmem => h.head_ne c hc c (hword c hmem) rfl) m

theorem Starts.isBlankLine (h : Starts u) : isBlankLine (m ++ u) = Markup.isBlankLine m := by
  have hblank := h.head (p := fun c => c = ' ' || c = '\t' || c = '\r') fun c hc => by
    have := isSpace_of_isPlainLetter hc
    simp only [isSpace, Bool.or_eq_false_iff] at this ⊢
    exact this.1
  unfold Markup.isBlankLine
  rw [dropWhile_append_of_head hblank, List.head?_append]
  cases (m.dropWhile fun c => c = ' ' || c = '\t' || c = '\r').head? with
  | some c => rfl
  | none => exact decide_eq_false (h.head?_ne (by decide))

theorem isTab_of_isPlainLetter {c : Char} (h : isPlainLetter c = true) : isTab c = false := by
  have := isSpace_of_isPlainLetter h
  simp only [isSpace, isTab, Bool.or_eq_false_iff] at this ⊢
  exact this.1.1

theorem Starts.headingMarker? (h : Starts u) : headingMarker? (m ++ u) = Markup.headingMarker? m :=
  headingMarker?_append_of_head (fun c hc => ⟨h.head_ne c hc '=' (by decide), h.head (fun _ => isTab_of_isPlainLetter) c hc⟩) m

theorem Starts.itemMarker? (h : Starts u) : itemMarker? (m ++ u) = Markup.itemMarker? m :=
  itemMarker?_append_of_head (fun c hc => ⟨⟨h.head_ne c hc '-' (by decide), h.head_ne c hc '+' (by decide)⟩,
    h.head (fun _ => isTab_of_isPlainLetter) c hc⟩) m

theorem Starts.endsAtSpace {v : Text} (h : Starts u) (k : Starts v) (mode : Mode) :
    endsAtSpace mode (m ++ u) = endsAtSpace mode (m ++ v) := by
  have hspaces := fun c (hc : isPlainLetter c = true) => isSpace_of_isPlainLetter hc
  have hfence : ∀ c ∈ fence, isPlainLetter c = false := forall_not_isPlainLetter (by decide)
  have hempty : ∀ w : Text, Starts w → (m.dropWhile isSpace ++ w).isEmpty = false := fun w hw => by
    simp [hw.ne_nil]
  simp only [Markup.endsAtSpace, h.takeWhile hspaces, k.takeWhile hspaces, h.dropWhile hspaces, k.dropWhile hspaces,
    hempty u h, hempty v k, h.headingMarker?, k.headingMarker?, h.itemMarker?, k.itemMarker?, h.isPrefixOf hfence,
    k.isPrefixOf hfence]

end Starts

/-- What is found in front of offset `k` of one text is found there in the other, and what is nowhere in one is nowhere
in the other. What is found behind in the first is behind in the second too if `also` holds. -/
inductive Agree (k : Nat) (also : Prop) : Option Nat → Option Nat → Prop
  | front {n : Nat} : n < k → Agree k also (some n) (some n)
  | behind {n : Nat} {o : Option Nat} : k ≤ n → (also → ∃ n', k ≤ n' ∧ o = some n') → Agree k also (some n) o
  | nowhere : Agree k also none none

theorem Agree.map {k : Nat} {also : Prop} {o o' : Option Nat} (h : Agree k also o o') (j : Nat) :
    Agree (k + j) also (o.map (· + j)) (o'.map (· + j)) := by
  cases h with
  | front h => exact .front (Nat.add_lt_add_right h j)
  | behind h halso =>
    refine .behind (Nat.add_le_add_right h j) fun ha => ?_
    obtain ⟨n', hn', rfl⟩ := halso ha
    exact ⟨n' + j, Nat.add_le_add_right hn' j, rfl⟩
  | nowhere => exact .nowhere

theorem Agree.lower {j k : Nat} {also : Prop} {o o' : Option Nat} (h : Agree k also o o') (hjk : j ≤ k) : Agree j also o o' := by
  cases h with
  | @front n hn =>
    by_cases hj : n < j
    · exact .front hj
    · exact .behind (Nat.le_of_not_lt hj) fun _ => ⟨n, Nat.le_of_not_lt hj, rfl⟩
  | behind hn halso =>
    refine .behind (Nat.le_trans hjk hn) fun ha => ?_
    obtain ⟨n', hn', rfl⟩ := halso ha
    exact ⟨n', Nat.le_trans hjk hn', rfl⟩
  | nowhere => exact .nowhere

/-- Both searches go on alike behind the slices. -/
theorem Agree.after {o : Option Nat} {i j : Nat} {also : Prop} : Agree 0 also (o.map (· + i)) (o.map (· + j)) := by
  cases o with
  | none => exact .nowhere
  | some n => exact .behind (Nat.zero_le _) fun _ => ⟨n + j, Nat.zero_le _, rfl⟩

theorem findCloser_skip {closer : Char} {z : Text} (hz : ∀ c ∈ [closer, '\\', '\n'], c ∉ z) (t : Text) :
    findCloser closer (z ++ t) = (findCloser closer t).map (· + z.length) := by
  induction z with
  | nil => simp
  | cons c z ih =>
    have hne : ∀ d ∈ [closer, '\\', '\n'], c ≠ d := fun d hd hcd => hz d hd (hcd ▸ List.mem_cons_self)
    have hrest := ih fun d hd hmem => hz d hd (List.mem_cons_of_mem _ hmem)
    rw [List.cons_append, findCloser_cons (hne '\\' (by simp)), if_neg (hne closer (by simp)),
      if_neg fun h => hne '\n' (by simp) h.1, hrest, Option.map_map]
    rfl

theorem exists_findCloser {closer : Char} {z : Text} (hmem : closer ∈ z) (hz : ∀ c ∈ ['\\', '\n'], c ∉ z) (t : Text) :
    ∃ n, findCloser closer (z ++ t) = some n := by
  induction z with
  | nil => cases hmem
  | cons c z ih =>
    have hne : ∀ d ∈ ['\\', '\n'], c ≠ d := fun d hd hcd => hz d hd (hcd ▸ List.mem_cons_self)
    rw [List.cons_append, findCloser_cons (hne '\\' (by simp))]
    split
    · exact ⟨0, rfl⟩
    · next hc =>
      obtain ⟨n, hn⟩ := ih ((List.mem_cons.1 hmem).resolve_left (Ne.symm hc)) fun d hd h =>
        hz d hd (List.mem_cons_of_mem _ h)
      rw [if_neg fun h => hne '\n' (by simp) h.1, hn]
      exact ⟨n + 1, rfl⟩

theorem findCloser_agree_tails {closer : Char} {z z' : Text} {also : Prop} (hz : ∀ c ∈ ['\\', '\n'], c ∉ z)
    (hz' : ∀ c ∈ [closer, '\\', '\n'], c ∉ z') (halso : also → closer ∉ z) (t : Text) :
    Agree 0 also (findCloser closer (z ++ t)) (findCloser closer (z' ++ t)) := by
  by_cases hmem : closer ∈ z
  · obtain ⟨n, hn⟩ := exists_findCloser hmem hz t
    rw [hn]
    exact .behind (Nat.zero_le _) fun h => (halso h hmem).elim
  · have hzc : ∀ c ∈ [closer, '\\', '\n'], c ∉ z := by
      intro c hc
      rcases List.mem_cons.1 hc with rfl | hc
      · exact hmem
      · exact hz c hc
    rw [findCloser_skip hzc, findCloser_skip hz']
    exact .after

theorem untilQuote?_skip {z : Text} (hz : ∀ c ∈ ['"', '\\'], c ∉ z) (t : Text) :
    untilQuote? (z ++ t) = (untilQuote? t).map (· + z.length) := by
  induction z with
  | nil => simp
  | cons c z ih =>
    rw [List.cons_append, untilQuote?_cons fun d hd hcd => hz d hd (hcd ▸ List.mem_cons_self),
      ih fun d hd hmem => hz d hd (List.mem_cons_of_mem _ hmem), Option.map_map]
    rfl

theorem exists_untilQuote? {z : Text} (hmem : '"' ∈ z) (hz : '\\' ∉ z) (t : Text) : ∃ n, untilQuote? (z ++ t) = some n := by
  induction z with
  | nil => cases hmem
  | cons c z ih =>
    by_cases hc : c = '"'
    · subst hc
      exact ⟨0, rfl⟩
    · obtain ⟨n, hn⟩ := ih ((List.mem_cons.1 hmem).resolve_left (Ne.symm hc)) fun h => hz (List.mem_cons_of_mem _ h)
      have hne : ∀ d ∈ ['"', '\\'], c ≠ d := by
        intro d hd hcd
        rcases List.mem_cons.1 hd with rfl | hd
        · exact hc hcd
        · rw [List.mem_singleton.1 hd] at hcd
          exact hz (hcd ▸ List.mem_cons_self)
      rw [List.cons_append, untilQuote?_cons hne, hn]
      exact ⟨n + 1, rfl⟩

theorem untilQuote?_agree_tails {z z' : Text} (hz : '\\' ∉ z) (hz' : ∀ c ∈ ['"', '\\'], c ∉ z') (t : Text) :
    Agree 0 False (untilQuote? (z ++ t)) (untilQuote? (z' ++ t)) := by
  by_cases hmem : '"' ∈ z
  · obtain ⟨n, hn⟩ := exists_untilQuote? hmem hz t
    rw [hn]
    exact .behind (Nat.zero_le _) False.elim
  · have hzc : ∀ c ∈ ['"', '\\'], c ∉ z := by simp [hmem, hz]
    rw [untilQuote?_skip hzc, untilQuote?_skip hz']
    exact .after

theorem min_le_balancedLength (opening closing : Char) (skip depth : Nat) (t : Text) :
    min skip t.length ≤ balancedLength opening closing skip depth t := by
  induction t generalizing skip with
  | nil => simp
  | cons c r ih =>
    cases skip with
    | zero => simp
    | succ skip =>
      have := ih skip
      rw [List.length_cons, balancedLength]
      omega

namespace Respelling.Neutral

variable {x : Respelling} (h : x.Neutral)
include h

theorem oldStarts : Starts x.oldTail := h.starts.append _

theorem newStarts : Starts x.newTail := by
  cases hn : x.new with
  | nil => exact absurd hn h.ne
  | cons c r => exact ⟨c, r ++ x.after, by rw [newTail, hn, List.cons_append], h.letters c (by simp [hn])⟩

theorem notMem_new {c : Char} (hc : isPlainLetter c = false) : c ∉ x.new := by
  intro hmem
  rw [h.letters c hmem] at hc
  cases hc

theorem findCloser_agree {closer : Char} (hcloser : isPlainLetter closer = false) (m : Text) :
    Agree m.length (closer ∉ x.old) (findCloser closer (m ++ x.oldTail)) (findCloser closer (m ++ x.newTail)) := by
  have hold : ∀ c ∈ ['\\', '\n'], c ∉ x.old := fun c hc =>
    h.plain c ((by simp : ['\\', '\n'] ⊆ ['*', '_', '[', ']', '\\', '\n']) hc)
  have notLetters : ∀ c ∈ ['\\', '\n'], isPlainLetter c = false := forall_not_isPlainLetter (by decide)
  have hnew : ∀ c ∈ [closer, '\\', '\n'], c ∉ x.new := fun c hc => h.notMem_new (by
    rcases List.mem_cons.1 hc with rfl | hc
    · exact hcloser
    · exact notLetters c hc)
  have hc' : ∀ {c : Char} {r : Text}, (∀ d v, c = '\\' → r = d :: v → False) → (c = '\\' → r = [] → False) → c ≠ '\\' := by
    intro c r hcons hnil hc
    cases r with
    | nil => exact hnil hc rfl
    | cons d v => exact hcons d v hc rfl
  induction m using findCloser.induct closer with
  | case1 => exact findCloser_agree_tails hold hnew id x.after
  | case2 c r ih =>
    simp only [List.cons_append, findCloser]
    exact ih.map 2
  | case3 =>
    -- the backslash takes the first letter of either slice with it
    obtain ⟨c, r, hr, -⟩ := h.starts
    obtain ⟨d, v, hv⟩ := List.exists_cons_of_ne_nil h.ne
    have htails : Agree 0 (closer ∉ x.old) (findCloser closer (r ++ x.after)) (findCloser closer (v ++ x.after)) :=
      findCloser_agree_tails (fun c hc hmem => hold c hc (by simp [hr, hmem]))
        (fun c hc hmem => hnew c hc (by simp [hv, hmem])) (fun hclose hmem => hclose (by simp [hr, hmem])) x.after
    simp only [Respelling.oldTail, Respelling.newTail, hr, hv] at htails ⊢
    exact (htails.map 2).lower (by decide)
  | case4 r hne hnil =>
    rw [List.cons_append, List.cons_append, findCloser_cons (hc' hne hnil), findCloser_cons (hc' hne hnil), if_pos rfl, if_pos rfl]
    exact .front (Nat.succ_pos _)
  | case5 c r hne hnil hc hblank => 
    rw [List.cons_append, List.cons_append, findCloser_cons (hc' hne hnil), findCloser_cons (hc' hne hnil), if_neg hc, if_neg hc,
      h.oldStarts.isBlankLine, h.newStarts.isBlankLine, if_pos hblank, if_pos hblank]
    exact .nowhere
  | case6 c r hne hnil hc hblank ih =>
    rw [List.cons_append, List.cons_append, findCloser_cons (hc' hne hnil), findCloser_cons (hc' hne hnil), if_neg hc, if_neg hc,
      h.oldStarts.isBlankLine, h.newStarts.isBlankLine, if_neg hblank, if_neg hblank]
    exact ih.map 1

theorem untilQuote?_agree (m : Text) :
    Agree m.length False (untilQuote? (m ++ x.oldTail)) (untilQuote? (m ++ x.newTail)) := by
  have hold : '\\' ∉ x.old := h.plain '\\' (by simp)
  have hnew : ∀ c ∈ ['"', '\\'], c ∉ x.new := fun c hc =>
    h.notMem_new (forall_not_isPlainLetter (by decide) c hc)
  induction m using untilQuote?.induct with
  | case1 => exact untilQuote?_agree_tails hold hnew x.after
  | case2 r => exact .front (Nat.succ_pos _)
  | case3 r =>
    simp only [List.cons_append, untilQuote?, if_true]
    exact .nowhere
  | case4 c r hc ih =>
    simp only [List.cons_append, untilQuote?, if_neg hc]
    exact ih.map 2
  | case5 =>
    obtain ⟨c, r, hr, hc⟩ := h.starts
    obtain ⟨d, v, hv⟩ := List.exists_cons_of_ne_nil h.ne
    have hd := h.letters d (by simp [hv])
    have htails : Agree 0 False (untilQuote? (r ++ x.after)) (untilQuote? (v ++ x.after)) :=
      untilQuote?_agree_tails (fun hmem => hold (by simp [hr, hmem])) (fun c hc hmem => hnew c hc (by simp [hv, hmem])) x.after
    have hcn := ne_of_isPlainLetter hc (d := '\n') (by decide)
    have hdn := ne_of_isPlainLetter hd (d := '\n') (by decide)
    simp only [Respelling.oldTail, Respelling.newTail, hr, hv, List.cons_append, List.nil_append, untilQuote?, if_neg hcn,
      if_neg hdn]
    exact (htails.map 2).lower (by decide)
  | case6 c r hquote hescape hlast ih =>
    have hc : ∀ d ∈ ['"', '\\'], c ≠ d := by
      intro d hd hcd
      rcases List.mem_cons.1 hd with rfl | hd
      · exact hquote hcd
      · rw [List.mem_singleton.1 hd] at hcd
        cases r with
        | nil => exact hlast hcd rfl
        | cons e r => exact hescape e r hcd rfl
    rw [List.cons_append, List.cons_append, untilQuote?_cons hc, untilQuote?_cons hc]
    exact ih.map 1

/-- A bracket that is closed in front of the slice is closed there in both texts. -/
theorem balancedLength_agree (opening closing : Char) (skip depth : Nat) (m : Text) :
    (balancedLength opening closing skip depth (m ++ x.oldTail) ≤ m.length ∧
      balancedLength opening closing skip depth (m ++ x.newTail) =
        balancedLength opening closing skip depth (m ++ x.oldTail)) ∨
    m.length < balancedLength opening closing skip depth (m ++ x.oldTail) := by
  induction m generalizing skip depth with
  | nil => exact Or.inr (balancedLength_pos _ _ _ _ h.oldStarts.ne_nil)
  | cons c m ih =>
    have hstep : ∀ skip depth,
        (balancedLength opening closing skip depth (m ++ x.oldTail) + 1 ≤ (c :: m).length ∧
          balancedLength opening closing skip depth (m ++ x.newTail) + 1 =
            balancedLength opening closing skip depth (m ++ x.oldTail) + 1) ∨
        (c :: m).length < balancedLength opening closing skip depth (m ++ x.oldTail) + 1 := fun skip depth =>
      (ih skip depth).imp (fun ⟨hle, heq⟩ => ⟨Nat.succ_le_succ hle, congrArg (· + 1) heq⟩) Nat.succ_lt_succ
    cases skip with
    | succ skip => exact hstep skip depth
    | zero =>
      simp only [List.cons_append, balancedLength]
      split
      · have hagree := h.untilQuote?_agree m
        generalize untilQuote? (m ++ x.oldTail) = o at hagree
        generalize untilQuote? (m ++ x.newTail) = o' at hagree
        cases hagree with
        | front hn => exact hstep _ _
        | @behind n o' hn _ =>
          have hmin := min_le_balancedLength opening closing (n + 1) depth (m ++ x.oldTail)
          have hpos := List.length_pos_iff.2 h.oldStarts.ne_nil
          rw [List.length_append] at hmin
          refine Or.inr ?_
          dsimp only
          rw [List.length_cons]
          omega
        | nowhere => exact hstep _ _
      · split
        · exact hstep _ _
        · split
          · exact hstep _ _
          · split
            · split
              · exact Or.inl ⟨Nat.succ_pos _, rfl⟩
              · exact hstep _ _
            · exact hstep _ _

/-- A word without letters that is found in front of the slice is found there in both texts. -/
theorem find_agree {word : Text} (hword : ∀ c ∈ word, isPlainLetter c = false) (m : Text) :
    (∃ n, n + word.length ≤ m.length ∧ Text.find word (m ++ x.oldTail) = some n ∧ Text.find word (m ++ x.newTail) = some n) ∨
    ∀ n, Text.find word (m ++ x.oldTail) = some n → m.length ≤ n := by
  induction m with
  | nil => exact Or.inr fun n _ => Nat.zero_le n
  | cons c m ih =>
    have hold := h.oldStarts.isPrefixOf (m := c :: m) hword
    have hnew := h.newStarts.isPrefixOf (m := c :: m) hword
    rw [List.cons_append] at hold hnew
    rw [List.cons_append, List.cons_append, Text.find, Text.find, hold, hnew]
    split
    · next hprefix =>
      have := (List.isPrefixOf_iff_prefix.1 hprefix).length_le
      exact Or.inl ⟨0, by omega, rfl, rfl⟩
    · rcases ih with ⟨n, hn, ho, hw⟩ | hbehind
      · refine Or.inl ⟨n + 1, by rw [List.length_cons]; omega, ?_, ?_⟩
        · rw [ho]; rfl
        · rw [hw]; rfl
      · refine Or.inr fun n hn => ?_
        obtain ⟨k, hk, rfl⟩ := Option.map_eq_some_iff.1 hn
        exact Nat.succ_le_succ (hbehind k hk)

end Respelling.Neutral

end Markup

end Proofreader
