import Mathlib.Data.List.TakeWhile
import Mathlib.Tactic.Common
import Proofreader.Markup.Lexeme

/-! The words of the markup: what stands at the head of a text where one is found, and that none is empty. -/

namespace Proofreader.Markup

section Ahead

variable {p : Char → Bool} {t u : Text}

/-- Characters of a kind are taken up to a text that begins with none. -/
theorem takeWhile_append_of_head (hu : ∀ c ∈ u.head?, p c = false) (t : Text) : (t ++ u).takeWhile p = t.takeWhile p := by
  have hnil : u.takeWhile p = [] := by
    cases u with
    | nil => rfl
    | cons c r => exact List.takeWhile_cons_of_neg (by simp [hu c rfl])
  rw [List.takeWhile_append, hnil, List.append_nil]
  split
  · next hlength => rw [(List.takeWhile_prefix p).eq_of_length hlength]
  · rfl

theorem dropWhile_append_of_head (hu : ∀ c ∈ u.head?, p c = false) (t : Text) : (t ++ u).dropWhile p = t.dropWhile p ++ u := by
  have hself : u.dropWhile p = u := by
    cases u with
    | nil => rfl
    | cons c r => exact List.dropWhile_cons_of_neg (by simp [hu c rfl])
  rw [List.dropWhile_append, hself]
  split
  · next hempty => rw [List.isEmpty_iff.1 hempty, List.nil_append]
  · rfl

theorem dropWhile_eq_nil_iff_all : t.dropWhile p = [] ↔ t.all p = true :=
  List.dropWhile_eq_nil_iff.trans List.all_eq_true.symm

/-- Characters of a kind are taken up to the first that is none. -/
theorem takeWhile_append_of_not_all (h : t.all p = false) (u : Text) :
    (t ++ u).takeWhile p = t.takeWhile p ∧ (t.takeWhile p).length < t.length := by
  have hlt : (t.takeWhile p).length < t.length := by
    refine Nat.lt_of_le_of_ne (List.takeWhile_prefix p).length_le fun hlength => ?_
    have hall : t.all p = true := by
      rw [← (List.takeWhile_prefix p).eq_of_length hlength]
      exact List.all_takeWhile
    rw [h] at hall
    cases hall
  exact ⟨by rw [List.takeWhile_append, if_neg (Nat.ne_of_lt hlt)], hlt⟩

theorem isPrefixOf_append_of_head {word : Text} (hu : ∀ c ∈ u.head?, c ∉ word) (t : Text) :
    word.isPrefixOf (t ++ u) = word.isPrefixOf t := by
  induction word generalizing t with
  | nil => simp
  | cons d word ih =>
    cases t with
    | nil =>
      cases u with
      | nil => rfl
      | cons c r =>
        have hne : d ≠ c := fun he => hu c rfl (he ▸ List.mem_cons_self)
        simp [List.isPrefixOf, hne]
    | cons e t =>
      rw [List.cons_append, List.isPrefixOf_cons_cons, List.isPrefixOf_cons_cons,
        ih fun c hc hmem => hu c hc (List.mem_cons_of_mem d hmem)]

theorem headingMarker?_append_of_head (hu : ∀ c ∈ u.head?, c ≠ '=' ∧ isTab c = false) (t : Text) :
    headingMarker? (t ++ u) = headingMarker? t := by
  have hlevel : (t.takeWhile (· = '=')).length ≤ t.length := (List.takeWhile_prefix _).length_le
  unfold headingMarker?
  dsimp only
  rw [takeWhile_append_of_head fun c hc => decide_eq_false (hu c hc).1, List.drop_append_of_le_length hlevel,
    takeWhile_append_of_head fun c hc => (hu c hc).2]

theorem le_of_headingMarker {level n : Nat} (h : headingMarker? t = some (level, n)) : n ≤ t.length := by
  have hlevel : (t.takeWhile (· = '=')).length ≤ t.length := (List.takeWhile_prefix _).length_le
  have htabs := (List.takeWhile_prefix isTab (l := t.drop (t.takeWhile (· = '=')).length)).length_le
  simp only [headingMarker?] at h
  split at h
  · cases h
    rw [List.length_drop] at htabs
    omega
  · cases h

theorem itemMarker?_append_of_head (hu : ∀ c ∈ u.head?, (c ≠ '-' ∧ c ≠ '+') ∧ isTab c = false) (t : Text) :
    itemMarker? (t ++ u) = itemMarker? t := by
  cases t with
  | nil =>
    cases u with
    | nil => rfl
    | cons c r =>
      have hc := (hu c rfl).1
      simp [itemMarker?, hc.1, hc.2]
  | cons c r =>
    simp only [List.cons_append, itemMarker?, takeWhile_append_of_head fun c hc => (hu c hc).2]

theorem le_of_itemMarker {n : Nat} (h : itemMarker? t = some n) : n ≤ t.length := by
  cases t with
  | nil => cases h
  | cons c r =>
    have htabs := (List.takeWhile_prefix isTab (l := r)).length_le
    simp only [itemMarker?] at h
    split at h
    · cases h
      rw [List.length_cons]
      omega
    · cases h

theorem findCloser_cons {closer c : Char} (hc : c ≠ '\\') (t : Text) : findCloser closer (c :: t) =
    if c = closer then some 0 else if c = '\n' ∧ isBlankLine t then none else (findCloser closer t).map (· + 1) := by
  rw [findCloser]
  · exact fun d r hd => (hc hd).elim
  · exact fun hd => (hc hd).elim

/-- Of what stands before a mark only a letter counts. -/
theorem mark?_congr {before before' : Option Char} (h : before'.any isLetter = before.any isLetter) (t : Text) :
    mark? before' t = mark? before t := by
  cases t with
  | nil => rfl
  | cons c r => simp only [mark?, h]

end Ahead

theorem commentLength_pos {r : Text} (h : r.head? = some '/' ∨ r.head? = some '*') : 0 < commentLength ('/' :: r) := by
  rcases h with h | h
  · obtain ⟨u, rfl⟩ := List.head?_eq_some_iff.1 h
    exact Nat.succ_pos _
  · obtain ⟨u, rfl⟩ := List.head?_eq_some_iff.1 h
    simp only [commentLength]
    split
    · exact Nat.succ_pos _
    · exact Nat.succ_pos _

theorem labelLength_pos {t : Text} {n : Nat} (h : labelLength? t = some n) : 0 < n := by
  unfold labelLength? at h
  split at h
  · dsimp only at h
    split at h
    · cases h
      exact Nat.succ_pos _
    · cases h
  · cases h

/-- What stands where a mark is found. -/
def Mark.Spelled (c : Char) (r : Text) : Mark → Prop
  | .escape e => c = '\\' ∧ e = r.head?.filter (! isSpace ·)
  | .comment n => c = '/' ∧ (r.head? = some '/' ∨ r.head? = some '*') ∧ n = commentLength (c :: r)
  | .math inside => c = '$' ∧ findCloser '$' r = some inside
  | .raw => c = '`' ∧ '`' ∈ r
  | .delimiter d => c = d ∧ (d = '*' ∨ d = '_') ∧ (findCloser d r).isSome
  | .citation key => c = '@' ∧ citationKey? r = some key
  | .label n => c = '<' ∧ labelLength? (c :: r) = some n
  | .call name => c = '#' ∧ name? r = some name

theorem spelled_of_mark? {before : Option Char} {c : Char} {r : Text} {m : Mark} (h : mark? before (c :: r) = some m) :
    m.Spelled c r := by
  simp only [mark?] at h
  split at h
  · cases h
    exact ⟨rfl, rfl⟩
  · split at h
    · next hslash =>
      cases h
      exact ⟨rfl, hslash, rfl⟩
    · cases h
  · obtain ⟨inside, hinside, rfl⟩ := Option.map_eq_some_iff.1 h
    exact ⟨rfl, hinside⟩
  · split at h
    · next hclosed =>
      cases h
      exact ⟨rfl, by simpa using hclosed⟩
    · cases h
  · split at h
    · next hclosed =>
      cases h
      exact ⟨rfl, Or.inl rfl, hclosed⟩
    · cases h
  · split at h
    · cases h
    · split at h
      · next hclosed =>
        cases h
        exact ⟨rfl, Or.inr rfl, hclosed⟩
      · cases h
  · split at h
    · cases h
    · obtain ⟨key, hkey, rfl⟩ := Option.map_eq_some_iff.1 h
      exact ⟨rfl, hkey⟩
  · obtain ⟨n, hn, rfl⟩ := Option.map_eq_some_iff.1 h
    exact ⟨rfl, hn⟩
  · obtain ⟨name, hname, rfl⟩ := Option.map_eq_some_iff.1 h
    exact ⟨rfl, hname⟩
  · cases h

/-- The length of a comment or label that was found is not zero. -/
theorem pos_of_mark? {before : Option Char} {t : Text} {n : Nat}
    (h : mark? before t = some (.comment n) ∨ mark? before t = some (.label n)) : 0 < n := by
  cases t with
  | nil => simp [mark?] at h
  | cons c r =>
    rcases h with h | h
    · obtain ⟨rfl, hslash, rfl⟩ := spelled_of_mark? h
      exact commentLength_pos hslash
    · exact labelLength_pos (spelled_of_mark? h).2

theorem balancedLength_pos (opening closing : Char) (skip depth : Nat) {t : Text} (ht : t ≠ []) :
    0 < balancedLength opening closing skip depth t := by
  cases t with
  | nil => exact absurd rfl ht
  | cons c r =>
    cases skip with
    | succ skip => exact Nat.succ_pos _
    | zero =>
      unfold balancedLength
      repeat' split
      all_goals exact Nat.succ_pos _

theorem exists_of_name? {t name : Text} (h : name? t = some name) : ∃ r, t = name ++ r := by
  cases t with
  | nil => cases h
  | cons c r =>
    simp only [name?] at h
    split at h
    · cases h
      exact ⟨r.dropWhile isNamePart, by rw [List.cons_append, List.takeWhile_append_dropWhile]⟩
    · cases h

/-- A call begins with a number sign and its name. -/
theorem exists_of_call {before : Option Char} {t name : Text} (h : mark? before t = some (.call name)) :
    ∃ r, t = '#' :: (name ++ r) := by
  cases t with
  | nil => cases h
  | cons c r =>
    obtain ⟨rfl, hname⟩ := spelled_of_mark? h
    obtain ⟨u, rfl⟩ := exists_of_name? hname
    exact ⟨u, rfl⟩

theorem untilQuote?_cons {c : Char} (hc : ∀ d ∈ ['"', '\\'], c ≠ d) (t : Text) :
    untilQuote? (c :: t) = (untilQuote? t).map (· + 1) := by
  rw [untilQuote?]
  · exact fun hd => (hc '"' (by simp) hd).elim
  · exact fun d r hd => (hc '\\' (by simp) hd).elim
  · exact fun hd => (hc '\\' (by simp) hd).elim

/-- A string reaches up to its first quote that no backslash takes. -/
theorem untilQuote?_eq {t : Text} {n : Nat} (h : untilQuote? t = some n) :
    ∃ x r, t = x ++ '"' :: r ∧ x.length = n ∧ untilQuote? (x ++ ['"']) = some n := by
  fun_induction untilQuote? t generalizing n with
  | case1 => cases h
  | case2 r =>
    cases h
    exact ⟨[], r, rfl, rfl, rfl⟩
  | case3 => cases h
  | case4 c r hc ih =>
    obtain ⟨k, hk, rfl⟩ := Option.map_eq_some_iff.1 h
    obtain ⟨x, u, rfl, rfl, hx⟩ := ih hk
    refine ⟨'\\' :: c :: x, u, rfl, rfl, ?_⟩
    simp [untilQuote?, hc, hx]
  | case5 => cases h
  | case6 c r hquote hescape hlone ih =>
    obtain ⟨k, hk, rfl⟩ := Option.map_eq_some_iff.1 h
    obtain ⟨x, u, rfl, rfl, hx⟩ := ih hk
    refine ⟨c :: x, u, rfl, rfl, ?_⟩
    have hne : ∀ d ∈ ['"', '\\'], c ≠ d := by
      intro d hd
      rcases List.mem_cons.1 hd with rfl | hd
      · exact hquote
      · rw [List.mem_singleton.1 hd]
        intro hc
        obtain ⟨e, v, hev⟩ := List.exists_cons_of_ne_nil (l := x ++ '"' :: u) (by simp)
        exact hescape e v hc hev
    rw [List.cons_append, untilQuote?_cons hne, hx]
    rfl

end Proofreader.Markup
