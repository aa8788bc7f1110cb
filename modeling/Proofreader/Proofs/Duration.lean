import Mathlib.Data.List.TakeWhile
import Mathlib.Tactic.Common
import Proofreader.Duration
import Proofreader.Proofs.Collections

/-! Which texts are durations. The grammar comes first: a duration is a row of parts, each a number with a unit or without
one, between blanks. The search for numbers finds these parts and no others. What it refuses is malformed, but for one
thing: a word that is like a unit only if cases are not told apart is taken for a unit first and then is none. -/

namespace Proofreader

/-- No digit of any script is a blank. -/
theorem isBlank_of_isDigit {c : Char} (h : isDigit c = true) : isBlank c = false := by
  have htable : ∀ z ∈ zeroDigits.toList, ∀ i < 10, isBlank (Char.ofNat (z + i)) = false := by decide +kernel
  unfold isDigit digitValue? at h
  split at h
  · next z hz =>
    have hmem : z ∈ zeroDigits.toList := Array.mem_toList_iff.2 (Array.mem_of_getElem? hz)
    split at h
    · next hrange =>
      simp only [Bool.and_eq_true, decide_eq_true_eq] at hrange
      have hc := htable z hmem (c.toNat - z) (by omega)
      rwa [Nat.add_sub_cancel' hrange.1, Char.ofNat_toNat] at hc
    · simp at h
  · simp at h

namespace Duration

variable {t u r n m w f s gap : Text} {digits digits' : Nat} {power power' : Int} {unit : TimeUnit} {name : String}
  {part : DurationPart} {parts : List DurationPart}

/-! ### Numbers -/

/-- Digits, and maybe a point and more digits. The number is `digits · 10 ^ power`. -/
inductive Numeral : Text → Nat → Int → Prop
  | whole {w : Text} : w ≠ [] → (∀ c ∈ w, isDigit c = true) → Numeral w (digitsValue w) 0
  | decimal {w f : Text} : w ≠ [] → (∀ c ∈ w, isDigit c = true) → f ≠ [] → (∀ c ∈ f, isDigit c = true) →
      Numeral (w ++ '.' :: f) (digitsValue (w ++ f)) (-(f.length : Int))

/-- A number in front of `r` that is taken as long as possible. -/
structure Amount (n r : Text) (digits : Nat) (power : Int) : Prop where
  numeral : Numeral n digits power
  longest : ∀ m digits' power', Numeral m digits' power' → m <+: n ++ r → m.length ≤ n.length

theorem isDigit_point : isDigit '.' = false := by decide +kernel

theorem Numeral.exists_cons (h : Numeral n digits power) : ∃ c r, n = c :: r ∧ isDigit c = true := by
  cases h with
  | whole hne hw =>
    obtain ⟨c, r, rfl⟩ := List.exists_cons_of_ne_nil hne
    exact ⟨c, r, rfl, hw c List.mem_cons_self⟩
  | decimal hne hw _ _ =>
    obtain ⟨c, r, rfl⟩ := List.exists_cons_of_ne_nil hne
    exact ⟨c, _, rfl, hw c List.mem_cons_self⟩

/-- A numeral is read whole where nothing follows it. -/
theorem Numeral.readAmount? (h : Numeral n digits power) : readAmount? n = some (digits, power, []) := by
  cases h with
  | whole hne hw =>
    have htake : n.takeWhile isDigit = n := List.takeWhile_eq_self_iff.2 hw
    have hdrop : n.dropWhile isDigit = [] := List.dropWhile_eq_nil_iff.2 hw
    simp [Duration.readAmount?, htake, hdrop, hne]
  | @decimal w f hne hw hfne hf =>
    have htake : (w ++ '.' :: f).takeWhile isDigit = w := by
      rw [List.takeWhile_append_of_pos hw, List.takeWhile_cons_of_neg (by simp [isDigit_point]), List.append_nil]
    have hdrop : (w ++ '.' :: f).dropWhile isDigit = '.' :: f := by
      rw [List.dropWhile_append_of_pos hw, List.dropWhile_cons_of_neg (by simp [isDigit_point])]
    have hpart : f.takeWhile isDigit = f := List.takeWhile_eq_self_iff.2 hf
    have hrest : f.dropWhile isDigit = [] := List.dropWhile_eq_nil_iff.2 hf
    simp [Duration.readAmount?, htake, hdrop, hne, hpart, hrest, hfne]

/-- What is read from a text that begins with a numeral is at least as long as that. -/
theorem Numeral.exists_readAmount? (h : Numeral n digits power) (s : Text) :
    ∃ digits' power' r, Duration.readAmount? (n ++ s) = some (digits', power', r) ∧ r.length ≤ s.length := by
  have hshort : ∀ t : Text, (t.dropWhile isDigit).length ≤ t.length := fun t => (List.dropWhile_sublist _).length_le
  cases h with
  | whole hne hw =>
    have htake : (n ++ s).takeWhile isDigit ≠ [] := by
      rw [List.takeWhile_append_of_pos hw]
      exact List.append_ne_nil_of_left_ne_nil hne _
    have hdrop : (n ++ s).dropWhile isDigit = s.dropWhile isDigit := List.dropWhile_append_of_pos hw
    unfold Duration.readAmount?
    simp only [List.isEmpty_iff, htake, if_false, hdrop]
    have hs := hshort s
    split
    · next r' hr' =>
      rw [hr', List.length_cons] at hs
      split
      · exact ⟨_, _, _, rfl, by simpa using hs⟩
      · exact ⟨_, _, _, rfl, (hshort r').trans (by omega)⟩
    · exact ⟨_, _, _, rfl, hs⟩
  | @decimal w f hne hw hfne hf =>
    have htake : (w ++ '.' :: (f ++ s)).takeWhile isDigit = w := by
      rw [List.takeWhile_append_of_pos hw, List.takeWhile_cons_of_neg (by simp [isDigit_point]), List.append_nil]
    have hdrop : (w ++ '.' :: (f ++ s)).dropWhile isDigit = '.' :: (f ++ s) := by
      rw [List.dropWhile_append_of_pos hw, List.dropWhile_cons_of_neg (by simp [isDigit_point])]
    have hpart : (f ++ s).takeWhile isDigit ≠ [] := by
      rw [List.takeWhile_append_of_pos hf]
      exact List.append_ne_nil_of_left_ne_nil hfne _
    have hrest : (f ++ s).dropWhile isDigit = s.dropWhile isDigit := List.dropWhile_append_of_pos hf
    rw [List.append_assoc, List.cons_append]
    unfold Duration.readAmount?
    simp only [List.isEmpty_iff, htake, hne, if_false, hdrop, hpart, hrest]
    exact ⟨_, _, _, rfl, hshort s⟩

theorem exists_numeral (h : readAmount? t = some (digits, power, r)) : ∃ n, t = n ++ r ∧ Numeral n digits power := by
  have hwhole : ∀ c ∈ t.takeWhile isDigit, isDigit c = true := fun c => List.mem_takeWhile_imp
  have ht := List.takeWhile_append_dropWhile (p := isDigit) (l := t)
  unfold readAmount? at h
  dsimp only at h
  split at h
  · cases h
  · next hne =>
    rw [List.isEmpty_iff] at hne
    split at h
    · next r' hr' =>
      split at h
      · cases h
        exact ⟨_, by rw [← hr', ht], .whole hne hwhole⟩
      · next hpart =>
        cases h
        rw [List.isEmpty_iff] at hpart
        have hf : ∀ c ∈ r'.takeWhile isDigit, isDigit c = true := fun c => List.mem_takeWhile_imp
        refine ⟨_, ?_, .decimal hne hwhole hpart hf⟩
        rw [List.append_assoc, List.cons_append, List.takeWhile_append_dropWhile, ← hr', ht]
    · cases h
      exact ⟨_, ht.symm, .whole hne hwhole⟩

theorem Numeral.unique (h : Numeral n digits power) (h' : Numeral n digits' power') : digits = digits' ∧ power = power' := by
  have heq := h.readAmount?.symm.trans h'.readAmount?
  cases heq
  exact ⟨rfl, rfl⟩

/-- The numbers that are read are those taken as long as possible. -/
theorem readAmount?_iff : readAmount? t = some (digits, power, r) ↔ ∃ n, t = n ++ r ∧ Amount n r digits power := by
  constructor
  · intro h
    obtain ⟨n, rfl, hn⟩ := exists_numeral h
    refine ⟨n, rfl, hn, fun m digits' power' hm hprefix => ?_⟩
    obtain ⟨s, hs⟩ := hprefix
    obtain ⟨_, _, r', hread, hle⟩ := hm.exists_readAmount? s
    rw [hs, h] at hread
    cases hread
    have hlength := congrArg List.length hs
    rw [List.length_append, List.length_append] at hlength
    omega
  · rintro ⟨n, rfl, hn, hlongest⟩
    obtain ⟨digits', power', r', hread, hle⟩ := hn.exists_readAmount? r
    obtain ⟨n', hn', hnumeral⟩ := exists_numeral hread
    have hle' := hlongest n' _ _ hnumeral (hn' ▸ List.prefix_append n' r')
    have hlength := congrArg List.length hn'
    rw [List.length_append, List.length_append] at hlength
    obtain ⟨rfl, rfl⟩ := List.append_inj hn' (by omega)
    obtain ⟨rfl, rfl⟩ := hn.unique hnumeral
    exact hread

/-! ### Units -/

/-- A unit as it is written: not at all, or as one of the known words with letters of either case. -/
inductive Names : Text → TimeUnit → Prop
  | left : Names [] .seconds
  | word {u : Text} {unit : TimeUnit} : (String.ofList (u.map Char.toLower), unit) ∈ unitWords → Names u unit

/-- What is taken for a unit where cases are not told apart. -/
def Passes (u : Text) : Prop := ∃ x ∈ unitWords, u.map Text.plainLetter = x.1.toList

/-- Nothing longer that `u ++ r` begins with is taken for a unit. -/
def LongestUnit (u r : Text) : Prop := ∀ v, Passes v → v <+: u ++ r → v.length ≤ u.length

/-- All letters of all words for units, and those that are like one of them. -/
def unitLetters : List Char :=
  ['m', 's', 'e', 'c', 'i', 'n', 'h', 'M', 'S', 'E', 'C', 'I', 'N', 'H', 'ſ', 'İ', 'ı']

/-- The letters that are like a letter of a unit, but are none in lower case. -/
def lookalikes : List Char := ['ſ', 'İ', 'ı']

/-- Beyond ASCII, lower case is left to tables, and only the signs named here are like an ASCII letter. -/
theorem plainLetter_of_not_ascii {c : Char} (hc : 128 ≤ c.toNat) (hlike : c ∉ lookalikes) :
    Text.plainLetter c = c ∨ Text.plainLetter c = 'k' := by
  simp only [lookalikes, List.mem_cons, List.not_mem_nil, or_false, not_or] at hlike
  unfold Text.plainLetter
  rw [if_neg hlike.1]
  simp only [hlike.2.1, hlike.2.2, decide_false, Bool.or_self, Bool.false_eq_true, if_false]
  split
  · exact .inr rfl
  · left
    unfold Char.toLower
    rw [dif_neg]
    rintro ⟨-, hle⟩
    have hle' : c.toNat ≤ 'Z'.toNat := hle
    have hz : 'Z'.toNat = 90 := rfl
    omega

theorem of_mem_unitWords {c : Char} {x : String × TimeUnit} (hx : x ∈ unitWords) (hc : c ∈ x.1.toList) :
    c ∈ unitLetters ∧ c.toNat < 128 ∧ c ≠ 'k' := by
  have hall : unitWords.all (fun x => x.1.toList.all fun c => decide (c ∈ unitLetters ∧ c.toNat < 128 ∧ c ≠ 'k')) = true := by
    decide
  exact of_decide_eq_true (List.all_eq_true.1 (List.all_eq_true.1 hall x hx) c hc)

theorem lt_of_mem_unitWords {w : Text} (hw : (String.ofList w, unit) ∈ unitWords) {c : Char} (hc : c ∈ w) : c.toNat < 128 :=
  (of_mem_unitWords hw (by rwa [String.toList_ofList])).2.1

/-- A character that is like a letter of a word for units. -/
theorem mem_unitLetters {c : Char} {x : String × TimeUnit} (hx : x ∈ unitWords) (hc : Text.plainLetter c ∈ x.1.toList) :
    c ∈ unitLetters := by
  have hascii : ∀ i < 128, ∀ x ∈ unitWords, Text.plainLetter (Char.ofNat i) ∈ x.1.toList → Char.ofNat i ∈ unitLetters := by
    decide +kernel
  by_cases hsmall : c.toNat < 128
  · have h := hascii c.toNat hsmall x hx
    rw [Char.ofNat_toNat] at h
    exact h hc
  · by_cases hlike : c ∈ lookalikes
    · exact List.mem_of_mem_drop (i := 14) hlike
    · obtain ⟨hmem, -, hk⟩ := of_mem_unitWords hx hc
      rcases plainLetter_of_not_ascii (Nat.not_lt.1 hsmall) hlike with h | h
      · exact h ▸ hmem
      · exact absurd h hk

theorem mem_unitLetters_of_passes (h : Passes u) {c : Char} (hc : c ∈ u) : c ∈ unitLetters := by
  obtain ⟨x, hx, hmap⟩ := h
  exact mem_unitLetters hx (hmap ▸ List.mem_map_of_mem hc)

theorem not_of_mem_unitLetters {c : Char} (h : c ∈ unitLetters) : isDigit c = false ∧ isBlank c = false := by
  have hall : unitLetters.all (fun c => decide (isDigit c = false ∧ isBlank c = false)) = true := by decide +kernel
  exact of_decide_eq_true (List.all_eq_true.1 hall c h)

/-- Letters that are not only like another one are the same in all ways of comparing them. -/
theorem lower_of_mem_unitLetters {c : Char} (h : c ∈ unitLetters) (hc : c ∉ lookalikes) :
    lowerChar c = [c.toLower] ∧ Text.plainLetter c = c.toLower := by
  have hall : unitLetters.all (fun c =>
      decide (c ∈ lookalikes ∨ lowerChar c = [c.toLower] ∧ Text.plainLetter c = c.toLower)) = true := by
    decide +kernel
  exact (of_decide_eq_true (List.all_eq_true.1 hall c h)).resolve_left hc

/-- In lower case, what is only like another letter is still none of ASCII. -/
theorem of_mem_lookalikes {c : Char} (h : c ∈ lookalikes) :
    (∃ d ∈ lowerChar c, ¬ d.toNat < 128) ∧ ¬ c.toLower.toNat < 128 := by
  have hall : lookalikes.all (fun c =>
      (lowerChar c).any (fun d => decide (¬ d.toNat < 128)) && decide (¬ c.toLower.toNat < 128)) = true := by
    decide +kernel
  simpa using List.all_eq_true.1 hall c h

theorem isDigit_of_isBlank {c : Char} (h : isBlank c = true) : isDigit c = false := by
  cases hdigit : isDigit c with
  | false => rfl
  | true => exact absurd (isBlank_of_isDigit hdigit) (by simp [h])

theorem Passes.ne_nil (h : Passes u) : u ≠ [] := by
  obtain ⟨x, hx, hmap⟩ := h
  rintro rfl
  have hwords : ∀ x ∈ unitWords, x.1.toList ≠ [] := by decide
  exact hwords x hx hmap.symm

theorem Passes.head (h : Passes u) (r : Text) : ∀ c ∈ (u ++ r).head?, isBlank c = false := by
  obtain ⟨d, v, rfl⟩ := List.exists_cons_of_ne_nil h.ne_nil
  intro c hc
  cases hc
  exact (not_of_mem_unitLetters (mem_unitLetters_of_passes h List.mem_cons_self)).2

theorem plainLetter_of_toLower {c : Char} (h : c.toLower.toNat < 128) : Text.plainLetter c = c.toLower := by
  by_cases hsmall : c.toNat < 128
  · have hascii : ∀ i < 128, Text.plainLetter (Char.ofNat i) = (Char.ofNat i).toLower := by decide +kernel
    have := hascii c.toNat hsmall
    rwa [Char.ofNat_toNat] at this
  · have hself : c.toLower = c := by
      unfold Char.toLower
      rw [dif_neg]
      rintro ⟨-, hle⟩
      have hle' : c.toNat ≤ 'Z'.toNat := hle
      have hz : 'Z'.toNat = 90 := rfl
      omega
    rw [hself] at h
    exact absurd h hsmall

theorem passes_of_mem (h : (String.ofList (u.map Char.toLower), unit) ∈ unitWords) : Passes u := by
  refine ⟨_, h, ?_⟩
  rw [String.toList_ofList]
  exact List.map_congr_left fun c hc => plainLetter_of_toLower (lt_of_mem_unitWords h (List.mem_map_of_mem hc))

theorem lowerAfter_eq (h : 'Σ' ∉ u) (before : Text) : Text.lowerAfter before u = u.flatMap lowerChar := by
  induction u generalizing before with
  | nil => rfl
  | cons c r ih =>
    rw [List.mem_cons, not_or] at h
    rw [Text.lowerAfter, if_neg (Ne.symm h.1), ih h.2, List.flatMap_cons]

theorem lookup_unitWords : unitWords.lookup name = some unit ↔ (name, unit) ∈ unitWords := by
  constructor
  · exact mem_of_lookup
  · intro h
    exact lookup_of_mem (by decide) h

/-- A word that is taken for a unit is one if no letter in it is only like another. -/
theorem lookup_lower_iff (h : Passes u) : unitWords.lookup (String.ofList (Text.lower u)) = some unit ↔
    (String.ofList (u.map Char.toLower), unit) ∈ unitWords := by
  have hsigma : 'Σ' ∉ u := by
    intro hmem
    exact absurd (mem_unitLetters_of_passes h hmem) (by decide)
  rw [lookup_unitWords, Text.lower, lowerAfter_eq hsigma]
  by_cases hall : ∀ c ∈ u, c ∉ lookalikes
  · have hlower : u.flatMap lowerChar = u.map Char.toLower := by
      rw [← List.flatMap_singleton' (u.map Char.toLower), List.flatMap_map]
      exact List.flatMap_congr fun c hc =>
        (lower_of_mem_unitLetters (mem_unitLetters_of_passes h hc) (hall c hc)).1
    rw [hlower]
  · push Not at hall
    obtain ⟨c, hc, hlike⟩ := hall
    obtain ⟨⟨d, hd, hlower⟩, hto⟩ := of_mem_lookalikes hlike
    refine iff_of_false (fun hmem => hlower ?_) fun hmem => hto ?_
    · exact lt_of_mem_unitWords hmem (List.mem_flatMap.2 ⟨c, hc, hd⟩)
    · exact lt_of_mem_unitWords hmem (List.mem_map_of_mem hc)

theorem startsCaseless_iff {word : String} : Text.startsCaseless word.toList t = true ↔
    ∃ u r, t = u ++ r ∧ u.map Text.plainLetter = word.toList := by
  rw [Text.startsCaseless, List.isPrefixOf_iff_prefix]
  constructor
  · rintro ⟨r', hr'⟩
    obtain ⟨u, r, ht, hu, -⟩ := List.map_eq_append_iff.1 hr'.symm
    exact ⟨u, r, ht, hu⟩
  · rintro ⟨u, r, rfl, hu⟩
    rw [List.map_append, hu]
    exact List.prefix_append _ _

/-- The first word that is found is the longest one: none of the words begins with an earlier one. -/
theorem longest_of_find? {x : String × TimeUnit} (h : unitWords.find? (fun x => Text.startsCaseless x.1.toList (u ++ r)) = some x)
    (hu : u.map Text.plainLetter = x.1.toList) : LongestUnit u r := by
  have horder : unitWords.Pairwise fun x y => ¬ x.1.toList <+: y.1.toList := by decide
  obtain ⟨-, before, behind, hsplit, hbefore⟩ := List.find?_eq_some_iff_append.1 h
  rintro v ⟨y, hy, hv⟩ hprefix
  by_contra hlonger
  have huv : u <+: v := List.prefix_of_prefix_length_le (List.prefix_append u r) hprefix (by omega)
  have hxy : x.1.toList <+: y.1.toList := by
    rw [← hu, ← hv]
    exact huv.map _
  rw [hsplit] at hy horder
  rcases List.mem_append.1 hy with hy | hy
  · obtain ⟨s, hs⟩ := hprefix
    have hstarts : Text.startsCaseless y.1.toList (u ++ r) = true := startsCaseless_iff.2 ⟨v, s, hs.symm, hv⟩
    have hnot := hbefore y hy
    rw [hstarts] at hnot
    cases hnot
  · rcases List.mem_cons.1 hy with rfl | hy
    · rw [← List.length_map Text.plainLetter, hv, ← hu, List.length_map] at hlonger
      omega
    · exact (List.pairwise_cons.1 (List.pairwise_append.1 horder).2.1).1 y hy hxy

/-- Either nothing is taken for a unit, or the longest word that is; then it is looked up. -/
theorem readUnit_cases (t : Text) :
    (LongestUnit [] t ∧ readUnit t = .ok (.seconds, t)) ∨
    ∃ u r, t = u ++ r ∧ Passes u ∧ LongestUnit u r ∧ readUnit t =
      (unitWords.lookup (String.ofList (Text.lower u))).elim (.error (.unit (String.ofList (Text.lower u))))
        fun unit => .ok (unit, r) := by
  cases hfind : unitWords.find? (fun x => Text.startsCaseless x.1.toList t) with
  | none =>
    refine .inl ⟨?_, by rw [readUnit, hfind]⟩
    rintro v ⟨x, hx, hv⟩ ⟨s, hs⟩
    exact absurd (startsCaseless_iff.2 ⟨v, s, hs.symm, hv⟩) (List.find?_eq_none.1 hfind x hx)
  | some x =>
    have hstarts : Text.startsCaseless x.1.toList t = true := by simpa using List.find?_some hfind
    obtain ⟨u, r, rfl, hu⟩ := startsCaseless_iff.1 hstarts
    have hlength : u.length = x.1.length := by
      rw [← List.length_map Text.plainLetter, hu, String.length_toList]
    have hsplit : (u ++ r).splitAt x.1.length = (u, r) := by
      rw [List.splitAt_eq, ← hlength, List.take_left, List.drop_left]
    refine .inr ⟨u, r, rfl, ⟨x, List.mem_of_find?_eq_some hfind, hu⟩, longest_of_find? hfind hu, ?_⟩
    rw [readUnit, hfind]
    dsimp only
    rw [hsplit]

theorem LongestUnit.unique (hu : Passes u) (hlongest : LongestUnit u r) (hn : Passes n) (hlongest' : LongestUnit n s)
    (h : u ++ r = n ++ s) : u = n ∧ r = s := by
  have hle := hlongest n hn (h ▸ List.prefix_append n s)
  have hle' := hlongest' u hu (h ▸ List.prefix_append u r)
  exact List.append_inj h (by omega)

/-- Where nothing is the longest, no word passes. -/
theorem LongestUnit.not_passes (h : LongestUnit [] t) (hu : Passes u) (hstarts : u <+: t) : False :=
  hu.ne_nil (List.length_eq_zero_iff.1 (Nat.le_zero.1 (h u hu hstarts)))

theorem readUnit_eq_ok_iff : readUnit t = .ok (unit, r) ↔ ∃ u, t = u ++ r ∧ Names u unit ∧ LongestUnit u r := by
  rcases readUnit_cases t with ⟨hnone, hread⟩ | ⟨u, r', rfl, hpasses, hlongest, hread⟩
  · rw [hread, Except.ok.injEq, Prod.mk.injEq]
    constructor
    · rintro ⟨rfl, rfl⟩
      exact ⟨[], rfl, .left, hnone⟩
    · rintro ⟨u, rfl, hu, -⟩
      cases hu with
      | left => exact ⟨rfl, rfl⟩
      | word hmem => exact (hnone.not_passes (passes_of_mem hmem) (List.prefix_append u r)).elim
  · rw [hread]
    constructor
    · intro h
      cases hlookup : unitWords.lookup (String.ofList (Text.lower u)) with
      | none => simp [hlookup] at h
      | some unit' =>
        rw [hlookup, Option.elim_some, Except.ok.injEq, Prod.mk.injEq] at h
        obtain ⟨rfl, rfl⟩ := h
        exact ⟨u, rfl, .word ((lookup_lower_iff hpasses).1 hlookup), hlongest⟩
    · rintro ⟨u', h, hu', hlongest'⟩
      cases hu' with
      | left =>
        rw [List.nil_append] at h
        exact (hlongest'.not_passes hpasses (h ▸ List.prefix_append u r')).elim
      | word hmem =>
        obtain ⟨rfl, rfl⟩ := hlongest.unique hpasses (passes_of_mem hmem) hlongest' h
        rw [(lookup_lower_iff hpasses).2 hmem, Option.elim_some]

/-- A word that is taken for a unit and is none, with the name under which it is looked up. -/
structure Misspelt (u r : Text) (name : String) : Prop where
  passes : Passes u
  longest : LongestUnit u r
  unnamed : ∀ unit, ¬ Names u unit
  name_eq : name = String.ofList (Text.lower u)

theorem readUnit_eq_error_iff {e : DurationError} :
    readUnit t = .error e ↔ ∃ u r name, t = u ++ r ∧ Misspelt u r name ∧ e = .unit name := by
  rcases readUnit_cases t with ⟨hnone, hread⟩ | ⟨u, r', rfl, hpasses, hlongest, hread⟩
  · rw [hread]
    refine iff_of_false (by simp) ?_
    rintro ⟨u, r, name, rfl, hu, -⟩
    exact hnone.not_passes hu.passes (List.prefix_append u r)
  · rw [hread]
    constructor
    · intro h
      cases hlookup : unitWords.lookup (String.ofList (Text.lower u)) with
      | some unit => simp [hlookup] at h
      | none =>
        rw [hlookup, Option.elim_none, Except.error.injEq] at h
        refine ⟨u, r', _, rfl, ⟨hpasses, hlongest, fun unit hu => ?_, rfl⟩, h.symm⟩
        cases hu with
        | left => exact hpasses.ne_nil rfl
        | word hmem =>
          rw [(lookup_lower_iff hpasses).2 hmem] at hlookup
          cases hlookup
    · rintro ⟨u', r, name, h, hu', rfl⟩
      obtain ⟨rfl, rfl⟩ := hlongest.unique hpasses hu'.passes hu'.longest h
      have hlookup : unitWords.lookup (String.ofList (Text.lower u)) = none := by
        rw [Option.eq_none_iff_forall_ne_some]
        intro unit hunit
        exact hu'.unnamed unit (.word ((lookup_lower_iff hpasses).1 hunit))
      rw [hlookup, Option.elim_none, hu'.name_eq]

/-! ### Parts -/

/-- Parts one after the other, and behind the last one `rest`. Blanks may stand in front of a unit and behind a part. -/
inductive Spells (rest : Text) : List DurationPart → Text → Prop
  | nil : Spells rest [] rest
  | cons {n g u s t : Text} {digits : Nat} {power : Int} {unit : TimeUnit} {parts : List DurationPart} :
      Amount n (g ++ (u ++ (s ++ t))) digits power → (∀ c ∈ g, isBlank c = true) → Names u unit →
      (∀ c ∈ s, isBlank c = true) → Spells rest parts t →
      Spells rest (⟨digits, power, unit⟩ :: parts) (n ++ (g ++ (u ++ (s ++ t))))

/-- A number with a misspelt unit. -/
inductive Stumbles : Text → String → Prop
  | intro {n g u r : Text} {digits : Nat} {power : Int} {name : String} : Amount n (g ++ (u ++ r)) digits power →
      (∀ c ∈ g, isBlank c = true) → Misspelt u r name → Stumbles (n ++ (g ++ (u ++ r))) name

variable {g rest behind : Text}

theorem readPart_blank (hg : ∀ c ∈ g, isBlank c = true) : readPart g = .ok none := by
  have hdrop : g.dropWhile (!isDigit ·) = [] := by
    rw [List.dropWhile_eq_nil_iff]
    intro c hc
    simp [isDigit_of_isBlank (hg c hc)]
  simp [readPart, hdrop, readAmount?]

theorem readPart_amount (hg : ∀ c ∈ g, isBlank c = true) (hn : Amount n r digits power) :
    readPart (g ++ (n ++ r)) =
      (readUnit (r.dropWhile isBlank)).map fun (unit, rest) => some (⟨digits, power, unit⟩, rest) := by
  obtain ⟨c, n', hc, hdigit⟩ := hn.numeral.exists_cons
  have hgap : ∀ c ∈ g, (!isDigit c) = true := fun c hc => by simp [isDigit_of_isBlank (hg c hc)]
  have htake : (g ++ (n ++ r)).takeWhile (!isDigit ·) = g := by
    rw [List.takeWhile_append_of_pos hgap, hc, List.cons_append, List.takeWhile_cons_of_neg (by simp [hdigit]),
      List.append_nil]
  have hdrop : (g ++ (n ++ r)).dropWhile (!isDigit ·) = n ++ r := by
    rw [List.dropWhile_append_of_pos hgap, hc, List.cons_append, List.dropWhile_cons_of_neg (by simp [hdigit])]
  have hall : g.all isBlank = true := List.all_eq_true.2 hg
  unfold readPart
  simp only [htake, hdrop, readAmount?_iff.2 ⟨n, rfl, hn⟩, hall, if_true]

theorem exists_part (h : readPart t = .ok (some (part, r))) : ∃ g n gap u, t = g ++ (n ++ (gap ++ (u ++ r))) ∧
    (∀ c ∈ g, isBlank c = true) ∧ Amount n (gap ++ (u ++ r)) part.digits part.power ∧ (∀ c ∈ gap, isBlank c = true) ∧
    Names u part.unit := by
  have ht := List.takeWhile_append_dropWhile (p := (!isDigit ·)) (l := t)
  unfold readPart at h
  dsimp only at h
  split at h
  · cases h
  · next digits power r' hamount =>
    split at h
    · next hblank =>
      obtain ⟨n, hn, hnumber⟩ := readAmount?_iff.1 hamount
      cases hunit : readUnit (r'.dropWhile isBlank) with
      | error e => simp [hunit, Except.map] at h
      | ok x =>
        rw [hunit] at h
        cases h
        obtain ⟨u, hu, hnames, -⟩ := readUnit_eq_ok_iff.1 hunit
        have hr' : r' = r'.takeWhile isBlank ++ (u ++ x.2) := by rw [← hu, List.takeWhile_append_dropWhile]
        refine ⟨_, n, r'.takeWhile isBlank, u, ?_, List.all_eq_true.1 hblank, hr' ▸ hnumber, fun c => List.mem_takeWhile_imp,
          hnames⟩
        rw [← hr', ← hn, ht]
    · cases h

theorem exists_stumbles {e : DurationError} (h : readPart t = .error e) :
    ∃ g t' name, t = g ++ t' ∧ (∀ c ∈ g, isBlank c = true) ∧ Stumbles t' name ∧ e = .unit name := by
  have ht := List.takeWhile_append_dropWhile (p := (!isDigit ·)) (l := t)
  unfold readPart at h
  dsimp only at h
  split at h
  · cases h
  · next digits power r' hamount =>
    split at h
    · next hblank =>
      obtain ⟨n, hn, hnumber⟩ := readAmount?_iff.1 hamount
      cases hunit : readUnit (r'.dropWhile isBlank) with
      | ok x => simp [hunit, Except.map] at h
      | error e' =>
        rw [hunit] at h
        cases h
        obtain ⟨u, r, name, hu, hmisspelt, rfl⟩ := readUnit_eq_error_iff.1 hunit
        have hr' : r' = r'.takeWhile isBlank ++ (u ++ r) := by rw [← hu, List.takeWhile_append_dropWhile]
        refine ⟨_, _, name, ht.symm, List.all_eq_true.1 hblank, ?_, rfl⟩
        rw [hn, hr']
        exact .intro (hr' ▸ hnumber) (fun c => List.mem_takeWhile_imp) hmisspelt
    · cases h

/-- A word cannot become longer where no letter of a unit follows it. -/
theorem longestUnit_of_head (h : ∀ c ∈ r.head?, c ∉ unitLetters) (u : Text) : LongestUnit u r := by
  intro v hv hprefix
  by_contra hlonger
  obtain ⟨w, rfl⟩ := List.prefix_of_prefix_length_le (List.prefix_append u r) hprefix (by omega)
  cases w with
  | nil => simp at hlonger
  | cons c w =>
    obtain ⟨s, rfl⟩ := (List.prefix_append_right_inj u).1 hprefix
    exact h c rfl (mem_unitLetters_of_passes hv (by simp))

theorem dropWhile_blank_append (hgap : ∀ c ∈ gap, isBlank c = true) (h : ∀ c ∈ t.head?, isBlank c = false) :
    (gap ++ t).dropWhile isBlank = t := by
  rw [List.dropWhile_append_of_pos hgap]
  cases t with
  | nil => rfl
  | cons c r => exact List.dropWhile_cons_of_neg (by simp [h c rfl])

theorem not_mem_unitLetters_of_isDigit {c : Char} (h : isDigit c = true) : c ∉ unitLetters := by
  intro hletter
  rw [(not_of_mem_unitLetters hletter).1] at h
  cases h

/-- A number that another one follows, or nothing, counts seconds; the blanks between them are read with it. -/
theorem readPart_left (hg : ∀ c ∈ g, isBlank c = true) (hn : Amount n (gap ++ t) digits power)
    (hgap : ∀ c ∈ gap, isBlank c = true) (ht : ∀ c ∈ t.head?, isDigit c = true) :
    readPart (g ++ (n ++ (gap ++ t))) = .ok (some (⟨digits, power, .seconds⟩, t)) := by
  have hrest : (gap ++ t).dropWhile isBlank = t := dropWhile_blank_append hgap fun c hc => isBlank_of_isDigit (ht c hc)
  have hread : readUnit t = .ok (.seconds, t) := readUnit_eq_ok_iff.2
    ⟨[], rfl, .left, longestUnit_of_head (fun c hc => not_mem_unitLetters_of_isDigit (ht c hc)) []⟩
  rw [readPart_amount hg hn, hrest, hread]
  rfl

/-- A unit ends where its word ends, before a blank or a number. -/
theorem readPart_word (hg : ∀ c ∈ g, isBlank c = true) (hn : Amount n (gap ++ (u ++ r)) digits power)
    (hgap : ∀ c ∈ gap, isBlank c = true) (hmem : (String.ofList (u.map Char.toLower), unit) ∈ unitWords)
    (hr : ∀ c ∈ r.head?, c ∉ unitLetters) :
    readPart (g ++ (n ++ (gap ++ (u ++ r)))) = .ok (some (⟨digits, power, unit⟩, r)) := by
  have hrest : (gap ++ (u ++ r)).dropWhile isBlank = u ++ r :=
    dropWhile_blank_append hgap ((passes_of_mem hmem).head _)
  rw [readPart_amount hg hn, hrest, readUnit_eq_ok_iff.2 ⟨u, rfl, .word hmem, longestUnit_of_head hr u⟩]
  rfl

theorem exists_readPart {sep : Text} (hg : ∀ c ∈ g, isBlank c = true) (hn : Amount n (gap ++ (u ++ (sep ++ t))) digits power)
    (hgap : ∀ c ∈ gap, isBlank c = true) (hu : Names u unit) (hsep : ∀ c ∈ sep, isBlank c = true)
    (ht : ∀ c ∈ t.head?, isDigit c = true) : ∃ sep', (∀ c ∈ sep', isBlank c = true) ∧
      readPart (g ++ (n ++ (gap ++ (u ++ (sep ++ t))))) = .ok (some (⟨digits, power, unit⟩, sep' ++ t)) := by
  cases hu with
  | left =>
    rw [List.nil_append, ← List.append_assoc gap] at hn ⊢
    have hblank : ∀ c ∈ gap ++ sep, isBlank c = true := by
      intro c hc
      exact (List.mem_append.1 hc).elim (hgap c) (hsep c)
    exact ⟨[], by simp, readPart_left hg hn hblank ht⟩
  | word hmem =>
    refine ⟨sep, hsep, readPart_word hg hn hgap hmem fun c hc => ?_⟩
    cases sep with
    | nil => exact not_mem_unitLetters_of_isDigit (ht c hc)
    | cons d v =>
      cases hc
      intro hletter
      have hblank := hsep _ List.mem_cons_self
      rw [(not_of_mem_unitLetters hletter).2] at hblank
      cases hblank

/-! ### The search -/

theorem readParts_of_part (h : readPart t = .ok (some (part, r))) :
    readParts t = (readParts r).map fun (parts, behind) => (part :: parts, behind) := by
  rw [readParts]
  split
  · next h' => rw [h] at h'; cases h'
  · next h' => rw [h] at h'; cases h'
  · next h' =>
    rw [h] at h'
    cases h'
    rfl

theorem readParts_of_none (h : readPart t = .ok none) : readParts t = .ok ([], t) := by
  rw [readParts]
  split
  · next h' => rw [h] at h'; cases h'
  · rfl
  · next h' => rw [h] at h'; cases h'

theorem readParts_of_error {e : DurationError} (h : readPart t = .error e) : readParts t = .error e := by
  rw [readParts]
  split
  · next h' =>
    rw [h] at h'
    cases h'
    rfl
  · next h' => rw [h] at h'; cases h'
  · next h' => rw [h] at h'; cases h'

/-- Where the search ends at blanks, it has found the parts of a duration. -/
theorem spells_of_readParts (h : readParts t = .ok (parts, behind)) (hbehind : ∀ c ∈ behind, isBlank c = true) :
    ∃ g t', t = g ++ t' ∧ (∀ c ∈ g, isBlank c = true) ∧ Spells [] parts t' := by
  fun_induction readParts t generalizing parts behind with
  | case1 t e he => cases h
  | case2 t hnone =>
    cases h
    exact ⟨t, [], (List.append_nil t).symm, hbehind, .nil⟩
  | case3 t part r hpart hlt ih =>
    cases hr : readParts r with
    | error e => simp [hr, Except.map] at h
    | ok x =>
      rw [hr] at h
      cases h
      obtain ⟨g, n, gap, u, rfl, hg, hn, hgap, hu⟩ := exists_part hpart
      obtain ⟨sep, t', rfl, hsep, ht'⟩ := ih hr hbehind
      exact ⟨g, _, rfl, hg, .cons hn hgap hu hsep ht'⟩

/-- An error of the search is a misspelt unit behind parts of a duration. -/
theorem stumbles_of_readParts {e : DurationError} (h : readParts t = .error e) :
    ∃ g t' parts rest name, t = g ++ t' ∧ (∀ c ∈ g, isBlank c = true) ∧ Spells rest parts t' ∧ Stumbles rest name ∧
      e = .unit name := by
  fun_induction readParts t with
  | case1 t e' he =>
    cases h
    obtain ⟨g, t', name, rfl, hg, ht', rfl⟩ := exists_stumbles he
    exact ⟨g, t', [], t', name, rfl, hg, .nil, ht', rfl⟩
  | case2 t hnone => cases h
  | case3 t part r hpart hlt ih =>
    cases hr : readParts r with
    | ok x => simp [hr, Except.map] at h
    | error e' =>
      rw [hr] at h
      cases h
      obtain ⟨g, n, gap, u, rfl, hg, hn, hgap, hu⟩ := exists_part hpart
      obtain ⟨sep, t', parts, rest, name, rfl, hsep, ht', hrest, rfl⟩ := ih hr
      exact ⟨g, _, _, rest, name, rfl, hg, .cons hn hgap hu hsep ht', hrest, rfl⟩

theorem Spells.head (h : Spells rest parts t) (hrest : ∀ c ∈ rest.head?, isDigit c = true) :
    ∀ c ∈ t.head?, isDigit c = true := by
  cases h with
  | nil => exact hrest
  | cons hn _ _ _ _ =>
    obtain ⟨c, n', rfl, hc⟩ := hn.numeral.exists_cons
    intro d hd
    cases hd
    exact hc

/-- The search goes past the parts of a duration, and on with what is behind them. -/
theorem exists_readParts (h : Spells rest parts t) (hrest : ∀ c ∈ rest.head?, isDigit c = true)
    (hg : ∀ c ∈ g, isBlank c = true) : ∃ g', (∀ c ∈ g', isBlank c = true) ∧
      readParts (g ++ t) = (readParts (g' ++ rest)).map fun (ps, behind) => (parts ++ ps, behind) := by
  induction h generalizing g with
  | nil =>
    refine ⟨g, hg, ?_⟩
    cases readParts (g ++ rest) <;> rfl
  | cons hn hgap hu hsep ht ih =>
    obtain ⟨sep', hsep', hpart⟩ := exists_readPart hg hn hgap hu hsep (ht.head hrest)
    obtain ⟨g', hg', hread⟩ := ih hsep'
    refine ⟨g', hg', ?_⟩
    rw [readParts_of_part hpart, hread]
    cases readParts (g' ++ rest) <;> rfl

theorem readParts_stumbles (hg : ∀ c ∈ g, isBlank c = true) (h : Stumbles t name) :
    readParts (g ++ t) = .error (.unit name) := by
  obtain ⟨hn, hgap, hu⟩ := h
  refine readParts_of_error ?_
  rw [readPart_amount hg hn, dropWhile_blank_append hgap (hu.passes.head _),
    readUnit_eq_error_iff.2 ⟨_, _, _, rfl, hu, rfl⟩]
  rfl

theorem head_trim (t : Text) : ∀ c ∈ (Text.trim t).head?, isBlank c = false := by
  intro c hc
  have hprefix : Text.trim t <+: t.dropWhile isBlank := by
    rw [← List.reverse_suffix]
    unfold Text.trim Text.trimWhile Text.dropTailWhile
    rw [List.reverse_reverse]
    exact List.dropWhile_suffix _
  obtain ⟨s, hs⟩ := hprefix
  have hhead : (t.dropWhile isBlank).head? = some c := by
    rw [← hs, List.head?_append, hc, Option.some_or]
  have hnot := List.head?_dropWhile_not isBlank t
  rw [hhead] at hnot
  exact hnot

/-- A trimmed text has no blanks in front. -/
theorem eq_of_trim {t' : Text} (h : Text.trim t = g ++ t') (hg : ∀ c ∈ g, isBlank c = true) : Text.trim t = t' := by
  cases g with
  | nil => exact h
  | cons c g =>
    have hhead := head_trim t c (by rw [h]; rfl)
    rw [hg c List.mem_cons_self] at hhead
    cases hhead

theorem read_eq_ok_iff : read t = .ok parts ↔ parts ≠ [] ∧ Spells [] parts (Text.trim t) := by
  constructor
  · intro h
    unfold read at h
    cases hread : readParts (Text.trim t) with
    | error e => simp [hread] at h
    | ok x =>
      obtain ⟨ps, behind⟩ := x
      simp only [hread] at h
      split at h
      · cases h
      · next hblank =>
        cases h
        rw [Bool.or_eq_true, not_or, List.isEmpty_iff, Bool.not_eq_true, Bool.not_eq_false', List.all_eq_true] at hblank
        obtain ⟨g, t', htrim, hg, hspells⟩ := spells_of_readParts hread hblank.2
        exact ⟨hblank.1, eq_of_trim htrim hg ▸ hspells⟩
  · rintro ⟨hne, hspells⟩
    obtain ⟨g', hg', hread⟩ := exists_readParts hspells (by simp) (g := []) (by simp)
    rw [List.nil_append, List.append_nil, readParts_of_none (readPart_blank hg')] at hread
    have hblank : g'.all isBlank = true := List.all_eq_true.2 hg'
    unfold read
    rw [hread]
    simp [Except.map, hne, hblank]

theorem read_eq_unit_iff : read t = .error (.unit name) ↔
    ∃ parts rest, Spells rest parts (Text.trim t) ∧ Stumbles rest name := by
  constructor
  · intro h
    unfold read at h
    cases hread : readParts (Text.trim t) with
    | ok x =>
      simp only [hread] at h
      split at h <;> cases h
    | error e =>
      rw [hread] at h
      cases h
      obtain ⟨g, t', parts, rest, name', htrim, hg, hspells, hrest, hname⟩ := stumbles_of_readParts hread
      cases hname
      exact ⟨parts, rest, eq_of_trim htrim hg ▸ hspells, hrest⟩
  · rintro ⟨parts, rest, hspells, hrest⟩
    have hhead : ∀ c ∈ rest.head?, isDigit c = true := by
      obtain ⟨hn, -, -⟩ := hrest
      obtain ⟨c, n', rfl, hc⟩ := hn.numeral.exists_cons
      intro d hd
      cases hd
      exact hc
    obtain ⟨g', hg', hread⟩ := exists_readParts hspells hhead (g := []) (by simp)
    rw [List.nil_append, readParts_stumbles hg' hrest] at hread
    unfold read
    rw [hread]
    rfl

/-- A misspelt unit holds a letter that is only like another one. -/
theorem Misspelt.exists_lookalike (h : Misspelt u r name) : ∃ c ∈ u, c ∈ lookalikes := by
  by_contra hnone
  push Not at hnone
  obtain ⟨x, hx, hmap⟩ := h.passes
  have hlower : u.map Char.toLower = x.1.toList := by
    rw [← hmap]
    exact List.map_congr_left fun c hc => (lower_of_mem_unitLetters (mem_unitLetters_of_passes h.passes hc) (hnone c hc)).2.symm
  refine h.unnamed x.2 (.word ?_)
  rw [hlower, String.ofList_toList]
  exact hx

theorem Stumbles.exists_lookalike (h : Stumbles t name) : ∃ c ∈ t, c ∈ lookalikes := by
  obtain ⟨-, -, hu⟩ := h
  obtain ⟨c, hc, hlike⟩ := hu.exists_lookalike
  exact ⟨c, by simp [hc], hlike⟩

theorem Spells.mem (h : Spells rest parts t) {c : Char} (hc : c ∈ rest) : c ∈ t := by
  induction h with
  | nil => exact hc
  | cons _ _ _ _ _ ih => simp [ih]

theorem mem_of_mem_trim {c : Char} (h : c ∈ Text.trim t) : c ∈ t := by
  unfold Text.trim Text.trimWhile Text.dropTailWhile at h
  exact (List.dropWhile_sublist _).subset (List.mem_reverse.1 ((List.dropWhile_sublist _).subset (List.mem_reverse.1 h)))

theorem ofJson_str {s : String} (hs : s ≠ "") : ofJson (.str s) =
    match read s.toList with
    | .ok parts => .ok (some (total parts))
    | .error .malformed => .error (problem "Invalid duration" (.str s))
    | .error (.unit name) => .error (.mishap (.missingKey name)) := by
  rcases hread : read s.toList with (_ | name) | parts
  all_goals simp [ofJson, hread]

/-- A text that is not empty is read as a duration just if it is a row of one or more parts, blanks around it left out;
it lasts the sum of the parts, from the left to the right. Every other text is refused as no duration, but for those in
which a number with a misspelt unit comes behind parts: there, a key is missing. This takes one of three letters. -/
theorem ofJson_spells {s : String} (hs : s ≠ "") :
    (∀ x, ofJson (.str s) = .ok x ↔ ∃ parts, parts ≠ [] ∧ Spells [] parts (Text.trim s.toList) ∧
      x = some (parts.foldl (fun sum p => sum + floatOfDecimal p.digits p.power * p.unit.inSeconds) 0.0)) ∧
    (∀ e, ofJson (.str s) = .error e → e = problem "Invalid duration" (.str s) ∨ ∃ name, e = .mishap (.missingKey name)) ∧
    (∀ name, ofJson (.str s) = .error (.mishap (.missingKey name)) ↔
      ∃ parts rest, Spells rest parts (Text.trim s.toList) ∧ Stumbles rest name) ∧
    ((∃ name, ofJson (.str s) = .error (.mishap (.missingKey name))) → ∃ c ∈ s.toList, c ∈ ['ſ', 'İ', 'ı']) := by
  have hread := ofJson_str hs
  have hok : ∀ x, ofJson (.str s) = .ok x ↔ ∃ parts, read s.toList = .ok parts ∧ x = some (total parts) := by
    intro x
    rw [hread]
    rcases read s.toList with (_ | name) | parts <;> simp [eq_comm]
  have hunit : ∀ name, ofJson (.str s) = .error (.mishap (.missingKey name)) ↔ read s.toList = .error (.unit name) := by
    intro name
    rw [hread]
    rcases read s.toList with (_ | name') | parts <;> simp [problem]
  refine ⟨fun x => ?_, fun e he => ?_, fun name => (hunit name).trans read_eq_unit_iff, ?_⟩
  · rw [hok]
    simp only [read_eq_ok_iff, and_assoc]
    rfl
  · rw [hread] at he
    rcases hr : read s.toList with (_ | name) | parts
    · rw [hr] at he
      exact .inl (Except.error.inj he).symm
    · rw [hr] at he
      exact .inr ⟨name, (Except.error.inj he).symm⟩
    · rw [hr] at he
      cases he
  · rintro ⟨name, hname⟩
    obtain ⟨parts, rest, hspells, hrest⟩ := read_eq_unit_iff.1 ((hunit name).1 hname)
    obtain ⟨c, hc, hlike⟩ := hrest.exists_lookalike
    exact ⟨c, mem_of_mem_trim (hspells.mem hc), hlike⟩

theorem amount_of_readAmount? (h : readAmount? (n ++ r) = some (digits, power, r)) : Amount n r digits power := by
  obtain ⟨n', heq, hn⟩ := readAmount?_iff.1 h
  rwa [List.append_cancel_right heq]

/-- Units in letters of either case, with blanks and without, a fraction, and a number that counts seconds. -/
theorem ofJson_spells_mixed : " 1H30\tmIn 2.5 " ≠ "" ∧
    ofJson (.str " 1H30\tmIn 2.5 ") =
      .ok (some (((0.0 + floatOfDecimal 1 0 * 3600.0) + floatOfDecimal 30 0 * 60.0) + floatOfDecimal 25 (-1) * 1.0)) := by
  have hs : " 1H30\tmIn 2.5 " ≠ "" := by decide
  refine ⟨hs, ((ofJson_spells hs).1 _).2 ⟨[⟨1, 0, .hours⟩, ⟨30, 0, .minutes⟩, ⟨25, -1, .seconds⟩], by simp, ?_, rfl⟩⟩
  have hlast : Spells [] [⟨25, -1, .seconds⟩] "2.5".toList :=
    .cons (n := "2.5".toList) (g := []) (s := []) (amount_of_readAmount? (by decide +kernel)) (by simp) .left (by simp) .nil
  have hmiddle : Spells [] [⟨30, 0, .minutes⟩, ⟨25, -1, .seconds⟩] "30\tmIn 2.5".toList :=
    .cons (n := "30".toList) (g := ['\t']) (u := "mIn".toList) (s := [' ']) (amount_of_readAmount? (by decide +kernel))
      (List.forall_mem_singleton.2 rfl) (.word (by decide)) (List.forall_mem_singleton.2 rfl) hlast
  exact .cons (n := "1".toList) (g := []) (u := "H".toList) (s := []) (amount_of_readAmount? (by decide +kernel))
    (by simp) (.word (by decide)) (by simp) hmiddle

/-- A long s is looked for among the units and is none; so what is no duration is not refused as such. -/
theorem ofJson_misspelt : (∀ parts, parts ≠ [] → ¬ Spells [] parts (Text.trim "1ſ".toList)) ∧
    ofJson (.str "1ſ") = .error (.mishap (.missingKey "ſ")) := by
  have hunit : Misspelt "ſ".toList [] "ſ" := by
    refine ⟨⟨("s", .seconds), by decide, by decide⟩, fun v _ hv => by simpa using hv.length_le, fun unit hu => ?_, by decide +kernel⟩
    cases hu with
    | word hmem => cases unit <;> exact absurd hmem (by decide)
  have hone : Amount "1".toList "ſ".toList 1 0 := amount_of_readAmount? (by decide +kernel)
  have hread : read "1ſ".toList = .error (.unit "ſ") :=
    read_eq_unit_iff.2 ⟨[], "1ſ".toList, .nil, .intro (n := "1".toList) (g := []) hone (by simp) hunit⟩
  refine ⟨fun parts hne hspells => ?_, ?_⟩
  · have hok := read_eq_ok_iff.2 ⟨hne, hspells⟩
    rw [hread] at hok
    cases hok
  · rw [ofJson_str (by decide), hread]

end Duration

end Proofreader
