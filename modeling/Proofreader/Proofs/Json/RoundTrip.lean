import Proofreader.Json.Reader
import Proofreader.Json.Writer
import Proofreader.Proofs.Collections
import Proofreader.Proofs.Number.Decimal

/-! What is written as JSON is read back. Each kind of text is read as long as it is and no further: a character that was
escaped, a string, a number in front of what may follow it, and with these a value in front of the rest of its line. -/

namespace Proofreader.Json

/-! ### Strings -/

section Strings

variable {n : Nat} {r : Text}

theorem hexDigits_four (hn : n < 0x10000) : hexDigits 4 n =
    [(n / 4096).digitChar, (n / 256 % 16).digitChar, (n / 16 % 16).digitChar, (n % 16).digitChar] := by
  have hzero : Nat.digitChar 0 = '0' := rfl
  rw [hexDigits]
  by_cases h : n < 16
  · rw [Nat.toDigits_of_lt_base h, show n / 4096 = 0 by omega, show n / 256 % 16 = 0 by omega,
      show n / 16 % 16 = 0 by omega, show n % 16 = n by omega]
    rfl
  · rw [Nat.toDigits_of_base_le (by decide) (by omega)]
    by_cases h : n < 256
    · rw [Nat.toDigits_of_lt_base (by omega), show n / 4096 = 0 by omega, show n / 256 % 16 = 0 by omega,
        show n / 16 % 16 = n / 16 by omega]
      rfl
    · rw [Nat.toDigits_of_base_le (n := n / 16) (by decide) (by omega), Nat.div_div_eq_div_mul]
      by_cases h : n < 4096
      · rw [Nat.toDigits_of_lt_base (by omega), show n / 4096 = 0 by omega, show n / 256 % 16 = n / 256 by omega]
        rfl
      · rw [Nat.toDigits_of_base_le (n := n / (16 * 16)) (by decide) (by omega), Nat.div_div_eq_div_mul,
          Nat.toDigits_of_lt_base (by omega)]
        rfl

theorem hexValue?_digitChar {d : Nat} (hd : d < 16) : hexValue? d.digitChar = some d := by
  have hall : ∀ d : Fin 16, hexValue? d.val.digitChar = some d.val := by decide
  exact hall ⟨d, hd⟩

theorem hexUnit?_hexDigits (hn : n < 0x10000) (r : Text) : hexUnit? (hexDigits 4 n ++ r) = some n := by
  rw [hexDigits_four hn]
  change (do
    let a ← hexValue? (n / 4096).digitChar
    let b ← hexValue? (n / 256 % 16).digitChar
    let c ← hexValue? (n / 16 % 16).digitChar
    let d ← hexValue? (n % 16).digitChar
    return ((a * 16 + b) * 16 + c) * 16 + d) = some n
  rw [hexValue?_digitChar (by omega), hexValue?_digitChar (by omega), hexValue?_digitChar (by omega),
    hexValue?_digitChar (by omega)]
  exact congrArg some (by omega)

theorem length_hexDigits (hn : n < 0x10000) : (hexDigits 4 n).length = 4 := by
  rw [hexDigits_four hn]
  rfl

theorem drop_hexDigits (hn : n < 0x10000) (r : Text) : ('u' :: (hexDigits 4 n ++ r)).drop 5 = r :=
  List.drop_left' (length_hexDigits hn)

/-- A unit that is no half of a pair stands for its character. -/
theorem readUnicodeEscape_unit {c : Char} (hc : c.toNat < 0x10000) (hr : r ≠ []) (offset : Nat) :
    readUnicodeEscape ('u' :: (hexDigits 4 c.toNat ++ r)) offset = .ok (c, 5) := by
  have hvalid : c.toNat < 0xD800 ∨ 0xDFFF < c.toNat ∧ c.toNat < 0x110000 := c.valid
  have hhigh : isHighUnit c.toNat = false := by
    rw [isHighUnit, Bool.and_eq_false_iff, decide_eq_false_iff_not, decide_eq_false_iff_not]
    omega
  have hlow : isLowUnit c.toNat = false := by
    rw [isLowUnit, Bool.and_eq_false_iff, decide_eq_false_iff_not, decide_eq_false_iff_not]
    omega
  rw [readUnicodeEscape, drop_hexDigits hc, List.tail_cons, hexUnit?_hexDigits hc]
  dsimp only
  rw [if_neg (by simpa using hr), hhigh, Bool.false_and, Bool.false_and, if_neg Bool.false_ne_true, charOfUnit, hhigh, hlow,
    Bool.or_self, if_neg Bool.false_ne_true, Char.ofNat_toNat]

/-- Two halves stand for one character. -/
theorem readUnicodeEscape_pair {c : Char} (hc : 0x10000 ≤ c.toNat) (hr : r ≠ []) (offset : Nat) :
    readUnicodeEscape ('u' :: (hexDigits 4 (0xD800 + (c.toNat - 0x10000) / 1024) ++
      (unitEscape (0xDC00 + (c.toNat - 0x10000) % 1024) ++ r))) offset = .ok (c, 11) := by
  have hvalid : c.toNat < 0xD800 ∨ 0xDFFF < c.toNat ∧ c.toNat < 0x110000 := c.valid
  obtain ⟨n, hn⟩ : ∃ n, n = 0xD800 + (c.toNat - 0x10000) / 1024 := ⟨_, rfl⟩
  obtain ⟨m, hm⟩ : ∃ m, m = 0xDC00 + (c.toNat - 0x10000) % 1024 := ⟨_, rfl⟩
  have hhigh : isHighUnit n = true := by
    rw [isHighUnit, Bool.and_eq_true, decide_eq_true_iff, decide_eq_true_iff]
    omega
  have hlow : isLowUnit m = true := by
    rw [isLowUnit, Bool.and_eq_true, decide_eq_true_iff, decide_eq_true_iff]
    omega
  have hrest : (unitEscape m ++ r).drop 6 = r := by
    change ('u' :: (hexDigits 4 m ++ r)).drop 5 = r
    exact drop_hexDigits (by omega) r
  have hunit : hexUnit? ((unitEscape m ++ r).drop 2) = some m := hexUnit?_hexDigits (by omega) r
  rw [← hn, ← hm, readUnicodeEscape, drop_hexDigits (by omega), List.tail_cons, hexUnit?_hexDigits (by omega)]
  dsimp only
  rw [if_neg (by simp [unitEscape]), hrest, hhigh, hunit]
  have hopen : (true && !r.isEmpty && ['\\', 'u'].isPrefixOf (unitEscape m ++ r)) = true := by
    simp [unitEscape, hr]
  rw [if_pos hopen]
  dsimp only
  rw [if_pos hlow, show 0x10000 + (n - 0xD800) * 1024 + (m - 0xDC00) = c.toNat by omega, Char.ofNat_toNat]

theorem Place.skip_append (s t : Text) (offset : Nat) :
    (Place.mk (s ++ t) offset).skip s.length = ⟨t, offset + s.length⟩ := by
  rw [Place.skip, List.drop_left]

/-- The four ways to write a character. -/
inductive Escaped (c : Char) : Text → Prop
  | named {e : Char} : e ≠ 'u' → escapes.lookup e = some c → Escaped c ['\\', e]
  | plain : c ≠ '"' → c ≠ '\\' → 0x20 ≤ c.toNat → c.toNat < 0x7F → Escaped c [c]
  | unit : c.toNat < 0x10000 → Escaped c (unitEscape c.toNat)
  | pair : 0x10000 ≤ c.toNat → Escaped c (unitEscape (0xD800 + (c.toNat - 0x10000) / 1024) ++
      unitEscape (0xDC00 + (c.toNat - 0x10000) % 1024))

theorem escaped (c : Char) : Escaped c (escape c) := by
  unfold escape
  by_cases hquote : (c = '"' || c = '\\') = true
  · rw [if_pos hquote]
    rw [Bool.or_eq_true, decide_eq_true_iff, decide_eq_true_iff] at hquote
    rcases hquote with rfl | rfl <;> exact .named (by decide) rfl
  rw [if_neg hquote]
  rw [Bool.or_eq_true, decide_eq_true_iff, decide_eq_true_iff, not_or] at hquote
  by_cases hline : c = '\n'
  · rw [if_pos hline, hline]
    exact .named (by decide) rfl
  rw [if_neg hline]
  by_cases hreturn : c = '\r'
  · rw [if_pos hreturn, hreturn]
    exact .named (by decide) rfl
  rw [if_neg hreturn]
  by_cases htab : c = '\t'
  · rw [if_pos htab, htab]
    exact .named (by decide) rfl
  rw [if_neg htab]
  by_cases hfeed : c = '\x0c'
  · rw [if_pos hfeed, hfeed]
    exact .named (by decide) rfl
  rw [if_neg hfeed]
  by_cases hback : c = '\x08'
  · rw [if_pos hback, hback]
    exact .named (by decide) rfl
  rw [if_neg hback]
  by_cases hplain : (0x20 ≤ c.toNat && c.toNat < 0x7F) = true
  · rw [if_pos hplain]
    rw [Bool.and_eq_true, decide_eq_true_iff, decide_eq_true_iff] at hplain
    exact .plain hquote.1 hquote.2 hplain.1 hplain.2
  rw [if_neg hplain]
  by_cases hsmall : c.toNat < 0x10000
  · rw [if_pos hsmall]
    exact .unit hsmall
  · rw [if_neg hsmall]
    exact .pair (Nat.le_of_not_lt hsmall)

theorem Escaped.ne_nil {c : Char} {t : Text} (h : Escaped c t) : t ≠ [] := by
  cases h with
  | named | plain => exact List.cons_ne_nil _ _
  | unit => exact List.cons_ne_nil _ _
  | pair => exact List.append_ne_nil_of_left_ne_nil (List.cons_ne_nil _ _) _

theorem readString_named (start fuel : Nat) (read : Text) {c e : Char} (he : e ≠ 'u') (hc : escapes.lookup e = some c)
    (r : Text) (offset : Nat) : readString start (fuel + 1) read ⟨'\\' :: e :: r, offset⟩ =
      readString start fuel (c :: read) ⟨r, offset + 2⟩ := by
  rw [readString]
  dsimp only
  split
  · next h => cases h
  · next h => exact absurd (List.cons.inj h).1 (by decide)
  · next h => cases h
  · next h => exact absurd (List.cons.inj (List.cons.inj h).2).1 he
  · next h =>
    cases h
    rw [hc]
    rfl
  · next hnot h =>
    cases h
    exact (hnot e r rfl rfl).elim

/-- An escape with a `u` is read as the character that it stands for. -/
theorem readString_unicode (start fuel : Nat) (read : Text) {c : Char} {n : Nat} {t : Text} {offset : Nat}
    (h : readUnicodeEscape ('u' :: t) (offset + 1) = .ok (c, n)) :
    readString start (fuel + 1) read ⟨'\\' :: 'u' :: t, offset⟩ =
      readString start fuel (c :: read) ((Place.mk ('\\' :: 'u' :: t) offset).skip (n + 1)) := by
  rw [readString]
  change (readUnicodeEscape ('u' :: t) (offset + 1) >>= _) = _
  rw [h]
  rfl

theorem readString_plain (start fuel : Nat) (read : Text) {c : Char} (hquote : c ≠ '"') (hslash : c ≠ '\\')
    (hc : 0x1F < c.toNat) (r : Text) (offset : Nat) : readString start (fuel + 1) read ⟨c :: r, offset⟩ =
      readString start fuel (c :: read) ⟨r, offset + 1⟩ := by
  rw [readString]
  dsimp only
  split
  · next h => cases h
  · next h => exact absurd (List.cons.inj h).1 hquote
  · next h => exact absurd (List.cons.inj h).1 hslash
  · next h => exact absurd (List.cons.inj h).1 hslash
  · next h => exact absurd (List.cons.inj h).1 hslash
  · next h =>
    cases h
    rw [if_neg (by omega)]
    rfl

/-- A character that was escaped is read. -/
theorem readString_escape (start fuel : Nat) (read : Text) (c : Char) (hr : r ≠ []) (offset : Nat) :
    readString start (fuel + 1) read ⟨escape c ++ r, offset⟩ =
      readString start fuel (c :: read) ⟨r, offset + (escape c).length⟩ := by
  have h := escaped c
  generalize escape c = t at h
  cases h with
  | named he hc => exact readString_named start fuel read he hc r offset
  | plain hquote hslash hlow hhigh => exact readString_plain start fuel read hquote hslash hlow r offset
  | unit hsmall =>
    have hlength : (unitEscape c.toNat).length = 5 + 1 := congrArg (· + 2) (length_hexDigits hsmall)
    have hskip := Place.skip_append (unitEscape c.toNat) r offset
    rw [hlength] at hskip ⊢
    rw [← hskip]
    exact readString_unicode start fuel read (readUnicodeEscape_unit hsmall hr (offset + 1))
  | pair hlarge =>
    have hvalid : c.toNat < 0xD800 ∨ 0xDFFF < c.toNat ∧ c.toNat < 0x110000 := c.valid
    have hread := readUnicodeEscape_pair hlarge hr (offset + 1)
    obtain ⟨n, hn⟩ : ∃ n, n = 0xD800 + (c.toNat - 0x10000) / 1024 := ⟨_, rfl⟩
    obtain ⟨m, hm⟩ : ∃ m, m = 0xDC00 + (c.toNat - 0x10000) % 1024 := ⟨_, rfl⟩
    rw [← hn, ← hm] at hread ⊢
    have hlength : (unitEscape n ++ unitEscape m).length = 11 + 1 := by
      simp [unitEscape, length_hexDigits (show n < 0x10000 by omega), length_hexDigits (show m < 0x10000 by omega)]
    have hskip := Place.skip_append (unitEscape n ++ unitEscape m) r offset
    rw [hlength] at hskip ⊢
    rw [← hskip, List.append_assoc]
    exact readString_unicode start fuel read hread

theorem readString_flatMap (start : Nat) {fuel : Nat} (read s r : Text) (offset : Nat) (hfuel : s.length < fuel) :
    readString start fuel read ⟨s.flatMap escape ++ '"' :: r, offset⟩ =
      .ok (String.ofList (read.reverse ++ s), ⟨r, offset + (s.flatMap escape).length + 1⟩) := by
  induction s generalizing fuel read offset with
  | nil =>
    obtain ⟨fuel, rfl⟩ : ∃ k, fuel = k + 1 := ⟨fuel - 1, by omega⟩
    rw [List.append_nil]
    rfl
  | cons c s ih =>
    rw [List.length_cons] at hfuel
    obtain ⟨fuel, rfl⟩ : ∃ k, fuel = k + 1 := ⟨fuel - 1, by omega⟩
    rw [List.flatMap_cons, List.append_assoc, readString_escape _ _ _ _ (by simp), ih _ _ (by omega), List.reverse_cons,
      List.append_assoc, List.length_append]
    simp only [List.singleton_append, Nat.add_assoc]

theorem toList_writeString (s : String) : (writeString s).toList = '"' :: (s.toList.flatMap escape ++ ['"']) := by
  rw [writeString, String.toList_ofList]
  rfl

theorem length_le_flatMap_escape (s : Text) : s.length ≤ (s.flatMap escape).length := by
  induction s with
  | nil => exact Nat.le_refl 0
  | cons c s ih =>
    have hc := List.length_pos_of_ne_nil (escaped c).ne_nil
    rw [List.flatMap_cons, List.length_append, List.length_cons]
    omega

/-- The quote has been read. -/
theorem readString_writeString (start fuel : Nat) (s : String) (r : Text) (offset : Nat)
    (hfuel : (writeString s).length ≤ fuel + 1) :
    readString start fuel [] ((Place.mk ((writeString s).toList ++ r) offset).skip 1) =
      .ok (s, ⟨r, offset + (writeString s).length⟩) := by
  have hlength := length_le_flatMap_escape s.toList
  rw [← String.length_toList, toList_writeString] at hfuel ⊢
  simp only [List.length_cons, List.length_append, List.length_nil] at hfuel ⊢
  change readString start fuel [] ⟨s.toList.flatMap escape ++ ['"'] ++ r, offset + 1⟩ = _
  rw [List.append_assoc, List.singleton_append, readString_flatMap _ _ _ _ _ (by omega), List.reverse_nil, List.nil_append,
    String.ofList_toList]
  simp only [Nat.add_assoc, Nat.add_comm 1]

end Strings

/-! ### Numbers -/

/-- What may follow a value. -/
def Follows (r : Text) : Prop := ∀ c ∈ r.head?, c ∈ [',', ']', '\x7d']

section Numbers

open Scientific

variable {n : Scientific} {r : Text}

theorem isAsciiDigit_eq (c : Char) : isAsciiDigit c = c.isDigit := by
  rw [Bool.eq_iff_iff, Char.isDigit_iff_toNat, isAsciiDigit, Bool.and_eq_true, decide_eq_true_iff, decide_eq_true_iff]
  exact Iff.rfl

theorem takeWhile_isAsciiDigit {ds : Text} (hds : ∀ c ∈ ds, c.isDigit = true)
    (hr : ∀ c ∈ r.head?, c.isDigit = false) :
    (ds ++ r).takeWhile isAsciiDigit = ds := by
  rw [List.takeWhile_append_of_pos fun c hc => (isAsciiDigit_eq c).trans (hds c hc)]
  cases r with
  | nil => exact List.append_nil ds
  | cons c r =>
    rw [List.takeWhile_cons_of_neg (by rw [isAsciiDigit_eq, hr c rfl]; exact Bool.false_ne_true), List.append_nil]

theorem Follows.all {P : Char → Prop} [DecidablePred P] (hr : Follows r)
    (h : ([',', ']', '\x7d'].all fun c => decide (P c)) = true) : ∀ c ∈ r.head?, P c := fun c hc =>
  Text.forall_mem_of_all h c (hr c hc)

theorem Follows.not_isDigit (hr : Follows r) : ∀ c ∈ r.head?, c.isDigit = false := hr.all (by decide)

theorem mark_append (n : Scientific) (hr : Follows r) :
    ∀ c ∈ (n.mark ++ r).head?, c.isDigit = false ∧ c ≠ '.' := by
  unfold mark
  cases n.exponent with
  | none =>
    exact hr.all (by decide)
  | some x =>
    rintro c ⟨⟩
    decide

theorem wholeLength_text (h : n.IsWritten) (hr : Follows r) :
    wholeLength (n.whole ++ (n.fraction ++ (n.mark ++ r))) = n.whole.length := by
  have hrest : ∀ c ∈ (n.fraction ++ (n.mark ++ r)).head?, c.isDigit = false := by
    unfold fraction
    split
    · exact fun c hc => (mark_append n hr c hc).1
    · rintro c ⟨⟩
      rfl
  have htake := takeWhile_isAsciiDigit h.whole hrest
  obtain ⟨c, t, hwhole, hlead⟩ := h.lead
  by_cases hc : c = '0'
  · rw [hwhole, hlead hc, hc]
    rfl
  · rw [hwhole] at htake ⊢
    rw [List.cons_append] at htake ⊢
    rw [wholeLength]
    · rw [htake]
    · exact fun _ heq => hc (List.cons.inj heq).1

theorem fractionLength_text (h : n.IsWritten) (hr : Follows r) :
    fractionLength (n.fraction ++ (n.mark ++ r)) = n.fraction.length := by
  have hmark := mark_append n hr
  unfold fraction
  split
  · rw [List.nil_append]
    generalize n.mark ++ r = t at hmark
    unfold fractionLength
    split
    · exact absurd rfl (hmark '.' rfl).2
    · rfl
  · next hpart =>
    have htake := takeWhile_isAsciiDigit h.part fun c hc => (hmark c hc).1
    rw [List.cons_append, fractionLength, htake, if_neg (by simpa using hpart), List.length_cons]

theorem exponentLength_text (h : n.IsWritten) (hr : Follows r) : exponentLength (n.mark ++ r) = n.mark.length := by
  cases hx : n.exponent with
  | none =>
    have hmark : n.mark = [] := by rw [mark, hx]; rfl
    rw [hmark, List.nil_append]
    cases r with
    | nil => rfl
    | cons c r =>
      have hc : (c = 'e' || c = 'E') = false := hr.all (P := fun c => (c = 'e' || c = 'E') = false) (by decide) c rfl
      unfold exponentLength
      dsimp only
      rw [hc, if_neg Bool.false_ne_true]
      rfl
  | some x =>
    obtain ⟨hne, hdigits⟩ := h.exponent x hx
    obtain ⟨negative, ds⟩ := x
    have htake := takeWhile_isAsciiDigit hdigits hr.not_isDigit
    dsimp only at hne htake
    have hmark : n.mark = 'e' :: (if negative then '-' else '+') :: ds := by rw [mark, hx]; rfl
    have hlength : ds.length ≠ 0 := by simpa using hne
    have hread (sign : Char) (hsign : (if sign = '+' || sign = '-' then 1 else 0 : Nat) = 1) :
        exponentLength ('e' :: sign :: (ds ++ r)) = ds.length + 1 + 1 := by
      unfold exponentLength
      dsimp only
      simp only [hsign, List.drop_succ_cons, List.drop_zero, htake]
      rw [if_pos (by decide), if_neg hlength]
      omega
    rw [hmark, List.cons_append, List.cons_append]
    cases negative with
    | true => exact hread '-' rfl
    | false => exact hread '+' rfl

theorem signLength_signed (h : n.IsWritten) (negative : Bool) (r : Text) :
    signLength (n.signed negative ++ r) = if negative then 1 else 0 := by
  cases negative with
  | true => rfl
  | false =>
    obtain ⟨c, t, hwhole, -⟩ := h.lead
    have hc : c ≠ '-' := forall_isDigit (P := fun c => c ≠ '-') (by decide) (h.whole c (by simp [hwhole]))
    rw [signed, if_neg Bool.false_ne_true, text, hwhole, List.cons_append, List.cons_append, signLength]
    · rfl
    · exact fun _ heq => hc (List.cons.inj heq).1

/-- A number is read as far as it is written. -/
theorem readNumber?_signed (h : n.IsWritten) (hr : Follows r) (negative : Bool) (digits : Nat) :
    readNumber? digits (n.signed negative ++ r) = if (n.fraction ++ n.mark).length = 0 then
        some ((readIntegerWithin digits (String.ofList (n.signed negative))).map int, (n.signed negative).length)
      else (readFloat? (String.ofList (n.signed negative))).map fun x => (.ok (float x), (n.signed negative).length) := by
  have hne : n.whole.length ≠ 0 := by
    obtain ⟨c, t, hwhole, -⟩ := h.lead
    simp [hwhole]
  have hsigned : n.signed negative = (if negative then ['-'] else []) ++ n.text := by cases negative <;> rfl
  have hsign : (if negative then 1 else 0) = (if negative then ['-'] else [] : Text).length := by cases negative <;> rfl
  have htext : n.signed negative ++ r =
      (if negative then ['-'] else []) ++ (n.whole ++ (n.fraction ++ (n.mark ++ r))) := by
    rw [hsigned, text, List.append_assoc, List.append_assoc, List.append_assoc]
  have hlength : (n.signed negative).length =
      (if negative then ['-'] else [] : Text).length + n.whole.length + n.fraction.length + n.mark.length := by
    rw [hsigned, text, List.length_append, List.length_append, List.length_append]
    omega
  rw [readNumber?, signLength_signed h, hsign]
  generalize (if negative then ['-'] else [] : Text) = sign at htext hlength
  have hwhole : (n.signed negative ++ r).drop sign.length = n.whole ++ (n.fraction ++ (n.mark ++ r)) := by
    rw [htext, List.drop_left]
  have hfraction : (n.signed negative ++ r).drop (sign.length + n.whole.length) = n.fraction ++ (n.mark ++ r) := by
    rw [← List.drop_drop, hwhole, List.drop_left]
  have hmark : (n.signed negative ++ r).drop (sign.length + n.whole.length + n.fraction.length) = n.mark ++ r := by
    rw [← List.drop_drop, hfraction, List.drop_left]
  dsimp only
  rw [hwhole, wholeLength_text h hr, if_neg hne, hfraction, fractionLength_text h hr, hmark, exponentLength_text h hr,
    ← hlength, List.take_left, List.length_append]

theorem readWord?_signed (h : n.IsWritten) (negative : Bool) (r : Text) : readWord? (n.signed negative ++ r) = none := by
  obtain ⟨c, t, hwhole, -⟩ := h.lead
  have hc : c ≠ 'n' ∧ c ≠ 't' ∧ c ≠ 'f' ∧ c ≠ 'N' ∧ c ≠ 'I' ∧ c ≠ '-' := forall_isDigit
    (P := fun c => c ≠ 'n' ∧ c ≠ 't' ∧ c ≠ 'f' ∧ c ≠ 'N' ∧ c ≠ 'I' ∧ c ≠ '-') (by decide)
    (h.whole c (by simp [hwhole]))
  obtain ⟨hn, ht, hf, hN, hI, hminus⟩ := hc
  cases negative with
  | true =>
    rw [signed, if_pos rfl, text, hwhole]
    simp [readWord?, words, hI.symm]
  | false =>
    rw [signed, if_neg Bool.false_ne_true, text, hwhole]
    simp [readWord?, words, hn.symm, ht.symm, hf.symm, hN.symm, hI.symm, hminus.symm]

end Numbers

/-! ### Values -/

section Values

variable {digits levels : Nat} {v : Json} {t r : Text} {offset : Nat}

/-- No space stands in front. -/
def Tight (t : Text) : Prop := ∀ c ∈ t.head?, isSpace c = false

theorem Tight.takeWhile (h : Tight t) : t.takeWhile isSpace = [] := by
  cases t with
  | nil => rfl
  | cons c r => exact List.takeWhile_cons_of_neg (by rw [h c rfl]; exact Bool.false_ne_true)

theorem Tight.skipSpace (h : Tight t) (offset : Nat) : (Place.mk t offset).skipSpace = ⟨t, offset⟩ := by
  rw [Place.skipSpace, h.takeWhile]
  rfl

/-- A mark and the space after it are passed over. -/
theorem Tight.skip_mark (h : Tight t) (c : Char) (offset : Nat) :
    ((Place.mk (c :: ' ' :: t) offset).skip 1).skipSpace = ⟨t, offset + 2⟩ := by
  change (Place.mk (' ' :: t) (offset + 1)).skipSpace = _
  rw [Place.skipSpace, List.takeWhile_cons_of_pos rfl, h.takeWhile]
  rfl

theorem Follows.tight (h : Follows t) : Tight t := h.all (by decide)

/-- What a reader needs to read back a value: numbers that are short enough, containers that lie in each other not too
deep, and each key once in an object. -/
inductive Fits (digits : Nat) : Nat → Json → Prop
  | null {levels : Nat} : Fits digits levels .null
  | bool {levels : Nat} (b : Bool) : Fits digits levels (.bool b)
  | int {levels : Nat} {i : Int} : (Nat.toDigits 10 i.natAbs).length ≤ digits → Fits digits levels (.int i)
  | float {levels : Nat} {x : Float} {p : FloatParts} : classify x = .finite p → Fits digits levels (.float x)
  | str {levels : Nat} (s : String) : Fits digits levels (.str s)
  | arr {levels : Nat} {items : List Json} : (∀ v ∈ items, Fits digits levels v) → Fits digits (levels + 1) (.arr items)
  | obj {levels : Nat} {members : List (String × Json)} : (members.map Prod.fst).Nodup →
      (∀ m ∈ members, Fits digits levels m.2) → Fits digits (levels + 1) (.obj members)

/-- Nothing but printable ASCII. -/
def Printable (t : Text) : Prop := ∀ c ∈ t, 0x20 ≤ c.toNat ∧ c.toNat < 0x7F

theorem printable_iff : Printable t ↔ (t.all fun c => decide (0x20 ≤ c.toNat ∧ c.toNat < 0x7F)) = true := by
  simp [Printable]

instance : DecidablePred Printable := fun _ => decidable_of_iff _ printable_iff.symm

theorem Printable.append (ht : Printable t) (hr : Printable r) : Printable (t ++ r) := fun c hc =>
  (List.mem_append.1 hc).elim (ht c) (hr c)

theorem Printable.append_toList {s s' : String} (h : Printable s.toList) (h' : Printable s'.toList) :
    Printable (s ++ s').toList := by
  rw [String.toList_append]
  exact h.append h'

theorem printable_unitEscape {n : Nat} (hn : n < 0x10000) : Printable (unitEscape n) := by
  have hdigit {d : Nat} (hd : d < 16) : 0x20 ≤ d.digitChar.toNat ∧ d.digitChar.toNat < 0x7F :=
    (by decide : ∀ d : Fin 16, 0x20 ≤ d.val.digitChar.toNat ∧ d.val.digitChar.toNat < 0x7F) ⟨d, hd⟩
  rw [unitEscape, hexDigits_four hn]
  exact Printable.append (t := ['\\', 'u']) (by decide) (List.forall_mem_cons.2 ⟨hdigit (by omega), List.forall_mem_cons.2
    ⟨hdigit (by omega), List.forall_mem_cons.2 ⟨hdigit (by omega), List.forall_mem_singleton.2 (hdigit (by omega))⟩⟩⟩)

theorem Escaped.printable {c : Char} (h : Escaped c t) : Printable t := by
  have hvalid : c.toNat < 0xD800 ∨ 0xDFFF < c.toNat ∧ c.toNat < 0x110000 := c.valid
  cases h with
  | @named e _ hc =>
    have hall : Printable (escapes.map Prod.fst) := by decide
    have he := hall e (List.mem_map_of_mem (mem_of_lookup hc))
    exact List.forall_mem_cons.2 ⟨by decide, List.forall_mem_singleton.2 he⟩
  | plain _ _ hlow hhigh => exact List.forall_mem_singleton.2 ⟨hlow, hhigh⟩
  | unit h => exact printable_unitEscape h
  | pair h => exact (printable_unitEscape (by omega)).append (printable_unitEscape (by omega))

theorem printable_writeString (s : String) : Printable (writeString s).toList := by
  rw [toList_writeString]
  refine Printable.append (t := ['"']) (by decide) (Printable.append (fun c hc => ?_) (by decide))
  obtain ⟨x, -, hc⟩ := List.mem_flatMap.1 hc
  exact (escaped x).printable c hc

/-- It begins as a value does. -/
def Starts (t : Text) : Prop := ∃ c r, t = c :: r ∧ isSpace c = false ∧ c ≠ ']' ∧ c ≠ '\x7d'

theorem Starts.append (h : Starts t) (r : Text) : Starts (t ++ r) := by
  obtain ⟨c, s, rfl, hc⟩ := h
  exact ⟨c, s ++ r, rfl, hc⟩

theorem Starts.tight (h : Starts t) : Tight t := by
  obtain ⟨c, s, rfl, hc, -⟩ := h
  rintro _ ⟨⟩
  exact hc

theorem Starts.length_pos (h : Starts t) : 0 < t.length := by
  obtain ⟨c, s, rfl, -⟩ := h
  exact Nat.succ_pos _

theorem starts_writeString (s : String) : Starts (writeString s).toList := by
  rw [toList_writeString]
  exact ⟨_, _, rfl, by decide⟩

/-- A text is read as a value, as long as it is, in front of whatever may follow one. -/
structure Reads (digits levels : Nat) (v : Json) (t : Text) : Prop where
  starts : Starts t
  printable : Printable t
  read : ∀ (fuel : Nat) {r : Text} (offset : Nat), 2 * t.length ≤ fuel → Follows r →
    readValue digits fuel levels ⟨t ++ r, offset⟩ = .ok (v, ⟨r, offset + t.length⟩)

theorem reads_str (s : String) : Reads digits levels (.str s) (writeString s).toList where
  starts := starts_writeString s
  printable := printable_writeString s
  read fuel {r} offset hfuel _ := by
    rw [String.length_toList] at hfuel ⊢
    have hpos := (starts_writeString s).length_pos
    rw [String.length_toList] at hpos
    obtain ⟨fuel, rfl⟩ : ∃ k, fuel = k + 1 := ⟨fuel - 1, by omega⟩
    have h := readString_writeString offset fuel s r offset (by omega)
    rw [toList_writeString, List.cons_append] at h ⊢
    unfold readValue
    dsimp only
    rw [h]
    rfl

theorem readValue_scalar (fuel : Nat) {c : Char} (hc : c ≠ '"' ∧ c ≠ '[' ∧ c ≠ '\x7b') (t : Text) (offset : Nat) :
    readValue digits (fuel + 1) levels ⟨c :: t, offset⟩ =
      match readWord? (c :: t) with
      | some (v, n) => .ok (v, (Place.mk (c :: t) offset).skip n)
      | none =>
        match readNumber? digits (c :: t) with
        | some (.ok v, n) => .ok (v, (Place.mk (c :: t) offset).skip n)
        | some (.error e, _) => .error (.number e)
        | none => (Place.mk (c :: t) offset).fail .expectingValue := by
  unfold readValue
  dsimp only
  split
  · next h => exact absurd (List.cons.inj h).1 hc.1
  · next h => exact absurd (List.cons.inj h).1 hc.2.1
  · next h => exact absurd (List.cons.inj h).1 hc.2.1
  · next h => exact absurd (List.cons.inj h).1 hc.2.2
  · next h => exact absurd (List.cons.inj h).1 hc.2.2
  · rfl

theorem reads_word {w : String} {c : Char} (hw : w.toList = c :: t) (hc : c ≠ '"' ∧ c ≠ '[' ∧ c ≠ '\x7b')
    (hspace : isSpace c = false ∧ c ≠ ']' ∧ c ≠ '\x7d')
    (hprint : Printable w.toList) (h : ∀ r, readWord? (w.toList ++ r) = some (v, w.toList.length)) :
    Reads digits levels v w.toList where
  starts := ⟨c, t, hw, hspace⟩
  printable := hprint
  read fuel {r} offset hfuel _ := by
    have hr := h r
    have hskip := Place.skip_append w.toList r offset
    rw [hw] at hr hfuel hskip ⊢
    rw [List.length_cons] at hfuel
    obtain ⟨fuel, rfl⟩ : ∃ k, fuel = k + 1 := ⟨fuel - 1, by omega⟩
    rw [List.cons_append] at hr hskip ⊢
    rw [readValue_scalar _ hc, hr]
    dsimp only
    rw [hskip]

open Scientific in
theorem reads_number {n : Scientific} (hn : n.IsWritten) (negative : Bool)
    (h : ∀ r, Follows r → readNumber? digits (n.signed negative ++ r) = some (.ok v, (n.signed negative).length)) :
    Reads digits levels v (n.signed negative) := by
  obtain ⟨c, t, ht, hdigit⟩ : ∃ c t, n.signed negative = c :: t ∧ (c = '-' ∨ c.isDigit = true) := by
    obtain ⟨c, t, hwhole, -⟩ := hn.lead
    cases negative with
    | true => exact ⟨_, _, rfl, .inl rfl⟩
    | false =>
      exact ⟨c, t ++ (n.fraction ++ n.mark), by rw [signed, if_neg Bool.false_ne_true, text, hwhole]; simp,
        .inr (hn.whole c (by simp [hwhole]))⟩
  have hc : (c ≠ '"' ∧ c ≠ '[' ∧ c ≠ '\x7b') ∧ isSpace c = false ∧ c ≠ ']' ∧ c ≠ '\x7d' := by
    rcases hdigit with rfl | hdigit
    · decide
    · exact forall_isDigit
        (P := fun c => (c ≠ '"' ∧ c ≠ '[' ∧ c ≠ '\x7b') ∧ isSpace c = false ∧ c ≠ ']' ∧ c ≠ '\x7d') (by decide) hdigit
  have hprint : Printable (n.signed negative) := fun c hc => (mem_signed hn hc).elim
    (forall_isDigit (P := fun c => 0x20 ≤ c.toNat ∧ c.toNat < 0x7F) (by decide))
    ((by decide : Printable ['.', 'e', '-', '+']) c)
  refine ⟨⟨c, t, ht, hc.2⟩, hprint, fun fuel {r} offset hfuel hr => ?_⟩
  have hword := readWord?_signed hn negative r
  have hnumber := h r hr
  have hskip := Place.skip_append (n.signed negative) r offset
  rw [ht] at hfuel hword hnumber hskip ⊢
  rw [List.length_cons] at hfuel
  obtain ⟨fuel, rfl⟩ : ∃ k, fuel = k + 1 := ⟨fuel - 1, by omega⟩
  rw [List.cons_append] at hword hnumber hskip ⊢
  rw [readValue_scalar _ hc.1, hword]
  dsimp only
  rw [hnumber]
  dsimp only
  rw [hskip]

theorem reads_int {i : Int} (h : (Nat.toDigits 10 i.natAbs).length ≤ digits) :
    Reads digits levels (.int i) (toString i).toList := by
  have hread := Scientific.readIntegerWithin_toString h
  rw [Scientific.toString_eq] at hread ⊢
  rw [String.toList_ofList]
  refine reads_number (Scientific.isWritten_ofInt i) _ fun r hr => ?_
  have hwhole : ((Scientific.ofInt i).fraction ++ (Scientific.ofInt i).mark).length = 0 := rfl
  rw [readNumber?_signed (Scientific.isWritten_ofInt i) hr, if_pos hwhole, hread]
  rfl

theorem reads_float {x : Float} {p : FloatParts} (h : classify x = .finite p) :
    Reads digits levels (.float x) (floatText x).toList := by
  obtain ⟨n, hn, hfloat, htext, hread⟩ := exists_floatText h
  rw [htext] at hread ⊢
  rw [String.toList_ofList]
  refine reads_number hn _ fun r hr => ?_
  rw [readNumber?_signed hn hr, if_neg fun h => hfloat (List.eq_nil_of_length_eq_zero h), hread]
  rfl

theorem compactItems_cons (x y : Json) (items : List Json) :
    compactItems (x :: y :: items) = x.compact ++ ", " ++ compactItems (y :: items) := by
  rw [compactItems]
  nofun

theorem compactMembers_cons (k : String) (x : Json) (m : String × Json) (members : List (String × Json)) :
    compactMembers ((k, x) :: m :: members) =
      writeString k ++ ": " ++ x.compact ++ ", " ++ compactMembers (m :: members) := by
  rw [compactMembers]
  nofun

theorem starts_compactItems {x : Json} (h : Starts x.compact.toList) (items : List Json) :
    Starts (compactItems (x :: items)).toList := by
  cases items with
  | nil => exact h
  | cons y items =>
    rw [compactItems_cons, String.toList_append, String.toList_append]
    exact (h.append _).append _

theorem starts_compactMembers (m : String × Json) (members : List (String × Json)) :
    Starts (compactMembers (m :: members)).toList := by
  obtain ⟨k, x⟩ := m
  cases members with
  | nil =>
    rw [compactMembers]
    simp only [String.toList_append]
    exact ((starts_writeString k).append _).append _
  | cons m members =>
    rw [compactMembers_cons]
    simp only [String.toList_append]
    exact ((((starts_writeString k).append _).append _).append _).append _

theorem printable_compactItems {items : List Json} (h : ∀ v ∈ items, Printable v.compact.toList) :
    Printable (compactItems items).toList := by
  induction items with
  | nil => nofun
  | cons x items ih =>
    have hx := h x List.mem_cons_self
    cases items with
    | nil => exact hx
    | cons y items =>
      rw [compactItems_cons]
      exact (hx.append_toList (by decide)).append_toList (ih fun v hv => h v (List.mem_cons_of_mem x hv))

theorem printable_compactMembers {members : List (String × Json)} (h : ∀ m ∈ members, Printable m.2.compact.toList) :
    Printable (compactMembers members).toList := by
  induction members with
  | nil => nofun
  | cons m members ih =>
    obtain ⟨k, x⟩ := m
    have hx : Printable (writeString k ++ ": " ++ x.compact).toList :=
      ((printable_writeString k).append_toList (by decide)).append_toList (h (k, x) List.mem_cons_self)
    cases members with
    | nil =>
      rw [compactMembers]
      exact hx
    | cons m members =>
      rw [compactMembers_cons]
      exact (hx.append_toList (by decide)).append_toList (ih fun v hv => h v (List.mem_cons_of_mem _ hv))

theorem readItems_compact {items : List Json} (hne : items ≠ [])
    (h : ∀ v ∈ items, Reads digits levels v v.compact.toList) (fuel : Nat) (r : Text) (offset : Nat)
    (hfuel : 2 * (compactItems items).toList.length + 1 ≤ fuel) :
    readItems digits fuel levels ⟨(compactItems items).toList ++ ']' :: r, offset⟩ =
      .ok (items, ⟨r, offset + (compactItems items).toList.length + 1⟩) := by
  induction items generalizing fuel offset with
  | nil => exact absurd rfl hne
  | cons x items ih =>
    obtain ⟨fuel, rfl⟩ : ∃ k, fuel = k + 1 := ⟨fuel - 1, by omega⟩
    have hx := h x List.mem_cons_self
    have hpos := hx.starts.length_pos
    cases items with
    | nil =>
      rw [compactItems] at hfuel ⊢
      rw [readItems, hx.read fuel offset (by omega) (by rintro _ ⟨⟩; decide)]
      rfl
    | cons y items =>
      have htight := ((starts_compactItems (h y (by simp)).starts items).append (']' :: r)).tight
      have hitems := compactItems_cons x y items
      have htext : (compactItems (x :: y :: items)).toList ++ ']' :: r =
          x.compact.toList ++ ',' :: ' ' :: ((compactItems (y :: items)).toList ++ ']' :: r) := by
        rw [hitems, String.toList_append, String.toList_append]
        simp
      have hlength : (compactItems (x :: y :: items)).toList.length =
          x.compact.toList.length + 2 + (compactItems (y :: items)).toList.length := by
        rw [hitems, String.toList_append, String.toList_append, List.length_append, List.length_append]
        rfl
      rw [hlength] at hfuel ⊢
      rw [htext, readItems, hx.read fuel offset (by omega) (by rintro _ ⟨⟩; decide)]
      have hrest := ih (List.cons_ne_nil _ _) (fun v hv => h v (List.mem_cons_of_mem x hv)) fuel
        (offset + x.compact.toList.length + 2) (by omega)
      change (readItems digits fuel levels ((Place.mk (',' :: ' ' :: ((compactItems (y :: items)).toList ++ ']' :: r))
        (offset + x.compact.toList.length)).skip 1).skipSpace >>= _) = _
      rw [htight.skip_mark, hrest]
      simp only [Nat.add_assoc]
      rfl

/-- A key, what stands after it, and its value. -/
theorem readMembers_key (fuel : Nat) (k : String) {x : Json} (hx : Reads digits levels x x.compact.toList) {r : Text}
    (hr : Follows r) (offset : Nat) (hfuel : 2 * ((writeString k).length + x.compact.toList.length) ≤ fuel) :
    readMembers digits (fuel + 1) levels ⟨(writeString k).toList ++ ':' :: ' ' :: (x.compact.toList ++ r), offset⟩ =
      let p : Place := ⟨r, offset + ((writeString k).length + 2 + x.compact.toList.length)⟩
      match p.rest with
      | '\x7d' :: _ => .ok ([(k, x)], p.skip 1)
      | ',' :: _ => do
        let (ms, p) ← readMembers digits fuel levels (p.skip 1).skipSpace
        return ((k, x) :: ms, p)
      | _ => p.fail .expectingComma := by
  have hkey := readString_writeString offset fuel k (':' :: ' ' :: (x.compact.toList ++ r)) offset (by omega)
  have hcolon : Tight (':' :: ' ' :: (x.compact.toList ++ r)) := by
    rintro _ ⟨⟩
    rfl
  have hvalue := hx.read fuel (offset + (writeString k).length + 2) (by omega) hr
  rw [toList_writeString, List.cons_append] at hkey ⊢
  rw [readMembers]
  dsimp only
  rw [hkey]
  simp only [bind, Except.bind]
  rw [hcolon.skipSpace]
  dsimp only
  rw [(hx.starts.append r).tight.skip_mark, hvalue]
  dsimp only
  rw [hr.tight.skipSpace]
  simp only [Nat.add_assoc]
  rfl

theorem readMembers_compact {members : List (String × Json)} (hne : members ≠ [])
    (h : ∀ m ∈ members, Reads digits levels m.2 m.2.compact.toList) (fuel : Nat) (r : Text) (offset : Nat)
    (hfuel : 2 * (compactMembers members).toList.length + 1 ≤ fuel) :
    readMembers digits fuel levels ⟨(compactMembers members).toList ++ '\x7d' :: r, offset⟩ =
      .ok (members, ⟨r, offset + (compactMembers members).toList.length + 1⟩) := by
  induction members generalizing fuel offset with
  | nil => exact absurd rfl hne
  | cons m members ih =>
    obtain ⟨k, x⟩ := m
    obtain ⟨fuel, rfl⟩ : ∃ n, fuel = n + 1 := ⟨fuel - 1, by omega⟩
    have hx : Reads digits levels x x.compact.toList := h (k, x) List.mem_cons_self
    cases members with
    | nil =>
      have htext : (compactMembers [(k, x)]).toList = (writeString k).toList ++ ':' :: ' ' :: x.compact.toList := by
        rw [compactMembers, String.toList_append, String.toList_append, List.append_assoc]
        rfl
      have hlength : (compactMembers [(k, x)]).toList.length = (writeString k).length + 2 + x.compact.toList.length := by
        rw [htext, List.length_append, String.length_toList, List.length_cons, List.length_cons]
        omega
      rw [hlength] at hfuel ⊢
      have hread := readMembers_key fuel k hx (r := '\x7d' :: r) (by rintro _ ⟨⟩; decide) offset (by omega)
      rw [htext, List.append_assoc, List.cons_append, List.cons_append, hread]
      rfl
    | cons m members =>
      have htext : (compactMembers ((k, x) :: m :: members)).toList ++ '\x7d' :: r = (writeString k).toList ++
          ':' :: ' ' :: (x.compact.toList ++ ',' :: ' ' :: ((compactMembers (m :: members)).toList ++ '\x7d' :: r)) := by
        rw [compactMembers_cons]
        simp [String.toList_append]
      have hlength : (compactMembers ((k, x) :: m :: members)).toList.length =
          (writeString k).length + 2 + x.compact.toList.length + 2 + (compactMembers (m :: members)).toList.length := by
        have hall := congrArg List.length htext
        simp only [List.length_append, List.length_cons, String.length_toList] at hall ⊢
        omega
      rw [hlength] at hfuel ⊢
      have hrest := ih (List.cons_ne_nil _ _) (fun v hv => h v (List.mem_cons_of_mem _ hv)) fuel
        (offset + ((writeString k).length + 2 + x.compact.toList.length) + 2) (by omega)
      have hread := readMembers_key fuel k hx
        (r := ',' :: ' ' :: ((compactMembers (m :: members)).toList ++ '\x7d' :: r)) (by rintro _ ⟨⟩; decide) offset
        (by omega)
      have htight := ((starts_compactMembers m members).append ('\x7d' :: r)).tight
      rw [htext, hread]
      dsimp only
      rw [htight.skip_mark, hrest]
      simp only [Nat.add_assoc]
      rfl

theorem readValue_items (h : Starts t) (fuel offset : Nat) :
    readValue digits (fuel + 1) (levels + 1) ⟨'[' :: t, offset⟩ =
      (readItems digits fuel levels ⟨t, offset + 1⟩).map fun x => (.arr x.1, x.2) := by
  have hskip : ((Place.mk ('[' :: t) offset).skip 1).skipSpace = ⟨t, offset + 1⟩ := h.tight.skipSpace _
  obtain ⟨c, s, rfl, -, hc, -⟩ := h
  rw [readValue.eq_4 _ _ _ _ _ rfl, hskip]
  dsimp only
  split
  · next heq => exact absurd (List.cons.inj heq).1 hc
  · rfl

theorem readValue_members (h : Starts t) (fuel offset : Nat) :
    readValue digits (fuel + 1) (levels + 1) ⟨'\x7b' :: t, offset⟩ =
      (readMembers digits fuel levels ⟨t, offset + 1⟩).map fun x => (.obj (ofMembers x.1), x.2) := by
  have hskip : ((Place.mk ('\x7b' :: t) offset).skip 1).skipSpace = ⟨t, offset + 1⟩ := h.tight.skipSpace _
  obtain ⟨c, s, rfl, -, -, hc⟩ := h
  rw [readValue.eq_6 _ _ _ _ _ rfl, hskip]
  dsimp only
  split
  · next heq => exact absurd (List.cons.inj heq).1 hc
  · rfl

theorem reads_arr {items : List Json} (h : ∀ v ∈ items, Reads digits levels v v.compact.toList) :
    Reads digits (levels + 1) (.arr items) (Json.arr items).compact.toList := by
  have htext : (Json.arr items).compact.toList = '[' :: ((compactItems items).toList ++ [']']) := by
    rw [compact, String.toList_append, String.toList_append]
    rfl
  have hprint := printable_compactItems fun v hv => (h v hv).printable
  rw [htext]
  refine ⟨⟨_, _, rfl, by decide⟩, Printable.append (t := ['[']) (by decide) (hprint.append (by decide)),
    fun fuel r offset hfuel _ => ?_⟩
  simp only [List.length_cons, List.length_append, List.length_nil] at hfuel ⊢
  obtain ⟨fuel, rfl⟩ : ∃ k, fuel = k + 1 := ⟨fuel - 1, by omega⟩
  cases items with
  | nil => rfl
  | cons x items =>
    have hstarts := (starts_compactItems (h x List.mem_cons_self).starts items).append (']' :: r)
    rw [List.cons_append, List.append_assoc, List.singleton_append, readValue_items hstarts,
      readItems_compact (List.cons_ne_nil x items) h fuel r (offset + 1) (by omega)]
    simp only [Nat.add_assoc, Nat.add_comm 1]
    rfl

theorem reads_obj {members : List (String × Json)} (hkeys : (members.map Prod.fst).Nodup)
    (h : ∀ m ∈ members, Reads digits levels m.2 m.2.compact.toList) :
    Reads digits (levels + 1) (.obj members) (Json.obj members).compact.toList := by
  have htext : (Json.obj members).compact.toList = '\x7b' :: ((compactMembers members).toList ++ ['\x7d']) := by
    rw [compact, String.toList_append, String.toList_append]
    rfl
  have hprint := printable_compactMembers fun m hm => (h m hm).printable
  rw [htext]
  refine ⟨⟨_, _, rfl, by decide⟩, Printable.append (t := ['\x7b']) (by decide) (hprint.append (by decide)),
    fun fuel r offset hfuel _ => ?_⟩
  simp only [List.length_cons, List.length_append, List.length_nil] at hfuel ⊢
  obtain ⟨fuel, rfl⟩ : ∃ k, fuel = k + 1 := ⟨fuel - 1, by omega⟩
  cases members with
  | nil => rfl
  | cons m members =>
    have hstarts := (starts_compactMembers m members).append ('\x7d' :: r)
    rw [List.cons_append, List.append_assoc, List.singleton_append, readValue_members hstarts,
      readMembers_compact (List.cons_ne_nil m members) h fuel r (offset + 1) (by omega)]
    change Except.ok (obj (ofMembers (m :: members)), _) = _
    rw [ofMembers_of_nodup hkeys]
    simp only [Nat.add_assoc, Nat.add_comm 1]

/-- A value is written so that it is read back. -/
theorem Fits.reads (h : Fits digits levels v) : Reads digits levels v v.compact.toList := by
  -- a container has a level more than what lies in it
  induction h with
  | null => exact reads_word (w := "null") rfl (by decide) (by decide) (by decide) fun r => rfl
  | bool b =>
    cases b with
    | true => exact reads_word (w := "true") rfl (by decide) (by decide) (by decide) fun r => rfl
    | false => exact reads_word (w := "false") rfl (by decide) (by decide) (by decide) fun r => rfl
  | int h => exact reads_int h
  | float h =>
    rw [compact, writeFloat, h]
    exact reads_float h
  | str s => exact reads_str s
  | arr _ ih => exact reads_arr ih
  | obj hkeys _ ih => exact reads_obj hkeys ih

/-- A reader with room for a value reads what was written of it. -/
theorem parseWithin_compact {limits : Limits} (h : Fits limits.digits limits.levels v) :
    parseWithin limits v.compact.toList = .ok v := by
  have hreads := h.reads
  have hread := hreads.read (2 * v.compact.toList.length + 2) (r := []) 0 (by omega) nofun
  have hmark : ∀ r, v.compact.toList ≠ '\uFEFF' :: r := fun r heq =>
    absurd (hreads.printable '\uFEFF' (heq ▸ List.mem_cons_self)).2 (by decide)
  rw [List.append_nil] at hread
  rw [parseWithin]
  · rw [hreads.starts.tight.skipSpace, hread]
    rfl
  · exact hmark

/-- A value without infinities and with each key once in an object: what JSON can say. -/
inductive Proper : Json → Prop
  | null : Proper .null
  | bool (b : Bool) : Proper (.bool b)
  | int (i : Int) : Proper (.int i)
  | float {x : Float} {p : FloatParts} : classify x = .finite p → Proper (.float x)
  | str (s : String) : Proper (.str s)
  | arr {items : List Json} : (∀ v ∈ items, Proper v) → Proper (.arr items)
  | obj {members : List (String × Json)} : (members.map Prod.fst).Nodup → (∀ m ∈ members, Proper m.2) →
      Proper (.obj members)

theorem Fits.mono (h : Fits digits levels v) {digits' levels' : Nat} (hdigits : digits ≤ digits')
    (hlevels : levels ≤ levels') :
    Fits digits' levels' v := by
  induction h generalizing levels' with
  | null => exact .null
  | bool b => exact .bool b
  | int h => exact .int (h.trans hdigits)
  | float h => exact .float h
  | str s => exact .str s
  | arr _ ih =>
    obtain ⟨l, rfl⟩ : ∃ l, levels' = l + 1 := ⟨levels' - 1, by omega⟩
    exact .arr fun v hv => ih v hv (by omega)
  | obj hkeys _ ih =>
    obtain ⟨l, rfl⟩ : ∃ l, levels' = l + 1 := ⟨levels' - 1, by omega⟩
    exact .obj hkeys fun m hm => ih m hm (by omega)

theorem exists_fits_all {α : Type} {f : α → Json} {items : List α}
    (h : ∀ x ∈ items, ∃ digits levels, Fits digits levels (f x)) :
    ∃ digits levels, ∀ x ∈ items, Fits digits levels (f x) := by
  induction items with
  | nil => exact ⟨0, 0, nofun⟩
  | cons x items ih =>
    obtain ⟨digits, levels, hx⟩ := h x List.mem_cons_self
    obtain ⟨digits', levels', hrest⟩ := ih fun y hy => h y (List.mem_cons_of_mem x hy)
    exact ⟨max digits digits', max levels levels', List.forall_mem_cons.2
      ⟨hx.mono (Nat.le_max_left ..) (Nat.le_max_left ..),
        fun y hy => (hrest y hy).mono (Nat.le_max_right ..) (Nat.le_max_right ..)⟩⟩

/-- With room enough it fits. -/
theorem Proper.exists_fits (h : Proper v) : ∃ digits levels, Fits digits levels v := by
  induction h with
  | null => exact ⟨0, 0, .null⟩
  | bool b => exact ⟨0, 0, .bool b⟩
  | int i => exact ⟨_, 0, .int (Nat.le_refl _)⟩
  | float h => exact ⟨0, 0, .float h⟩
  | str s => exact ⟨0, 0, .str s⟩
  | arr _ ih =>
    obtain ⟨digits, levels, hall⟩ := exists_fits_all (f := id) ih
    exact ⟨digits, levels + 1, .arr hall⟩
  | obj hkeys _ ih =>
    obtain ⟨digits, levels, hall⟩ := exists_fits_all (f := Prod.snd) ih
    exact ⟨digits, levels + 1, .obj hkeys hall⟩

/-- A reader with room enough reads a text as a value, and so does every reader with more. -/
def Decodes (t : Text) (v : Json) : Prop :=
  ∃ room : Limits, ∀ limits : Limits, room.digits ≤ limits.digits → room.levels ≤ limits.levels →
    parseWithin limits t = .ok v

theorem Decodes.unique {w : Json} (hv : Decodes t v) (hw : Decodes t w) : v = w := by
  obtain ⟨room, hv⟩ := hv
  obtain ⟨room', hw⟩ := hw
  have h := hv ⟨max room.levels room'.levels, max room.digits room'.digits⟩ (Nat.le_max_left ..) (Nat.le_max_left ..)
  rw [hw _ (Nat.le_max_right ..) (Nat.le_max_right ..)] at h
  exact (Except.ok.inj h).symm

theorem Proper.decodes_compact (h : Proper v) : Decodes v.compact.toList v := by
  obtain ⟨digits, levels, hfits⟩ := h.exists_fits
  exact ⟨⟨levels, digits⟩, fun limits hdigits hlevels => parseWithin_compact (hfits.mono hdigits hlevels)⟩

theorem Proper.printable_compact (h : Proper v) : Printable v.compact.toList := by
  obtain ⟨digits, levels, hfits⟩ := h.exists_fits
  exact hfits.reads.printable

end Values
end Proofreader.Json
