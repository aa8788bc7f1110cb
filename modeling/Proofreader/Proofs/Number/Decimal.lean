import Proofreader.Number.Reading
import Proofreader.Number.Shortest
import Proofreader.Proofs.Number.Rounding
import Proofreader.Proofs.Text.Basic

/-! Decimal text of floats. A text is read as the float nearest to the number that it writes, and of the text that is
written for a float, this is the float itself. -/

namespace Proofreader

open Rounding

namespace Rounding

open Float.Model Float.Model.UnpackedFloat

variable {v : ℚ} {m : Nat} {e : Int}

/-! ### Decimal numbers -/

/-- A whole number with as many digits as a float has is a float. -/
theorem exists_canonical_nat {n : Nat} (hn : n < 2 ^ 53) (hpos : 0 < n) :
    ∃ m e, Canonical m e ∧ 2 ^ 52 ≤ m ∧ e ≤ 971 ∧ (m : ℚ) * 2 ^ e = n := by
  obtain ⟨m, e, hme, hvalue⟩ := exists_canonical (e := 0) hpos hn (by omega)
  rw [zpow_zero, mul_one] at hvalue
  have hone : (1 : ℚ) ≤ m * 2 ^ e := by
    rw [hvalue]
    exact_mod_cast hpos
  have hm : (m : ℚ) < 2 ^ 53 := by exact_mod_cast hme.lt
  have hnormal : 2 ^ 52 ≤ m := by
    refine hme.normal.resolve_right fun he => ?_
    have hsmall : (2 : ℚ) ^ e ≤ 2 ^ (-53 : Int) := zpow_le_zpow_right₀ one_le_two (by omega)
    have hless : (m : ℚ) * 2 ^ e < 2 ^ 53 * 2 ^ (-53 : Int) := by
      have := two_zpow_pos e
      nlinarith
    norm_num at hless
    linarith
  refine ⟨m, e, hme, hnormal, ?_, hvalue⟩
  by_contra he
  have hlarge : (2 : ℚ) ^ (1 : Int) ≤ 2 ^ e := zpow_le_zpow_right₀ one_le_two (by omega)
  have hm' : (2 : ℚ) ^ 52 ≤ m := by exact_mod_cast hnormal
  have hn' : (n : ℚ) < 2 ^ 53 := by exact_mod_cast hn
  norm_num at hlarge
  nlinarith

theorem Rounds.pos (h : Rounds v m e) : 0 < v := by
  have hm : (1 : ℚ) ≤ m := by exact_mod_cast h.canonical.pos
  exact lt_of_lt_of_le (mul_pos (by linarith) (two_zpow_pos e)) h.low

theorem round_exact (s : Sign) {n : Nat} (h : Rounds n m e) :
    UnpackedFloat.round Format.binary64 s n 0 = .finite s m e h.canonical.pos := by
  obtain ⟨k, hk⟩ : ∃ k, k = (0 - Format.binary64.targetExponent (totalExponent n 0)).toNat := ⟨_, rfl⟩
  have hround : UnpackedFloat.round Format.binary64 s n 0 =
      roundWithAccuracy Format.binary64 s (n <<< k) (0 - k) .exact := by rw [hk]; rfl
  have hpos : n ≠ 0 := by exact_mod_cast h.pos.ne'
  have hvalue : (n : ℚ) = ((n <<< k : Nat) : ℚ) * 2 ^ (0 - k : Int) := by
    rw [Nat.shiftLeft_eq, zero_sub, zpow_neg, zpow_natCast]
    push_cast
    field_simp
  rw [hround]
  have hlog : (n <<< k).log2 = n.log2 + k := by
    rw [Nat.shiftLeft_eq, Nat.log2_eq_iff (Nat.mul_pos (Nat.pos_of_ne_zero hpos) (Nat.two_pow_pos k)).ne']
    rw [Nat.pow_add, Nat.add_right_comm, Nat.pow_add _ (n.log2 + 1)]
    exact ⟨Nat.mul_le_mul_right _ (Nat.log2_self_le hpos), Nat.mul_lt_mul_of_pos_right Nat.lt_log2_self (Nat.two_pow_pos k)⟩
  have htarget : (0 - k : Int) ≤ Format.binary64.targetExponent (totalExponent (n <<< k) (0 - k)) := by
    rw [targetExponent_eq, totalExponent] at hk ⊢
    omega
  exact roundWithAccuracy_eq s (holds_exact _) htarget (hvalue ▸ h)

/-- A whole number with as many digits as a float has is a float. -/
theorem classify_toFloat {n : Nat} (hn : n < 2 ^ 53) (hpos : 0 < n) :
    ∃ p, classify n.toUInt64.toFloat = .finite p ∧ 2 ^ 52 ≤ p.significand ∧ p.negative = false ∧ p.magnitude = n := by
  obtain ⟨m, e, hme, hnormal, he, hvalue⟩ := exists_canonical_nat hn hpos
  have hround : UnpackedFloat.normalize Format.binary64 n 0 .positive = .finite .positive m e hme.pos := by
    have hgt : compare (n : Int) 0 = .gt := compare_gt_iff_gt.2 (by omega)
    rw [UnpackedFloat.normalize, hgt]
    exact round_exact .positive (hvalue ▸ hme.rounds)
  have hbits : n.toUInt64.toNat = n := by
    rw [Nat.toUInt64_eq, UInt64.toNat_ofNat']
    omega
  refine ⟨partsFor false m e, ?_, hnormal, rfl, hvalue⟩
  change classify (.ofModel (.pack (UnpackedFloat.normalize Format.binary64 n.toUInt64.toNat 0 .positive))) = _
  rw [hbits, hround, hme.classify_pack, if_pos he]
  rfl

/-- What a float has to be to be a power of ten. -/
def isTen (k : Nat) (x : Float) : Bool :=
  match classify x with
  | .finite p => !p.negative && decide (2 ^ 52 ≤ p.significand) &&
      decide (p.significand * 2 ^ p.exponent.toNat = 10 ^ k * 2 ^ (-p.exponent).toNat)
  | _ => false

theorem isTen_table (k : Fin 23) : isTen k Float.exactlyRepresentablePowersOfTen[k] = true := by
  revert k
  decide +kernel

theorem exists_of_isTen {k : Nat} {x : Float} (h : isTen k x = true) :
    ∃ p, classify x = .finite p ∧ 2 ^ 52 ≤ p.significand ∧ p.negative = false ∧ p.magnitude = 10 ^ k := by
  unfold isTen at h
  split at h
  · next p hp =>
    rw [Bool.and_eq_true, Bool.and_eq_true, decide_eq_true_iff, decide_eq_true_iff] at h
    obtain ⟨⟨hsign, hlong⟩, hvalue⟩ := h
    refine ⟨p, hp, hlong, by simpa using hsign, ?_⟩
    have hvalue : (p.significand : ℚ) * 2 ^ p.exponent.toNat = 10 ^ k * 2 ^ (-p.exponent).toNat := by exact_mod_cast hvalue
    have hpower : (2 : ℚ) ^ p.exponent = 2 ^ p.exponent.toNat / 2 ^ (-p.exponent).toNat := by
      rw [← zpow_natCast, ← zpow_natCast, ← zpow_sub₀ two_ne_zero]
      congr 1
      omega
    rw [FloatParts.magnitude, hpower, ← mul_div_assoc, hvalue]
    field_simp
  · cases h

/-- Numbers that floats round to are not far outside their range. -/
theorem Rounds.lt_of_le (h : Rounds v m e) (he : e ≤ 971) : v < 2 ^ 1024 := by
  have hm : (m : ℚ) + 1 ≤ 2 ^ 53 := by exact_mod_cast h.canonical.lt
  have hpower : (2 : ℚ) ^ e ≤ 2 ^ 971 := by
    rw [← zpow_natCast (2 : ℚ) 971]
    exact zpow_le_zpow_right₀ one_le_two he
  calc v ≤ (m + 1 / 2) * 2 ^ e := h.high
    _ < (m + 1) * 2 ^ e := mul_lt_mul_of_pos_right (by linarith) (two_zpow_pos e)
    _ ≤ 2 ^ 53 * 2 ^ 971 := mul_le_mul hm hpower (two_zpow_pos e).le (by positivity)
    _ = 2 ^ 1024 := (pow_add 2 53 971).symm

theorem Rounds.le (h : Rounds v m e) : (2 : ℚ) ^ (-1075 : Int) ≤ v := by
  have hm : (1 : ℚ) ≤ m := by exact_mod_cast h.canonical.pos
  have hpower : (2 : ℚ) ^ (-1074 : Int) ≤ 2 ^ e := zpow_le_zpow_right₀ one_le_two h.canonical.least
  calc (2 : ℚ) ^ (-1075 : Int) = 1 / 2 * 2 ^ (-1074 : Int) := by
        rw [show (-1074 : Int) = -1075 + 1 by omega, zpow_add_one₀ two_ne_zero]
        ring
    _ ≤ (m - 1 / 2) * 2 ^ e := mul_le_mul (by linarith) hpower (two_zpow_pos _).le (by linarith)
    _ ≤ v := h.low

theorem ten_zpow_pos (k : Int) : (0 : ℚ) < 10 ^ k := zpow_pos (by norm_num) k

/-- Ten has three binary digits and more. -/
theorem two_zpow_le_ten_zpow {i j : Int} (hi : i ≤ 3 * j) (hj : 0 ≤ j) : (2 : ℚ) ^ i ≤ 10 ^ j := by
  calc (2 : ℚ) ^ i ≤ 2 ^ (3 * j) := zpow_le_zpow_right₀ one_le_two hi
    _ = 8 ^ j := by
      rw [zpow_mul]
      norm_num
    _ ≤ 10 ^ j := zpow_le_zpow_left₀ hj (by norm_num) (by norm_num)

theorem ten_zpow_le_two_zpow {i j : Int} (hi : 3 * j ≤ i) (hj : j ≤ 0) : (10 : ℚ) ^ j ≤ 2 ^ i := by
  have h := two_zpow_le_ten_zpow (i := -i) (j := -j) (by omega) (by omega)
  rw [zpow_neg, zpow_neg] at h
  exact (inv_le_inv₀ (two_zpow_pos i) (ten_zpow_pos j)).1 h

/-- The powers of ten around a number. -/
theorem length_toDigits_bounds {d : Nat} (hd : 0 < d) :
    10 ^ ((Nat.toDigits 10 d).length - 1) ≤ d ∧ d < 10 ^ (Nat.toDigits 10 d).length := by
  have hlength := Nat.length_toDigits_pos (b := 10) (n := d)
  refine ⟨?_, (Nat.length_toDigits_le_iff (by decide) hlength).1 (Nat.le_refl _)⟩
  by_contra hless
  by_cases hone : (Nat.toDigits 10 d).length - 1 = 0
  · rw [hone] at hless
    omega
  · have := (Nat.length_toDigits_le_iff (by decide) (Nat.pos_of_ne_zero hone)).2 (Nat.lt_of_not_le hless)
    omega

/-- A decimal number in the range of floats is not written with a power far outside it. -/
theorem power_bounds {d : Nat} {k : Int} (hd : 0 < d) (h : Rounds (d * 10 ^ k) m e) (he : e ≤ 971) :
    -400 ≤ ((Nat.toDigits 10 d).length : Int) + k ∧ ((Nat.toDigits 10 d).length : Int) + k ≤ 400 ∧
      -(2048 + (d.log2 : Int)) ≤ k := by
  obtain ⟨hlow, hhigh⟩ := length_toDigits_bounds hd
  have hlength := Nat.length_toDigits_pos (b := 10) (n := d)
  generalize (Nat.toDigits 10 d).length = n at hlow hhigh hlength
  have hmost := h.lt_of_le he
  have hleast := h.le
  have hk := ten_zpow_pos k
  refine ⟨?_, ?_, ?_⟩
  · by_contra hfar
    have hd' : (d : ℚ) < 10 ^ (n : Int) := by exact_mod_cast hhigh
    have hsmall : (d : ℚ) * 10 ^ k < 2 ^ (-1075 : Int) := by
      calc (d : ℚ) * 10 ^ k < 10 ^ (n : Int) * 10 ^ k := mul_lt_mul_of_pos_right hd' hk
        _ = 10 ^ ((n : Int) + k) := (zpow_add₀ (by norm_num) _ _).symm
        _ ≤ 2 ^ (-1075 : Int) := ten_zpow_le_two_zpow (by omega) (by omega)
    exact absurd hleast hsmall.not_ge
  · by_contra hfar
    have hd' : (10 : ℚ) ^ ((n - 1 : Nat) : Int) ≤ d := by exact_mod_cast hlow
    have hlarge : (2 : ℚ) ^ (1024 : Int) ≤ d * 10 ^ k := by
      calc (2 : ℚ) ^ (1024 : Int) ≤ 10 ^ (((n - 1 : Nat) : Int) + k) := two_zpow_le_ten_zpow (by omega) (by omega)
        _ = 10 ^ ((n - 1 : Nat) : Int) * 10 ^ k := zpow_add₀ (by norm_num) _ _
        _ ≤ d * 10 ^ k := mul_le_mul_of_nonneg_right hd' hk.le
    exact absurd hlarge (by exact_mod_cast hmost.not_ge)
  · by_contra hfar
    have hd' : (d : ℚ) < 2 ^ ((d.log2 : Int) + 1) := by exact_mod_cast Nat.lt_log2_self (n := d)
    have hsmall : (d : ℚ) * 10 ^ k < 2 ^ (-1075 : Int) := by
      calc (d : ℚ) * 10 ^ k < 2 ^ ((d.log2 : Int) + 1) * 10 ^ k := mul_lt_mul_of_pos_right hd' hk
        _ ≤ 2 ^ ((d.log2 : Int) + 1) * 2 ^ k :=
          mul_le_mul_of_nonneg_left (ten_zpow_le_two_zpow (by omega) (by omega)) (two_zpow_pos _).le
        _ = 2 ^ ((d.log2 : Int) + 1 + k) := (zpow_add₀ two_ne_zero _ _).symm
        _ ≤ 2 ^ (-1075 : Int) := zpow_le_zpow_right₀ one_le_two (by omega)
    exact absurd hleast hsmall.not_ge

/-- Both ways to make a float of a decimal number round the exact one. -/
theorem ofScientific_eq {d : Nat} {k : Int} (hd : 0 < d) (hk : k ≤ 400) (hk' : -(2048 + (d.log2 : Int)) ≤ k)
    (h : Rounds (d * 10 ^ k) m e) :
    UnpackedFloat.ofScientific Format.binary64 d k = .finite .positive m e h.canonical.pos := by
  have hhigh : ¬ k > 2 ^ Format.binary64.exponentBits := by
    change ¬ k > 2 ^ 11
    omega
  have hlow : ¬ k < -((2 ^ Format.binary64.exponentBits : Int) + d.log2) := by
    change ¬ k < -((2 ^ 11 : Int) + d.log2)
    omega
  refine (dif_neg hd.ne').trans ((if_neg hhigh).trans ((if_neg hlow).trans ?_))
  by_cases hpos : 0 ≤ k
  · refine (if_pos hpos).trans ?_
    have hlong : 2 ^ 53 ≤ d <<< 53 * 10 ^ k.toNat := by
      rw [Nat.shiftLeft_eq]
      exact Nat.le_mul_of_pos_right _ (Nat.pow_pos (by decide)) |>.trans' (Nat.le_mul_of_pos_left _ hd)
    have htarget : (-53 + 0 : Int) ≤ Format.binary64.targetExponent (totalExponent (d <<< 53 * 10 ^ k.toNat) (-53 + 0)) := by
      have := (Nat.le_log2 (by omega)).2 hlong
      rw [targetExponent_eq, totalExponent]
      omega
    have hvalue : (d : ℚ) * 10 ^ k = ((d <<< 53 * 10 ^ k.toNat : Nat) : ℚ) * 2 ^ (-53 + 0 : Int) := by
      obtain ⟨n, rfl⟩ := Int.eq_ofNat_of_zero_le hpos
      rw [Nat.shiftLeft_eq]
      push_cast
      norm_num
      ring
    exact roundWithAccuracy_eq .positive (holds_exact _) htarget (hvalue ▸ h)
  · refine (if_neg hpos).trans ?_
    have hvalue : (d : ℚ) * 10 ^ k = d * 2 ^ (0 : Int) / (((10 ^ (-k).toNat : Nat) : ℚ) * 2 ^ (0 : Int)) := by
      obtain ⟨n, hn⟩ := Int.eq_ofNat_of_zero_le (a := -k) (by omega)
      obtain rfl : k = -n := by omega
      rw [zpow_neg, div_eq_mul_inv]
      push_cast
      norm_num
    exact roundWithAccuracy_div .positive hd (Nat.pow_pos (by decide)) (hvalue ▸ h)

theorem classify_ofScientific {d j : Nat} {k : Int} {s : Bool} (hk : k = if s then -(j : Int) else j) (hd : 0 < d)
    (hhigh : k ≤ 400) (hlow : -(2048 + (d.log2 : Int)) ≤ k) (h : Rounds (d * 10 ^ k) m e) (he : e ≤ 971) :
    classify (Float.ofScientific d s j) = .finite (partsFor false m e) := by
  by_cases hfast : d < 2 ^ 53 ∧ j ≤ 22
  · obtain ⟨p, hp, hlong, hsign, hvalue⟩ := classify_toFloat hfast.1 hd
    obtain ⟨q, hq, hlong', hsign', hvalue'⟩ := exists_of_isTen (isTen_table ⟨j, Nat.lt_succ_of_le hfast.2⟩)
    refine (congrArg classify (dif_pos hfast)).trans ?_
    cases s with
    | true =>
      have hexact : (d : ℚ) * 10 ^ k = p.magnitude / q.magnitude := by
        rw [hk, hvalue, hvalue', if_pos rfl, zpow_neg, zpow_natCast, div_eq_mul_inv]
      rw [hexact] at h
      refine (classify_div hp hq (by omega) (by omega) h).trans ?_
      rw [if_pos he, hsign, hsign']
      rfl
    | false =>
      have hexact : (d : ℚ) * 10 ^ k = p.magnitude * q.magnitude := by
        rw [hk, hvalue, hvalue', if_neg Bool.false_ne_true, zpow_natCast]
      rw [hexact] at h
      refine (classify_mul hp hq (hlong.trans (Nat.le_mul_of_pos_right _ (by omega))) h).trans ?_
      rw [if_pos he, hsign, hsign']
      rfl
  · have hpower : (if s then Int.negOfNat j else Int.ofNat j) = k := by
      rw [hk]
      cases s with
      | true => exact Int.negOfNat_eq
      | false => rfl
    refine (congrArg classify (dif_neg hfast)).trans ?_
    change classify (.ofModel (.pack (UnpackedFloat.ofScientific Format.binary64 d
      (if s then Int.negOfNat j else Int.ofNat j)))) = _
    rw [hpower, ofScientific_eq hd hhigh hlow h, h.canonical.classify_pack, if_pos he]
    rfl

/-- A decimal number is read as the float nearest to it. -/
theorem classify_floatOfDecimal {d : Nat} {k : Int} (h : Rounds (d * 10 ^ k) m e) (he : e ≤ 971) :
    classify (floatOfDecimal d k) = .finite (partsFor false m e) := by
  have hd : 0 < d := by
    refine Nat.pos_of_ne_zero ?_
    rintro rfl
    simpa using h.pos
  obtain ⟨hlow, hhigh, hleast⟩ := power_bounds hd h he
  have hlength := Nat.length_toDigits_pos (b := 10) (n := d)
  rw [floatOfDecimal, if_neg hd.ne']
  dsimp only
  rw [if_neg (by omega), if_neg (by omega)]
  by_cases hneg : k < 0
  · rw [if_pos hneg]
    exact classify_ofScientific (by rw [if_pos rfl]; omega) hd (by omega) hleast h he
  · rw [if_neg hneg]
    exact classify_ofScientific (by rw [if_neg Bool.false_ne_true]; omega) hd (by omega) hleast h he

end Rounding

/-! ### The fewest digits

The numbers nearest to a float lie in an interval around it. Whatever the search finds lies in it, and with seventeen
digits some number does. -/

namespace Shortest

/-- The numbers of an interval, without its denominator. -/
structure Interval.Spans (i : Interval) (low value high : ℚ) : Prop where
  pos : 0 < i.denominator
  low_eq : (i.low : ℚ) = low * i.denominator
  value_eq : (i.value : ℚ) = value * i.denominator
  high_eq : (i.high : ℚ) = high * i.denominator

variable {i : Interval} {low value high : ℚ} {n : Nat}

/-- How far the numbers below a float reach that are nearest to it. -/
def reachBelow (p : FloatParts) : ℚ := if p.binade then 1 / 4 else 1 / 2

theorem spans_interval {p : FloatParts} (hp : 0 < p.significand) : (interval p).Spans
    ((p.significand - reachBelow p) * 2 ^ p.exponent) (p.significand * 2 ^ p.exponent)
    ((p.significand + 1 / 2) * 2 ^ p.exponent) := by
  have hscale : (2 : ℚ) ^ (p.exponent - 2).toNat = 2 ^ p.exponent / 4 * 2 ^ (-(p.exponent - 2)).toNat := by
    have hfour : (2 : ℚ) ^ p.exponent / 4 = 2 ^ (p.exponent - 2) := by
      rw [zpow_sub₀ two_ne_zero]
      norm_num
    rw [hfour, ← zpow_natCast, ← zpow_natCast, ← zpow_add₀ two_ne_zero]
    congr 1
    omega
  have hlow : ((4 * p.significand - (if p.binade then 1 else 2) : Nat) : ℚ) = 4 * (p.significand - reachBelow p) := by
    rw [reachBelow]
    split
    · rw [Nat.cast_sub (by omega)]
      push_cast
      ring
    · rw [Nat.cast_sub (by omega)]
      push_cast
      ring
  refine ⟨Nat.pow_pos (by decide), ?_, ?_, ?_⟩
  · simp only [interval, Nat.pow_eq]
    rw [Nat.cast_mul, hlow]
    push_cast
    rw [hscale]
    ring
  · simp only [interval, Nat.pow_eq]
    push_cast
    rw [hscale]
    ring
  · simp only [interval, Nat.pow_eq]
    push_cast
    rw [hscale]
    ring

theorem Interval.Spans.inUnits (h : i.Spans low value high) (k : Int) :
    (i.inUnits k).Spans (low / 10 ^ k) (value / 10 ^ k) (high / 10 ^ k) := by
  have hup : (10 : ℚ) ^ (-k).toNat = 10 ^ k.toNat / 10 ^ k := by
    rw [← zpow_natCast, ← zpow_natCast, ← zpow_sub₀ (by norm_num)]
    congr 1
    omega
  refine ⟨Nat.mul_pos h.pos (Nat.pow_pos (by decide)), ?_, ?_, ?_⟩
  · simp only [Interval.inUnits, Nat.pow_eq]
    push_cast
    rw [hup, h.low_eq]
    ring
  · simp only [Interval.inUnits, Nat.pow_eq]
    push_cast
    rw [hup, h.value_eq]
    ring
  · simp only [Interval.inUnits, Nat.pow_eq]
    push_cast
    rw [hup, h.high_eq]
    ring

theorem Interval.Spans.holds_iff (h : i.Spans low value high) :
    i.holds n = true ↔ if i.closed then low ≤ n ∧ (n : ℚ) ≤ high else low < n ∧ (n : ℚ) < high := by
  have hpos : (0 : ℚ) < i.denominator := by exact_mod_cast h.pos
  have hlow : i.low ≤ n * i.denominator ↔ low ≤ n := by
    rw [← mul_le_mul_iff_of_pos_right hpos, ← h.low_eq]
    norm_cast
  have hhigh : n * i.denominator ≤ i.high ↔ (n : ℚ) ≤ high := by
    rw [← mul_le_mul_iff_of_pos_right hpos, ← h.high_eq]
    norm_cast
  have hlow' : i.low < n * i.denominator ↔ low < n := by
    rw [← mul_lt_mul_iff_of_pos_right hpos, ← h.low_eq]
    norm_cast
  have hhigh' : n * i.denominator < i.high ↔ (n : ℚ) < high := by
    rw [← mul_lt_mul_iff_of_pos_right hpos, ← h.high_eq]
    norm_cast
  unfold Interval.holds
  split <;> simp [hlow, hhigh, hlow', hhigh']

theorem Interval.holds_of_neighbour? (h : i.neighbour? = some n) : i.holds n = true ∧ 0 < n := by
  rw [neighbour?] at h
  dsimp only at h
  split at h
  · next hbelow habove =>
    rw [Bool.and_eq_true, decide_eq_true_iff] at hbelow
    split at h
    · cases h
      exact hbelow
    · cases h
      exact ⟨habove, Nat.succ_pos _⟩
  · next hbelow habove =>
    rw [Bool.and_eq_true, decide_eq_true_iff] at hbelow
    cases h
    exact hbelow
  · next hbelow habove =>
    cases h
    exact ⟨habove, Nat.succ_pos _⟩
  · cases h

theorem Interval.not_holds_of_neighbour? (h : i.neighbour? = none) (hpos : 0 < i.value / i.denominator) :
    i.holds (i.value / i.denominator) = false ∧ i.holds (i.value / i.denominator + 1) = false := by
  rw [neighbour?] at h
  dsimp only at h
  split at h
  · split at h <;> cases h
  · cases h
  · cases h
  · next hbelow habove =>
    rw [decide_eq_true hpos, Bool.and_true] at hbelow
    exact ⟨hbelow, habove⟩

/-- An interval that is wider than one holds one of the whole numbers around its value. -/
theorem Interval.Spans.isSome_neighbour? (h : i.Spans low value high) (hlow : low < value) (hhigh : value < high)
    (hvalue : 1 ≤ value) (hwide : 1 < high - low) : i.neighbour?.isSome = true := by
  have hpos : (0 : ℚ) < i.denominator := by exact_mod_cast h.pos
  have hdiv : ((i.value / i.denominator : Nat) : ℚ) ≤ value ∧ value < (i.value / i.denominator + 1 : Nat) := by
    constructor
    · refine le_of_mul_le_mul_right ?_ hpos
      rw [← h.value_eq]
      exact_mod_cast Nat.div_mul_le_self _ _
    · refine lt_of_mul_lt_mul_right ?_ hpos.le
      rw [← h.value_eq]
      exact_mod_cast Nat.lt_mul_of_div_lt (Nat.lt_succ_self _) h.pos
  obtain ⟨hbelow, habove⟩ := hdiv
  by_contra hnone
  rw [Bool.not_eq_true, Option.isSome_eq_false_iff, Option.isNone_iff_eq_none] at hnone
  have hwhole : 0 < i.value / i.denominator := by
    have : (1 : ℚ) < (i.value / i.denominator + 1 : Nat) := hvalue.trans_lt habove
    have : 1 < i.value / i.denominator + 1 := by exact_mod_cast this
    omega
  obtain ⟨hno, hno'⟩ := Interval.not_holds_of_neighbour? hnone hwhole
  rw [Bool.eq_false_iff, Ne, h.holds_iff] at hno hno'
  push_cast at habove hno'
  split at hno
  · next hclosed =>
    rw [if_pos hclosed] at hno'
    have hout : ((i.value / i.denominator : Nat) : ℚ) < low := lt_of_not_ge fun hle => hno ⟨hle, (hbelow.trans_lt hhigh).le⟩
    have hout' : high < ((i.value / i.denominator : Nat) : ℚ) + 1 :=
      lt_of_not_ge fun hle => hno' ⟨(hlow.trans habove).le, hle⟩
    linarith
  · next hopen =>
    rw [if_neg hopen] at hno'
    have hout : ((i.value / i.denominator : Nat) : ℚ) ≤ low := le_of_not_gt fun hlt => hno ⟨hlt, hbelow.trans_lt hhigh⟩
    have hout' : high ≤ ((i.value / i.denominator : Nat) : ℚ) + 1 :=
      le_of_not_gt fun hlt => hno' ⟨hlow.trans habove, hlt⟩
    linarith

/-- The search ends with a neighbour if any of its grids has one. -/
theorem neighbour?_search {lead : Int} {fuel count : Nat}
    (h : ∃ j, j < fuel ∧ (i.inUnits (lead - (count + j : Nat) + 1)).neighbour?.isSome = true) :
    (i.inUnits (search i lead fuel count).power).neighbour? = some (search i lead fuel count).digits := by
  induction fuel generalizing count with
  | zero =>
    obtain ⟨j, hj, -⟩ := h
    omega
  | succ fuel ih =>
    rw [search]
    cases hfound : (i.inUnits (lead - (count : Int) + 1)).neighbour? with
    | some n => exact hfound
    | none =>
      refine ih ?_
      obtain ⟨j, hj, hsome⟩ := h
      cases j with
      | zero =>
        rw [Nat.add_zero, hfound] at hsome
        cases hsome
      | succ j => exact ⟨j, Nat.lt_of_succ_lt_succ hj, by rwa [Nat.add_right_comm, Nat.add_assoc]⟩

/-- The leading digit of a number stands for no more than the number. -/
theorem ten_zpow_leadingPower_le (h : i.Spans low value high) (hvalue : 0 < i.value) :
    (10 : ℚ) ^ leadingPower i ≤ value := by
  have hpos : (0 : ℚ) < i.denominator := by exact_mod_cast h.pos
  refine le_of_mul_le_mul_right ?_ hpos
  rw [← h.value_eq, leadingPower]
  dsimp only
  split
  · next hwhole =>
    have hlow := (length_toDigits_bounds hwhole).1
    have hlength := Nat.length_toDigits_pos (b := 10) (n := i.value / i.denominator)
    rw [digitCount, show ((Nat.toDigits 10 (i.value / i.denominator)).length : Int) - 1 =
      ((Nat.toDigits 10 (i.value / i.denominator)).length - 1 : Nat) by omega, zpow_natCast]
    have := Nat.mul_le_of_le_div _ _ _ hlow
    exact_mod_cast this
  · next hwhole =>
    have hinverse : 0 < (i.denominator + i.value - 1) / i.value :=
      Nat.div_pos (by have := h.pos; omega) hvalue
    have hhigh := (length_toDigits_bounds hinverse).2
    have hlength := Nat.length_toDigits_pos (b := 10) (n := (i.denominator + i.value - 1) / i.value)
    rw [digitCount]
    generalize (Nat.toDigits 10 ((i.denominator + i.value - 1) / i.value)).length = k at hhigh hlength
    split
    · next hle =>
      rw [show (1 : Int) - k = -((k - 1 : Nat) : Int) by omega, zpow_neg, zpow_natCast, inv_mul_le_iff₀ (by positivity)]
      rw [Nat.pow_eq, Nat.mul_comm] at hle
      exact_mod_cast hle
    · rw [zpow_neg, zpow_natCast, inv_mul_le_iff₀ (by positivity)]
      have hceil : i.denominator ≤ i.value * ((i.denominator + i.value - 1) / i.value) := by
        have := Nat.lt_mul_div_succ (i.denominator + i.value - 1) hvalue
        rw [Nat.mul_add] at this
        omega
      have : i.denominator ≤ 10 ^ k * i.value := by
        rw [Nat.mul_comm]
        exact hceil.trans (Nat.mul_le_mul_left _ hhigh.le)
      exact_mod_cast this

theorem reachBelow_pos (p : FloatParts) : 0 < reachBelow p := by
  unfold reachBelow
  split <;> norm_num

/-- With seventeen digits there is a number in the interval. -/
theorem isSome_neighbour?_interval {negative : Bool} {m : Nat} {e k : Int} (h : Canonical m e)
    (hk : (10 : ℚ) ^ (k + 16) ≤ m * 2 ^ e) :
    ((interval (partsFor negative m e)).inUnits k).neighbour?.isSome = true := by
  have hspans := (spans_interval (p := partsFor negative m e) h.pos).inUnits k
  have hten := ten_zpow_pos k
  have htwo := two_zpow_pos e
  have hreach := reachBelow_pos (partsFor negative m e)
  have hlead : (10 : ℚ) ^ 16 * 10 ^ k ≤ m * 2 ^ e := by
    rw [add_comm, zpow_add₀ (by norm_num)] at hk
    exact_mod_cast hk
  change Interval.Spans _ ((m - reachBelow (partsFor negative m e)) * 2 ^ e / 10 ^ k) (m * 2 ^ e / 10 ^ k)
    ((m + 1 / 2) * 2 ^ e / 10 ^ k) at hspans
  refine hspans.isSome_neighbour? ?_ ?_ ?_ ?_
  · exact div_lt_div_of_pos_right (mul_lt_mul_of_pos_right (by linarith) htwo) hten
  · exact div_lt_div_of_pos_right (mul_lt_mul_of_pos_right (by linarith) htwo) hten
  · rw [le_div_iff₀ hten]
    linarith
  · rw [← sub_div, lt_div_iff₀ hten, ← sub_mul]
    have hm : (m : ℚ) ≤ 2 ^ 53 := by exact_mod_cast h.lt.le
    unfold reachBelow
    split
    · next hbinade =>
      have hm : m = 2 ^ 52 := by
        simp only [partsFor, Bool.and_eq_true, decide_eq_true_iff] at hbinade
        exact hbinade.1
      rw [hm] at hlead ⊢
      push_cast at hlead ⊢
      linarith
    · have := mul_le_mul_of_nonneg_right hm htwo.le
      linarith

/-- Of all numbers with as few digits, the float is the one nearest to what is written for it. -/
theorem rounds_decimal (negative : Bool) {m : Nat} {e : Int} (h : Canonical m e) :
    Rounds ((decimal (partsFor negative m e)).digits * 10 ^ (decimal (partsFor negative m e)).power) m e := by
  have hspans : (interval (partsFor negative m e)).Spans ((m - reachBelow (partsFor negative m e)) * 2 ^ e) (m * 2 ^ e)
    ((m + 1 / 2) * 2 ^ e) := spans_interval h.pos
  have htwo := two_zpow_pos e
  have hvalue : 0 < (interval (partsFor negative m e)).value :=
    Nat.mul_pos (Nat.mul_pos (by decide) h.pos) (Nat.pow_pos (by decide))
  have hlead := ten_zpow_leadingPower_le hspans hvalue
  have hfound : ((interval (partsFor negative m e)).inUnits (decimal (partsFor negative m e)).power).neighbour? =
      some (decimal (partsFor negative m e)).digits := by
    refine neighbour?_search ⟨16, by decide, isSome_neighbour?_interval h ?_⟩
    convert hlead using 2
    push_cast
    ring
  generalize decimal (partsFor negative m e) = d at hfound
  have hten := ten_zpow_pos d.power
  have hholds := ((hspans.inUnits d.power).holds_iff).1 (Interval.holds_of_neighbour? hfound).1
  have hreach : reachBelow (partsFor negative m e) ≤ 1 / 2 := by
    unfold reachBelow
    split <;> norm_num
  rw [div_le_iff₀ hten, le_div_iff₀ hten, div_lt_iff₀ hten, lt_div_iff₀ hten] at hholds
  generalize (d.digits : ℚ) * 10 ^ d.power = v at hholds
  have hclosed : ((interval (partsFor negative m e)).inUnits d.power).closed = decide (m % 2 = 0) := rfl
  rw [hclosed] at hholds
  have hbounds : (m - reachBelow (partsFor negative m e)) * 2 ^ e ≤ v ∧ v ≤ (m + 1 / 2) * 2 ^ e := by
    split at hholds
    · exact hholds
    · exact ⟨hholds.1.le, hholds.2.le⟩
  rw [← le_div_iff₀ htwo, ← div_le_iff₀ htwo] at hbounds
  refine ⟨h, ⟨by linarith [hbounds.1], hbounds.2, fun htie => ?_⟩, fun hm he => ?_⟩
  · by_contra hodd
    rw [decide_eq_false hodd, if_neg Bool.false_ne_true, ← lt_div_iff₀ htwo, ← div_lt_iff₀ htwo] at hholds
    rcases htie with htie | htie
    · linarith [hholds.1]
    · linarith [hholds.2]
  · have hquarter : reachBelow (partsFor negative m e) = 1 / 4 := by
      have hbinade : (partsFor negative m e).binade = true := by
        simp only [partsFor, Bool.and_eq_true, decide_eq_true_iff]
        exact ⟨hm, he⟩
      rw [reachBelow, if_pos hbinade]
    rw [hquarter] at hbounds
    exact hbounds.1

end Shortest

/-- Zeros at the end of the digits make no difference. -/
theorem Decimal.normalize_value (d : Decimal) (fuel : Nat) :
    ((d.normalize fuel).digits : ℚ) * 10 ^ (d.normalize fuel).power = d.digits * 10 ^ d.power := by
  induction fuel generalizing d with
  | zero => rfl
  | succ fuel ih =>
    rw [normalize]
    split
    · next hzero =>
      rw [Bool.and_eq_true, decide_eq_true_iff] at hzero
      have hten : (d.digits : ℚ) = (d.digits / 10 : Nat) * 10 := by
        exact_mod_cast (Nat.div_mul_cancel (Nat.dvd_of_mod_eq_zero hzero.1)).symm
      rw [ih, hten, zpow_add_one₀ (by norm_num)]
      ring
    · rfl

/-! ### Digits -/

/-- There are ten digits. -/
theorem forall_isDigit {P : Char → Prop} (h : ∀ n : Fin 10, P (Char.ofNat (48 + n))) {c : Char} (hc : c.isDigit = true) :
    P c := by
  obtain ⟨hlow, hhigh⟩ := Char.isDigit_iff_toNat.1 hc
  have hlow : 48 ≤ c.toNat := hlow
  have hhigh : c.toNat ≤ 57 := hhigh
  have hn := h ⟨c.toNat - 48, by omega⟩
  dsimp only at hn
  rwa [Nat.add_sub_cancel' hlow, Char.ofNat_toNat] at hn

theorem digitValue?_of_isDigit {c : Char} (hc : c.isDigit = true) : digitValue? c = some (c.toNat - '0'.toNat) :=
  forall_isDigit (P := fun c => digitValue? c = some (c.toNat - '0'.toNat)) (by decide +kernel) hc

/-- The number that digits write. -/
abbrev number (ds : Text) : Nat := Nat.ofDigitChars 10 ds 0

theorem ofDigits_map (ds : Text) : ofDigits (ds.map fun c => c.toNat - '0'.toNat) = number ds := by
  rw [ofDigits, List.foldl_map, number, Nat.ofDigitChars_eq_foldl]

theorem number_append (s t : Text) : number (s ++ t) = 10 ^ t.length * number s + number t := by
  rw [number, Nat.ofDigitChars_append, Nat.ofDigitChars_eq_ofDigitChars_zero]

theorem number_zeros (n : Nat) : number (List.replicate n '0') = 0 := by
  rw [number, Nat.ofDigitChars_replicate_zero, Nat.mul_zero]

/-- Digits end here. -/
def EndsDigits (r : Text) : Prop := ∀ c ∈ r.head?, digitValue? c = none ∧ c ≠ '_'

variable {r : Text}

theorem readDigits_of_ends (hr : EndsDigits r) : readDigits r = ([], r) := by
  match r with
  | [] => rfl
  | [c] =>
    rw [readDigits, (hr c rfl).1]
  | c :: c' :: r =>
    rw [readDigits, (hr c rfl).1]

theorem readDigits_append {ds : Text} (hds : ∀ c ∈ ds, c.isDigit = true) (hr : EndsDigits r) :
    readDigits (ds ++ r) = (ds.map fun c => c.toNat - '0'.toNat, r) := by
  induction ds with
  | nil => exact readDigits_of_ends hr
  | cons c ds ih =>
    have hvalue := digitValue?_of_isDigit (hds c List.mem_cons_self)
    have ih := ih fun d hd => hds d (List.mem_cons_of_mem c hd)
    rw [List.cons_append]
    cases hrest : ds ++ r with
    | nil =>
      obtain ⟨rfl, rfl⟩ := List.append_eq_nil_iff.1 hrest
      rw [readDigits, hvalue]
      rfl
    | cons d t =>
      have hd : d ≠ '_' := by
        cases ds with
        | nil =>
          rw [List.nil_append] at hrest
          exact (hr d (by rw [hrest]; rfl)).2
        | cons e ds =>
          cases hrest
          rintro rfl
          have := hds '_' (List.mem_cons_of_mem c List.mem_cons_self)
          exact absurd this (by decide)
      rw [hrest] at ih
      rw [readDigits, hvalue]
      dsimp only
      rw [if_neg hd, ih]
      rfl

/-- A number does not start with a zero. -/
theorem head_toDigits {n : Nat} (hn : 0 < n) : ∃ c r, Nat.toDigits 10 n = c :: r ∧ c ≠ '0' := by
  induction n using Nat.strongRecOn with
  | ind n ih =>
    by_cases hless : n < 10
    · rw [Nat.toDigits_of_lt_base hless]
      refine ⟨_, _, rfl, ?_⟩
      have hdigit : ∀ n : Fin 10, 0 < n.val → n.val.digitChar ≠ '0' := by decide
      exact hdigit ⟨n, hless⟩ hn
    · obtain ⟨c, r, hdigits, hc⟩ := ih (n / 10) (by omega) (by omega)
      rw [Nat.toDigits_of_base_le (by decide) (by omega), hdigits]
      exact ⟨c, _, rfl, hc⟩

/-! ### Numbers as floats are written -/

/-- Digits, then a point with digits, an exponent or both. -/
structure Scientific where
  whole : Text
  part : Text
  /-- Whether the exponent is negative, and its digits. -/
  exponent : Option (Bool × Text)

namespace Scientific

variable {n : Scientific}

def fraction (n : Scientific) : Text := if n.part = [] then [] else '.' :: n.part

def mark (n : Scientific) : Text :=
  n.exponent.elim [] fun x => 'e' :: (if x.1 then '-' else '+') :: x.2

def text (n : Scientific) : Text := n.whole ++ (n.fraction ++ n.mark)

def digits (n : Scientific) : Nat := number (n.whole ++ n.part)

def shift (n : Scientific) : Int := n.exponent.elim 0 fun x => if x.1 then -(number x.2 : Int) else number x.2

def power (n : Scientific) : Int := -(n.part.length : Int) + n.shift

/-- All of it are digits, and no zero stands in front of one. -/
structure IsWritten (n : Scientific) : Prop where
  whole : ∀ c ∈ n.whole, c.isDigit = true
  part : ∀ c ∈ n.part, c.isDigit = true
  exponent : ∀ x ∈ n.exponent, x.2 ≠ [] ∧ ∀ c ∈ x.2, c.isDigit = true
  lead : ∃ c r, n.whole = c :: r ∧ (c = '0' → r = [])

/-- It is not written as a whole number. -/
def IsFloat (n : Scientific) : Prop := n.fraction ++ n.mark ≠ []

theorem readExponent_mark (h : n.IsWritten) {x : Bool × Text} (hx : n.exponent = some x) :
    readExponent n.mark = some (n.shift, []) := by
  obtain ⟨hne, hdigits⟩ := h.exponent x hx
  have hread := readDigits_append hdigits (r := []) (by intro c hc; cases hc)
  rw [List.append_nil] at hread
  have hsome : x.2.map (fun c => c.toNat - '0'.toNat) ≠ [] := by simpa using hne
  rw [mark, shift, hx]
  obtain ⟨d, ds, hcons⟩ := List.exists_cons_of_ne_nil hsome
  rw [hcons] at hread
  obtain ⟨negative, t⟩ := x
  dsimp only at hread hcons
  have hnumber : number t = ofDigits (d :: ds) := by rw [← hcons, ofDigits_map]
  cases negative with
  | true =>
    change readExponent ('e' :: '-' :: t) = some (-(number t : Int), [])
    rw [readExponent, if_pos (by decide), readSign]
    dsimp only
    rw [hread, hnumber]
    rfl
  | false =>
    change readExponent ('e' :: '+' :: t) = some ((number t : Int), [])
    rw [readExponent, if_pos (by decide), readSign]
    dsimp only
    rw [hread, hnumber]
    rfl

theorem endsDigits_mark (n : Scientific) : EndsDigits n.mark := by
  unfold mark
  cases n.exponent with
  | none =>
    intro c hc
    cases hc
  | some x =>
    intro c hc
    cases hc
    decide +kernel

theorem readFraction_point {t : Text} {ws : List Nat} (h : readDigits t = (ws, '.' :: r)) (hne : ws ≠ []) :
    readFraction t = some (ofDigits (ws ++ (readDigits r).1), -((readDigits r).1.length : Int), (readDigits r).2) := by
  obtain ⟨w, ws, rfl⟩ := List.exists_cons_of_ne_nil hne
  rw [readFraction, h]
  rfl

theorem readFraction_plain {t : Text} {ws : List Nat} (h : readDigits t = (ws, r)) (hne : ws ≠ [])
    (hr : r.head? ≠ some '.') : readFraction t = some (ofDigits ws, 0, r) := by
  obtain ⟨w, ws, rfl⟩ := List.exists_cons_of_ne_nil hne
  rw [readFraction, h]
  dsimp only
  split
  · exact absurd rfl hr
  · rw [List.append_nil]
    rfl

theorem readFraction_text (h : n.IsWritten) : readFraction n.text = some (n.digits, -(n.part.length : Int), n.mark) := by
  obtain ⟨c, r, hwhole, -⟩ := h.lead
  have hne : (n.whole.map fun c => c.toNat - '0'.toNat) ≠ [] := by simp [hwhole]
  have hmark := n.endsDigits_mark
  rw [text]
  by_cases hpart : n.part = []
  · have hfraction : n.fraction = [] := if_pos hpart
    have hpoint : n.mark.head? ≠ some '.' := by
      unfold mark
      cases n.exponent with
      | none => exact nofun
      | some x => exact nofun
    rw [hfraction, List.nil_append, readFraction_plain (readDigits_append h.whole hmark) hne hpoint, ofDigits_map, digits,
      hpart, List.append_nil]
    rfl
  · have hfraction : n.fraction = '.' :: n.part := if_neg hpart
    have hpoint : EndsDigits ('.' :: (n.part ++ n.mark)) := by
      intro c hc
      cases hc
      decide +kernel
    rw [hfraction, List.cons_append, readFraction_point (readDigits_append h.whole hpoint) hne,
      readDigits_append h.part hmark, ← List.map_append, ofDigits_map, List.length_map, digits]

/-- Characters that stand in a number. -/
theorem mem_text (h : n.IsWritten) {c : Char} (hc : c ∈ n.text) : c.isDigit = true ∨ c ∈ ['.', 'e', '-', '+'] := by
  rw [text, List.mem_append, List.mem_append] at hc
  rcases hc with hc | hc | hc
  · exact Or.inl (h.whole c hc)
  · rw [fraction] at hc
    split at hc
    · cases hc
    · rcases List.mem_cons.1 hc with rfl | hc
      · exact Or.inr List.mem_cons_self
      · exact Or.inl (h.part c hc)
  · rw [mark] at hc
    cases hx : n.exponent with
    | none =>
      rw [hx] at hc
      cases hc
    | some x =>
      rw [hx] at hc
      rcases List.mem_cons.1 hc with rfl | hc
      · exact Or.inr (by decide)
      · rcases List.mem_cons.1 hc with rfl | hc
        · refine Or.inr ?_
          split <;> decide
        · exact Or.inl ((h.exponent x hx).2 c hc)

/-- With a sign, if it is negative. -/
def signed (n : Scientific) (negative : Bool) : Text := if negative then '-' :: n.text else n.text

theorem mem_signed (h : n.IsWritten) {negative : Bool} {c : Char} (hc : c ∈ n.signed negative) :
    c.isDigit = true ∨ c ∈ ['.', 'e', '-', '+'] := by
  cases negative with
  | false => exact mem_text h hc
  | true =>
    rcases List.mem_cons.1 hc with rfl | hc
    · exact Or.inr (by decide)
    · exact mem_text h hc

theorem readSign_signed (h : n.IsWritten) (negative : Bool) : readSign (n.signed negative) = (negative, n.text) := by
  cases negative with
  | true => rfl
  | false =>
    obtain ⟨c, r, hwhole, -⟩ := h.lead
    have hc : c.isDigit = true := h.whole c (by simp [hwhole])
    have hsign : c ≠ '-' ∧ c ≠ '+' := forall_isDigit (P := fun c => c ≠ '-' ∧ c ≠ '+') (by decide) hc
    change readSign n.text = _
    rw [text, hwhole, List.cons_append, readSign]
    · exact fun _ heq => hsign.1 (List.cons.inj heq).1
    · exact fun _ heq => hsign.2 (List.cons.inj heq).1

theorem trimWhile_signed (h : n.IsWritten) (negative : Bool) :
    Text.trimWhile isPadding (n.signed negative) = n.signed negative := by
  refine Text.trimWhile_of_forall_not fun c hc => ?_
  rcases mem_signed h hc with hdigit | hother
  · exact forall_isDigit (P := fun c => isPadding c = false) (by decide) hdigit
  · exact Text.forall_mem_of_all (P := fun c => isPadding c = false) (by decide) c hother

theorem readFloat?_signed (h : n.IsWritten) (negative : Bool) : readFloat? (String.ofList (n.signed negative)) =
    some (if negative then -floatOfDecimal n.digits n.power else floatOfDecimal n.digits n.power) := by
  have hword (w : Text) (d : Char) (hw : w.head? = some d) (hd : d.isDigit = false) : n.text.map Char.toLower ≠ w := by
    obtain ⟨c, r, hwhole, -⟩ := h.lead
    have hc : c.toLower.isDigit = true := forall_isDigit (P := fun c => c.toLower.isDigit = true) (by decide)
      (h.whole c (by simp [hwhole]))
    rintro rfl
    rw [text, hwhole] at hw
    cases hw
    rw [hc] at hd
    cases hd
  rw [readFloat?, String.toList_ofList, trimWhile_signed h, readSign_signed h]
  dsimp only
  rw [decide_eq_false (hword "inf".toList 'i' (by decide) rfl), decide_eq_false (hword "infinity".toList 'i' (by decide) rfl),
    Bool.or_self, if_neg Bool.false_ne_true, if_neg (hword "nan".toList 'n' (by decide) rfl), readFraction_text h]
  cases hx : n.exponent with
  | none =>
    have hmark : n.mark = [] := by rw [mark, hx]; rfl
    have hpower : n.power = -(n.part.length : Int) := by rw [power, shift, hx]; exact Int.add_zero _
    rw [hmark, hpower]
  | some x =>
    have hread := readExponent_mark h hx
    have hmark : n.mark = 'e' :: (if x.1 then '-' else '+') :: x.2 := by rw [mark, hx]; rfl
    rw [hmark] at hread ⊢
    dsimp only
    rw [hread]
    rfl

/-- The number that is written. -/
def value (n : Scientific) : ℚ := n.digits * 10 ^ n.power

theorem text_of_part (whole : Text) {part : Text} (h : part ≠ []) :
    (Scientific.mk whole part none).text = whole ++ '.' :: part := by
  rw [text, fraction, if_neg h]
  change whole ++ ('.' :: part ++ []) = _
  rw [List.append_nil]

/-- Written without an exponent, and with digits on both sides of the point. -/
theorem isWritten_of_part {whole part : Text} (hwhole : ∀ c ∈ whole, c.isDigit = true)
    (hpart : ∀ c ∈ part, c.isDigit = true) (hlead : ∃ c r, whole = c :: r ∧ (c = '0' → r = [])) : (Scientific.mk whole part none).IsWritten :=
  ⟨hwhole, hpart, nofun, hlead⟩

theorem isFloat_of_part (whole : Text) {part : Text} (h : part ≠ []) : (Scientific.mk whole part none).IsFloat := by
  rw [IsFloat, fraction, if_neg h]
  nofun

/-! ### Whole numbers -/

/-- A whole number as it is written. -/
def ofInt (i : Int) : Scientific := ⟨Nat.toDigits 10 i.natAbs, [], none⟩

theorem isWritten_ofInt (i : Int) : (ofInt i).IsWritten := by
  refine ⟨fun c hc => Nat.isDigit_of_mem_toDigits (by decide) (by decide) hc, nofun, nofun, ?_⟩
  rcases Nat.eq_zero_or_pos i.natAbs with hzero | hpos
  · refine ⟨'0', [], ?_, fun _ => rfl⟩
    rw [ofInt, hzero]
    rfl
  · obtain ⟨c, r, hdigits, hc⟩ := head_toDigits hpos
    exact ⟨c, r, hdigits, fun h => absurd h hc⟩

theorem text_ofInt (i : Int) : (ofInt i).text = Nat.toDigits 10 i.natAbs := List.append_nil _

theorem toString_eq (i : Int) : toString i = String.ofList ((ofInt i).signed (decide (i < 0))) := by
  cases i with
  | ofNat n =>
    rw [signed, if_neg (by simp), text_ofInt]
    rfl
  | negSucc n =>
    rw [signed, if_pos (decide_eq_true (Int.negSucc_lt_zero n)), text_ofInt]
    change "-" ++ String.ofList (Nat.toDigits 10 (n + 1)) = _
    rw [← String.toList_inj, String.toList_append]
    simp only [String.toList_ofList]
    rfl

theorem readIntegerWithin_toString {limit : Nat} {i : Int} (h : (Nat.toDigits 10 i.natAbs).length ≤ limit) :
    readIntegerWithin limit (toString i) = .ok i := by
  have hi := isWritten_ofInt i
  have hdigits := readDigits_append hi.whole (r := []) (by intro c hc; cases hc)
  have hnumber : ofDigits ((Nat.toDigits 10 i.natAbs).map fun c => c.toNat - '0'.toNat) = i.natAbs := by
    rw [ofDigits_map, number, Nat.ofDigitChars_ten_toDigits]
  rw [List.append_nil] at hdigits
  obtain ⟨d, ds, hcons⟩ := List.exists_cons_of_ne_nil
    (show (Nat.toDigits 10 i.natAbs).map (fun c => c.toNat - '0'.toNat) ≠ [] by simp)
  rw [readIntegerWithin, toString_eq, String.toList_ofList, trimWhile_signed hi, readSign_signed hi]
  dsimp only
  rw [text_ofInt]
  change readDigits (Nat.toDigits 10 i.natAbs) = ((Nat.toDigits 10 i.natAbs).map fun c => c.toNat - '0'.toNat, []) at hdigits
  rw [hdigits, hcons]
  rw [hcons] at hnumber
  dsimp only
  rw [← hcons, List.length_map, if_neg (Nat.not_lt.2 h), hcons, hnumber, if_neg (by simp)]
  by_cases hi : i < 0
  · rw [if_pos (decide_eq_true hi), Int.ofNat_natAbs_of_nonpos (Int.le_of_lt hi), Int.neg_neg]
  · rw [if_neg (by simpa using hi), Int.natAbs_of_nonneg (Int.not_lt.1 hi)]

end Scientific

/-! ### What is written for a float -/

section Written

variable {ds : Text} {c : Char} {n : Nat} {point : Int}

theorem forall_mem_zeros (k : Nat) : ∀ c ∈ List.replicate k '0', c.isDigit = true := fun c hc => by
  rw [List.eq_of_mem_replicate hc]
  rfl

/-- The point in front of the digits. -/
theorem exists_positional_small (hds : ∀ d ∈ c :: ds, d.isDigit = true) (hneg : point ≤ 0) :
    ∃ n : Scientific, n.IsWritten ∧ n.IsFloat ∧ n.text = positional (c :: ds) point ∧
      n.value = number (c :: ds) * 10 ^ (point - (c :: ds).length) := by
  have hne : List.replicate (-point).toNat '0' ++ c :: ds ≠ [] := by simp
  have hdigits : number (['0'] ++ (List.replicate (-point).toNat '0' ++ c :: ds)) = number (c :: ds) := by
    rw [number_append, number_append, number_zeros, show number ['0'] = 0 from rfl, Nat.mul_zero, Nat.mul_zero,
      Nat.zero_add, Nat.zero_add]
  refine ⟨⟨['0'], _, none⟩, Scientific.isWritten_of_part (Text.forall_mem_of_all (by decide))
    (List.forall_mem_append.2 ⟨forall_mem_zeros _, hds⟩) ⟨_, _, rfl, fun _ => rfl⟩,
    Scientific.isFloat_of_part _ hne, ?_, ?_⟩
  · rw [positional, Scientific.text_of_part _ hne, if_pos hneg]
    rfl
  · rw [Scientific.value, Scientific.digits, hdigits, Scientific.power, Scientific.shift]
    congr 2
    simp only [List.length_append, List.length_replicate, Option.elim]
    omega

/-- The point behind the digits, and zeros between. -/
theorem exists_positional_large (hds : ∀ d ∈ c :: ds, d.isDigit = true) (hc : c ≠ '0') {k : Nat}
    (hlong : (c :: ds).length ≤ k) :
    ∃ n : Scientific, n.IsWritten ∧ n.IsFloat ∧ n.text = positional (c :: ds) k ∧
      n.value = number (c :: ds) * 10 ^ ((k : Int) - (c :: ds).length) := by
  have hne : (['0'] : Text) ≠ [] := nofun
  have hdigits : number (c :: ds ++ List.replicate (k - (c :: ds).length) '0' ++ ['0']) =
      10 * (10 ^ (k - (c :: ds).length) * number (c :: ds)) := by
    rw [number_append, number_append, number_zeros, List.length_replicate]
    rfl
  have hshift : (10 : ℚ) ^ ((k : Int) - (c :: ds).length) = 10 ^ (k - (c :: ds).length) := by
    rw [← Nat.cast_sub hlong, zpow_natCast]
  have hpos : ¬ (k : Int) ≤ 0 := by
    rw [List.length_cons] at hlong
    omega
  refine ⟨⟨c :: ds ++ List.replicate (k - (c :: ds).length) '0', ['0'], none⟩, Scientific.isWritten_of_part
    (List.forall_mem_append.2 ⟨hds, forall_mem_zeros _⟩) (Text.forall_mem_of_all (by decide))
    ⟨_, _, rfl, fun h => absurd h hc⟩, Scientific.isFloat_of_part _ hne, ?_, ?_⟩
  · rw [positional, if_neg hpos, Scientific.text_of_part _ hne]
    dsimp only [Int.toNat_natCast]
    rw [if_pos hlong]
  · rw [Scientific.value, Scientific.digits, hdigits, Scientific.power, Scientific.shift, hshift]
    push_cast
    simp only [Option.elim, List.length_singleton]
    norm_num
    ring

/-- The point between two digits. -/
theorem exists_positional_between (hds : ∀ d ∈ c :: ds, d.isDigit = true) (hc : c ≠ '0') {k : Nat} (hpos : 0 < k)
    (hshort : k < (c :: ds).length) :
    ∃ n : Scientific, n.IsWritten ∧ n.IsFloat ∧ n.text = positional (c :: ds) k ∧
      n.value = number (c :: ds) * 10 ^ ((k : Int) - (c :: ds).length) := by
  have hne : (c :: ds).drop k ≠ [] := by
    rw [Ne, List.drop_eq_nil_iff]
    exact Nat.not_le.2 hshort
  refine ⟨⟨(c :: ds).take k, (c :: ds).drop k, none⟩, Scientific.isWritten_of_part
    (fun d hd => hds d (List.mem_of_mem_take hd)) (fun d hd => hds d (List.mem_of_mem_drop hd)) ?_,
    Scientific.isFloat_of_part _ hne, ?_, ?_⟩
  · obtain ⟨j, rfl⟩ : ∃ j, k = j + 1 := ⟨k - 1, by omega⟩
    exact ⟨c, ds.take j, rfl, fun h => absurd h hc⟩
  · rw [positional, if_neg (by omega), Scientific.text_of_part _ hne]
    dsimp only [Int.toNat_natCast]
    rw [if_neg (Nat.not_le.2 hshort)]
  · rw [Scientific.value, Scientific.digits, List.take_append_drop, Scientific.power, Scientific.shift]
    congr 2
    simp only [List.length_drop, Option.elim]
    omega

theorem exists_positional (hds : ∀ d ∈ c :: ds, d.isDigit = true) (hc : c ≠ '0') (point : Int) :
    ∃ n : Scientific, n.IsWritten ∧ n.IsFloat ∧ n.text = positional (c :: ds) point ∧
      n.value = number (c :: ds) * 10 ^ (point - (c :: ds).length) := by
  by_cases hneg : point ≤ 0
  · exact exists_positional_small hds hneg
  · obtain ⟨k, rfl⟩ := Int.eq_ofNat_of_zero_le (Int.le_of_lt (Int.not_le.1 hneg))
    by_cases hlong : (c :: ds).length ≤ k
    · exact exists_positional_large hds hc hlong
    · exact exists_positional_between hds hc (by omega) (Nat.lt_of_not_le hlong)

theorem exists_withExponent (hds : ∀ d ∈ c :: ds, d.isDigit = true) (exponent : Int) :
    ∃ n : Scientific, n.IsWritten ∧ n.IsFloat ∧ n.text = withExponent (c :: ds) exponent ∧
      n.value = number (c :: ds) * 10 ^ (exponent + 1 - (c :: ds).length) := by
  obtain ⟨size, hsize⟩ : ∃ size, size = Nat.toDigits 10 exponent.natAbs := ⟨_, rfl⟩
  have hdigits : ∀ d ∈ size, d.isDigit = true := fun d hd =>
    Nat.isDigit_of_mem_toDigits (by decide) (by decide) (hsize ▸ hd)
  have hnumber : number (List.replicate (2 - size.length) '0' ++ size) = exponent.natAbs := by
    rw [number_append, number_zeros, Nat.mul_zero, Nat.zero_add, hsize, number, Nat.ofDigitChars_ten_toDigits]
  have hne : size ≠ [] := hsize ▸ Nat.toDigits_ne_nil
  refine ⟨⟨[c], ds, some (decide (exponent < 0), List.replicate (2 - size.length) '0' ++ size)⟩,
    ⟨?_, ?_, ?_, ?_⟩, ?_, ?_, ?_⟩
  · exact fun d hd => hds d (by rw [List.mem_singleton.1 hd]; exact List.mem_cons_self)
  · exact fun d hd => hds d (List.mem_cons_of_mem c hd)
  · rintro x ⟨⟩
    exact ⟨List.append_ne_nil_of_right_ne_nil _ hne, List.forall_mem_append.2 ⟨forall_mem_zeros _, hdigits⟩⟩
  · exact ⟨c, [], rfl, fun _ => rfl⟩
  · exact List.append_ne_nil_of_right_ne_nil _ nofun
  · have hsign : (if decide (exponent < 0) = true then '-' else '+') = if exponent < 0 then '-' else '+' := by simp
    unfold withExponent
    rw [← hsize, ← hsign]
    cases ds with
    | nil => rfl
    | cons d ds => rfl
  · rw [Scientific.value, Scientific.digits, Scientific.power, Scientific.shift]
    dsimp only [Option.elim]
    rw [hnumber]
    congr 2
    rw [List.length_cons]
    by_cases hneg : exponent < 0
    · rw [decide_eq_true hneg, if_pos rfl]
      omega
    · rw [decide_eq_false hneg, if_neg Bool.false_ne_true]
      omega

theorem Decimal.normalize_pos (d : Decimal) (h : 0 < d.digits) (fuel : Nat) : 0 < (d.normalize fuel).digits := by
  induction fuel generalizing d with
  | zero => exact h
  | succ fuel ih =>
    rw [normalize]
    split
    · next hzero =>
      rw [Bool.and_eq_true, decide_eq_true_iff] at hzero
      exact ih _ (by dsimp only; omega)
    · exact h

/-- The text of a decimal number writes that number. -/
theorem Decimal.exists_text (d : Decimal) (h : 0 < d.digits) :
    ∃ n : Scientific, n.IsWritten ∧ n.IsFloat ∧ n.text = d.text ∧ n.value = d.digits * 10 ^ d.power := by
  rw [← d.normalize_value 400, text]
  have hpos := d.normalize_pos h 400
  generalize d.normalize 400 = d at hpos
  obtain ⟨c, ds, hdigits, hc⟩ := head_toDigits hpos
  have hds : ∀ x ∈ c :: ds, x.isDigit = true := fun x hx =>
    Nat.isDigit_of_mem_toDigits (by decide) (by decide) (hdigits ▸ hx)
  have hnumber : number (c :: ds) = d.digits := by rw [← hdigits, number, Nat.ofDigitChars_ten_toDigits]
  rw [hdigits]
  split
  · obtain ⟨n, hn, hfloat, htext, hvalue⟩ := exists_positional hds hc ((c :: ds).length + d.power)
    refine ⟨n, hn, hfloat, htext, ?_⟩
    rw [hvalue, hnumber, add_sub_cancel_left]
  · obtain ⟨n, hn, hfloat, htext, hvalue⟩ := exists_withExponent hds ((c :: ds).length + d.power - 1)
    refine ⟨n, hn, hfloat, htext, ?_⟩
    rw [hvalue, hnumber, sub_add_cancel, add_sub_cancel_left]

end Written

/-- The text of a float writes a number, and it is read as the float. -/
theorem exists_floatText {x : Float} {p : FloatParts} (hx : classify x = .finite p) :
    ∃ n : Scientific, n.IsWritten ∧ n.IsFloat ∧ floatText x = String.ofList (n.signed p.negative) ∧
      readFloat? (floatText x) = some x := by
  have hread {n : Scientific} (hn : n.IsWritten) (htext : floatText x = String.ofList (n.signed p.negative))
      (hvalue : classify (floatOfDecimal n.digits n.power) = .finite (partsFor false p.significand p.exponent)) :
      readFloat? (floatText x) = some x := by
    rw [htext, Scientific.readFloat?_signed hn]
    refine congrArg some ?_
    obtain ⟨hp, -⟩ := classifyBits_finite hx
    cases hsign : p.negative with
    | false =>
      rw [hsign] at hp
      exact eq_of_classify hvalue (hp ▸ hx)
    | true =>
      rw [hsign] at hp
      exact eq_of_classify (classify_neg hvalue) (hp ▸ hx)
  have hbody (t : Text) (hbody : (if p.significand = 0 then ['0', '.', '0'] else (Shortest.decimal p).text) = t) :
      floatText x = String.ofList (if p.negative then '-' :: t else t) := by
    rw [floatText, hx, ← hbody]
  obtain ⟨hp, ⟨hzero, hexponent⟩ | ⟨hcanonical, hexponent⟩⟩ := classifyBits_finite hx
  · have hn : (Scientific.mk ['0'] ['0'] none).IsWritten :=
      Scientific.isWritten_of_part (Text.forall_mem_of_all (by decide)) (Text.forall_mem_of_all (by decide)) ⟨_, _, rfl, fun _ => rfl⟩
    have htext := hbody (Scientific.mk ['0'] ['0'] none).text (if_pos hzero)
    refine ⟨_, hn, Scientific.isFloat_of_part _ nofun, htext, hread hn htext ?_⟩
    rw [hzero, hexponent]
    rfl
  · have hrounds := Shortest.rounds_decimal p.negative hcanonical
    rw [← hp] at hrounds
    have hpos : 0 < (Shortest.decimal p).digits := by
      refine Nat.pos_of_ne_zero fun hzero => ?_
      have := hrounds.pos
      rw [hzero] at this
      simp at this
    obtain ⟨n, hn, hfloat, htext, hvalue⟩ := (Shortest.decimal p).exists_text hpos
    have htext' := hbody n.text (by rw [if_neg hcanonical.pos.ne', htext])
    refine ⟨n, hn, hfloat, htext', hread hn htext' ?_⟩
    rw [← hvalue] at hrounds
    exact classify_floatOfDecimal hrounds hexponent

end Proofreader
