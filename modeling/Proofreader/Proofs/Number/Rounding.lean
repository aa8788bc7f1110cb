import Mathlib.Algebra.Order.Field.Power
import Mathlib.Algebra.Order.Field.Rat
import Mathlib.Tactic.FieldSimp
import Mathlib.Tactic.Linarith
import Mathlib.Tactic.NormNum
import Mathlib.Tactic.Positivity
import Mathlib.Tactic.Ring
import Proofreader.Number.Parts

/-! Rounding to the nearest float. A mantissa that is cut off keeps two bits of what it loses, and these tell the
nearest number with fewer digits; so multiplying and dividing give the float that is nearest to the exact result. -/

namespace Proofreader

/-- The number without its sign. -/
def FloatParts.magnitude (p : FloatParts) : ℚ := p.significand * 2 ^ p.exponent

/-- The number that the parts make. -/
def FloatParts.value (p : FloatParts) : ℚ := if p.negative then -p.magnitude else p.magnitude

namespace Rounding

open Float.Model Float.Model.UnpackedFloat

/-! ### What two bits keep -/

/-- A mantissa was cut from `v`: the round bit says whether half or more was cut off, the sticky bit whether anything
else was. -/
def Holds (em : ExtendedMantissa) (v : ℚ) : Prop :=
  if em.stickyBit then em.mantissa + (if em.roundBit then 1 / 2 else 0) < v ∧
    v < em.mantissa + (if em.roundBit then 1 / 2 else 0) + 1 / 2
  else v = em.mantissa + if em.roundBit then 1 / 2 else 0

variable {em : ExtendedMantissa} {v : ℚ} {m : Nat} {e : Int}

theorem holds_exact (m : Nat) : Holds (.ofMantissaAndAccuracy m .exact) m := by
  simp [Holds, ExtendedMantissa.ofMantissaAndAccuracy]

theorem holds_fraction (m : Nat) {n d : Nat} (h : n < d) :
    Holds (.ofMantissaAndAccuracy m (accuracyOfFraction n d)) (m + n / d) := by
  have hd : (0 : ℚ) < d := by exact_mod_cast Nat.zero_lt_of_lt h
  have hless : (n : ℚ) / d < 1 := (div_lt_one hd).2 (by exact_mod_cast h)
  unfold accuracyOfFraction
  split
  · next hn =>
    rw [hn]
    simpa using holds_exact m
  · next hn =>
    have hpos : (0 : ℚ) < n / d := div_pos (by exact_mod_cast Nat.pos_of_ne_zero hn) hd
    cases hcompare : compare (2 * n) d with
    | lt =>
      have hlow : (n : ℚ) / d < 1 / 2 := by
        rw [div_lt_div_iff₀ hd two_pos]
        exact_mod_cast (by have := Nat.compare_eq_lt.1 hcompare; omega : n * 2 < 1 * d)
      simp only [Holds, ExtendedMantissa.ofMantissaAndAccuracy, if_true, Bool.false_eq_true, if_false]
      constructor <;> linarith
    | eq =>
      have hhalf : (n : ℚ) / d = 1 / 2 := by
        rw [div_eq_div_iff hd.ne' two_ne_zero]
        exact_mod_cast (by have := Nat.compare_eq_eq.1 hcompare; omega : n * 2 = 1 * d)
      simp only [Holds, ExtendedMantissa.ofMantissaAndAccuracy, if_true, Bool.false_eq_true, if_false, hhalf]
    | gt =>
      have hhigh : 1 / 2 < (n : ℚ) / d := by
        rw [div_lt_div_iff₀ two_pos hd]
        exact_mod_cast (by have := Nat.compare_eq_gt.1 hcompare; omega : 1 * d < n * 2)
      simp only [Holds, ExtendedMantissa.ofMantissaAndAccuracy, if_true]
      constructor <;> linarith

theorem Holds.shiftRightOne (h : Holds em v) : Holds em.shiftRightOne (v / 2) := by
  obtain ⟨m, r, s⟩ := em
  have hhalf : (m : ℚ) / 2 = (m / 2 : Nat) + (if (m % 2 != 0) = true then 1 / 2 else 0) := by
    rcases Nat.even_or_odd' m with ⟨k, rfl | rfl⟩
    · simp
    · have : (2 * k + 1) / 2 = k := by omega
      simp [this, Nat.add_mod]
      ring
  unfold ExtendedMantissa.shiftRightOne
  cases r <;> cases s <;>
    simp only [Holds, Bool.false_eq_true, if_true, if_false, Bool.or_self, Bool.or_false, Bool.or_true, ← hhalf] at h ⊢
  · linarith
  · constructor <;> linarith [h.1, h.2]
  · constructor <;> linarith
  · constructor <;> linarith [h.1, h.2]

theorem Holds.shiftRight (h : Holds em v) (k : Nat) : Holds (em >>> k) (v / 2 ^ k) := by
  induction k with
  | zero => simpa [HShiftRight.hShiftRight, Nat.repeat] using h
  | succ k ih =>
    have hone := ih.shiftRightOne
    rw [div_div, ← pow_succ] at hone
    exact hone

/-- The number is one of those nearest to `v`, the even one of two. -/
structure NearestEven (v : ℚ) (m : Nat) : Prop where
  low : m - 1 / 2 ≤ v
  high : v ≤ m + 1 / 2
  even : v = m - 1 / 2 ∨ v = m + 1 / 2 → m % 2 = 0

/-- The two bits are enough to round. -/
theorem Holds.roundedMantissa_eq (h : Holds em v) (hm : NearestEven v m) : em.roundedMantissa = m := by
  obtain ⟨n, r, s⟩ := em
  obtain ⟨hlow, hhigh, heven⟩ := hm
  have hcast {a b : Nat} (h : (a : ℚ) < b + 1) : a ≤ b := by
    have : a < b + 1 := by exact_mod_cast h
    omega
  cases r <;> cases s <;>
    simp only [Holds, ExtendedMantissa.roundedMantissa, ExtendedMantissa.accuracy, Accuracy.roundToNearestEven,
      Bool.false_eq_true, if_true, if_false] at h ⊢
  · exact Nat.le_antisymm (hcast (by linarith)) (hcast (by linarith))
  · exact Nat.le_antisymm (hcast (by linarith [h.1, h.2])) (hcast (by linarith [h.1, h.2]))
  · -- a tie
    have hle : n ≤ m := hcast (by linarith)
    have hge : m ≤ n + 1 := hcast (by push_cast; linarith)
    rcases Nat.eq_or_lt_of_le hge with rfl | hge
    · have := heven (Or.inl (by push_cast; linarith))
      omega
    · obtain rfl : n = m := Nat.le_antisymm hle (Nat.le_of_lt_succ hge)
      have := heven (Or.inr (by linarith))
      omega
  · have hle : n + 1 ≤ m := hcast (by push_cast; linarith [h.1])
    have hge : m ≤ n + 1 := hcast (by push_cast; linarith [h.2])
    exact Nat.le_antisymm hle hge

/-! ### The nearest float -/

/-- A significand and an exponent as floats have them, whatever the exponent. -/
structure Canonical (m : Nat) (e : Int) : Prop where
  pos : 0 < m
  lt : m < 2 ^ 53
  least : -1074 ≤ e
  normal : 2 ^ 52 ≤ m ∨ e = -1074

/-- `m · 2 ^ e` is the float nearest to `v`, the even one of two. Below a power of two floats lie twice as close. -/
structure Rounds (v : ℚ) (m : Nat) (e : Int) : Prop where
  canonical : Canonical m e
  nearest : NearestEven (v / 2 ^ e) m
  binade : m = 2 ^ 52 → -1074 < e → m - 1 / 4 ≤ v / 2 ^ e

theorem two_zpow_pos (e : Int) : (0 : ℚ) < 2 ^ e := zpow_pos two_pos e

theorem Canonical.rounds (h : Canonical m e) : Rounds (m * 2 ^ e) m e := by
  have hself : (m : ℚ) * 2 ^ e / 2 ^ e = m := mul_div_cancel_right₀ _ (two_zpow_pos e).ne'
  refine ⟨h, ⟨?_, ?_, fun htie => ?_⟩, fun _ _ => ?_⟩
  · rw [hself]
    linarith
  · rw [hself]
    linarith
  · rw [hself] at htie
    rcases htie with htie | htie <;> linarith
  · rw [hself]
    linarith

theorem targetExponent_eq (t : Int) : Format.binary64.targetExponent t = max (t - 53) (-1074) := by
  rfl

/-- The powers of two around a number are those around its whole part. -/
theorem log2_bounds (hm : m ≠ 0) (hlow : (m : ℚ) ≤ v) (hhigh : v < m + 1) :
    (2 : ℚ) ^ m.log2 ≤ v ∧ v < 2 ^ (m.log2 + 1) := by
  have hle : (2 : ℚ) ^ m.log2 ≤ m := by exact_mod_cast Nat.log2_self_le hm
  have hlt : (m : ℚ) + 1 ≤ 2 ^ (m.log2 + 1) := by exact_mod_cast Nat.lt_log2_self (n := m)
  exact ⟨hle.trans hlow, hhigh.trans_le hlt⟩

theorem Holds.bounds (h : Holds em v) : (em.mantissa : ℚ) ≤ v ∧ v < em.mantissa + 1 := by
  obtain ⟨m, r, s⟩ := em
  cases r <;> cases s <;> simp only [Holds, Bool.false_eq_true, if_true, if_false] at h ⊢
  · constructor <;> linarith
  · constructor <;> linarith [h.1, h.2]
  · constructor <;> linarith
  · constructor <;> linarith [h.1, h.2]

namespace Rounds

theorem low (h : Rounds v m e) : ((m : ℚ) - 1 / 2) * 2 ^ e ≤ v := (le_div_iff₀ (two_zpow_pos e)).1 h.nearest.low

theorem high (h : Rounds v m e) : v ≤ ((m : ℚ) + 1 / 2) * 2 ^ e := (div_le_iff₀ (two_zpow_pos e)).1 h.nearest.high

end Rounds

theorem log2_zpow_bounds {M : Nat} (hM : M ≠ 0) (hlow : (M : ℚ) ≤ v) (hhigh : v < M + 1) (E : Int) :
    (2 : ℚ) ^ ((M.log2 : Int) + E) ≤ v * 2 ^ E ∧ v * 2 ^ E < (2 : ℚ) ^ ((M.log2 : Int) + 1 + E) := by
  obtain ⟨hpow, hpow'⟩ := log2_bounds hM hlow hhigh
  have hE := two_zpow_pos E
  constructor
  · rw [zpow_add₀ two_ne_zero, zpow_natCast]
    exact mul_le_mul_of_nonneg_right hpow hE.le
  · rw [zpow_add₀ two_ne_zero]
    exact mul_lt_mul_of_pos_right (by exact_mod_cast hpow') hE

/-- The exponent that a number is cut to is that of the nearest float, or one less where rounding reaches the next power
of two. -/
theorem target_cases {M : Nat} {E T : Int} (hT : T = Format.binary64.targetExponent (totalExponent M E))
    (hlow : (M : ℚ) ≤ v) (hhigh : v < M + 1) (hET : E ≤ T) (h : Rounds (v * 2 ^ E) m e) :
    T = e ∨ T = e - 1 ∧ m = 2 ^ 52 ∧ -1074 < e ∧ v * 2 ^ E < 2 ^ 52 * 2 ^ e := by
  have hE := two_zpow_pos E
  have he := two_zpow_pos e
  have hbelow := h.low
  have habove := h.high
  have hleast := h.canonical.least
  rw [targetExponent_eq, totalExponent] at hT
  have hnormal (hne : e ≠ -1074) : (2 : ℚ) ^ 52 ≤ m := by exact_mod_cast h.canonical.normal.resolve_right hne
  by_cases hM : M = 0
  · -- less than the least float
    rw [hM] at hT hhigh
    have hsmall : v * 2 ^ E < 2 ^ E := by
      rw [Nat.cast_zero, zero_add] at hhigh
      nlinarith
    refine Or.inl (by_contra fun hne => ?_)
    have hlog : (0 : Nat).log2 = 0 := Nat.log2_zero
    have hexp : (2 : ℚ) ^ E ≤ 2 ^ e := zpow_le_zpow_right₀ one_le_two (by omega)
    have := hnormal (by omega)
    nlinarith
  · obtain ⟨hfrom, hto⟩ := log2_zpow_bounds hM hlow hhigh E
    have hlt : (m : ℚ) + 1 ≤ 2 ^ 53 := by exact_mod_cast h.canonical.lt
    have hmost : (M.log2 : Int) + E < 53 + e := by
      rw [← zpow_lt_zpow_iff_right₀ (one_lt_two : (1 : ℚ) < 2)]
      refine lt_of_le_of_lt (hfrom.trans habove) ?_
      rw [zpow_add₀ two_ne_zero]
      exact mul_lt_mul_of_pos_right (by linarith [show (2 : ℚ) ^ (53 : Int) = 2 ^ 53 by norm_num]) he
    by_cases hne : e = -1074
    · exact Or.inl (by omega)
    · have hnormal := hnormal hne
      have hleast' : 51 + e < (M.log2 : Int) + 1 + E := by
        rw [← zpow_lt_zpow_iff_right₀ (one_lt_two : (1 : ℚ) < 2)]
        refine lt_of_lt_of_le ?_ (hbelow.trans hto.le)
        rw [zpow_add₀ two_ne_zero]
        exact mul_lt_mul_of_pos_right (by linarith [show (2 : ℚ) ^ (51 : Int) + 1 ≤ 2 ^ 52 by norm_num]) he
      by_cases hTe : T = e
      · exact Or.inl hTe
      · have hless : v * 2 ^ E < 2 ^ 52 * 2 ^ e := by
          refine hto.trans_le ?_
          have hadd : (2 : ℚ) ^ 52 * 2 ^ e = 2 ^ (52 + e) := by
            rw [zpow_add₀ two_ne_zero]
            norm_num
          rw [hadd]
          exact zpow_le_zpow_right₀ one_le_two (by omega)
        have hm : (m : ℚ) < 2 ^ 52 + 1 := by
          have := lt_of_mul_lt_mul_right (hbelow.trans_lt hless) he.le
          linarith
        have hm : m < 2 ^ 52 + 1 := by exact_mod_cast hm
        have hm' : 2 ^ 52 ≤ m := by exact_mod_cast hnormal
        exact Or.inr ⟨by omega, by omega, by omega, hless⟩

theorem shiftToTarget_eq {M : Nat} {E T : Int} (hT : T = Format.binary64.targetExponent (totalExponent M E)) (hET : E ≤ T)
    (acc : Accuracy) : shiftToTargetExponent Format.binary64 M E acc =
      (ExtendedMantissa.ofMantissaAndAccuracy M acc >>> (T - E).toNat, T) := by
  rw [shiftToTargetExponent, ← hT, shiftToExponent]
  exact Prod.ext rfl (by dsimp only; omega)

theorem Canonical.target (h : Canonical m e) : Format.binary64.targetExponent (totalExponent m e) = e := by
  have hne := h.pos.ne'
  have hlt := (Nat.log2_lt hne).2 h.lt
  have hleast := h.least
  rw [targetExponent_eq, totalExponent]
  rcases h.normal with hnormal | hmin
  · have hlog := (Nat.le_log2 hne).2 hnormal
    omega
  · omega

/-- What has been rounded stays as it is. -/
theorem Canonical.shiftToTarget (h : Canonical m e) :
    shiftToTargetExponent Format.binary64 m e .exact = (⟨m, false, false⟩, e) := by
  rw [shiftToTarget_eq h.target.symm (Int.le_refl e), Int.sub_self]
  rfl

/-- A significand that has become too long is halved. -/
theorem shiftToTarget_carry (he : -1074 ≤ e) :
    shiftToTargetExponent Format.binary64 (2 ^ 53) e .exact = (⟨2 ^ 52, false, false⟩, e + 1) := by
  have hlog : (2 ^ 53 : Nat).log2 = 53 := Nat.log2_two_pow
  have hT : e + 1 = Format.binary64.targetExponent (totalExponent (2 ^ 53) e) := by
    rw [targetExponent_eq, totalExponent, hlog]
    omega
  rw [shiftToTarget_eq hT (by omega), show (e + 1 - e).toNat = 1 by omega]
  rfl

/-- A number with enough digits is rounded to the nearest float. -/
theorem roundWithAccuracy_eq (s : Sign) {M : Nat} {E : Int} {acc : Accuracy}
    (hholds : Holds (.ofMantissaAndAccuracy M acc) v) (hE : E ≤ Format.binary64.targetExponent (totalExponent M E))
    (h : Rounds (v * 2 ^ E) m e) :
    roundWithAccuracy Format.binary64 s M E acc = .finite s m e h.canonical.pos := by
  have hM : (ExtendedMantissa.ofMantissaAndAccuracy M acc).mantissa = M := by
    unfold ExtendedMantissa.ofMantissaAndAccuracy
    split <;> rfl
  obtain ⟨hlow, hhigh⟩ := hholds.bounds
  rw [hM] at hlow hhigh
  generalize hT : Format.binary64.targetExponent (totalExponent M E) = T at hE
  have hshift := hholds.shiftRight (T - E).toNat
  have hcut : v / 2 ^ (T - E).toNat = v * 2 ^ E / 2 ^ T := by
    have hpow : (2 : ℚ) ^ T = 2 ^ E * 2 ^ (T - E).toNat := by
      rw [← zpow_natCast, ← zpow_add₀ two_ne_zero]
      congr 1
      omega
    rw [hpow]
    field_simp
  rw [hcut] at hshift
  rw [roundWithAccuracy, shiftToTarget_eq hT.symm hE]
  dsimp only
  rcases target_cases hT.symm hlow hhigh hE h with rfl | ⟨rfl, rfl, hleast, hless⟩
  · rw [hshift.roundedMantissa_eq h.nearest, h.canonical.shiftToTarget]
    dsimp only
    rw [dif_neg h.canonical.pos.ne']
  · have hnear : NearestEven (v * 2 ^ E / 2 ^ (e - 1)) (2 ^ 53) := by
      have hhalf : v * 2 ^ E / 2 ^ (e - 1) = 2 * (v * 2 ^ E / 2 ^ e) := by
        rw [zpow_sub_one₀ two_ne_zero]
        field_simp
      have hlow := h.binade rfl hleast
      have hhigh : v * 2 ^ E / 2 ^ e < 2 ^ 52 := (div_lt_iff₀ (two_zpow_pos e)).2 hless
      rw [hhalf]
      push_cast at hlow ⊢
      exact ⟨by push_cast; linarith, by push_cast; linarith, fun _ => rfl⟩
    rw [hshift.roundedMantissa_eq hnear, shiftToTarget_carry (by omega), Int.sub_add_cancel]
    dsimp only
    rw [dif_neg (by decide)]


/-! ### Bits

A float is packed into bits and read off them again; the parts are all that there is to a finite one. -/

/-- The parts of a float with the given significand and exponent. -/
def partsFor (negative : Bool) (m : Nat) (e : Int) : FloatParts := ⟨negative, m, e, m = 2 ^ 52 && -1074 < e⟩

def isNegative : Sign → Bool
  | .negative => true
  | .positive => false

/-- What an unpacked float is. -/
def classOf : UnpackedFloat → FloatClass
  | .notANumber => .notNumber
  | .infinity s => .infinite (isNegative s)
  | .zero s => .finite (partsFor (isNegative s) 0 (-1074))
  | .finite s m e _ => .finite (partsFor (isNegative s) m e)

/-- The parts of the bits `n`, the exponent first. -/
theorem classifyBits_eq (n : Nat) : classifyBits n =
    if n / 2 ^ 52 % 2 ^ 11 = 2 ^ 11 - 1 then
      if n % 2 ^ 52 = 0 then .infinite (decide (n / 2 ^ 63 % 2 = 1)) else .notNumber
    else if n / 2 ^ 52 % 2 ^ 11 = 0 then .finite (partsFor (decide (n / 2 ^ 63 % 2 = 1)) (n % 2 ^ 52) (-1074))
    else .finite (partsFor (decide (n / 2 ^ 63 % 2 = 1)) (2 ^ 52 + n % 2 ^ 52) ((n / 2 ^ 52 % 2 ^ 11 : Nat) - 1075)) := by
  have hsubnormal : decide (n % 2 ^ 52 = 2 ^ 52) = false := decide_eq_false (by omega)
  have hbinade (power : Nat) : (decide (2 ^ 52 + n % 2 ^ 52 = 2 ^ 52) && decide (-1074 < (power : Int) - 1075)) =
      (decide (n % 2 ^ 52 = 0) && decide (power > 1)) := by
    congr 1 <;> exact decide_eq_decide.2 (by omega)
  simp only [partsFor, hsubnormal, hbinade, Bool.false_and]
  rfl

section Bits

variable (b : BitVec Format.binary64.numBits)

theorem toNat_unpackMantissa : (unpackMantissa b).toNat = b.toNat % 2 ^ 52 := by
  simp [unpackMantissa]

theorem toNat_unpackExponent : (unpackExponent b).toNat = b.toNat / 2 ^ 52 % 2 ^ 11 := by
  simp [unpackExponent, Nat.shiftRight_eq_div_pow]

theorem toNat_unpackSign : (unpackSign b).toNat = b.toNat / 2 ^ 63 % 2 := by
  change (BitVec.extractLsb 63 63 b).toNat = _
  simp [Nat.shiftRight_eq_div_pow]

theorem isNegative_unpackSign : isNegative (.ofBitVec (unpackSign b)) = decide (b.toNat / 2 ^ 63 % 2 = 1) := by
  rw [← toNat_unpackSign]
  rcases BitVec.eq_zero_or_eq_one (unpackSign b) with h | h <;> rw [h] <;> rfl

/-- What bits unpack to, by their exponent and mantissa. -/
theorem classOf_unpack_eq : classOf (UnpackedFloat.unpack Format.binary64 b) =
    if unpackExponent b = -1#_ then
      if unpackMantissa b = 0#_ then .infinite (isNegative (.ofBitVec (unpackSign b))) else .notNumber
    else if unpackExponent b = 0#_ then
      .finite (partsFor (isNegative (.ofBitVec (unpackSign b))) (unpackMantissa b).toNat (-1074))
    else .finite (partsFor (isNegative (.ofBitVec (unpackSign b))) (1#1 ++ unpackMantissa b).toNat
      ((unpackExponent b).toNat - 1075)) := by
  by_cases hmax : unpackExponent b = -1#_
  · refine (congrArg classOf (if_pos hmax)).trans ((apply_ite classOf _ _ _).trans ?_)
    exact (if_pos hmax).symm
  · refine (congrArg classOf (if_neg hmax)).trans (Eq.trans ?_ (if_neg hmax).symm)
    by_cases hzero : unpackExponent b = 0#_
    · refine (congrArg classOf (if_pos hzero)).trans (Eq.trans ?_ (if_pos hzero).symm)
      by_cases hnone : unpackMantissa b = 0#_
      · refine (congrArg classOf (dif_pos hnone)).trans ?_
        rw [hnone]
        rfl
      · refine (congrArg classOf (dif_neg hnone)).trans ?_
        change FloatClass.finite (partsFor _ _ (((unpackExponent b).toNat : Int) - 1075 + 1)) = _
        rw [hzero]
        rfl
    · exact (congrArg classOf (if_neg hzero)).trans (if_neg hzero).symm

/-- Unpacking a float and reading its parts off its bits is the same. -/
theorem classOf_unpack : classOf (UnpackedFloat.unpack Format.binary64 b) = classifyBits b.toNat := by
  have hmantissa := toNat_unpackMantissa b
  have hexponent := toNat_unpackExponent b
  have hm : unpackMantissa b = 0#_ ↔ b.toNat % 2 ^ 52 = 0 := by
    rw [← BitVec.toNat_inj, hmantissa, BitVec.toNat_ofNat, Nat.zero_mod]
  have he : unpackExponent b = 0#_ ↔ b.toNat / 2 ^ 52 % 2 ^ 11 = 0 := by
    rw [← BitVec.toNat_inj, hexponent, BitVec.toNat_ofNat, Nat.zero_mod]
  have hmax : unpackExponent b = -1#_ ↔ b.toNat / 2 ^ 52 % 2 ^ 11 = 2 ^ 11 - 1 := by
    rw [← BitVec.toNat_inj, hexponent]
    rfl
  have hnormal : (1#1 ++ unpackMantissa b).toNat = 2 ^ 52 + b.toNat % 2 ^ 52 := by
    rw [BitVec.toNat_append, ← Nat.shiftLeft_add_eq_or_of_lt (unpackMantissa b).isLt, hmantissa]
    rfl
  rw [classOf_unpack_eq, classifyBits_eq]
  simp only [hm, he, hmax, isNegative_unpackSign, hmantissa, hnormal, hexponent]

variable (s : Sign) (e : BitVec Format.binary64.exponentBits) (m : BitVec Format.binary64.mantissaBitsWithoutImplicit)

theorem toNat_packComponents :
    (packComponents Format.binary64 s e m).toNat = s.toBitVec.toNat * 2 ^ 63 + e.toNat * 2 ^ 52 + m.toNat := by
  have he : e.toNat < 2 ^ 11 := e.isLt
  have hm : m.toNat < 2 ^ 52 := m.isLt
  rw [packComponents, BitVec.toNat_append, BitVec.toNat_append, ← Nat.shiftLeft_add_eq_or_of_lt he,
    ← Nat.shiftLeft_add_eq_or_of_lt hm, Nat.shiftLeft_eq, Nat.shiftLeft_eq]
  omega

/-- What is read off a sign, an exponent and a mantissa next to each other. -/
theorem classifyBits_packComponents : classifyBits (packComponents Format.binary64 s e m).toNat =
    if e.toNat = 2 ^ 11 - 1 then if m.toNat = 0 then .infinite (isNegative s) else .notNumber
    else if e.toNat = 0 then .finite (partsFor (isNegative s) m.toNat (-1074))
    else .finite (partsFor (isNegative s) (2 ^ 52 + m.toNat) (e.toNat - 1075)) := by
  have he : e.toNat < 2 ^ 11 := e.isLt
  have hm : m.toNat < 2 ^ 52 := m.isLt
  have hs : s.toBitVec.toNat < 2 := s.toBitVec.isLt
  have hsign : isNegative s = decide (s.toBitVec.toNat = 1) := by cases s <;> rfl
  rw [toNat_packComponents, classifyBits_eq, hsign]
  have hmantissa : (s.toBitVec.toNat * 2 ^ 63 + e.toNat * 2 ^ 52 + m.toNat) % 2 ^ 52 = m.toNat := by omega
  have hexponent : (s.toBitVec.toNat * 2 ^ 63 + e.toNat * 2 ^ 52 + m.toNat) / 2 ^ 52 % 2 ^ 11 = e.toNat := by omega
  have hnegative : (s.toBitVec.toNat * 2 ^ 63 + e.toNat * 2 ^ 52 + m.toNat) / 2 ^ 63 % 2 = s.toBitVec.toNat := by omega
  rw [hmantissa, hexponent, hnegative]

end Bits

theorem pack_zero (s : Sign) : UnpackedFloat.pack Format.binary64 (.zero s) = packComponents Format.binary64 s 0 0 := rfl

theorem pack_finite (s : Sign) (hm : 0 < m) : UnpackedFloat.pack Format.binary64 (.finite s m e hm) =
    if 2 ^ 11 ≤ (e + 1023 + 52).toNat + 1 then packComponents Format.binary64 s (-1#_) 0
    else if m.log2 + 1 = 53 then packComponents Format.binary64 s (.ofNat 11 (e + 1023 + 52).toNat) (.ofNat 52 m)
    else packComponents Format.binary64 s 0#_ (.ofNat 52 m) := rfl

/-- A float within the range keeps its parts; one beyond is infinite. -/
theorem Canonical.classifyBits_pack (h : Canonical m e) (s : Sign) :
    classifyBits (UnpackedFloat.pack Format.binary64 (.finite s m e h.pos)).toNat =
      if e ≤ 971 then .finite (partsFor (isNegative s) m e) else .infinite (isNegative s) := by
  have hleast := h.least
  have hlt := (Nat.log2_lt h.pos.ne').2 h.lt
  have hle := Nat.le_log2 (k := 52) h.pos.ne'
  rw [pack_finite]
  by_cases he : e ≤ 971
  · rw [if_neg (by omega), if_pos he]
    by_cases hnormal : m.log2 + 1 = 53
    · have hexponent : (BitVec.ofNat 11 (e + 1023 + 52).toNat).toNat = (e + 1023 + 52).toNat := by
        rw [BitVec.toNat_ofNat]
        omega
      have hmantissa : 2 ^ 52 + (BitVec.ofNat 52 m).toNat = m := by
        have := h.lt
        rw [BitVec.toNat_ofNat]
        omega
      have hback : ((e + 1023 + 52).toNat : Int) - 1075 = e := by omega
      rw [if_pos hnormal, classifyBits_packComponents, hexponent, hmantissa, hback, if_neg (by omega), if_neg (by omega)]
    · have hmantissa : (BitVec.ofNat 52 m).toNat = m := by
        rw [BitVec.toNat_ofNat]
        omega
      rw [if_neg hnormal, classifyBits_packComponents, hmantissa, h.normal.resolve_left (by omega)]
      rfl
  · rw [if_pos (by omega), if_neg he, classifyBits_packComponents]
    rfl

/-- The parts of a float are those of a zero, or such that no other float has them. -/
theorem classifyBits_finite {n : Nat} {p : FloatParts} (h : classifyBits n = .finite p) :
    p = partsFor p.negative p.significand p.exponent ∧
      (p.significand = 0 ∧ p.exponent = -1074 ∨ Canonical p.significand p.exponent ∧ p.exponent ≤ 971) := by
  rw [classifyBits_eq] at h
  split at h
  · split at h <;> cases h
  · split at h
    · cases h
      refine ⟨rfl, ?_⟩
      rcases Nat.eq_zero_or_pos (n % 2 ^ 52) with hzero | hpos
      · exact Or.inl ⟨hzero, rfl⟩
      · exact Or.inr ⟨⟨hpos, by dsimp only [partsFor]; omega, Int.le_refl _, Or.inr rfl⟩, by dsimp only [partsFor]; omega⟩
    · cases h
      refine ⟨rfl, Or.inr ⟨⟨?_, ?_, ?_, Or.inl ?_⟩, ?_⟩⟩ <;> dsimp only [partsFor] <;> omega

/-- The parts tell the bits. -/
theorem eq_of_classifyBits {n k : Nat} {p : FloatParts} (hn : n < 2 ^ 64) (hk : k < 2 ^ 64)
    (h : classifyBits n = .finite p) (h' : classifyBits k = .finite p) : n = k := by
  rw [classifyBits_eq] at h h'
  split_ifs at h <;> cases h <;> split_ifs at h' <;>
    simp only [FloatClass.finite.injEq, partsFor, FloatParts.mk.injEq, decide_eq_decide] at h' <;> omega

/-- Finite floats with the same parts are the same. -/
theorem eq_of_classify {x y : Float} {p : FloatParts} (hx : classify x = .finite p) (hy : classify y = .finite p) : x = y := by
  obtain ⟨⟨x, hvalid⟩⟩ := x
  obtain ⟨⟨y, hvalid'⟩⟩ := y
  have hbits : x.toNat = y.toNat := eq_of_classifyBits x.toNat_lt y.toNat_lt hx hy
  obtain rfl := UInt64.toNat_inj.1 hbits
  rfl

/-! ### Floats as numbers -/

theorem classify_eq (x : Float) : classify x = classOf x.toModel.unpack := (classOf_unpack x.toModel.toBits.toBitVec).symm

/-- The parts of a packed float. -/
theorem Canonical.classify_pack (h : Canonical m e) (s : Sign) :
    classify (.ofModel (.pack (.finite s m e h.pos))) =
      if e ≤ 971 then .finite (partsFor (isNegative s) m e) else .infinite (isNegative s) :=
  h.classifyBits_pack s

theorem exists_of_classOf {u : UnpackedFloat} {p : FloatParts} (h : classOf u = .finite p) (hp : p.significand ≠ 0) :
    ∃ s hpos, u = .finite s p.significand p.exponent hpos ∧ isNegative s = p.negative := by
  cases u with
  | notANumber | infinity s => cases h
  | zero s =>
    cases h
    exact absurd rfl hp
  | finite s m e hpos =>
    cases h
    exact ⟨s, hpos, rfl, rfl⟩

theorem exists_unpack {x : Float} {p : FloatParts} (h : classify x = .finite p) (hp : p.significand ≠ 0) :
    ∃ s hpos, x.toModel.unpack = .finite s p.significand p.exponent hpos ∧ isNegative s = p.negative :=
  exists_of_classOf ((classify_eq x).symm.trans h) hp

theorem mul_finite (s t : Sign) {n : Nat} {f : Int} (hm : 0 < m) (hn : 0 < n) :
    UnpackedFloat.mul Format.binary64 (.finite s m e hm) (.finite t n f hn) =
      roundWithAccuracy Format.binary64 (s * t) (m * n) (e + f) .exact := rfl

theorem isNegative_mul (s t : Sign) : isNegative (s * t) = (isNegative s != isNegative t) := by
  cases s <;> cases t <;> rfl

/-- A product of many digits is the float nearest to the exact one. -/
theorem classify_mul {x y : Float} {p q : FloatParts} (hx : classify x = .finite p) (hy : classify y = .finite q)
    (hlong : 2 ^ 52 ≤ p.significand * q.significand) (h : Rounds (p.magnitude * q.magnitude) m e) :
    classify (x * y) = if e ≤ 971 then .finite (partsFor (p.negative != q.negative) m e)
      else .infinite (p.negative != q.negative) := by
  have hne : p.significand * q.significand ≠ 0 := fun hzero => by rw [hzero] at hlong; omega
  obtain ⟨s, hs, hxs, hneg⟩ := exists_unpack hx (left_ne_zero_of_mul hne)
  obtain ⟨t, ht, hyt, hneg'⟩ := exists_unpack hy (right_ne_zero_of_mul hne)
  have hvalue : p.magnitude * q.magnitude = (p.significand * q.significand : Nat) * 2 ^ (p.exponent + q.exponent) := by
    rw [FloatParts.magnitude, FloatParts.magnitude, zpow_add₀ two_ne_zero]
    push_cast
    ring
  have hdigits := (Nat.le_log2 hne).2 hlong
  have htarget : p.exponent + q.exponent ≤ Format.binary64.targetExponent
      (totalExponent (p.significand * q.significand) (p.exponent + q.exponent)) := by
    rw [targetExponent_eq, totalExponent]
    omega
  rw [hvalue] at h
  have hmul : x * y = .ofModel (.pack (UnpackedFloat.mul Format.binary64 x.toModel.unpack y.toModel.unpack)) := rfl
  rw [hmul, hxs, hyt, mul_finite, roundWithAccuracy_eq _ (holds_exact _) htarget h, h.canonical.classify_pack,
    isNegative_mul, hneg, hneg']

/-- Bits make the float whose parts they tell. -/
theorem classify_ofBits {n : UInt64} {p : FloatParts} (h : classifyBits n.toNat = .finite p) :
    classify (.ofBits n) = .finite p := by
  have hunpack : classOf (UnpackedFloat.unpack Format.binary64 n.toBitVec) = .finite p := (classOf_unpack n.toBitVec).trans h
  have hbits : classify (.ofBits n) = classifyBits (UnpackedFloat.pack Format.binary64
      (UnpackedFloat.unpack Format.binary64 n.toBitVec)).toNat := rfl
  obtain ⟨hp, ⟨hsig, hexp⟩ | ⟨hcanonical, hexp⟩⟩ := classifyBits_finite h
  · generalize UnpackedFloat.unpack Format.binary64 n.toBitVec = u at hunpack hbits
    cases u with
    | notANumber | infinity s => cases hunpack
    | zero s =>
      rw [hbits, pack_zero, classifyBits_packComponents, ← hunpack]
      rfl
    | finite s m e hm =>
      cases hunpack
      exact absurd hsig hm.ne'
  · obtain ⟨s, hpos, hfinite, hneg⟩ := exists_of_classOf hunpack hcanonical.pos.ne'
    rw [hbits, hfinite, hcanonical.classifyBits_pack, if_pos hexp, hneg, ← hp]

/-- Zero times a number is zero. -/
theorem classify_zero_mul {x y : Float} {p q : FloatParts} (hx : classify x = .finite p) (hy : classify y = .finite q)
    (hp : p.significand = 0) (hq : q.significand ≠ 0) :
    classify (x * y) = .finite (partsFor (p.negative != q.negative) 0 (-1074)) := by
  obtain ⟨t, ht, hyt, hneg'⟩ := exists_unpack hy hq
  have hx' := (classify_eq x).symm.trans hx
  have hmul : x * y = .ofModel (.pack (UnpackedFloat.mul Format.binary64 x.toModel.unpack y.toModel.unpack)) := rfl
  rw [hmul, hyt]
  generalize x.toModel.unpack = u at hx'
  cases u with
  | notANumber | infinity s => cases hx'
  | zero s =>
    cases hx'
    change classifyBits (packComponents Format.binary64 (s * t) 0 0).toNat = _
    rw [classifyBits_packComponents, isNegative_mul, hneg']
    rfl
  | finite s m e hm =>
    cases hx'
    exact absurd hp hm.ne'

/-- The exponent of a quotient is low enough for all digits that a float has. -/
theorem le_target_div {a b : Nat} {e f E : Int} (ha : 0 < a) (hb : 0 < b)
    (hE : E = min (e - f) (Format.binary64.targetExponent (totalExponent a e - totalExponent b f))) :
    E ≤ Format.binary64.targetExponent (totalExponent (a <<< (e - f - E).toNat / b) E) := by
  rw [targetExponent_eq, totalExponent, totalExponent] at hE
  rw [targetExponent_eq, totalExponent]
  by_cases hsmall : E ≤ -1074
  · omega
  · -- the quotient has 53 digits at least
    generalize hk : (e - f - E).toNat = k
    have hlog : b.log2 + 52 ≤ a.log2 + k := by omega
    have hquotient : 2 ^ (a.log2 + k - b.log2 - 1) ≤ a <<< k / b := by
      rw [Nat.le_div_iff_mul_le hb, Nat.shiftLeft_eq]
      calc 2 ^ (a.log2 + k - b.log2 - 1) * b ≤ 2 ^ (a.log2 + k - b.log2 - 1) * 2 ^ (b.log2 + 1) :=
            Nat.mul_le_mul_left _ Nat.lt_log2_self.le
        _ = 2 ^ a.log2 * 2 ^ k := by rw [← Nat.pow_add, ← Nat.pow_add]; congr 1; omega
        _ ≤ a * 2 ^ k := Nat.mul_le_mul_right _ (Nat.log2_self_le ha.ne')
    have hpos : a <<< k / b ≠ 0 := (Nat.lt_of_lt_of_le (Nat.two_pow_pos _) hquotient).ne'
    have := (Nat.le_log2 hpos).2 hquotient
    omega

/-- A quotient is rounded to the float nearest to the exact one. -/
theorem roundWithAccuracy_div (s : Sign) {a b : Nat} {f g : Int} (ha : 0 < a) (hb : 0 < b)
    (h : Rounds (a * 2 ^ f / (b * 2 ^ g)) m e) :
    roundWithAccuracy Format.binary64 s (divCore Format.binary64 a f b g).1 (divCore Format.binary64 a f b g).2.1
      (divCore Format.binary64 a f b g).2.2 = .finite s m e h.canonical.pos := by
  obtain ⟨E, hE⟩ : ∃ E, E = min (f - g) (Format.binary64.targetExponent (totalExponent a f - totalExponent b g)) := ⟨_, rfl⟩
  have hcore : divCore Format.binary64 a f b g = (a <<< (f - g - E).toNat / b, E,
      accuracyOfFraction (a <<< (f - g - E).toNat % b) b) := by rw [hE]; rfl
  have htarget := le_target_div ha hb hE
  have hEle : E ≤ f - g := hE ▸ min_le_left _ _
  have hb0 : (b : ℚ) ≠ 0 := by exact_mod_cast hb.ne'
  rw [hcore]
  dsimp only
  generalize hc : a <<< (f - g - E).toNat = c at htarget ⊢
  have hexact : ((c / b : Nat) : ℚ) + ((c % b : Nat) : ℚ) / b = c / b := by
    rw [eq_div_iff hb0, add_mul, div_mul_cancel₀ _ hb0]
    exact_mod_cast Nat.div_add_mod' c b
  have hholds := holds_fraction (c / b) (Nat.mod_lt c hb)
  rw [hexact] at hholds
  have hvalue : (a : ℚ) * 2 ^ f / (b * 2 ^ g) = c / b * 2 ^ E := by
    have hpower : (2 : ℚ) ^ f = 2 ^ g * 2 ^ (f - g - E).toNat * 2 ^ E := by
      rw [← zpow_natCast, ← zpow_add₀ two_ne_zero, ← zpow_add₀ two_ne_zero]
      congr 1
      omega
    rw [← hc, Nat.shiftLeft_eq, hpower]
    have := (two_zpow_pos g).ne'
    push_cast
    field_simp
  rw [hvalue] at h
  exact roundWithAccuracy_eq s hholds htarget h


theorem div_finite (s t : Sign) {n : Nat} {f : Int} (hm : 0 < m) (hn : 0 < n) :
    UnpackedFloat.div Format.binary64 (.finite s m e hm) (.finite t n f hn) =
      roundWithAccuracy Format.binary64 (s / t) (divCore Format.binary64 m e n f).1 (divCore Format.binary64 m e n f).2.1
        (divCore Format.binary64 m e n f).2.2 := rfl

theorem isNegative_div (s t : Sign) : isNegative (s / t) = (isNegative s != isNegative t) := by
  cases s <;> cases t <;> rfl

/-- A quotient is the float nearest to the exact one. -/
theorem classify_div {x y : Float} {p q : FloatParts} (hx : classify x = .finite p) (hy : classify y = .finite q)
    (hp : p.significand ≠ 0) (hq : q.significand ≠ 0) (h : Rounds (p.magnitude / q.magnitude) m e) :
    classify (x / y) = if e ≤ 971 then .finite (partsFor (p.negative != q.negative) m e)
      else .infinite (p.negative != q.negative) := by
  obtain ⟨s, hs, hxs, hneg⟩ := exists_unpack hx hp
  obtain ⟨t, ht, hyt, hneg'⟩ := exists_unpack hy hq
  have hdiv : x / y = .ofModel (.pack (UnpackedFloat.div Format.binary64 x.toModel.unpack y.toModel.unpack)) := rfl
  rw [hdiv, hxs, hyt, div_finite, roundWithAccuracy_div _ hs ht h, h.canonical.classify_pack, isNegative_div, hneg, hneg']

/-- The sign is all that changes. -/
theorem classify_neg {x : Float} {p : FloatParts} (hx : classify x = .finite p) :
    classify (-x) = .finite (partsFor (!p.negative) p.significand p.exponent) := by
  have hx' := (classify_eq x).symm.trans hx
  have hsign (s : Sign) : isNegative (-s) = !isNegative s := by cases s <;> rfl
  have hneg : -x = .ofModel (.pack x.toModel.unpack.neg) := rfl
  rw [hneg]
  obtain ⟨-, ⟨hzero, hexp⟩ | ⟨hcanonical, hexp⟩⟩ := classifyBits_finite hx
  · generalize x.toModel.unpack = u at hx'
    cases u with
    | notANumber | infinity s => cases hx'
    | zero s =>
      cases hx'
      change classifyBits (packComponents Format.binary64 (-s) 0 0).toNat = _
      rw [classifyBits_packComponents, hsign]
      rfl
    | finite s m e hm =>
      cases hx'
      exact absurd hzero hm.ne'
  · obtain ⟨s, hpos, hfinite, hnegative⟩ := exists_of_classOf hx' hcanonical.pos.ne'
    rw [hfinite]
    change classify (.ofModel (.pack (.finite (-s) p.significand p.exponent hpos))) = _
    rw [hcanonical.classify_pack, if_pos hexp, hsign, hnegative]

/-- Twice as much, any number of times, has as many digits. -/
theorem exists_canonical (hpos : 0 < m) (hlt : m < 2 ^ 53) (he : -1074 ≤ e) :
    ∃ m' e', Canonical m' e' ∧ (m' : ℚ) * 2 ^ e' = m * 2 ^ e := by
  have hlog := (Nat.log2_lt hpos.ne').2 hlt
  obtain ⟨j, hj⟩ : ∃ j, j = min (52 - m.log2) (e + 1074).toNat := ⟨_, rfl⟩
  have hlow : 2 ^ (m.log2 + j) ≤ m * 2 ^ j := by
    rw [Nat.pow_add]
    exact Nat.mul_le_mul_right _ (Nat.log2_self_le hpos.ne')
  have hhigh : m * 2 ^ j < 2 ^ (m.log2 + 1 + j) := by
    rw [Nat.pow_add]
    exact Nat.mul_lt_mul_of_pos_right Nat.lt_log2_self (Nat.two_pow_pos j)
  refine ⟨m * 2 ^ j, e - j, ⟨Nat.mul_pos hpos (Nat.two_pow_pos j), ?_, by omega, ?_⟩, ?_⟩
  · exact Nat.lt_of_lt_of_le hhigh (Nat.pow_le_pow_right (by decide) (by omega))
  · rcases Nat.le_total (52 - m.log2) (e + 1074).toNat with hle | hle
    · refine Or.inl (Nat.le_trans ?_ hlow)
      exact Nat.pow_le_pow_right (by decide) (by omega)
    · exact Or.inr (by omega)
  · rw [zpow_sub₀ two_ne_zero, zpow_natCast]
    push_cast
    field_simp

/-! ### Comparing -/

/-- Of two floats the one with the greater exponent is the greater one. -/
theorem Canonical.lt_of_exponent_lt {m n : Nat} {e f : Int} (h : Canonical m e) (k : Canonical n f) (hlt : e < f) :
    (m : ℚ) * 2 ^ e < n * 2 ^ f := by
  have hleast := h.least
  have hm : (m : ℚ) < 2 * 2 ^ 52 := by exact_mod_cast h.lt
  have hn : (2 : ℚ) ^ 52 ≤ n := by exact_mod_cast k.normal.resolve_right (by omega)
  have hdouble : 2 * (2 : ℚ) ^ e ≤ 2 ^ f := by
    rw [← zpow_one_add₀ two_ne_zero]
    exact zpow_le_zpow_right₀ one_le_two (by omega)
  calc (m : ℚ) * 2 ^ e < 2 * 2 ^ 52 * 2 ^ e := mul_lt_mul_of_pos_right hm (two_zpow_pos e)
    _ = 2 ^ 52 * (2 * 2 ^ e) := by ring
    _ ≤ n * 2 ^ f := mul_le_mul hn hdouble (by positivity) (by positivity)

theorem Canonical.compare_eq {m n : Nat} {e f : Int} (h : Canonical m e) (k : Canonical n f) :
    (compare e f).then (compare m n) = compare ((m : ℚ) * 2 ^ e) (n * 2 ^ f) := by
  rcases lt_trichotomy e f with hlt | rfl | hgt
  · rw [compare_lt_iff_lt.2 hlt, compare_lt_iff_lt.2 (h.lt_of_exponent_lt k hlt)]
    rfl
  · have hsame : compare ((m : ℚ) * 2 ^ e) (n * 2 ^ e) = compare m n := by
      rcases lt_trichotomy m n with hlt | rfl | hgt
      · rw [compare_lt_iff_lt.2 hlt, compare_lt_iff_lt]
        exact mul_lt_mul_of_pos_right (by exact_mod_cast hlt) (two_zpow_pos e)
      · rw [compare_eq_iff_eq.2 rfl, compare_eq_iff_eq.2 rfl]
      · rw [compare_gt_iff_gt.2 hgt, compare_gt_iff_gt]
        exact mul_lt_mul_of_pos_right (by exact_mod_cast hgt) (two_zpow_pos e)
    rw [compare_eq_iff_eq.2 rfl, hsame]
    rfl
  · rw [compare_gt_iff_gt.2 hgt, compare_gt_iff_gt.2 (k.lt_of_exponent_lt h hgt)]
    rfl

theorem compare_neg (a b : ℚ) : compare (-a) (-b) = (compare a b).swap := by
  rcases lt_trichotomy a b with hlt | rfl | hgt
  · rw [compare_lt_iff_lt.2 hlt, compare_gt_iff_gt.2 (neg_lt_neg hlt)]
    rfl
  · rw [compare_eq_iff_eq.2 rfl, compare_eq_iff_eq.2 rfl]
    rfl
  · rw [compare_gt_iff_gt.2 hgt, compare_lt_iff_lt.2 (neg_lt_neg hgt)]
    rfl

/-- Finite floats compare as the numbers that they are. -/
theorem compare_unpacked {u w : UnpackedFloat} {p q : FloatParts} (hu : classOf u = .finite p) (hw : classOf w = .finite q)
    (hp : p.significand ≠ 0 → Canonical p.significand p.exponent)
    (hq : q.significand ≠ 0 → Canonical q.significand q.exponent) : u.compare w = some (compare p.value q.value) := by
  have hzero (s : Sign) : (partsFor (isNegative s) 0 (-1074)).value = 0 := by
    simp [FloatParts.value, FloatParts.magnitude, partsFor]
  have hpositive (m : Nat) (e : Int) : (partsFor (isNegative .positive) m e).value = m * 2 ^ e := rfl
  have hnegative (m : Nat) (e : Int) : (partsFor (isNegative .negative) m e).value = -(m * 2 ^ e) := rfl
  have hpos {m : Nat} (h : 0 < m) (e : Int) : (0 : ℚ) < m * 2 ^ e := mul_pos (by exact_mod_cast h) (two_zpow_pos e)
  cases u with
  | notANumber | infinity s => cases hu
  | zero s =>
    cases hu
    cases w with
    | notANumber | infinity t => cases hw
    | zero t =>
      cases hw
      rw [hzero, hzero, compare_eq_iff_eq.2 rfl]
      rfl
    | finite t n f hn =>
      cases hw
      rw [hzero]
      cases t with
      | positive =>
        rw [hpositive, compare_lt_iff_lt.2 (hpos hn f)]
        rfl
      | negative =>
        rw [hnegative, compare_gt_iff_gt.2 (neg_lt_zero.2 (hpos hn f))]
        rfl
  | finite s m e hm =>
    cases hu
    cases w with
    | notANumber | infinity t => cases hw
    | zero t =>
      cases hw
      rw [hzero]
      cases s with
      | positive =>
        rw [hpositive, compare_gt_iff_gt.2 (hpos hm e)]
        rfl
      | negative =>
        rw [hnegative, compare_lt_iff_lt.2 (neg_lt_zero.2 (hpos hm e))]
        rfl
    | finite t n f hn =>
      cases hw
      have hsame := (hp hm.ne').compare_eq (hq hn.ne')
      have hm := hpos hm e
      have hn := hpos hn f
      cases s with
      | positive =>
        cases t with
        | positive => exact congrArg some hsame
        | negative =>
          rw [hpositive, hnegative, compare_gt_iff_gt.2 ((neg_lt_zero.2 hn).trans hm)]
          rfl
      | negative =>
        cases t with
        | positive =>
          rw [hpositive, hnegative, compare_lt_iff_lt.2 ((neg_lt_zero.2 hm).trans hn)]
          rfl
        | negative =>
          rw [hnegative, hnegative, compare_neg]
          exact congrArg (fun o : Ordering => some o.swap) hsame

theorem lt_iff {x y : Float} {p q : FloatParts} (hx : classify x = .finite p) (hy : classify y = .finite q) :
    x < y ↔ p.value < q.value := by
  have hcompare : x.toModel.unpack.compare y.toModel.unpack = some (compare p.value q.value) := by
    refine compare_unpacked ((classify_eq x).symm.trans hx) ((classify_eq y).symm.trans hy) (fun hne => ?_) fun hne => ?_
    · exact ((classifyBits_finite hx).2.resolve_left fun h => hne h.1).1
    · exact ((classifyBits_finite hy).2.resolve_left fun h => hne h.1).1
  have hlt : x < y ↔ (x.toModel.unpack.compare y.toModel.unpack == some .lt) = true := decide_eq_true_iff
  rw [hlt, hcompare, ← compare_lt_iff_lt]
  cases compare p.value q.value <;> decide

/-- Every number is less than infinity. -/
theorem lt_infinite {x y : Float} {p : FloatParts} (hx : classify x = .finite p) (hy : classify y = .infinite false) :
    x < y := by
  have hx' := (classify_eq x).symm.trans hx
  have hy' := (classify_eq y).symm.trans hy
  have hlt : x < y ↔ (x.toModel.unpack.compare y.toModel.unpack == some .lt) = true := decide_eq_true_iff
  rw [hlt]
  generalize x.toModel.unpack = u at hx'
  generalize y.toModel.unpack = w at hy'
  cases w with
  | notANumber | zero t | finite t n f hn => cases hy'
  | infinity t =>
    cases t with
    | negative => cases hy'
    | positive =>
      cases u with
      | notANumber | infinity s => cases hx'
      | zero s => rfl
      | finite s m e hm => cases s <;> rfl

end Rounding

end Proofreader
