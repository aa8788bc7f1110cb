import Proofreader.Proofs.Number.Rounding
import Proofreader.Time

/-! The spans between attempts, each twice the one before. Exact numbers have them all; floats have those of which the
factor is a float. -/

namespace Proofreader

/-- Spans of time as exact numbers, which can always be doubled. -/
instance : Time ℚ where
  add x y := x + y
  less x y := decide (x < y)
  quarters n := n / 4
  scale x n := .ok (x * 2 ^ n)

namespace Backoff

variable {τ : Type} [Time τ]

/-- The spans after the first `n` failures: twice as long each time, up to the longest. -/
structure Doubles (b : Backoff τ) (base : τ) (span : Nat → τ) (n : Nat) : Prop where
  first : b.first = .ok base
  span : ∀ i, i < n → ∃ d, Time.scale base i = .ok d ∧ span (i + 1) = Time.lesser d b.longest

variable {b : Backoff τ} {base : τ} {span : Nat → τ} {n i : Nat}

theorem Doubles.mono {k : Nat} (h : b.Doubles base span n) (hk : k ≤ n) : b.Doubles base span k :=
  ⟨h.first, fun i hi => h.span i (Nat.lt_of_lt_of_le hi hk)⟩

theorem Doubles.pause (h : b.Doubles base span n) (hi : i < n) :
    b.pause ((i + 1 : Nat) : Int) = .ok (Time.positive? (span (i + 1))) := by
  obtain ⟨d, hd, hspan⟩ := h.span i hi
  have hpred : ((i + 1 : Nat) : Int) - 1 = i := by omega
  rw [hspan, Backoff.pause, Backoff.delay, h.first, hpred]
  change (Time.scale base i >>= _).map _ = _
  rw [hd]
  rfl

/-- A span that is out of reach shows when it is needed. -/
theorem pause_error {m : Mishap} (hfirst : b.first = .ok base) (h : Time.scale base (n : Int) = .error m) :
    b.pause ((n + 1 : Nat) : Int) = .error m := by
  have hpred : ((n + 1 : Nat) : Int) - 1 = n := by omega
  rw [Backoff.pause, Backoff.delay, hfirst, hpred]
  change (Time.scale base n >>= _).map _ = _
  rw [h]
  rfl

/-- Exact numbers have all spans. -/
theorem doubles_exact (b : Backoff ℚ) {base : ℚ} (hfirst : b.first = .ok base) (n : Nat) :
    b.Doubles base (fun i => min (base * 2 ^ (i - 1)) b.longest) n := by
  refine ⟨hfirst, fun i _ => ⟨base * 2 ^ i, by simp [Time.scale], ?_⟩⟩
  rw [Nat.add_sub_cancel]
  change _ = if decide (b.longest < base * 2 ^ i) = true then b.longest else base * 2 ^ i
  by_cases hless : b.longest < base * 2 ^ i
  · rw [if_pos (decide_eq_true hless), min_eq_right (le_of_lt hless)]
  · rw [if_neg (by simpa using hless), min_eq_left (le_of_not_gt hless)]

theorem positive?_exact {d : ℚ} (h : 0 < d) : Time.positive? d = some d := by
  have hzero : (Time.zero : ℚ) = 0 := by simp [Time.zero, Time.quarters]
  rw [Time.positive?, hzero]
  exact if_pos (decide_eq_true h)

end Backoff

/-! ### Quantities

What is waited for is a whole number or a float. Doubling either is exact as long as it can be done at all. -/

open Rounding

namespace FloatParts

variable {p : FloatParts} {i : Int}

/-- The value over a power of two that makes it whole. -/
theorem value_eq_scaled (p : FloatParts) : p.value = p.scaled.1 / 2 ^ p.scaled.2 := by
  have hsign : p.value = (if p.negative then -(p.significand : ℚ) else p.significand) * 2 ^ p.exponent := by
    rw [value, magnitude]
    split <;> ring
  have hpower : (2 : ℚ) ^ p.exponent = 2 ^ p.exponent.toNat / 2 ^ (-p.exponent).toNat := by
    rw [← zpow_natCast, ← zpow_natCast, ← zpow_sub₀ two_ne_zero]
    congr 1
    omega
  rw [hsign, hpower, scaled]
  split <;> push_cast [Nat.pow_eq] <;> ring

theorem isAbove_iff : p.isAbove i = true ↔ (i : ℚ) < p.value := by
  rw [value_eq_scaled, lt_div_iff₀ (by positivity), isAbove, decide_eq_true_iff]
  rw [← Int.cast_lt (R := ℚ)]
  push_cast [Nat.pow_eq]
  rfl

theorem isBelow_iff : p.isBelow i = true ↔ p.value < i := by
  rw [value_eq_scaled, div_lt_iff₀ (by positivity), isBelow, decide_eq_true_iff]
  rw [← Int.cast_lt (R := ℚ)]
  push_cast [Nat.pow_eq]
  rfl

end FloatParts

namespace Quantity

/-- The number that a quantity is; an infinite one, or what is no number, is none. -/
def Is : Quantity → ℚ → Prop
  | whole i, v => v = i
  | real x, v => ∃ p, classify x = .finite p ∧ v = p.value

variable {a b : Quantity} {u v : ℚ}

theorem less_iff (ha : a.Is u) (hb : b.Is v) : a.less b = true ↔ u < v := by
  cases a with
  | whole i =>
    cases b with
    | whole j =>
      rw [ha, hb, less, decide_eq_true_iff, Int.cast_lt]
    | real y =>
      obtain ⟨q, hq, rfl⟩ := hb
      rw [ha, less, hq]
      exact q.isAbove_iff
  | real x =>
    obtain ⟨p, hp, rfl⟩ := ha
    cases b with
    | whole j =>
      rw [hb, less, hp]
      exact p.isBelow_iff
    | real y =>
      obtain ⟨q, hq, rfl⟩ := hb
      rw [less, decide_eq_true_iff]
      exact lt_iff hp hq

theorem less_infinite {x : Float} (ha : a.Is u) (hx : classify x = .infinite false) : a.less (.real x) = true := by
  cases a with
  | whole i =>
    rw [less, hx]
    rfl
  | real y =>
    obtain ⟨q, hq, -⟩ := ha
    rw [less, decide_eq_true_iff]
    exact lt_infinite hq hx

theorem lesser_is (ha : a.Is u) (hb : b.Is v) : (Time.lesser a b).Is (min u v) := by
  change (if b.less a = true then b else a).Is _
  by_cases h : v < u
  · rw [if_pos ((less_iff hb ha).2 h), min_eq_right h.le]
    exact hb
  · rw [if_neg (mt (less_iff hb ha).1 h), min_eq_left (not_lt.1 h)]
    exact ha

/-- How many spans there are: powers of two become too large for floats long before they are too large at all. -/
def reach : Quantity → Nat
  | whole _ => exponentLimit
  | real _ => 1024

end Quantity

/-- Powers of two are floats, up to the largest exponent. -/
theorem classify_powerOfTwo {k : Nat} (hk : k < 1024) :
    classify (powerOfTwo k) = .finite (partsFor false (2 ^ 52) (k - 52)) := by
  have hbits : (UInt64.ofNat (((k : Int) + 1023).toNat * Nat.pow 2 52)).toNat = (k + 1023) * 2 ^ 52 := by
    rw [UInt64.toNat_ofNat', show ((k : Int) + 1023).toNat = k + 1023 by omega, Nat.pow_eq]
    omega
  rw [powerOfTwo, if_neg (by omega), if_neg (by omega)]
  refine classify_ofBits ?_
  have hexponent : (k + 1023) * 2 ^ 52 / 2 ^ 52 % 2 ^ 11 = k + 1023 := by omega
  rw [hbits, classifyBits_eq, hexponent, if_neg (by omega), if_neg (by omega), Nat.mul_mod_left, Nat.add_zero,
    decide_eq_false (by omega), show ((k + 1023 : Nat) : Int) - 1075 = k - 52 by omega]
  rfl

/-- A float times a power of two is exact, or infinite where the product is larger than any float. -/
theorem mul_powerOfTwo {x : Float} {p : FloatParts} (hx : classify x = .finite p) {k : Nat} (hk : k < 1024) :
    (Quantity.real (x * powerOfTwo k)).Is (p.value * 2 ^ k) ∨
      classify (x * powerOfTwo k) = .infinite p.negative ∧ 2 ^ 1024 ≤ p.magnitude * 2 ^ k := by
  have hpower := classify_powerOfTwo hk
  obtain ⟨-, ⟨hzero, hexp⟩ | ⟨hcanonical, hexp⟩⟩ := classifyBits_finite hx
  · refine Or.inl ⟨_, classify_zero_mul hx hpower hzero (by simp [partsFor]), ?_⟩
    simp [FloatParts.value, FloatParts.magnitude, partsFor, hzero]
  · have hleast := hcanonical.least
    obtain ⟨m, e, hme, hproduct⟩ := exists_canonical (e := p.exponent + k) hcanonical.pos hcanonical.lt (by omega)
    have hvalue : p.magnitude * (partsFor false (2 ^ 52) (k - 52)).magnitude = m * 2 ^ e := by
      have hone : (2 : ℚ) ^ 52 * 2 ^ ((k : Int) - 52) = 2 ^ (k : Int) := by
        rw [← zpow_natCast 2 52, ← zpow_add₀ two_ne_zero]
        congr 1
        omega
      rw [hproduct, FloatParts.magnitude, FloatParts.magnitude, zpow_add₀ two_ne_zero, ← hone, partsFor]
      push_cast
      ring
    have hlong : 2 ^ 52 ≤ p.significand * (partsFor false (2 ^ 52) (k - 52)).significand :=
      Nat.le_mul_of_pos_left _ hcanonical.pos
    have hmul := classify_mul hx hpower hlong (hvalue ▸ hme.rounds)
    have hsign : (p.negative != (partsFor false (2 ^ 52) (k - 52)).negative) = p.negative := Bool.bne_false _
    have hexact : p.magnitude * 2 ^ k = m * 2 ^ e := by
      rw [hproduct, FloatParts.magnitude, zpow_add₀ two_ne_zero, zpow_natCast]
      ring
    rw [hsign] at hmul
    by_cases he : e ≤ 971
    · rw [if_pos he] at hmul
      refine Or.inl ⟨_, hmul, ?_⟩
      have hmagnitude : (partsFor p.negative m e).magnitude = p.magnitude * 2 ^ k := hexact.symm
      rw [FloatParts.value, FloatParts.value, hmagnitude]
      change _ = if p.negative = true then _ else _
      split <;> ring
    · rw [if_neg he] at hmul
      refine Or.inr ⟨hmul, ?_⟩
      have hnormal : (2 : ℚ) ^ 52 ≤ m := by exact_mod_cast hme.normal.resolve_right (by omega)
      have hlarge : (2 : ℚ) ^ 972 ≤ 2 ^ e := by
        rw [← zpow_natCast (2 : ℚ) 972]
        exact zpow_le_zpow_right₀ one_le_two (by omega)
      calc (2 : ℚ) ^ 1024 = 2 ^ 52 * 2 ^ 972 := (pow_add 2 52 972)
        _ ≤ (m : ℚ) * 2 ^ e := mul_le_mul hnormal hlarge (by positivity) (by positivity)
        _ = p.magnitude * 2 ^ k := hexact.symm

namespace Backoff

/-- The spans are numbers: the first one is `base`, and none is longer than `longest`, which is no larger than floats are. -/
structure Waits (b : Backoff Quantity) (q : Quantity) (base longest : ℚ) : Prop where
  first : b.first = .ok q
  first_is : q.Is base
  nonneg : 0 ≤ base
  longest_is : b.longest.Is longest
  inRange : longest < 2 ^ 1024

variable {b : Backoff Quantity} {q : Quantity} {base longest : ℚ} {n : Nat}

theorem scale_real {x : Float} (hn : n < 1024) : Time.scale (Quantity.real x) (n : Int) = .ok (.real (x * powerOfTwo n)) := by
  have hlimit : 1024 ≤ floatLimit := by decide +kernel
  have hfactor : floatOfInt? (n : Int) = some (Float.ofInt n) := if_pos (by rw [Int.natAbs_natCast]; omega)
  have hreach : ¬ (1024 : Int) ≤ n := by omega
  change (if decide ((1024 : Int) ≤ n) || (floatOfInt? n).isNone then _ else _ : Except Mishap Float).map _ = _
  rw [hfactor, decide_eq_false hreach]
  rfl

theorem scale_of_reach_le (hn : q.reach ≤ n) : Time.scale q (n : Int) = .error .tooLarge := by
  cases q with
  | whole i => exact if_neg (Nat.not_lt.2 hn)
  | real x =>
    have hlimit : (1024 : Int) ≤ n := by exact_mod_cast hn
    change (if decide ((1024 : Int) ≤ n) || _ then _ else _ : Except Mishap Float).map _ = _
    rw [decide_eq_true hlimit]
    rfl

theorem exists_scale (hn : n < q.reach) : ∃ d, Time.scale q (n : Int) = .ok d := by
  cases q with
  | whole i => exact ⟨_, if_pos hn⟩
  | real x => exact ⟨_, scale_real hn⟩

/-- There are as many spans as the first one reaches. -/
theorem exists_doubles (hfirst : b.first = .ok q) (hn : n ≤ q.reach) : ∃ span, b.Doubles q span n := by
  refine ⟨fun i => (Time.scale q ((i - 1 : Nat) : Int)).toOption.elim b.longest (Time.lesser · b.longest), hfirst,
    fun i hi => ?_⟩
  obtain ⟨d, hd⟩ := exists_scale (Nat.lt_of_lt_of_le hi hn)
  refine ⟨d, hd, ?_⟩
  rw [Nat.add_sub_cancel, hd]
  rfl

/-- Floats have the spans of which the factor is a float. -/
theorem exists_doubles_real (b : Backoff Quantity) {x : Float} (hfirst : b.first = .ok (.real x)) (hn : n ≤ 1024) :
    ∃ span, b.Doubles (.real x) span n := exists_doubles hfirst hn

theorem delay_succ (hfirst : b.first = .ok q) (n : Nat) :
    b.delay ((n + 1 : Nat) : Int) = (Time.scale q (n : Int)).map (Time.lesser · b.longest) := by
  have hpred : ((n + 1 : Nat) : Int) - 1 = n := by omega
  rw [delay, hfirst, hpred]
  change (Time.scale q n >>= _) = _
  cases Time.scale q (n : Int) <;> rfl

/-- Doubled any number of times in its reach and cut to the longest, the first span is what it should be. Where the
product is too large for a float, the longest span is less. -/
theorem Waits.exists_delay (h : b.Waits q base longest) (hn : n < q.reach) :
    ∃ d, b.delay ((n + 1 : Nat) : Int) = .ok d ∧ d.Is (min (base * 2 ^ n) longest) := by
  rw [delay_succ h.first]
  have hbase := h.first_is
  cases q with
  | whole i =>
    have hscale : Time.scale (Quantity.whole i) (n : Int) = .ok (.whole (i * Nat.pow 2 n)) := if_pos hn
    refine ⟨_, congrArg _ hscale, Quantity.lesser_is ?_ h.longest_is⟩
    rw [hbase]
    change _ = ((i * Nat.pow 2 n : Int) : ℚ)
    push_cast [Nat.pow_eq]
    rfl
  | real x =>
    obtain ⟨p, hp, rfl⟩ := hbase
    refine ⟨_, congrArg _ (scale_real hn), ?_⟩
    rcases mul_powerOfTwo hp hn with hexact | ⟨hinfinite, hlarge⟩
    · exact Quantity.lesser_is hexact h.longest_is
    · have hnonneg := h.nonneg
      have hsign : p.negative = false := by
        by_contra hneg
        have hmagnitude : 0 < p.magnitude :=
          pos_of_mul_pos_left ((pow_pos two_pos 1024).trans_le hlarge) (pow_pos two_pos n).le
        rw [FloatParts.value, if_pos (by simpa using hneg)] at hnonneg
        linarith
      have hvalue : p.value = p.magnitude := by rw [FloatParts.value, hsign, if_neg Bool.false_ne_true]
      rw [hsign] at hinfinite
      have hless := Quantity.less_infinite h.longest_is hinfinite
      have hmin : min (p.value * 2 ^ n) longest = longest := by
        rw [hvalue]
        exact min_eq_right (h.inRange.trans_le hlarge).le
      rw [hmin]
      change (if b.longest.less _ = true then b.longest else _).Is longest
      rw [if_pos hless]
      exact h.longest_is

theorem Waits.exists_span {i : Nat} (h : b.Waits q base longest) (hpos : 1 ≤ i) (hi : i ≤ q.reach) :
    ∃ d, b.delay i = .ok d ∧ d.Is (min (base * 2 ^ (i - 1)) longest) := by
  obtain ⟨n, rfl⟩ := Nat.exists_eq_add_of_le' hpos
  exact h.exists_delay hi

theorem Waits.delay_of_reach_lt {i : Nat} (h : b.Waits q base longest) (hi : q.reach < i) :
    b.delay i = .error .tooLarge := by
  obtain ⟨n, rfl⟩ := Nat.exists_eq_add_of_le' (Nat.one_le_of_lt hi)
  rw [delay_succ h.first, scale_of_reach_le (Nat.le_of_lt_succ hi)]
  rfl

/-- No span is longer than the longest. -/
theorem Waits.longest_not_less {d : Quantity} {v : ℚ} (h : b.Waits q base longest) (hd : d.Is (min v longest)) :
    b.longest.less d = false :=
  Bool.eq_false_iff.2 fun hless => absurd ((Quantity.less_iff h.longest_is hd).1 hless) (min_le_right _ _).not_gt

/-- No span is shorter than one before. -/
theorem Waits.not_less_of_le {i j : Nat} {d d' : Quantity} (h : b.Waits q base longest) (hpos : 1 ≤ i) (hij : i ≤ j)
    (hd : b.delay i = .ok d) (hd' : b.delay j = .ok d') : d'.less d = false := by
  have hj : j ≤ q.reach := by
    by_contra hfar
    rw [h.delay_of_reach_lt (by omega)] at hd'
    cases hd'
  obtain ⟨_, heq, his⟩ := h.exists_span hpos (Nat.le_trans hij hj)
  obtain ⟨_, heq', his'⟩ := h.exists_span (Nat.le_trans hpos hij) hj
  cases hd.symm.trans heq
  cases hd'.symm.trans heq'
  have hgrows : base * 2 ^ (i - 1) ≤ base * 2 ^ (j - 1) :=
    mul_le_mul_of_nonneg_left (pow_le_pow_right₀ one_le_two (by omega)) h.nonneg
  exact Bool.eq_false_iff.2 fun hless => absurd ((Quantity.less_iff his' his).1 hless) (min_le_min_right _ hgrows).not_gt

end Backoff

end Proofreader
