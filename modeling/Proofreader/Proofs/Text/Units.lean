import Mathlib.Data.Nat.Find
import Mathlib.Order.Bounds.Basic
import Mathlib.Tactic.Common
import Proofreader.Proofs.Search
import Proofreader.Text.Utf16

/-! UTF-16 units of joined texts and of the beginning of a text. Every character has one unit at least, so a longer
beginning has more of them, and an index finds them again. -/

namespace Proofreader.Text

@[simp] theorem units_cons (c : Char) (t : Text) : units (c :: t) = unitWidth c + units t := rfl

theorem one_le_unitWidth (c : Char) : 1 ≤ unitWidth c := by
  unfold unitWidth
  split <;> decide

theorem units_le (t : Text) : units t ≤ 2 * t.length := by
  induction t with
  | nil => exact Nat.le_refl 0
  | cons c r ih =>
    have hwidth : unitWidth c ≤ 2 := by
      unfold unitWidth
      split <;> decide
    rw [units_cons, List.length_cons]
    omega

@[simp] theorem units_append (s t : Text) : units (s ++ t) = units s + units t := by
  induction s with
  | nil => exact (Nat.zero_add _).symm
  | cons c r ih => rw [List.cons_append, units_cons, units_cons, ih, Nat.add_assoc]

theorem length_le_units (t : Text) : t.length ≤ units t := by
  induction t with
  | nil => exact Nat.le_refl 0
  | cons c r ih =>
    have hwidth := one_le_unitWidth c
    rw [units_cons, List.length_cons]
    omega

variable {t : Text} {i k : Nat}

theorem units_take_le (h : i ≤ k) : units (t.take i) ≤ units (t.take k) := by
  rw [← Nat.add_sub_cancel' h, List.take_add, units_append]
  exact Nat.le_add_right _ _

theorem units_take_lt (h : i < k) (hk : k ≤ t.length) : units (t.take i) < units (t.take k) := by
  have hmore := length_le_units ((t.drop i).take (k - i))
  rw [List.length_take, List.length_drop] at hmore
  rw [← Nat.add_sub_cancel' (Nat.le_of_lt h), List.take_add, units_append]
  omega

/-- A text of which every character is one unit begins with such texts only. -/
theorem units_eq_length_of_prefix {s : Text} (hs : s <+: t) (ht : units t = t.length) : units s = s.length := by
  obtain ⟨r, rfl⟩ := hs
  have hshead := length_le_units s
  have hrest := length_le_units r
  rw [units_append, List.length_append] at ht
  omega

/-- A text has more units than characters if one of them lies outside of the basic plane. -/
theorem length_lt_units_iff : t.length < units t ↔ ∃ c ∈ t, 0xFFFF < c.toNat := by
  induction t with
  | nil => simp [units]
  | cons c r ih =>
    have hrest := length_le_units r
    simp only [List.mem_cons, exists_eq_or_imp]
    rw [units_cons, List.length_cons, ← ih, unitWidth]
    split
    · next hwide => exact ⟨fun _ => Or.inl hwide, fun _ => by omega⟩
    · next hnarrow =>
      rw [or_iff_right hnarrow]
      omega

/-- The boundaries between characters that `u` units reach. -/
def boundariesTo (t : Text) (u : Int) : Set Nat := {k | k ≤ t.length ∧ (units (t.take k) : Int) ≤ u}

/-- The boundaries that `u` units do not go beyond. The end of the text is one of them, however many there are. -/
def boundariesFrom (t : Text) (u : Int) : Set Nat := {k | k ≤ t.length ∧ (k < t.length → u ≤ units (t.take k))}

/-- The least number of characters that have so many units is the first of these boundaries. -/
theorem isLeast_coverUnits (t : Text) (u : Int) : IsLeast (t.boundariesFrom u) (coverUnits u t) := by
  induction t generalizing u with
  | nil => exact ⟨⟨Nat.le_refl _, fun h => absurd h (Nat.lt_irrefl _)⟩, fun k _ => Nat.zero_le k⟩
  | cons c r ih =>
    rw [coverUnits]
    split
    · next hu => exact ⟨⟨Nat.zero_le _, fun _ => hu⟩, fun k _ => Nat.zero_le k⟩
    · next hu =>
      obtain ⟨⟨hle, hreach⟩, hleast⟩ := ih (u - unitWidth c)
      refine ⟨⟨Nat.succ_le_succ hle, fun hlt => ?_⟩, fun k hk => ?_⟩
      · have hrest := hreach (Nat.lt_of_succ_lt_succ hlt)
        rw [List.take_succ_cons, units_cons]
        omega
      · cases k with
        | zero => exact absurd (hk.2 (Nat.zero_lt_succ _)) hu
        | succ k =>
          refine Nat.succ_le_succ (hleast ⟨Nat.le_of_succ_le_succ hk.1, fun hlt => ?_⟩)
          have hreached := hk.2 (Nat.succ_lt_succ hlt)
          rw [List.take_succ_cons, units_cons] at hreached
          omega

/-- Twice as many units as there are characters are as good as any greater number. -/
theorem boundariesFrom_min {u n : Int} (hn : 2 * (t.length : Int) ≤ n) : t.boundariesFrom (min u n) = t.boundariesFrom u := by
  ext k
  refine and_congr_right fun _ => forall_congr' fun hlt => ?_
  have hunits := units_le (t.take k)
  rw [List.length_take, Nat.min_eq_left (Nat.le_of_lt hlt)] at hunits
  omega

end Proofreader.Text

/-! ### The index

It keeps how many units stand before each character and in all; a number of units that
ends between two characters is looked up as the number of characters before it, whichever way the lookup goes. -/

namespace Proofreader.UnitIndex

open Text (units unitWidth)

variable {t : Text} {n i k : Nat}

theorem length_startsFrom (n : Nat) (t : Text) : (startsFrom n t).length = t.length + 1 := by
  induction t generalizing n with
  | nil => rfl
  | cons c r ih => rw [startsFrom, List.length_cons, ih, List.length_cons]

theorem getElem?_startsFrom (n : Nat) (h : i ≤ t.length) :
    (startsFrom n t)[i]? = some (n + units (t.take i)) := by
  induction t generalizing n i with
  | nil =>
    rw [Nat.le_zero.1 h]
    rfl
  | cons c r ih =>
    cases i with
    | zero => rfl
    | succ i =>
      rw [startsFrom, List.getElem?_cons_succ, ih _ (Nat.le_of_succ_le_succ h), List.take_succ_cons, Text.units_cons,
        Nat.add_assoc]

/-- How many units stand before a character. -/
theorem getElem?_ofText (h : i ≤ t.length) : (ofText t).starts[i]? = some (units (t.take i)) := by
  rw [ofText, List.getElem?_toArray, getElem?_startsFrom 0 h, Nat.zero_add]

theorem size_ofText (t : Text) : (ofText t).starts.size = t.length + 1 := length_startsFrom 0 t

@[simp] theorem last_ofText (t : Text) : (ofText t).last = t.length := by
  rw [last, size_ofText, Nat.add_sub_cancel]

@[simp] theorem total_ofText (t : Text) : (ofText t).total = units t := by
  rw [total, Array.back?_eq_getElem?, size_ofText, Nat.add_sub_cancel, getElem?_ofText (Nat.le_refl _), List.take_length,
    Option.getD_some]

/-- The characters that begin before a number of units are counted. -/
theorem before_ofText {u : Int} (hk : k ≤ t.length + 1) (hbelow : ∀ i, i < k → (units (t.take i) : Int) < u)
    (habove : ∀ i, k ≤ i → i ≤ t.length → u ≤ units (t.take i)) : (ofText t).before u = k := by
  unfold before
  refine firstFailure_eq (Nat.zero_le _) ((size_ofText t).symm ▸ hk) (fun i hi => ?_) (fun i hki hi => ?_)
  · rw [getElem?_ofText (by omega)]
    exact decide_eq_true (hbelow i hi)
  · rw [size_ofText] at hi
    rw [getElem?_ofText (by omega)]
    exact decide_eq_false (Int.not_lt.2 (habove i hki (by omega)))

/-- A boundary between characters is found exactly, rounded down or up. -/
theorem toIndex_units (up : Bool) (hk : k ≤ t.length) : (ofText t).toIndex (units (t.take k)) up = k := by
  unfold toIndex
  rw [total_ofText, last_ofText]
  split
  · next hend =>
    have hle : t.length ≤ k := by
      by_contra hlt
      have := Text.units_take_lt (Nat.lt_of_not_le hlt) (Nat.le_refl _)
      rw [List.take_length] at this
      omega
    rw [Nat.le_antisymm hk hle]
  · split
    · next hplain =>
      have hwidth : units (t.take k) = (t.take k).length :=
        Text.units_eq_length_of_prefix (List.take_prefix k t) (of_decide_eq_true hplain)
      rw [List.length_take, Nat.min_eq_left hk] at hwidth
      rw [hwidth]
      exact Int.max_eq_right (Int.natCast_nonneg k)
    · have hbefore : (ofText t).before (units (t.take k)) = k := by
        refine before_ofText (Nat.le_succ_of_le hk) (fun i hi => ?_) (fun i hki hi => ?_)
        · exact Int.ofNat_lt.2 (Text.units_take_lt hi hk)
        · exact Int.ofNat_le.2 (Text.units_take_le hki)
      dsimp only
      rw [hbefore, getElem?_ofText hk, if_pos]
      exact Bool.or_eq_true_iff.2 (Or.inl (decide_eq_true rfl))

/-! #### Rounding

A number of units that ends inside a character has a nearest boundary on either side. The look-up takes the one or the
other, and by halving or directly makes no difference. -/

variable {u v : Int} {plain : Bool}

/-- The search for a number of units stops at the first boundary that is not below it. -/
theorem exists_before (hu : u < units t) : ∃ k ≤ t.length, (ofText t).before u = k ∧
    (∀ i, i < k → (units (t.take i) : Int) < u) ∧ u ≤ units (t.take k) := by
  have hend : ∃ k, k ≤ t.length ∧ u ≤ units (t.take k) := ⟨t.length, Nat.le_refl _, by
    rw [List.take_length]
    exact Int.le_of_lt hu⟩
  obtain ⟨hk, hle⟩ := Nat.find_spec hend
  have hbelow : ∀ i, i < Nat.find hend → (units (t.take i) : Int) < u := by
    intro i hi
    by_contra hge
    exact Nat.find_min hend hi ⟨by omega, Int.not_lt.1 hge⟩
  refine ⟨Nat.find hend, hk, before_ofText (Nat.le_succ_of_le hk) hbelow fun i hi _ => ?_, hbelow, hle⟩
  exact Int.le_trans hle (Int.ofNat_le.2 (Text.units_take_le hi))

/-- Where every character is one unit there are as many units as characters before each. -/
theorem units_take_of_plain (ht : units t = t.length) (hk : k ≤ t.length) : units (t.take k) = k := by
  rw [Text.units_eq_length_of_prefix (List.take_prefix k t) ht, List.length_take, Nat.min_eq_left hk]

/-- Rounded down, a number of units becomes the last boundary it reaches. -/
theorem toIndex_down (t : Text) (plain : Bool) (hplain : plain = true → units t = t.length) (hu : 0 ≤ u) :
    ∃ i, IsGreatest (t.boundariesTo u) i ∧ toIndex ⟨(ofText t).starts, plain⟩ u false = i := by
  have htotal : total ⟨(ofText t).starts, plain⟩ = units t := total_ofText t
  have hlast : last ⟨(ofText t).starts, plain⟩ = t.length := last_ofText t
  unfold toIndex
  rw [htotal, hlast]
  split
  · next hend =>
    refine ⟨t.length, ⟨⟨Nat.le_refl _, ?_⟩, fun k hk => hk.1⟩, rfl⟩
    rw [List.take_length]
    exact hend
  · next hend =>
    have hlt := Int.not_le.1 hend
    split
    · next hp =>
      have ht := hplain hp
      refine ⟨u.toNat, ⟨⟨by omega, ?_⟩, fun k hk => ?_⟩, by omega⟩
      · rw [units_take_of_plain ht (by omega)]
        omega
      · have hreached := hk.2
        rw [units_take_of_plain ht hk.1] at hreached
        omega
    · obtain ⟨k, hk, hbefore, hbelow, hle⟩ := exists_before hlt
      have hbefore' : before ⟨(ofText t).starts, plain⟩ u = k := hbefore
      dsimp only
      rw [hbefore', getElem?_ofText hk, Bool.or_false]
      change ∃ i : Nat, _ ∧ (if decide ((units (t.take k) : Int) = u) = true then (k : Int) else k - 1) = i
      have habove : ∀ i ∈ t.boundariesTo u, i ≤ k := by
        intro i hi
        by_contra hki
        have hmore := Text.units_take_lt (Nat.lt_of_not_le hki) hi.1
        have hreached := hi.2
        omega
      split
      · next heq =>
        have heq := of_decide_eq_true heq
        exact ⟨k, ⟨⟨hk, Int.le_of_eq heq⟩, habove⟩, rfl⟩
      · next hne =>
        -- the boundary found lies behind, so it is not the first one
        have hne : (units (t.take k) : Int) ≠ u := fun heq => hne (decide_eq_true heq)
        have hpos : k ≠ 0 := by
          rintro rfl
          rw [List.take_zero] at hne hle
          exact hne (Int.le_antisymm hu hle)
        refine ⟨k - 1, ⟨⟨by omega, Int.le_of_lt (hbelow _ (by omega))⟩, fun i hi => ?_⟩, by omega⟩
        have hik := habove i hi
        have hreached := hi.2
        by_contra hi'
        rw [show i = k by omega] at hreached
        omega

/-- Rounded up, a number of units becomes the first boundary that it does not go beyond. -/
theorem toIndex_up (t : Text) (plain : Bool) (hplain : plain = true → units t = t.length) (hu : 0 ≤ u) :
    ∃ j, IsLeast (t.boundariesFrom u) j ∧ toIndex ⟨(ofText t).starts, plain⟩ u true = j := by
  have htotal : total ⟨(ofText t).starts, plain⟩ = units t := total_ofText t
  have hlast : last ⟨(ofText t).starts, plain⟩ = t.length := last_ofText t
  unfold toIndex
  rw [htotal, hlast]
  split
  · next hend =>
    refine ⟨t.length, ⟨⟨Nat.le_refl _, fun h => absurd h (Nat.lt_irrefl _)⟩, fun k hk => ?_⟩, rfl⟩
    by_contra hlt
    have hmore := Text.units_take_lt (Nat.lt_of_not_le hlt) (Nat.le_refl _)
    have hreaching := hk.2 (Nat.lt_of_not_le hlt)
    rw [List.take_length] at hmore
    omega
  · next hend =>
    have hlt := Int.not_le.1 hend
    split
    · next hp =>
      have ht := hplain hp
      refine ⟨u.toNat, ⟨⟨by omega, fun _ => ?_⟩, fun k hk => ?_⟩, by omega⟩
      · rw [units_take_of_plain ht (by omega)]
        omega
      · by_contra hku
        have hreaching := hk.2 (by omega)
        rw [units_take_of_plain ht hk.1] at hreaching
        omega
    · obtain ⟨k, hk, hbefore, hbelow, hle⟩ := exists_before hlt
      have hbefore' : before ⟨(ofText t).starts, plain⟩ u = k := hbefore
      dsimp only
      rw [hbefore', Bool.or_true, if_pos rfl]
      refine ⟨k, ⟨⟨hk, fun _ => hle⟩, fun i hi => ?_⟩, rfl⟩
      by_contra hki
      have hreaching := hi.2 (by omega)
      have hless := hbelow i (by omega)
      omega

/-- The direct look-up of a text of single units gives what halving would give. -/
theorem toIndex_halving (t : Text) (hu : 0 ≤ u) (up : Bool) :
    toIndex ⟨(ofText t).starts, false⟩ u up = (ofText t).toIndex u up := by
  cases up with
  | false =>
    obtain ⟨i, hi, hslow⟩ := toIndex_down t false nofun hu
    obtain ⟨k, hk, hfast⟩ := toIndex_down t (ofText t).plain of_decide_eq_true hu
    rw [hslow, hi.unique hk]
    exact hfast.symm
  | true =>
    obtain ⟨i, hi, hslow⟩ := toIndex_up t false nofun hu
    obtain ⟨k, hk, hfast⟩ := toIndex_up t (ofText t).plain of_decide_eq_true hu
    rw [hslow, hi.unique hk]
    exact hfast.symm

theorem toIndex_mono (t : Text) (hu : 0 ≤ u) (huv : u ≤ v) (up : Bool) :
    (ofText t).toIndex u up ≤ (ofText t).toIndex v up := by
  have hv := Int.le_trans hu huv
  cases up with
  | false =>
    obtain ⟨i, hi, heq⟩ := toIndex_down t (ofText t).plain of_decide_eq_true hu
    obtain ⟨k, hk, heq'⟩ := toIndex_down t (ofText t).plain of_decide_eq_true hv
    have hik : i ≤ k := hk.2 ⟨hi.1.1, Int.le_trans hi.1.2 huv⟩
    calc (ofText t).toIndex u false = i := heq
      _ ≤ k := Int.ofNat_le.2 hik
      _ = (ofText t).toIndex v false := heq'.symm
  | true =>
    obtain ⟨i, hi, heq⟩ := toIndex_up t (ofText t).plain of_decide_eq_true hu
    obtain ⟨k, hk, heq'⟩ := toIndex_up t (ofText t).plain of_decide_eq_true hv
    have hik : i ≤ k := hi.2 ⟨hk.1.1, fun hlt => Int.le_trans huv (hk.1.2 hlt)⟩
    calc (ofText t).toIndex u true = i := heq
      _ ≤ k := Int.ofNat_le.2 hik
      _ = (ofText t).toIndex v true := heq'.symm

/-! #### Numbers of units that no text has

One behind the text is moved to its end. One before it is moved to the beginning by two of the three ways to look it up;
the search, rounding down, goes one step too far. -/

theorem exists_toIndex (t : Text) (hu : 0 ≤ u) (up : Bool) : ∃ i ≤ t.length, (ofText t).toIndex u up = i := by
  cases up with
  | false =>
    obtain ⟨i, hi, heq⟩ := toIndex_down t (ofText t).plain of_decide_eq_true hu
    exact ⟨i, hi.1.1, heq⟩
  | true =>
    obtain ⟨i, hi, heq⟩ := toIndex_up t (ofText t).plain of_decide_eq_true hu
    exact ⟨i, hi.1.1, heq⟩

theorem toIndex_of_neg (t : Text) (hu : u < 0) (up : Bool) :
    (ofText t).toIndex u up = if (ofText t).plain || up then 0 else -1 := by
  have hbefore : (ofText t).before u = 0 :=
    before_ofText (Nat.zero_le _) (fun i hi => absurd hi (Nat.not_lt_zero i)) fun i _ _ => by omega
  have hfirst : (ofText t).starts[0]? = some 0 := getElem?_ofText (Nat.zero_le _)
  have hne : ¬ ((0 : Nat) : Int) = u := by omega
  unfold toIndex
  rw [total_ofText, if_neg (by omega)]
  cases (ofText t).plain with
  | true => exact Int.max_eq_left (Int.le_of_lt hu)
  | false =>
    dsimp only
    rw [hbefore, hfirst]
    change (if (decide (((0 : Nat) : Int) = u) || up) = true then (0 : Int) else 0 - 1) = _
    rw [decide_eq_false hne]
    cases up <;> rfl

/-- What is looked up is an offset of the text, or the one before it. -/
theorem toIndex_bounds (t : Text) (u : Int) (up : Bool) :
    -1 ≤ (ofText t).toIndex u up ∧ (ofText t).toIndex u up ≤ t.length ∧
      ((ofText t).toIndex u up < 0 ↔ u < 0 ∧ up = false ∧ ∃ c ∈ t, 0xFFFF < c.toNat) := by
  rcases Int.lt_or_le u 0 with hu | hu
  · have hmore := Text.length_le_units t
    have hplain : (ofText t).plain = false ↔ ∃ c ∈ t, 0xFFFF < c.toNat := by
      rw [← Text.length_lt_units_iff, ofText, decide_eq_false_iff_not]
      omega
    rw [toIndex_of_neg t hu, ← hplain]
    cases up <;> cases (ofText t).plain <;> simp [hu]
  · obtain ⟨i, hi, heq⟩ := exists_toIndex t hu up
    rw [heq]
    exact ⟨by omega, by omega, fun hlt => by omega, fun h => by omega⟩

end Proofreader.UnitIndex
