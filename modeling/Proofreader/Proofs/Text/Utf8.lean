import Mathlib.Tactic.Common
import Proofreader.Text.Utf8

/-! The octets of a text are decoded as that text. So no two texts have the same octets. -/

namespace Proofreader.Utf8

/-- From `q` the octets make up `c`, which the last of them completes. -/
inductive Completes : Open → List Nat → Char → Prop
  | last {q : Open} {b : Nat} {c : Char} : step q b = some (some c, none) → Completes q [b] c
  | more {q : Open} {l : Lead} {b : Nat} {bs : List Nat} {c : Char} : step q b = some (none, some l) →
      Completes (some l) bs c → Completes q (b :: bs) c

variable {q : Open} {l : Lead} {b n : Nat} {bs : List Nat} {c : Char} {t : Text}

theorem step_lead (h : lead? b = some l) : step none b = some (none, some l) := by
  have hb : ¬ b < 0x80 := by
    intro hb
    unfold lead? at h
    simp [show ¬ 0xC2 ≤ b by omega, show ¬ 0xE1 ≤ b by omega, show ¬ 0xF1 ≤ b by omega, show b ≠ 0xE0 by omega,
      show b ≠ 0xED by omega, show b ≠ 0xF0 by omega, show b ≠ 0xF4 by omega] at h
  simp [step, hb, h]

theorem step_tail (hlow : l.low ≤ b) (hhigh : b ≤ l.high) (howed : 1 < l.owed) :
    step (some l) b = some (none, some ⟨l.payload * 64 + (b - 0x80), l.owed - 1, 0x80, 0xBF⟩) := by
  simp [step, hlow, hhigh, Nat.not_le.2 howed]

theorem step_last (hlow : l.low ≤ b) (hhigh : b ≤ l.high) (howed : l.owed = 1)
    (hc : l.payload * 64 + (b - 0x80) = c.toNat) : step (some l) b = some (some c, none) := by
  simp [step, hlow, hhigh, howed, hc]

/-- Which octets may follow is narrower after the least and after the greatest lead, and before the surrogates. -/
theorem exists_lead_three (hlow : 0x800 ≤ n) (hhigh : n < 0x10000) (hn : n < 0xD800 ∨ 0xDFFF < n) :
    ∃ low high, lead? (0xE0 + n / 4096) = some ⟨n / 4096, 2, low, high⟩ ∧ low ≤ 0x80 + n / 64 % 64 ∧
      0x80 + n / 64 % 64 ≤ high := by
  by_cases hleast : n / 4096 = 0
  · refine ⟨0xA0, 0xBF, ?_, by omega, by omega⟩
    simp [lead?, hleast]
  · by_cases hsurrogate : n / 4096 = 0xD
    · refine ⟨0x80, 0x9F, ?_, by omega, by omega⟩
      simp [lead?, hsurrogate]
    · refine ⟨0x80, 0xBF, ?_, by omega, by omega⟩
      have h1 : ¬ (0xE0 + n / 4096 ≤ 0xDF) := by omega
      have h2 : 0xE0 + n / 4096 ≠ 0xED := by omega
      have h3 : 0xE1 ≤ 0xE0 + n / 4096 := by omega
      have h4 : 0xE0 + n / 4096 ≤ 0xEF := by omega
      simp [lead?, hleast, h1, h2, h3, h4]

theorem exists_lead_four (hlow : 0x10000 ≤ n) (hhigh : n < 0x110000) :
    ∃ low high, lead? (0xF0 + n / 262144) = some ⟨n / 262144, 3, low, high⟩ ∧ low ≤ 0x80 + n / 4096 % 64 ∧
      0x80 + n / 4096 % 64 ≤ high := by
  by_cases hleast : n / 262144 = 0
  · refine ⟨0x90, 0xBF, ?_, by omega, by omega⟩
    simp [lead?, hleast]
  · by_cases hgreatest : n / 262144 = 4
    · refine ⟨0x80, 0x8F, ?_, by omega, by omega⟩
      simp [lead?, hgreatest]
    · refine ⟨0x80, 0xBF, ?_, by omega, by omega⟩
      have h1 : ¬ (0xF0 + n / 262144 ≤ 0xDF) := by omega
      have h2 : ¬ (0xF0 + n / 262144 ≤ 0xEF) := by omega
      have h3 : 0xF1 ≤ 0xF0 + n / 262144 := by omega
      have h4 : 0xF0 + n / 262144 ≤ 0xF3 := by omega
      have h5 : 0xF0 + n / 262144 ≠ 0xE0 := by omega
      have h6 : 0xF0 + n / 262144 ≠ 0xED := by omega
      simp [lead?, hleast, h1, h2, h3, h4, h5, h6]

theorem completes_encodeChar (c : Char) : Completes none (encodeChar c) c := by
  have hvalid : c.toNat < 0xD800 ∨ 0xDFFF < c.toNat ∧ c.toNat < 0x110000 := c.valid
  unfold encodeChar
  dsimp only
  split
  · next hn => exact .last (by simp [step, hn])
  · split
    · have hlead : lead? (0xC0 + c.toNat / 64) = some ⟨c.toNat / 64, 1, 0x80, 0xBF⟩ := by
        have h1 : 0xC2 ≤ 0xC0 + c.toNat / 64 := by omega
        have h2 : 0xC0 + c.toNat / 64 ≤ 0xDF := by omega
        simp [lead?, h1, h2]
      refine .more (step_lead hlead) (.last (step_last ?_ ?_ rfl ?_))
      all_goals
        dsimp only
        omega
    · split
      · obtain ⟨low, high, hlead, hlow, hhigh⟩ :=
          exists_lead_three (n := c.toNat) (by omega) (by omega) (hvalid.imp_right And.left)
        refine .more (step_lead hlead) (.more (step_tail hlow hhigh (by simp)) (.last (step_last ?_ ?_ rfl ?_)))
        all_goals
          dsimp only
          omega
      · obtain ⟨low, high, hlead, hlow, hhigh⟩ := exists_lead_four (n := c.toNat) (by omega) (by omega)
        refine .more (step_lead hlead) (.more (step_tail hlow hhigh (by simp)) (.more (step_tail ?_ ?_ (by simp))
          (.last (step_last ?_ ?_ rfl ?_))))
        all_goals
          dsimp only
          omega

theorem decodeFrom?_of_completes (h : Completes q bs c) (r : List Nat) :
    decodeFrom? q (bs ++ r) = (decodeFrom? none r).map (c :: ·) := by
  induction h with
  | last hstep => simp [decodeFrom?, hstep]
  | more hstep _ ih => simpa [decodeFrom?, hstep] using ih

theorem decode?_encode (t : Text) : decode? (encode t) = some t := by
  induction t with
  | nil => rfl
  | cons c r ih =>
    rw [encode, List.flatMap_cons, decode?, decodeFrom?_of_completes (completes_encodeChar c)]
    exact congrArg (Option.map (c :: ·)) ih

theorem decodeLossyFrom_of_completes (h : Completes q bs c) (r : List Nat) :
    decodeLossyFrom q (bs ++ r) = c :: decodeLossyFrom none r := by
  induction h with
  | @last q b c hstep => cases q <;> simp [decodeLossyFrom, hstep]
  | @more q l b bs c hstep _ ih => cases q <;> simpa [decodeLossyFrom, hstep] using ih

/-- No replacement characters come up in the octets of a text. -/
theorem decodeLossy_encode (t : Text) : decodeLossy (encode t) = t := by
  induction t with
  | nil => rfl
  | cons c r ih =>
    rw [encode, List.flatMap_cons, decodeLossy, decodeLossyFrom_of_completes (completes_encodeChar c)]
    exact congrArg (c :: ·) ih

theorem encode_injective : Function.Injective encode := by
  intro t u h
  have hdecoded := decode?_encode t
  rw [h, decode?_encode] at hdecoded
  exact (Option.some.inj hdecoded).symm

theorem lt_of_mem_encode (h : b ∈ encode t) : b < 256 := by
  obtain ⟨c, -, hb⟩ := List.mem_flatMap.1 h
  have hvalid : c.toNat < 0xD800 ∨ 0xDFFF < c.toNat ∧ c.toNat < 0x110000 := c.valid
  unfold encodeChar at hb
  dsimp only at hb
  split at hb
  · simp only [List.mem_cons, List.not_mem_nil, or_false] at hb
    omega
  · split at hb
    · simp only [List.mem_cons, List.not_mem_nil, or_false] at hb
      omega
    · split at hb
      · simp only [List.mem_cons, List.not_mem_nil, or_false] at hb
        omega
      · simp only [List.mem_cons, List.not_mem_nil, or_false] at hb
        omega

end Proofreader.Utf8
