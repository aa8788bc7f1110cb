import Proofreader.Path
import Proofreader.Proofs.Text.Basic

/-! Absolute normal paths: what resolving gives, and what resolving and normalising leave as it is. -/

namespace Proofreader.Path

/-- A part that a normal path may have below the root. -/
structure Plain (part : Text) : Prop where
  ne_nil : part ≠ []
  ne_dot : part ≠ ['.']
  ne_dotdot : part ≠ dotdot
  slash : '/' ∉ part

def IsNormal (p : Text) : Prop := ∃ ps, (∀ part ∈ ps, Plain part) ∧ p = '/' :: joinParts ps

theorem slash_notMem_of_mem_parts {p part : Text} (h : part ∈ parts p) : '/' ∉ part := by
  intro hslash
  have := Text.not_of_mem_splitWhen h '/' hslash
  simp at this

theorem parts_cons_slash (p : Text) : parts ('/' :: p) = [] :: parts p := Text.splitWhen_cons_of_pos (by simp)

theorem parts_joinParts {ps : List Text} (hne : ps ≠ []) (h : ∀ part ∈ ps, '/' ∉ part) : parts (joinParts ps) = ps := by
  have hnone : ∀ part ∈ ps, ∀ c ∈ part, decide (c = '/') = false := by
    intro part hpart c hc
    have := h part hpart
    simp only [decide_eq_false_iff_not]
    rintro rfl
    exact this hc
  clear h
  induction ps with
  | nil => exact absurd rfl hne
  | cons part r ih =>
    have hpart := hnone part List.mem_cons_self
    cases r with
    | nil => simpa [joinParts, parts] using Text.splitWhen_of_forall_not hpart
    | cons next r =>
      have hrest := ih (by simp) fun q hq => hnone q (List.mem_cons_of_mem _ hq)
      have hjoin : joinParts (part :: next :: r) = part ++ '/' :: joinParts (next :: r) := by
        simp [joinParts, List.intercalate]
      rw [hjoin, parts, Text.splitWhen_append hpart (by simp)]
      exact congrArg (part :: ·) hrest

theorem plain_pushPart {stack : List Text} {part : Text} (h : ∀ q ∈ stack, Plain q) (hslash : '/' ∉ part) :
    ∀ q ∈ pushPart true stack part, Plain q := by
  unfold pushPart
  split
  · exact h
  · next hempty =>
    rw [not_or] at hempty
    split
    · split
      · simp
      · next top below =>
        have htop := (h top List.mem_cons_self).ne_dotdot
        rw [if_neg htop]
        exact fun q hq => h q (List.mem_cons_of_mem _ hq)
    · next hdots =>
      intro q hq
      rcases List.mem_cons.1 hq with rfl | hq
      · exact ⟨hempty.1, hempty.2, hdots, hslash⟩
      · exact h q hq

theorem plain_foldl_pushPart {ps stack : List Text} (hps : ∀ q ∈ ps, '/' ∉ q) (h : ∀ q ∈ stack, Plain q) :
    ∀ q ∈ ps.foldl (pushPart true) stack, Plain q := by
  induction ps generalizing stack with
  | nil => exact h
  | cons part r ih =>
    exact ih (fun q hq => hps q (List.mem_cons_of_mem _ hq)) (plain_pushPart h (hps part List.mem_cons_self))

/-- Plain parts are pushed one by one. -/
theorem foldl_pushPart_of_plain {ps : List Text} (h : ∀ q ∈ ps, Plain q) (rooted : Bool) (stack : List Text) :
    ps.foldl (pushPart rooted) stack = ps.reverse ++ stack := by
  induction ps generalizing stack with
  | nil => rfl
  | cons part r ih =>
    have hpart := h part List.mem_cons_self
    have hpush : pushPart rooted stack part = part :: stack := by
      unfold pushPart
      rw [if_neg (not_or.2 ⟨hpart.ne_nil, hpart.ne_dot⟩), if_neg hpart.ne_dotdot]
    rw [List.foldl_cons, hpush, ih fun q hq => h q (List.mem_cons_of_mem _ hq), List.reverse_cons, List.append_assoc]
    rfl

theorem isNormal_resolve (working p : Text) : IsNormal (resolve working p) := by
  refine ⟨_, fun part hpart => ?_, rfl⟩
  rw [List.mem_reverse] at hpart
  exact plain_foldl_pushPart (fun q hq => slash_notMem_of_mem_parts hq) (by simp) part hpart

namespace IsNormal

variable {p : Text}

theorem join (h : IsNormal p) (base : Text) : Path.join base p = p := by
  obtain ⟨ps, -, rfl⟩ := h
  rfl

/-- The parts of a normal path leave just the plain ones on the stack. -/
theorem foldl_parts {ps : List Text} (h : ∀ q ∈ ps, Plain q) (rooted : Bool) :
    ((parts ('/' :: joinParts ps)).foldl (pushPart rooted) []).reverse = ps := by
  rw [parts_cons_slash, List.foldl_cons]
  have hempty : pushPart rooted [] [] = [] := by simp [pushPart]
  rw [hempty]
  by_cases hne : ps = []
  · subst hne
    cases rooted <;> rfl
  · rw [parts_joinParts hne fun q hq => (h q hq).slash, foldl_pushPart_of_plain h, List.append_nil, List.reverse_reverse]

theorem resolve (h : IsNormal p) (working : Text) : Path.resolve working p = p := by
  rw [Path.resolve, h.join]
  obtain ⟨ps, hps, rfl⟩ := h
  rw [foldl_parts hps]

theorem rootLength (h : IsNormal p) : Path.rootLength p = 1 := by
  obtain ⟨ps, hps, rfl⟩ := h
  cases ps with
  | nil => rfl
  | cons part r =>
    have hpart := hps part List.mem_cons_self
    obtain ⟨c, q, rfl⟩ := List.exists_cons_of_ne_nil hpart.ne_nil
    have hc : c ≠ '/' := fun hc => hpart.slash (by simp [hc])
    have hjoin : ∃ rest, joinParts ((c :: q) :: r) = c :: rest := by
      cases r <;> simp [joinParts, List.intercalate]
    obtain ⟨rest, hrest⟩ := hjoin
    rw [hrest]
    simp [Path.rootLength, hc]

theorem normalize (h : IsNormal p) : Path.normalize p = p := by
  have hroot := h.rootLength
  obtain ⟨ps, hps, rfl⟩ := h
  unfold Path.normalize
  rw [hroot]
  dsimp only
  rw [foldl_parts hps]
  rfl

end IsNormal

/-- Parts that say something are found again behind slashes. -/
theorem plainParts_replicate {ps : List Text} (h : ∀ q ∈ ps, Plain q) (n : Nat) :
    plainParts (List.replicate (n + 1) '/' ++ joinParts ps) = ps := by
  have hself : plainParts ('/' :: joinParts ps) = ps := by
    unfold plainParts
    rw [parts_cons_slash]
    by_cases hne : ps = []
    · subst hne
      rfl
    · rw [parts_joinParts hne fun q hq => (h q hq).slash, List.filter_cons_of_neg (by simp), List.filter_eq_self]
      intro q hq
      simp [(h q hq).ne_nil, (h q hq).ne_dot]
  induction n with
  | zero => exact hself
  | succ n ih =>
    rw [List.replicate_succ, List.cons_append, plainParts, parts_cons_slash, List.filter_cons_of_neg (by simp)]
    exact ih

theorem rootLength_pos {p : Text} (h : isAbsolute p = true) : ∃ n, rootLength p = n + 1 := by
  unfold isAbsolute at h
  rw [decide_eq_true_eq, List.head?_eq_some_iff] at h
  obtain ⟨r, rfl⟩ := h
  unfold rootLength
  split
  · exact ⟨0, rfl⟩
  · exact ⟨1, rfl⟩
  · exact ⟨0, rfl⟩
  · next hslash => exact absurd rfl (hslash r)

/-- An absolute path in which every part says something; it may still go up. -/
structure IsTidy (p : Text) : Prop where
  absolute : isAbsolute p = true
  tidy_eq : tidy p = p

/-- What normalising leaves as it is is tidy. -/
theorem IsTidy.of_normalize {p : Text} (habsolute : isAbsolute p = true) (h : normalize p = p) : IsTidy p := by
  obtain ⟨n, hroot⟩ := rootLength_pos habsolute
  have hplain : ∀ q ∈ ((parts p).foldl (pushPart true) []).reverse, Plain q := by
    intro q hq
    rw [List.mem_reverse] at hq
    exact plain_foldl_pushPart (fun q hq => slash_notMem_of_mem_parts hq) (by simp) q hq
  have hp : p = List.replicate (n + 1) '/' ++ joinParts ((parts p).foldl (pushPart true) []).reverse := by
    conv_lhs => rw [← h]
    unfold normalize
    rw [hroot]
    simp [List.replicate_succ]
  have hparts : plainParts p = ((parts p).foldl (pushPart true) []).reverse := by
    conv_lhs => rw [hp]
    exact plainParts_replicate hplain n
  refine ⟨habsolute, ?_⟩
  unfold tidy
  rw [hroot, hparts, ← hp]
  cases p with
  | nil => cases habsolute
  | cons c r => rfl

theorem IsNormal.absolute {p : Text} (h : IsNormal p) : isAbsolute p = true := by
  obtain ⟨ps, -, rfl⟩ := h
  rfl

theorem IsNormal.isTidy {p : Text} (h : IsNormal p) : IsTidy p := .of_normalize h.absolute h.normalize

end Proofreader.Path
