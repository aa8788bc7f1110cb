import Mathlib.Data.List.Nodup
import Proofreader.Proofs.Session.Course

/-! What a session has to do with services, written down as it happens. A log of dealings is in order if at most one
service is alive at any time, and only that one is asked and closed. -/

namespace Proofreader

/-- A service is known by how much had been written down when it was created. -/
inductive Dealing where
  | made (n : Nat)
  | refused (e : Fault)
  | asked (n : Nat) (e : Option Fault)
  | closed (n : Nat)

namespace Dealing

/-- A service could not be launched, when it was created or when it was asked. -/
def launchFails : Dealing → Bool
  | refused (.problem p) => Session.isLaunch p
  | asked _ (some (.problem p)) => Session.isLaunch p
  | _ => false

theorem exists_of_launchFails {n : Nat} {e : Option Fault} (h : (asked n e).launchFails = true) :
    ∃ p, e = some (.problem p) ∧ Session.isLaunch p = true := by
  cases e with
  | none => cases h
  | some e =>
    cases e with
    | mishap m => cases h
    | problem p => exact ⟨p, rfl, h⟩

def made? : Dealing → Option Nat
  | made n => some n
  | _ => none

def closed? : Dealing → Option Nat
  | closed n => some n
  | _ => none

/-- The service that is alive after one more dealing, which is in order. -/
def next : Option Nat → Dealing → Option (Option Nat)
  | none, made n => some (some n)
  | none, refused _ => some none
  | some m, asked n _ => if n = m then some (some m) else none
  | some m, closed n => if n = m then some none else none
  | _, _ => none

/-- The service that is alive after the dealings, if they are in order. -/
def alive (log : List Dealing) : Option (Option Nat) := log.foldlM next none

end Dealing

/-- The same service, with a log of what is done to it. -/
def Provider.watched {σ β ι : Type} (provider : Provider σ β ι) : Provider (σ × List Dealing) (Nat × β) ι where
  create i tag w :=
    match provider.create i tag w.1 with
    | (.ok b, v) => (.ok (w.2.length, b), v, w.2 ++ [.made w.2.length])
    | (.error e, v) => (.error e, v, w.2 ++ [.refused e])
  check text profile b w :=
    match provider.check text profile b.2 w.1 with
    | (.ok fs, b', v) => (.ok fs, (b.1, b'), v, w.2 ++ [.asked b.1 none])
    | (.error e, b', v) => (.error e, (b.1, b'), v, w.2 ++ [.asked b.1 (some e)])
  close b w := (provider.close b.2 w.1, w.2 ++ [.closed b.1])

/-- The log is in order and leads to the service that is in use; services are told apart. -/
structure Orderly (log : List Dealing) (live : Option Nat) : Prop where
  alive : Dealing.alive log = some live
  nodup : (log.filterMap Dealing.made?).Nodup
  below : ∀ n ∈ log.filterMap Dealing.made?, n < log.length

namespace Orderly

open Dealing

variable {log : List Dealing} {live : Option Nat} {n : Nat}

theorem nil : Orderly [] none := ⟨rfl, .nil, List.forall_mem_nil _⟩

/-- A dealing that creates nothing keeps services apart. -/
theorem snoc (h : Orderly log live) {d : Dealing} (hd : d.made? = none) {live' : Option Nat}
    (hnext : next live d = some live') : Orderly (log ++ [d]) live' := by
  have hmade : (log ++ [d]).filterMap made? = log.filterMap made? := by
    rw [List.filterMap_append, List.filterMap_cons, hd]
    exact List.append_nil _
  refine ⟨?_, hmade ▸ h.nodup, fun m hm => ?_⟩
  · have halive := h.alive
    unfold Dealing.alive at halive ⊢
    rw [List.foldlM_append, halive]
    simpa using hnext
  · rw [hmade] at hm
    have := h.below m hm
    rw [List.length_append]
    omega

theorem make (h : Orderly log none) : Orderly (log ++ [.made log.length]) (some log.length) := by
  have hmade : (log ++ [made log.length]).filterMap made? = log.filterMap made? ++ [log.length] := by
    rw [List.filterMap_append]
    rfl
  refine ⟨?_, ?_, fun m hm => ?_⟩
  · have halive := h.alive
    unfold Dealing.alive at halive ⊢
    rw [List.foldlM_append, halive]
    rfl
  · rw [hmade]
    refine List.nodup_append.2 ⟨h.nodup, List.nodup_singleton _, fun a ha b hb => ?_⟩
    have := h.below a ha
    rw [List.mem_singleton] at hb
    omega
  · rw [hmade, List.mem_append, List.mem_singleton] at hm
    rw [List.length_append, List.length_singleton]
    rcases hm with hm | rfl
    · have := h.below m hm
      omega
    · omega

theorem refuse (h : Orderly log none) (e : Fault) : Orderly (log ++ [.refused e]) none := h.snoc rfl rfl

theorem close (h : Orderly log live) : Orderly (log ++ live.toList.map .closed) none := by
  cases live with
  | none =>
    rw [Option.toList_none, List.map_nil, List.append_nil]
    exact h
  | some n => exact h.snoc rfl (if_pos rfl)

theorem ask (h : Orderly log (some n)) (faults : List (Option Fault)) : Orderly (log ++ faults.map (.asked n)) (some n) := by
  induction faults generalizing log with
  | nil =>
    rw [List.map_nil, List.append_nil]
    exact h
  | cons e r ih =>
    have hone : Orderly (log ++ [.asked n e]) (some n) := h.snoc rfl (if_pos rfl)
    have hrest := ih hone
    rw [List.append_assoc] at hrest
    exact hrest

end Orderly

/-- Every service is closed once, in the order in which they were created, but for the one that is in use. -/
theorem Dealing.made_eq_of_foldlM {log : List Dealing} {found live : Option Nat} (h : log.foldlM next found = some live) :
    found.toList ++ log.filterMap made? = log.filterMap closed? ++ live.toList := by
  induction log generalizing found with
  | nil =>
    cases h
    exact List.append_nil _
  | cons d r ih =>
    rw [List.foldlM_cons] at h
    obtain ⟨mid, hnext, hrest⟩ := Option.bind_eq_some_iff.1 h
    have hr := ih hrest
    cases found with
    | none =>
      cases d with
      | made n =>
        cases hnext
        exact hr
      | refused e =>
        cases hnext
        exact hr
      | asked n e => cases hnext
      | closed n => cases hnext
    | some m =>
      cases d with
      | made n => cases hnext
      | refused e => cases hnext
      | asked n e =>
        obtain ⟨rfl, hmid⟩ := Option.ite_none_right_eq_some.1 hnext
        cases hmid
        exact hr
      | closed n =>
        obtain ⟨rfl, hmid⟩ := Option.ite_none_right_eq_some.1 hnext
        cases hmid
        exact congrArg (n :: ·) hr

/-- It was so at any moment before. -/
theorem Orderly.exists_alive {log early : List Dealing} {live : Option Nat} (h : Orderly log live) (hearly : early <+: log) :
    ∃ live, Dealing.alive early = some live ∧
      early.filterMap Dealing.made? = early.filterMap Dealing.closed? ++ live.toList := by
  obtain ⟨late, rfl⟩ := hearly
  have halive := h.alive
  unfold Dealing.alive at halive
  rw [List.foldlM_append] at halive
  obtain ⟨mid, hmid, -⟩ := Option.bind_eq_some_iff.1 halive
  exact ⟨mid, hmid, Dealing.made_eq_of_foldlM hmid⟩

end Proofreader
