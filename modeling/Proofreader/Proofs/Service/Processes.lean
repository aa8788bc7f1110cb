import Mathlib.Tactic.Common
import Proofreader.Rehearsal.World
import Proofreader.Service.Server

/-! A server never has two processes. Whatever processes do, and whenever they end, a new one is launched only when none
is alive; what does not become ready is ended before the next launch, and what is held has been found ready. -/

namespace Proofreader

variable {σ τ : Type}

/-- What a host and its network are asked, the launches and looks with the state in which they are made. -/
inductive Deed (σ : Type) where
  | launch (state : σ) (made : Option Nat)
  | look (state : σ) (p : Nat) (alive : Bool)
  | ask (reply : Reply)
  | terminate (p : Nat)
  | kill (p : Nat)

namespace Deed

def isLaunch : Deed σ → Bool
  | launch _ _ => true
  | _ => false

/-- It does nothing to processes. -/
def isIdle : Deed σ → Bool
  | look _ _ _ | ask _ => true
  | _ => false

/-- It makes none. -/
def isQuiet (d : Deed σ) : Bool := !d.isLaunch

theorem isQuiet_of_isIdle (d : Deed σ) (h : d.isIdle = true) : d.isQuiet = true := by
  cases d with
  | look | ask => rfl
  | _ => cases h

/-- How many launches there were, those that were refused among them. -/
def launches (log : List (Deed σ)) : Nat := log.countP isLaunch

theorem launches_append (log more : List (Deed σ)) : launches (log ++ more) = launches log + launches more :=
  List.countP_append

theorem launches_of_quiet {more : List (Deed σ)} (h : ∀ d ∈ more, d.isQuiet = true) : launches more = 0 :=
  List.countP_eq_zero.2 fun d hd hlaunch => by
    have hquiet := h d hd
    rw [isQuiet, hlaunch] at hquiet
    cases hquiet

end Deed

namespace Host

/-- The same host, with a log of what is done. -/
def watched (host : Host σ τ) : Host (σ × List (Deed σ)) τ where
  launch command w := ((host.launch command w.1).1, (host.launch command w.1).2,
    w.2 ++ [.launch w.1 (host.launch command w.1).1])
  isAlive p w := ((host.isAlive p w.1).1, (host.isAlive p w.1).2, w.2 ++ [.look w.1 p (host.isAlive p w.1).1])
  terminate p w := (host.terminate p w.1, w.2 ++ [.terminate p])
  awaitEnd p w := ((host.awaitEnd p w.1).1, (host.awaitEnd p w.1).2, w.2)
  kill p w := (host.kill p w.1, w.2 ++ [.kill p])
  now w := host.now w.1
  network :=
    { send := fun r w => ((host.network.send r w.1).1, (host.network.send r w.1).2,
        w.2 ++ [.ask (host.network.send r w.1).1])
      sleep := fun d w => (host.network.sleep d w.1, w.2)
      hangUp := fun w => (host.network.hangUp w.1, w.2) }

/-- What is known of processes, whatever else they do: only a launch makes one, one that has ended stays so, a look tells
what it finds, and one that is killed or seen to end has ended. Any of them may end at any moment. -/
structure Runs (host : Host σ τ) (lives : σ → Nat → Prop) : Prop where
  launch : ∀ command s q, lives (host.launch command s).2 q → (host.launch command s).1 = some q ∨ lives s q
  look : ∀ p s q, lives (host.isAlive p s).2 q → lives s q
  alive : ∀ p s, (host.isAlive p s).1 = true → lives s p
  dead : ∀ p s, (host.isAlive p s).1 = false → ¬ lives (host.isAlive p s).2 p
  terminate : ∀ p s q, lives (host.terminate p s) q → lives s q
  await : ∀ p s q, lives (host.awaitEnd p s).2 q → lives s q
  ended : ∀ p s, (host.awaitEnd p s).1 = true → ¬ lives (host.awaitEnd p s).2 p
  kill : ∀ p s q, lives (host.kill p s) q → q ≠ p ∧ lives s q
  send : ∀ r s q, lives (host.network.send r s).2 q → lives s q
  sleep : ∀ d s q, lives (host.network.sleep d s) q → lives s q

end Host

/-- From one moment to a later one nothing but deeds of a kind is done, and no process is made. -/
structure Since (kind : Deed σ → Bool) (lives : σ → Nat → Prop) (w w' : σ × List (Deed σ)) : Prop where
  fewer : ∀ q, lives w'.1 q → lives w.1 q
  deeds : ∃ more, w'.2 = w.2 ++ more ∧ ∀ d ∈ more, kind d = true

namespace Since

variable {kind : Deed σ → Bool} {lives : σ → Nat → Prop} {w w' v : σ × List (Deed σ)}

theorem refl (w : σ × List (Deed σ)) : Since kind lives w w :=
  ⟨fun _ h => h, [], (List.append_nil _).symm, List.forall_mem_nil _⟩

theorem trans (h : Since kind lives w v) (h' : Since kind lives v w') : Since kind lives w w' := by
  obtain ⟨hfewer, more, hv, hmore⟩ := h
  obtain ⟨hfewer', more', hw, hmore'⟩ := h'
  refine ⟨fun q hq => hfewer q (hfewer' q hq), more ++ more', ?_, List.forall_mem_append.2 ⟨hmore, hmore'⟩⟩
  rw [hw, hv, List.append_assoc]

/-- One deed is done. -/
theorem deed (d : Deed σ) {s s' : σ} {log : List (Deed σ)} (hfewer : ∀ q, lives s' q → lives s q) (hd : kind d = true) :
    Since kind lives (s, log) (s', log ++ [d]) :=
  ⟨hfewer, [d], rfl, List.forall_mem_singleton.2 hd⟩

/-- Time passes. -/
theorem pass {s s' : σ} {log : List (Deed σ)} (hfewer : ∀ q, lives s' q → lives s q) :
    Since kind lives (s, log) (s', log) :=
  ⟨hfewer, [], (List.append_nil _).symm, List.forall_mem_nil _⟩

theorem mono {other : Deed σ → Bool} (h : Since kind lives w w') (hkind : ∀ d, kind d = true → other d = true) :
    Since other lives w w' := by
  obtain ⟨hfewer, more, hw, hmore⟩ := h
  exact ⟨hfewer, more, hw, fun d hd => hkind d (hmore d hd)⟩

end Since

/-- A process was alive when it was last found ready, and nothing has been done to processes since. If it is not alive any
more, it has ended by itself. -/
inductive FoundReady (lives : σ → Nat → Prop) (p : Nat) : List (Deed σ) → Prop
  | intro (earlier : List (Deed σ)) {later : List (Deed σ)} {state : σ} {body : String} : lives state p →
      (∀ d ∈ later, d.isIdle = true) →
      FoundReady lives p (earlier ++ .look state p true :: .ask (.answered 200 body) :: later)

theorem FoundReady.since {lives : σ → Nat → Prop} {p : Nat} {w w' : σ × List (Deed σ)} (h : FoundReady lives p w.2)
    (hsince : Since Deed.isIdle lives w w') : FoundReady lives p w'.2 := by
  obtain ⟨-, more, hw, hmore⟩ := hsince
  rw [hw]
  generalize w.2 = log at h
  obtain ⟨earlier, hlives, hlater⟩ := h
  rw [List.append_assoc, List.cons_append, List.cons_append]
  exact .intro earlier hlives (List.forall_mem_append.2 ⟨hlater, hmore⟩)

/-- A look at a process, and what is known by it. -/
structure Looked (lives : σ → Nat → Prop) (p : Nat) (w : σ × List (Deed σ)) (alive : Bool) (w' : σ × List (Deed σ)) :
    Prop where
  fewer : ∀ q, lives w'.1 q → lives w.1 q
  log : w'.2 = w.2 ++ [.look w.1 p alive]
  lived : alive = true → lives w.1 p
  dead : alive = false → ¬ lives w'.1 p

theorem Looked.since {kind : Deed σ → Bool} {lives : σ → Nat → Prop} {p : Nat} {alive : Bool} {w w' : σ × List (Deed σ)}
    (h : Looked lives p w alive w') (hkind : kind (.look w.1 p alive) = true) : Since kind lives w w' :=
  ⟨h.fewer, _, h.log, List.forall_mem_singleton.2 hkind⟩

namespace Server

variable {host : Host σ τ} {lives : σ → Nat → Prop} {p : Nat} {st st' : ServerState} {w w' : σ × List (Deed σ)}
variable {alive ready running ended : Bool}

theorem looked (hruns : host.Runs lives) (h : host.watched.isAlive p w = (alive, w')) : Looked lives p w alive w' := by
  obtain ⟨rfl, rfl⟩ := Prod.mk.inj h
  exact ⟨hruns.look p w.1, rfl, hruns.alive p w.1, hruns.dead p w.1⟩

/-- A process that has been ended is not alive, and nothing is launched for it. -/
theorem endProcess_since (hruns : host.Runs lives) (p : Nat) (w : σ × List (Deed σ)) :
    Since Deed.isQuiet lives w (endProcess host.watched p w) ∧ ¬ lives (endProcess host.watched p w).1 p := by
  unfold endProcess
  rcases hlook : host.watched.isAlive p w with ⟨alive, w₁⟩
  have hlooked := looked hruns hlook
  cases alive with
  | false => exact ⟨hlooked.since rfl, hlooked.dead rfl⟩
  | true =>
    dsimp only
    have hasked : Since Deed.isQuiet lives w (host.watched.terminate p w₁) :=
      (hlooked.since rfl).trans (.deed _ (hruns.terminate p w₁.1) rfl)
    generalize host.watched.terminate p w₁ = w₂ at hasked
    have hwaited : Since Deed.isQuiet lives w (host.watched.awaitEnd p w₂).2 :=
      hasked.trans (.pass (hruns.await p w₂.1))
    have hended : (host.watched.awaitEnd p w₂).1 = true → ¬ lives (host.watched.awaitEnd p w₂).2.1 p :=
      hruns.ended p w₂.1
    rcases hwait : host.watched.awaitEnd p w₂ with ⟨ended, w₃⟩
    rw [hwait] at hwaited hended
    -- it has been seen to end, or it is killed
    cases ended with
    | true => exact ⟨hwaited, hended rfl⟩
    | false =>
      have hkill := hruns.kill p w₃.1
      exact ⟨hwaited.trans (.deed _ (fun q hq => (hkill q hq).2) rfl), fun hp => (hkill p hp).1 rfl⟩

theorem endProcess_watched (host : Host σ τ) (p : Nat) (w : σ × List (Deed σ)) :
    endProcess host p w.1 = (endProcess host.watched p w).1 := by
  unfold endProcess Host.watched
  dsimp only
  rcases host.isAlive p w.1 with ⟨alive, s⟩
  cases alive with
  | false => rfl
  | true =>
    dsimp only
    rcases host.awaitEnd p (host.terminate p s) with ⟨ended, s'⟩
    cases ended with
    | true | false => rfl

/-- How things are with a server. No process but the one that it holds may be alive; that one was launched and found ready;
and whenever one was launched, none was alive. -/
structure Kept (lives : σ → Nat → Prop) (st : ServerState) (w : σ × List (Deed σ)) : Prop where
  alone : ∀ q, lives w.1 q → st.process = some q
  held : ∀ p, st.process = some p → (∃ s, .launch s (some p) ∈ w.2) ∧ FoundReady lives p w.2
  single : ∀ s made, .launch s made ∈ w.2 → ∀ q, ¬ lives s q
  counted : st.launches = Deed.launches w.2

namespace Kept

variable {held made : Option Nat} {n : Nat}

theorem none_lives (h : Kept lives st w) (hnone : st.process = none) (q : Nat) : ¬ lives w.1 q := by
  intro hq
  cases hnone.symm.trans (h.alone q hq)

/-- Without a launch only what is held may change. -/
theorem quiet (hsingle : ∀ s made, .launch s made ∈ w.2 → ∀ q, ¬ lives s q) (hcounted : n = Deed.launches w.2)
    (hsince : Since Deed.isQuiet lives w w') (halone : ∀ q, lives w'.1 q → held = some q)
    (hheld : ∀ p, held = some p → (∃ s, .launch s (some p) ∈ w.2) ∧ FoundReady lives p w'.2) :
    Kept lives ⟨held, n⟩ w' := by
  obtain ⟨-, more, hw, hmore⟩ := hsince
  refine ⟨halone, fun p hp => ?_, fun s made hs => ?_, ?_⟩
  · obtain ⟨⟨s, hs⟩, hfound⟩ := hheld p hp
    exact ⟨⟨s, hw ▸ List.mem_append_left more hs⟩, hfound⟩
  · rw [hw] at hs
    rcases List.mem_append.1 hs with hs | hs
    · exact hsingle s made hs
    · cases hmore _ hs
  · rw [hw, Deed.launches_append, Deed.launches_of_quiet hmore]
    exact hcounted

theorem idle (h : Kept lives st w) (hsince : Since Deed.isIdle lives w w') : Kept lives st w' :=
  .quiet h.single h.counted (hsince.mono Deed.isQuiet_of_isIdle) (fun q hq => h.alone q (hsince.fewer q hq))
    fun p hp => (h.held p hp).imp_right (·.since hsince)

/-- One launch when none is alive, and what follows it. -/
theorem launch (h : Kept lives ⟨none, n⟩ w) {s : σ} (hsince : Since Deed.isQuiet lives (s, w.2 ++ [.launch w.1 made]) w')
    (halone : ∀ q, lives w'.1 q → held = some q)
    (hheld : ∀ p, held = some p → made = some p ∧ FoundReady lives p w'.2) : Kept lives ⟨held, n + 1⟩ w' := by
  refine .quiet (fun s' made' hs => ?_) ?_ hsince halone fun p hp => ?_
  · rcases List.mem_append.1 hs with hs | hs
    · exact h.single s' made' hs
    · obtain ⟨rfl, rfl⟩ := Deed.launch.inj (List.mem_singleton.1 hs)
      exact h.none_lives rfl
  · rw [Deed.launches_append, ← h.counted]
    rfl
  · obtain ⟨rfl, hfound⟩ := hheld p hp
    exact ⟨⟨w.1, List.mem_append_right _ (List.mem_singleton.2 rfl)⟩, hfound⟩

end Kept

theorem stop_kept (hruns : host.Runs lives) (hkept : Kept lives st w) (h : stop host.watched st w = (st', w')) :
    Kept lives st' w' ∧ st'.process = none ∧ st'.launches = st.launches := by
  unfold stop at h
  cases hprocess : st.process with
  | none =>
    rw [hprocess] at h
    cases h
    exact ⟨hkept, hprocess, rfl⟩
  | some p =>
    rw [hprocess] at h
    cases h
    obtain ⟨hquiet, hdead⟩ := endProcess_since hruns p w
    refine ⟨.quiet hkept.single hkept.counted hquiet (fun q hq => ?_) nofun, rfl, rfl⟩
    cases hprocess.symm.trans (hkept.alone q (hquiet.fewer q hq))
    exact absurd hq hdead

theorem stop_watched (host : Host σ τ) (st : ServerState) (w : σ × List (Deed σ)) :
    stop host st w.1 = ((stop host.watched st w).1, (stop host.watched st w).2.1) := by
  unfold stop
  cases st.process with
  | none => rfl
  | some p =>
    dsimp only
    rw [endProcess_watched]

theorem isRunning_watched (host : Host σ τ) (st : ServerState) (w : σ × List (Deed σ)) : isRunning host st w.1 =
    ((isRunning host.watched st w).1, (isRunning host.watched st w).2.1) := by
  unfold isRunning
  cases st.process with
  | none | some => rfl

variable [Time τ] {out : Except Fault Unit}

theorem isReady_since (hruns : host.Runs lives) {c : Client τ} (h : c.isReady host.watched.network w = (ready, w')) :
    Since Deed.isIdle lives w w' ∧ (ready = true → ∃ body, w'.2 = w.2 ++ [.ask (.answered 200 body)]) := by
  have hsend : Since Deed.isIdle lives w (host.watched.network.send c.probeRequest w).2 :=
    .deed _ (hruns.send c.probeRequest w.1) rfl
  unfold Host.watched at hsend
  unfold Client.isReady Host.watched at h
  dsimp only at h hsend
  rcases hreply : host.network.send c.probeRequest w.1 with ⟨reply, s⟩
  rw [hreply] at h hsend
  cases reply with
  | answered status body =>
    obtain ⟨rfl, rfl⟩ := Prod.mk.inj h
    refine ⟨hsend, fun hstatus => ⟨body, ?_⟩⟩
    rw [of_decide_eq_true hstatus]
  | failed kind text =>
    obtain ⟨rfl, rfl⟩ := Prod.mk.inj h
    exact ⟨hsend, nofun⟩

theorem isReady_watched (host : Host σ τ) (c : Client τ) (w : σ × List (Deed σ)) : c.isReady host.network w.1 =
    ((c.isReady host.watched.network w).1, (c.isReady host.watched.network w).2.1) := by
  unfold Client.isReady Host.watched
  dsimp only
  rcases host.network.send c.probeRequest w.1 with ⟨reply, s⟩
  cases reply with
  | answered | failed => rfl

/-- A wait does nothing to processes. It succeeds with a look at a process that is alive, and a good answer. -/
theorem awaitReady_since (hruns : host.Runs lives) {v : Server τ} {deadline : τ} {probes : Nat}
    (h : v.awaitReady host.watched p deadline probes w = (ready, w')) :
    Since Deed.isIdle lives w w' ∧ (ready = true → FoundReady lives p w'.2) := by
  induction probes generalizing w with
  | zero =>
    cases h
    exact ⟨.refl _, nofun⟩
  | succ probes ih =>
    unfold awaitReady at h
    rcases hlook : host.watched.isAlive p w with ⟨alive, w₁⟩
    have hlooked := looked hruns hlook
    rw [hlook] at h
    cases alive with
    | false =>
      cases h
      exact ⟨hlooked.since rfl, nofun⟩
    | true =>
      rcases hask : v.client.isReady host.watched.network w₁ with ⟨answered, w₂⟩
      obtain ⟨hsince, hbody⟩ := isReady_since hruns hask
      have hboth := (hlooked.since rfl).trans hsince
      dsimp only at h
      rw [hask] at h
      cases answered with
      | true =>
        cases h
        obtain ⟨body, hbody⟩ := hbody rfl
        refine ⟨hboth, fun _ => ?_⟩
        rw [hbody, hlooked.log, List.append_assoc]
        exact .intro _ (hlooked.lived rfl) (List.forall_mem_nil _)
      | false =>
        dsimp only at h
        split at h
        · cases h
          exact ⟨hboth, nofun⟩
        · obtain ⟨hrest, hfound⟩ := ih h
          exact ⟨(hboth.trans (.pass (hruns.sleep pollInterval w₂.1))).trans hrest, hfound⟩

theorem awaitReady_watched (host : Host σ τ) (v : Server τ) (p : Nat) (deadline : τ) (probes : Nat)
    (w : σ × List (Deed σ)) : v.awaitReady host p deadline probes w.1 =
      ((v.awaitReady host.watched p deadline probes w).1, (v.awaitReady host.watched p deadline probes w).2.1) := by
  induction probes generalizing w with
  | zero => rfl
  | succ probes ih =>
    have hlook : host.watched.isAlive p w =
        ((host.isAlive p w.1).1, (host.isAlive p w.1).2, w.2 ++ [.look w.1 p (host.isAlive p w.1).1]) := rfl
    unfold awaitReady
    rw [hlook]
    rcases host.isAlive p w.1 with ⟨alive, s⟩
    cases alive with
    | false => rfl
    | true =>
      dsimp only
      generalize w.2 ++ [.look w.1 p true] = log
      have hready := isReady_watched host v.client (s, log)
      dsimp only at hready
      rw [hready]
      rcases v.client.isReady host.watched.network (s, log) with ⟨ready, w₁⟩
      cases ready with
      | true => rfl
      | false =>
        have hnow : host.watched.now w₁ = host.now w₁.1 := rfl
        dsimp only
        rw [hnow]
        split
        · rfl
        · exact ih (host.network.sleep pollInterval w₁.1, w₁.2)

/-- A wait that comes to an end, however often it has to ask. -/
inductive Waits (v : Server τ) (host : Host σ τ) (p : Nat) (deadline : τ) : σ → Bool × σ → Prop
  | exited {s s₁ : σ} : host.isAlive p s = (false, s₁) → Waits v host p deadline s (false, s₁)
  | ready {s s₁ s₂ : σ} : host.isAlive p s = (true, s₁) → v.client.isReady host.network s₁ = (true, s₂) →
      Waits v host p deadline s (true, s₂)
  | late {s s₁ s₂ : σ} : host.isAlive p s = (true, s₁) → v.client.isReady host.network s₁ = (false, s₂) →
      Time.atMost deadline (host.now s₂) = true → Waits v host p deadline s (false, s₂)
  | again {s s₁ s₂ : σ} {r : Bool × σ} : host.isAlive p s = (true, s₁) →
      v.client.isReady host.network s₁ = (false, s₂) → Time.atMost deadline (host.now s₂) = false →
      Waits v host p deadline (host.network.sleep pollInterval s₂) r → Waits v host p deadline s r

/-- How often a process may be asked does not matter, if it is often enough. -/
theorem Waits.exists_awaitReady {v : Server τ} {deadline : τ} {s : σ} {r : Bool × σ} (h : Waits v host p deadline s r) :
    ∃ least, ∀ probes, least ≤ probes → v.awaitReady host p deadline probes s = r := by
  induction h with
  | exited hlook =>
    refine ⟨1, fun probes hprobes => ?_⟩
    obtain ⟨probes, rfl⟩ := Nat.exists_eq_add_of_le' hprobes
    rw [awaitReady, hlook]
  | ready hlook hask =>
    refine ⟨1, fun probes hprobes => ?_⟩
    obtain ⟨probes, rfl⟩ := Nat.exists_eq_add_of_le' hprobes
    rw [awaitReady, hlook]
    dsimp only
    rw [hask]
  | late hlook hask hlate =>
    refine ⟨1, fun probes hprobes => ?_⟩
    obtain ⟨probes, rfl⟩ := Nat.exists_eq_add_of_le' hprobes
    rw [awaitReady, hlook]
    dsimp only
    rw [hask]
    exact if_pos hlate
  | again hlook hask hearly _ ih =>
    obtain ⟨least, hleast⟩ := ih
    refine ⟨least + 1, fun probes hprobes => ?_⟩
    obtain ⟨probes, rfl⟩ := Nat.exists_eq_add_of_le' (Nat.le_trans (Nat.le_add_left 1 least) hprobes)
    rw [awaitReady, hlook]
    dsimp only
    rw [hask]
    dsimp only
    rw [if_neg (Bool.eq_false_iff.1 hearly)]
    exact hleast probes (Nat.le_of_succ_le_succ hprobes)

theorem launchOnce_kept (hruns : host.Runs lives) {v : Server τ} {made : Option Nat} {n : Nat}
    (hkept : Kept lives ⟨none, n⟩ w) (h : v.launchOnce host.watched w = (made, w')) : Kept lives ⟨made, n + 1⟩ w' := by
  have hlaunched : ∀ q, lives (host.launch v.command w.1).2 q → (host.launch v.command w.1).1 = some q := by
    intro q hq
    exact (hruns.launch v.command w.1 q hq).resolve_right (hkept.none_lives rfl q)
  unfold launchOnce at h
  have hw : host.watched.launch v.command w = ((host.launch v.command w.1).1, (host.launch v.command w.1).2,
      w.2 ++ [.launch w.1 (host.launch v.command w.1).1]) := rfl
  rw [hw] at h
  rcases hlaunch : host.launch v.command w.1 with ⟨launched, s⟩
  rw [hlaunch] at h hlaunched
  cases launched with
  | none =>
    cases h
    exact hkept.launch (.refl _) hlaunched nofun
  | some p =>
    dsimp only at h hlaunched
    rcases hwait : v.awaitReady host.watched p _ v.probes (s, w.2 ++ [.launch w.1 (some p)]) with ⟨ready, w₁⟩
    rw [hwait] at h
    obtain ⟨hsince, hfound⟩ := awaitReady_since hruns hwait
    cases ready with
    | true =>
      cases h
      refine hkept.launch (hsince.mono Deed.isQuiet_of_isIdle) (fun q hq => hlaunched q (hsince.fewer q hq)) fun p' hp => ?_
      cases hp
      exact ⟨rfl, hfound rfl⟩
    | false =>
      cases h
      obtain ⟨hquiet, hdead⟩ := endProcess_since hruns p w₁
      refine hkept.launch ((hsince.mono Deed.isQuiet_of_isIdle).trans hquiet) (fun q hq => ?_) nofun
      -- only the one that has been ended could be alive
      cases hlaunched q (hsince.fewer q (hquiet.fewer q hq))
      exact absurd hq hdead

theorem launchOnce_watched (host : Host σ τ) (v : Server τ) (w : σ × List (Deed σ)) :
    v.launchOnce host w.1 = ((v.launchOnce host.watched w).1, (v.launchOnce host.watched w).2.1) := by
  have hw : host.watched.launch v.command w = ((host.launch v.command w.1).1, (host.launch v.command w.1).2,
      w.2 ++ [.launch w.1 (host.launch v.command w.1).1]) := rfl
  unfold launchOnce
  rw [hw]
  rcases host.launch v.command w.1 with ⟨launched, s⟩
  cases launched with
  | none => rfl
  | some p =>
    dsimp only
    generalize w.2 ++ [.launch w.1 (some p)] = log
    have hnow : host.watched.now (s, log) = host.now s := rfl
    rw [hnow]
    generalize Time.add (host.now s) v.patience = deadline
    have hwait := awaitReady_watched host v p deadline v.probes (s, log)
    dsimp only at hwait
    rw [hwait]
    rcases v.awaitReady host.watched p deadline v.probes (s, log) with ⟨ready, w₁⟩
    cases ready with
    | true => rfl
    | false =>
      dsimp only
      rw [endProcess_watched]

/-- How launches end. What is held after them, and how many there were. -/
structure Settled (v : Server τ) (most : Nat) (out : Except Fault Unit) (st' : ServerState) : Prop where
  started : out = .ok () → st'.process.isSome = true
  failed : ∀ e, out = .error e → st'.process = none
  /-- It is given up after as many as there may be. -/
  givenUp : ∀ e, out = .error (.problem e) → Fault.problem e = v.notStarted ∧ st'.launches = most

theorem start_kept (hruns : host.Runs lives) {v : Server τ} {left attempt n : Nat} (hkept : Kept lives ⟨none, n⟩ w)
    (h : v.start host.watched left attempt n w = (out, st', w')) :
    Kept lives st' w' ∧ Settled v (n + left + 1) out st' := by
  -- an attempt that has failed leaves none alive, so the next one starts as the first one did
  induction left generalizing attempt n w with
  | zero =>
    unfold start at h
    rcases honce : v.launchOnce host.watched w with ⟨made, w₁⟩
    have hnext := launchOnce_kept hruns hkept honce
    rw [honce] at h
    cases made with
    | some p =>
      cases h
      exact ⟨hnext, fun _ => rfl, nofun, nofun⟩
    | none =>
      cases h
      exact ⟨hnext, nofun, fun _ _ => rfl, fun e he => ⟨(Except.error.inj he).symm, rfl⟩⟩
  | succ left ih =>
    unfold start at h
    rcases honce : v.launchOnce host.watched w with ⟨made, w₁⟩
    have hnext := launchOnce_kept hruns hkept honce
    rw [honce] at h
    cases made with
    | some p =>
      cases h
      exact ⟨hnext, fun _ => rfl, nofun, nofun⟩
    | none =>
      dsimp only at h
      have hcount : n + 1 + left + 1 = n + (left + 1) + 1 := by omega
      rw [← hcount]
      split at h
      · cases h
        exact ⟨hnext, nofun, fun _ _ => rfl, nofun⟩
      · exact ih hnext h
      · rename_i d _
        exact ih (hnext.idle (.pass (hruns.sleep d w₁.1))) h

theorem start_watched (host : Host σ τ) (v : Server τ) (left attempt n : Nat) (w : σ × List (Deed σ)) :
    v.start host left attempt n w.1 = ((v.start host.watched left attempt n w).1,
      (v.start host.watched left attempt n w).2.1, (v.start host.watched left attempt n w).2.2.1) := by
  induction left generalizing attempt n w with
  | zero =>
    unfold start
    rw [launchOnce_watched]
    rcases v.launchOnce host.watched w with ⟨made, w₁⟩
    cases made with
    | some | none => rfl
  | succ left ih =>
    unfold start
    rw [launchOnce_watched]
    rcases v.launchOnce host.watched w with ⟨made, w₁⟩
    cases made with
    | some p => rfl
    | none =>
      dsimp only
      cases v.backoff.pause attempt with
      | error m => rfl
      | ok d =>
        cases d with
        | none => exact ih _ _ w₁
        | some d => exact ih _ _ (host.network.sleep d w₁.1, w₁.2)

theorem ensureRunning_kept (hruns : host.Runs lives) {v : Server τ} (hkept : Kept lives st w)
    (h : v.ensureRunning host.watched st w = (out, st', w')) :
    Kept lives st' w' ∧ Settled v (st.launches + v.retries + 1) out st' := by
  unfold ensureRunning at h
  rcases hlook : isRunning host.watched st w with ⟨running, w₁⟩
  rw [hlook] at h
  unfold isRunning at hlook
  cases hprocess : st.process with
  | none =>
    rw [hprocess] at hlook
    cases hlook
    refine start_kept hruns ⟨fun q hq => ?_, nofun, hkept.single, hkept.counted⟩ h
    rw [← hprocess]
    exact hkept.alone q hq
  | some p =>
    rw [hprocess] at hlook
    have hlooked := looked hruns hlook
    have hnext := hkept.idle (hlooked.since rfl)
    cases running with
    | true =>
      cases h
      refine ⟨hnext, fun _ => ?_, nofun, nofun⟩
      rw [hprocess]
      rfl
    | false =>
      refine start_kept hruns ⟨fun q hq => ?_, nofun, hnext.single, hnext.counted⟩ h
      -- the one that was held has been seen to have ended
      cases hprocess.symm.trans (hnext.alone q hq)
      exact absurd hq (hlooked.dead rfl)

theorem ensureRunning_watched (host : Host σ τ) (v : Server τ) (st : ServerState) (w : σ × List (Deed σ)) :
    v.ensureRunning host st w.1 = ((v.ensureRunning host.watched st w).1, (v.ensureRunning host.watched st w).2.1,
      (v.ensureRunning host.watched st w).2.2.1) := by
  unfold ensureRunning
  rw [isRunning_watched]
  rcases isRunning host.watched st w with ⟨running, w₁⟩
  cases running with
  | true => rfl
  | false => exact start_watched host v v.retries 1 st.launches w₁

/-- What becomes of a server: it is made sure of and stopped, and between that anything happens that makes no process. -/
inductive History (v : Server τ) (host : Host σ τ) (lives : σ → Nat → Prop) : ServerState → σ × List (Deed σ) → Prop
  | created {s : σ} : (∀ q, ¬ lives s q) → History v host lives idle (s, [])
  | ensured {st st' : ServerState} {w w' : σ × List (Deed σ)} {out : Except Fault Unit} : History v host lives st w →
      v.ensureRunning host.watched st w = (out, st', w') → History v host lives st' w'
  | stopped {st st' : ServerState} {w w' : σ × List (Deed σ)} : History v host lives st w →
      stop host.watched st w = (st', w') → History v host lives st' w'
  | meanwhile {st : ServerState} {w : σ × List (Deed σ)} {s : σ} : History v host lives st w →
      (∀ q, lives s q → lives w.1 q) → History v host lives st (s, w.2)

theorem History.kept (hruns : host.Runs lives) {v : Server τ} (h : History v host lives st w) : Kept lives st w := by
  induction h with
  | created hnone => exact ⟨fun q hq => absurd hq (hnone q), nofun, nofun, rfl⟩
  | ensured _ hensure ih => exact (ensureRunning_kept hruns ih hensure).1
  | stopped _ hstop ih => exact (stop_kept hruns ih hstop).1
  | meanwhile _ hfewer ih => exact ih.idle (.pass hfewer)

/-- After any history of calls and crashes, and whatever processes do during the next call: if it succeeds, the process
that is held is the only one that can be alive, and if it is not, it has ended by itself since it was found ready; if it
fails, none is alive, and if it gives up, it has launched as often as it may. After a stop none is alive. At every launch
none was alive. All of this is seen in a log, which changes nothing. -/
theorem one_process (hruns : host.Runs lives) (v : Server τ) (h : History v host lives st w) :
    (∀ out st' w', v.ensureRunning host.watched st w = (out, st', w') →
      v.ensureRunning host st w.1 = (out, st', w'.1) ∧
      (out = .ok () → ∃ p, st'.process = some p ∧ (∃ s, .launch s (some p) ∈ w'.2) ∧ (∀ q, lives w'.1 q → q = p) ∧
        FoundReady lives p w'.2) ∧
      (∀ e, out = .error e → st'.process = none ∧ ∀ q, ¬ lives w'.1 q) ∧
      (∀ e, out = .error (.problem e) → Fault.problem e = v.notStarted ∧
        Deed.launches w'.2 = Deed.launches w.2 + (v.retries + 1)) ∧
      ∀ s made, .launch s made ∈ w'.2 → ∀ q, ¬ lives s q) ∧
    ∀ st' w', stop host.watched st w = (st', w') →
      stop host st w.1 = (st', w'.1) ∧ st'.process = none ∧ (∀ q, ¬ lives w'.1 q) ∧
      Deed.launches w'.2 = Deed.launches w.2 := by
  have hkept := h.kept hruns
  refine ⟨fun out st' w' hensure => ?_, fun st' w' hstop => ?_⟩
  · obtain ⟨hkept', hsettled⟩ := ensureRunning_kept hruns hkept hensure
    refine ⟨?_, fun hok => ?_, fun e he => ?_, fun e he => ?_, hkept'.single⟩
    · rw [ensureRunning_watched, hensure]
    · obtain ⟨p, hp⟩ := Option.isSome_iff_exists.1 (hsettled.started hok)
      obtain ⟨hlaunch, hfound⟩ := hkept'.held p hp
      refine ⟨p, hp, hlaunch, fun q hq => ?_, hfound⟩
      exact Option.some.inj ((hkept'.alone q hq).symm.trans hp)
    · have hnone := hsettled.failed e he
      exact ⟨hnone, hkept'.none_lives hnone⟩
    · obtain ⟨hfault, hmost⟩ := hsettled.givenUp e he
      refine ⟨hfault, ?_⟩
      rw [← hkept'.counted, ← hkept.counted, hmost, Nat.add_assoc]
  · obtain ⟨hkept', hnone, hsame⟩ := stop_kept hruns hkept hstop
    refine ⟨?_, hnone, hkept'.none_lives hnone, ?_⟩
    · rw [stop_watched, hstop]
    · rw [← hkept'.counted, ← hkept.counted, hsame]

end Server

namespace Rehearsal.World

/-- It has been launched and has not exited. -/
def Lives (w : World) (i : Nat) : Prop := w.hasExited i = false

theorem lives_iff {w : World} {i : Nat} : w.Lives i ↔ ∃ p, w.processes[i]? = some p ∧ p.exited = false := by
  unfold Lives hasExited
  cases w.processes[i]? with
  | none => simp
  | some p => simp

/-- None is revived. -/
theorem lives_setProcess {w : World} {i q : Nat} {f : Process → Process} (hf : ∀ p, (f p).exited = false → p.exited = false)
    (h : (w.setProcess i f).Lives q) : w.Lives q := by
  obtain ⟨p, hp, hlives⟩ := lives_iff.1 h
  unfold setProcess at hp
  rw [Array.getElem?_modify] at hp
  split at hp
  · obtain ⟨before, hbefore, rfl⟩ := Option.map_eq_some_iff.1 hp
    exact lives_iff.2 ⟨before, hbefore, hf before hlives⟩
  · exact lives_iff.2 ⟨p, hp, hlives⟩

theorem lives_endNow {w : World} {i q : Nat} (h : (w.endNow i).Lives q) : q ≠ i ∧ w.Lives q := by
  refine ⟨?_, lives_setProcess (fun _ hf => Bool.noConfusion hf) h⟩
  rintro rfl
  obtain ⟨p, hp, hlives⟩ := lives_iff.1 h
  unfold endNow setProcess at hp
  rw [Array.getElem?_modify, if_pos rfl] at hp
  obtain ⟨before, -, rfl⟩ := Option.map_eq_some_iff.1 hp
  cases hlives

theorem lives_launch {command : List String} {w : World} {q : Nat} (h : (launch command w).2.Lives q) :
    (launch command w).1 = some q ∨ w.Lives q := by
  unfold launch at h ⊢
  dsimp only at h ⊢
  split at h
  · exact .inr h
  · rw [if_neg ‹_›]
    obtain ⟨p, hp, hlives⟩ := lives_iff.1 h
    rw [Array.getElem?_push] at hp
    split at hp
    · next hq => exact .inl (congrArg some hq.symm)
    · exact .inr (lives_iff.2 ⟨p, hp, hlives⟩)

theorem Process.exited_look {p : Process} (h : (Process.look p).exited = false) : p.exited = false := by
  unfold Process.look at h
  split at h
  · exact h
  · exact Bool.eq_false_iff.2 ‹_›

theorem processes_send (r : Request Quantity) (w : World) : (send r w).2.processes = w.processes := by
  unfold send
  dsimp only
  split
  · rfl
  · rfl
  · rfl
  · split
    · rfl
    · rfl

theorem runs : World.host.Runs Lives where
  launch command w q h := lives_launch h
  look i w q h := lives_setProcess (fun _ => Process.exited_look) h
  alive i w h := lives_setProcess (fun _ => Process.exited_look) (i := i) ((Bool.not_eq_true' _).mp h)
  dead i w h hlives := Bool.false_ne_true (hlives.symm.trans ((Bool.not_eq_false' _).mp h))
  terminate i w q h := lives_setProcess (fun _ hp => (Bool.or_eq_false_iff.1 hp).1) h
  await i w q h := h
  ended i w h hlives := Bool.false_ne_true (hlives.symm.trans h)
  kill i w q h := lives_endNow h
  send r w q h := by
    obtain ⟨p, hp, hlives⟩ := lives_iff.1 h
    rw [host, network, processes_send] at hp
    exact lives_iff.2 ⟨p, hp, hlives⟩
  sleep d w q h := h

end Rehearsal.World

namespace Server

open Rehearsal

/-- One launch at a time, and one question. -/
def hasty : Server Quantity :=
  let backoff : Backoff Quantity := ⟨0, .ok (.whole 1), .whole 10⟩
  ⟨"java", "lt.jar", .int 8081, ⟨"http://127.0.0.1:8081", .whole 30, backoff⟩, 0, .whole 60, 1, backoff⟩

/-- The first process exits before anyone asks it anything; the others are good. -/
def restless : World := { World.quiet with plans := [⟨false, false, some 0, false⟩] }

def failing : Except Fault Unit × ServerState × World × List (Deed World) :=
  hasty.ensureRunning World.host.watched idle (restless, [])

def serving : Except Fault Unit × ServerState × World × List (Deed World) :=
  hasty.ensureRunning World.host.watched failing.2.1 failing.2.2

/-- The process that serves crashes before the server is made sure of again. -/
def restarted : Except Fault Unit × ServerState × World × List (Deed World) :=
  hasty.ensureRunning World.host.watched serving.2.1 (serving.2.2.1.crash, serving.2.2.2)

def isGivenUp : Except Fault Unit → Bool
  | .error (.problem _) => true
  | _ => false

theorem exists_of_isGivenUp {out : Except Fault Unit} (h : isGivenUp out = true) :
    ∃ e, out = .error (.problem e) := by
  rcases out with (e | m) | u
  · exact ⟨e, rfl⟩
  · cases h
  · cases h

theorem eq_ok_of_toBool {out : Except Fault Unit} (h : out.toBool = true) : out = .ok () := by
  cases out with
  | ok u => rfl
  | error e => cases h

theorem history_crashed : History hasty World.host World.Lives serving.2.1 (serving.2.2.1.crash, serving.2.2.2) := by
  have hcreated : History hasty World.host World.Lives idle (restless, []) := .created fun q hq => Bool.noConfusion hq
  have hfailing := hcreated.ensured (show _ = (failing.1, failing.2.1, failing.2.2) from rfl)
  have hserving := hfailing.ensured (show _ = (serving.1, serving.2.1, serving.2.2) from rfl)
  exact hserving.meanwhile fun q hq => (World.lives_endNow hq).2

theorem one_process_restless :
    (Deed.launches failing.2.2.2 = 1 ∧ ∀ q, ¬ failing.2.2.1.Lives q) ∧
    (restarted.2.1.process = some 2 ∧ (∀ q, restarted.2.2.1.Lives q → q = 2) ∧
      FoundReady World.Lives 2 restarted.2.2.2) ∧
    ∀ q, ¬ (stop World.host restarted.2.1 restarted.2.2.1).2.Lives q := by
  have hgiven : isGivenUp failing.1 = true := by decide +kernel
  have hstarted : restarted.1.toBool = true ∧ restarted.2.1.process = some 2 := by decide +kernel
  have hcreated : History hasty World.host World.Lives idle (restless, []) := .created fun q hq => Bool.noConfusion hq
  have hrestarted := history_crashed.ensured (show _ = (restarted.1, restarted.2.1, restarted.2.2) from rfl)
  refine ⟨?_, ?_, ?_⟩
  · obtain ⟨-, -, hfailed, hlaunches, -⟩ := (one_process World.runs hasty hcreated).1 failing.1 failing.2.1 failing.2.2 rfl
    obtain ⟨e, he⟩ := exists_of_isGivenUp hgiven
    exact ⟨(hlaunches e he).2, (hfailed _ he).2⟩
  · obtain ⟨-, hserved, -⟩ :=
      (one_process World.runs hasty history_crashed).1 restarted.1 restarted.2.1 restarted.2.2 rfl
    obtain ⟨p, hp, -, halone, hfound⟩ := hserved (eq_ok_of_toBool hstarted.1)
    obtain rfl : p = 2 := Option.some.inj (hp.symm.trans hstarted.2)
    exact ⟨hp, halone, hfound⟩
  · obtain ⟨hstop, -, hnone, -⟩ := (one_process World.runs hasty hrestarted).2 _ _ rfl
    rw [hstop]
    exact hnone

end Server

end Proofreader
