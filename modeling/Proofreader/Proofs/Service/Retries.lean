import Proofreader.Proofs.Time
import Proofreader.Service.Backend

/-! A request that gets no answer is sent again. The first reply that is anything else decides, and where there is none
the attempts run out; between two requests there is one wait, and none behind the last. All of this needs the spans to
wait for, of which each is twice the one before: exact numbers have them all, floats do not. -/

namespace Proofreader

/-- No answer came in time, or no connection was made. -/
def Reply.isTransient : Reply → Bool
  | .failed .timeout _ | .failed .connection _ => true
  | _ => false

/-- What goes over a network, and the time between. -/
inductive Traffic (τ : Type) where
  | sent (request : Request τ)
  | slept (span : τ)

variable {σ τ : Type} [Time τ]

namespace Network

/-- A wait. One that takes no time is none. -/
def rest (net : Network σ τ) (span : τ) (s : σ) : σ := (Time.positive? span).elim s (net.sleep · s)

/-- The state in which a request has failed `n` times and is about to be sent once more. -/
def resent (net : Network σ τ) (r : Request τ) (span : Nat → τ) (s : σ) : Nat → σ
  | 0 => s
  | n + 1 => net.rest (span (n + 1)) (net.send r (net.resent r span s n)).2

/-- The reply to the request that is sent when it has failed `n` times. -/
def replyAfter (net : Network σ τ) (r : Request τ) (span : Nat → τ) (s : σ) (n : Nat) : Reply :=
  (net.send r (net.resent r span s n)).1

/-- The same network, with a log of its traffic. -/
def watched (net : Network σ τ) : Network (σ × List (Traffic τ)) τ where
  send r w := ((net.send r w.1).1, (net.send r w.1).2, w.2 ++ [.sent r])
  sleep span w := (net.sleep span w.1, w.2 ++ [.slept span])
  hangUp w := (net.hangUp w.1, w.2)

end Network

/-- A request that is sent `n + 1` times, with one wait between two of them. -/
def Request.traffic (r : Request τ) (span : Nat → τ) : Nat → List (Traffic τ)
  | 0 => [.sent r]
  | n + 1 => r.traffic span n ++ (Time.positive? (span (n + 1))).toList.map .slept ++ [.sent r]

namespace Network

theorem rest_watched (net : Network σ τ) (d : τ) (s : σ) (log : List (Traffic τ)) :
    net.watched.rest d (s, log) = (net.rest d s, log ++ (Time.positive? d).toList.map .slept) := by
  unfold rest
  cases Time.positive? d with
  | none => simp
  | some d => rfl

/-- Watching changes nothing; the log gets one request more each time. -/
theorem send_resent_watched (net : Network σ τ) (r : Request τ) (span : Nat → τ) (s : σ) (log : List (Traffic τ)) (n : Nat) :
    net.watched.send r (net.watched.resent r span (s, log) n) =
      (net.replyAfter r span s n, (net.send r (net.resent r span s n)).2, log ++ r.traffic span n) := by
  induction n with
  | zero => rfl
  | succ n ih =>
    have hstep : net.watched.resent r span (s, log) (n + 1) =
        (net.resent r span s (n + 1), log ++ r.traffic span n ++ (Time.positive? (span (n + 1))).toList.map .slept) := by
      rw [resent, ih]
      exact rest_watched net (span (n + 1)) _ _
    rw [hstep, Request.traffic]
    change (_, _, _ ++ [Traffic.sent r]) = _
    rw [List.append_assoc, List.append_assoc, List.append_assoc]
    rfl

theorem replyAfter_watched (net : Network σ τ) (r : Request τ) (span : Nat → τ) (s : σ) (log : List (Traffic τ)) (n : Nat) :
    net.watched.replyAfter r span (s, log) n = net.replyAfter r span s n :=
  congrArg Prod.fst (send_resent_watched net r span s log n)

/-- A network that gives the replies of a list without end, in order. Its state is how many it has given. -/
def scripted (replies : Nat → Reply) : Network Nat τ where
  send _ sent := (replies sent, sent + 1)
  sleep _ sent := sent
  hangUp sent := sent

theorem resent_scripted (replies : Nat → Reply) (r : Request τ) (span : Nat → τ) (n : Nat) :
    (scripted replies).resent r span 0 n = n := by
  induction n with
  | zero => rfl
  | succ n ih =>
    rw [resent, ih, rest]
    cases Time.positive? (span (n + 1)) <;> rfl

theorem replyAfter_scripted (replies : Nat → Reply) (r : Request τ) (span : Nat → τ) (n : Nat) :
    (scripted replies).replyAfter r span 0 n = replies n := by
  rw [replyAfter, resent_scripted]
  rfl

end Network

namespace Client

variable {net : Network σ τ} {c : Client τ} {r : Request τ} {span : Nat → τ} {base : τ} {s s' : σ} {n left attempt : Nat}
  {reply : Reply} {text : Text} {tag : String} {disabled : List String}

/-- A reply that decides, and the outcome of a check that gets it in its `k`-th attempt. -/
inductive Concludes (c : Client τ) (text : Text) (k : Nat) : Reply → Except Fault (List Finding) → Prop
  | body {body : String} : Concludes c text k (.answered 200 body) (c.readBody text body)
  | status {status : Int} {body message : String} : status ≠ 200 → Concludes c text k (.answered status body)
      (.error (.problem (.connection message (.int k) [("status_code", .int status)])))
  | request {message : String} : Concludes c text k (.failed .other message) (.error (.mishap (.request message)))

/-- A check has an outcome, and its traffic is what a log says, which changes nothing. -/
def Checks (c : Client τ) (net : Network σ τ) (text : Text) (tag : String) (disabled : List String) (s : σ)
    (out : Except Fault (List Finding)) (traffic : List (Traffic τ)) : Prop :=
  ∃ s', c.check net text tag disabled s = (out, s') ∧
    ∀ log, c.check net.watched text tag disabled (s, log) = (out, s', log ++ traffic)

/-- What the attempts come to if they end with a reply. -/
def ending (c : Client τ) (attempt : Nat) : Reply → Except Fault String
  | .answered status body => if status = 200 then .ok body else .error (refused status body attempt)
  | .failed .other message => .error (.mishap (.request message))
  | .failed _ message => .error (c.unreachable message attempt)

omit [Time τ] in
theorem concludes_ending (text : Text) (attempt : Nat) (hdecides : reply.isTransient = false) :
    c.Concludes text attempt reply (c.ending attempt reply >>= c.readBody text) := by
  cases reply with
  | answered status body =>
    by_cases hstatus : status = 200
    · subst hstatus
      exact .body
    · rw [ending, if_neg hstatus]
      exact .status hstatus
  | failed kind message =>
    cases kind with
    | other => exact .request
    | _ => cases hdecides

omit [Time τ] in
/-- What is not expected of an ending is an error of the request itself. -/
theorem exists_request_of_ending {attempt : Nat} {m : Mishap} (h : c.ending attempt reply = .error (.mishap m)) :
    ∃ message, m = .request message := by
  cases reply with
  | answered status body =>
    rw [ending] at h
    split at h <;> cases h
  | failed kind message =>
    cases kind with
    | other =>
      cases h
      exact ⟨_, rfl⟩
    | _ => cases h

omit [Time τ] in
theorem exists_ending (c : Client τ) (attempt : Nat) (hfail : reply.isTransient = true) :
    ∃ message, c.ending attempt reply = .error (.problem (.connection message (.int attempt) [])) := by
  cases reply with
  | answered status body => cases hfail
  | failed kind message =>
    cases kind with
    | other => cases hfail
    | _ => exact ⟨_, rfl⟩

/-! One attempt: it is the last one, or the next one follows, or the span to wait for is out of reach. -/

theorem deliver_ends (hsend : net.send r s = (reply, s')) (h : reply.isTransient = false ∨ left = 0) :
    c.deliver net r left attempt s = (c.ending attempt reply, s') := by
  rw [deliver.eq_def]
  dsimp only
  rw [hsend]
  cases reply with
  | answered status body => by_cases hstatus : status = 200 <;> simp [ending, hstatus]
  | failed kind message =>
    cases kind with
    | other => rfl
    | _ =>
      obtain hdecides | rfl := h
      · cases hdecides
      · rfl

theorem deliver_again (hsend : net.send r s = (reply, s')) (hfail : reply.isTransient = true) {d : τ}
    (hpause : c.backoff.pause attempt = .ok (Time.positive? d)) :
    c.deliver net r (left + 1) attempt s = c.deliver net r left (attempt + 1) (net.rest d s') := by
  rw [deliver, hsend]
  cases reply with
  | answered status body => cases hfail
  | failed kind message =>
    unfold Network.rest
    cases kind with
    | other => cases hfail
    | _ =>
      dsimp only
      rw [hpause]
      cases Time.positive? d <;> rfl

theorem deliver_unpaused (hsend : net.send r s = (reply, s')) (hfail : reply.isTransient = true) {m : Mishap}
    (hpause : c.backoff.pause attempt = .error m) : c.deliver net r (left + 1) attempt s = (.error (.mishap m), s') := by
  rw [deliver, hsend]
  cases reply with
  | answered status body => cases hfail
  | failed kind message =>
    cases kind with
    | other => cases hfail
    | _ =>
      dsimp only
      rw [hpause]

/-- As long as requests fail, they are sent again. -/
theorem deliver_resent (hspans : c.backoff.Doubles base span n)
    (hfail : ∀ i, i < n → (net.replyAfter r span s i).isTransient = true) (left : Nat) :
    c.deliver net r (left + n) 1 s = c.deliver net r left (n + 1) (net.resent r span s n) := by
  induction n generalizing left with
  | zero => rfl
  | succ n ih =>
    have hbefore := ih (hspans.mono (Nat.le_succ n)) (fun i hi => hfail i (Nat.lt_succ_of_lt hi)) (left + 1)
    rw [show left + (n + 1) = left + 1 + n by omega, hbefore]
    exact deliver_again rfl (hfail n (Nat.lt_succ_self n)) (hspans.pause (Nat.lt_succ_self n))

theorem check_of_deliver {got : Except Fault String} (hr : r = c.checkRequest text tag disabled)
    (h : c.deliver net r c.backoff.retries 1 s = (got, s')) :
    c.check net text tag disabled s = (got >>= c.readBody text, s') := by
  rw [check, ← hr, h]

theorem check_ends (hr : r = c.checkRequest text tag disabled) (hspans : c.backoff.Doubles base span n)
    (hn : n ≤ c.backoff.retries) (hfail : ∀ i, i < n → (net.replyAfter r span s i).isTransient = true)
    (hlast : (net.replyAfter r span s n).isTransient = false ∨ n = c.backoff.retries) :
    c.check net text tag disabled s = (c.ending (n + 1) (net.replyAfter r span s n) >>= c.readBody text,
      (net.send r (net.resent r span s n)).2) := by
  have hloop := deliver_resent hspans hfail (c.backoff.retries - n)
  rw [Nat.sub_add_cancel hn, deliver_ends rfl (hlast.imp_right fun h => by omega)] at hloop
  exact check_of_deliver hr hloop

/-- Where a span is out of reach the attempts end before they have run out. -/
theorem check_unpaused (hr : r = c.checkRequest text tag disabled) (hspans : c.backoff.Doubles base span n)
    (hn : n < c.backoff.retries) {m : Mishap} (hscale : Time.scale base (n : Int) = .error m)
    (hfail : ∀ i, i ≤ n → (net.replyAfter r span s i).isTransient = true) :
    c.check net text tag disabled s = (.error (.mishap m), (net.send r (net.resent r span s n)).2) := by
  have hloop := deliver_resent hspans (fun i hi => hfail i (Nat.le_of_lt hi)) (c.backoff.retries - n)
  rw [Nat.sub_add_cancel (Nat.le_of_lt hn), show c.backoff.retries - n = c.backoff.retries - n - 1 + 1 by omega,
    deliver_unpaused rfl (hfail n (Nat.le_refl n)) (Backoff.pause_error hspans.first hscale)] at hloop
  exact check_of_deliver hr hloop

theorem checks_ends (hr : r = c.checkRequest text tag disabled) (hspans : c.backoff.Doubles base span n)
    (hn : n ≤ c.backoff.retries) (hfail : ∀ i, i < n → (net.replyAfter r span s i).isTransient = true)
    (hlast : (net.replyAfter r span s n).isTransient = false ∨ n = c.backoff.retries) :
    c.Checks net text tag disabled s (c.ending (n + 1) (net.replyAfter r span s n) >>= c.readBody text)
      (r.traffic span n) := by
  refine ⟨_, check_ends hr hspans hn hfail hlast, fun log => ?_⟩
  have hcheck : c.check net.watched text tag disabled (s, log) = _ := check_ends hr hspans hn
    (fun i hi => by rw [Network.replyAfter_watched]; exact hfail i hi) (by rw [Network.replyAfter_watched]; exact hlast)
  rw [Network.replyAfter_watched, Network.send_resent_watched] at hcheck
  exact hcheck

theorem checks_unpaused (hr : r = c.checkRequest text tag disabled) (hspans : c.backoff.Doubles base span n)
    (hn : n < c.backoff.retries) {m : Mishap} (hscale : Time.scale base (n : Int) = .error m)
    (hfail : ∀ i, i ≤ n → (net.replyAfter r span s i).isTransient = true) :
    c.Checks net text tag disabled s (.error (.mishap m)) (r.traffic span n) := by
  refine ⟨_, check_unpaused hr hspans hn hscale hfail, fun log => ?_⟩
  have hcheck : c.check net.watched text tag disabled (s, log) = _ := check_unpaused hr hspans hn hscale
    fun i hi => by rw [Network.replyAfter_watched]; exact hfail i hi
  rw [Network.send_resent_watched] at hcheck
  exact hcheck

/-- The first reply that decides is the outcome of a check, if there is an attempt left for it; if there is none, the
attempts run out. As many requests are sent as this takes, all alike, with one wait between two of them. All this holds
as far as the spans to wait for are in reach. Where one is not, the check ends when it is needed, and with another
failure. -/
theorem check_settles (net : Network σ τ) (c : Client τ) (text : Text) (tag : String) (disabled : List String)
    (hr : r = c.checkRequest text tag disabled) (hspans : c.backoff.Doubles base span n) (hn : n ≤ c.backoff.retries)
    (s : σ) :
    (∀ k, k ≤ n → (∀ i, i < k → (net.replyAfter r span s i).isTransient = true) →
      (net.replyAfter r span s k).isTransient = false →
        ∃ out, c.Concludes text (k + 1) (net.replyAfter r span s k) out ∧
          c.Checks net text tag disabled s out (r.traffic span k)) ∧
    ((∀ i, i ≤ n → (net.replyAfter r span s i).isTransient = true) →
      (n = c.backoff.retries → ∃ message, c.Checks net text tag disabled s
        (.error (.problem (.connection message (.int (c.backoff.retries + 1 : Nat)) []))) (r.traffic span n)) ∧
      ∀ m, n < c.backoff.retries → Time.scale base (n : Int) = .error m →
        c.Checks net text tag disabled s (.error (.mishap m)) (r.traffic span n)) := by
  refine ⟨fun k hk hfail hdecides => ?_, fun hfail => ⟨fun heq => ?_, fun m hlt hscale => ?_⟩⟩
  · exact ⟨_, concludes_ending text (k + 1) hdecides,
      checks_ends hr (hspans.mono hk) (Nat.le_trans hk hn) hfail (Or.inl hdecides)⟩
  · have hchecks := checks_ends hr hspans hn (fun i hi => hfail i (Nat.le_of_lt hi)) (Or.inr heq)
    obtain ⟨message, hending⟩ := exists_ending c (n + 1) (hfail n (Nat.le_refl n))
    rw [hending, heq] at hchecks
    rw [heq]
    exact ⟨message, hchecks⟩
  · exact checks_unpaused hr hspans hlt hscale hfail

/-- A client that waits half a second at first. -/
def exactClient : Client ℚ := ⟨"http://lt.example:8081", 30, ⟨2, .ok (1 / 2), 10⟩⟩

/-- No connection twice, then a server that has no time. -/
def busy (sent : Nat) : Reply := if sent < 2 then .failed .connection "refused" else .answered 503 "busy"

theorem check_settles_busy : exactClient.backoff.Doubles (1 / 2) (fun i => min (1 / 2 * 2 ^ (i - 1)) 10) 2 ∧
    ∃ message, exactClient.Checks (.scripted busy) ['a'] "en" [] 0
      (.error (.problem (.connection message (.int 3) [("status_code", .int 503)])))
      [.sent (exactClient.checkRequest ['a'] "en" []), .slept (1 / 2), .sent (exactClient.checkRequest ['a'] "en" []),
        .slept 1, .sent (exactClient.checkRequest ['a'] "en" [])] := by
  have hspans : exactClient.backoff.Doubles (1 / 2) (fun i => min (1 / 2 * 2 ^ (i - 1)) 10) 2 :=
    exactClient.backoff.doubles_exact rfl 2
  refine ⟨hspans, ?_⟩
  generalize hr : exactClient.checkRequest ['a'] "en" [] = r
  obtain ⟨hdecided, -⟩ := check_settles (.scripted busy) exactClient ['a'] "en" [] hr.symm hspans (Nat.le_refl 2) 0
  simp only [Network.replyAfter_scripted] at hdecided
  have hfail (i : Nat) (hi : i < 2) : (busy i).isTransient = true := by
    rw [busy, if_pos hi]
    rfl
  obtain ⟨out, hout, hchecks⟩ := hdecided 2 (Nat.le_refl 2) hfail rfl
  have htraffic : r.traffic (fun i => min ((1 / 2 : ℚ) * 2 ^ (i - 1)) 10) 2 =
      [.sent r, .slept (1 / 2), .sent r, .slept 1, .sent r] := by
    have hfirst : min ((1 / 2 : ℚ) * 2 ^ 0) 10 = 1 / 2 := by norm_num
    have hsecond : min ((1 / 2 : ℚ) * 2 ^ 1) 10 = 1 := by norm_num
    simp only [Request.traffic, Nat.zero_add, Nat.sub_self, Nat.add_sub_cancel, hfirst, hsecond,
      Backoff.positive?_exact (show (0 : ℚ) < 1 / 2 by norm_num), Backoff.positive?_exact (show (0 : ℚ) < 1 by norm_num)]
    rfl
  rw [htraffic] at hchecks
  have hbusy : busy 2 = .answered 503 "busy" := rfl
  rw [hbusy] at hout
  cases hout with
  | status => exact ⟨_, hchecks⟩

end Client

/-! ### Floats

Their spans end where the factor does, long before the attempts need to. -/

section Floats

/-- A selection with that many attempts, and all else as it is. -/
def patientSelection : Selection := { Selection.standard .remote with maxRetries := .int 1025 }

/-- Nobody answers. -/
def silent (_ : Nat) : Reply := .failed .timeout "timed out"

/-- How often a request is sent again is what settings say. -/
theorem Backend.exists_clientFor {selection : Selection} {m : Nat} (hm : selection.maxRetries = .int m) (url : String) :
    ∃ c, clientFor selection url = .ok c ∧ c.backoff.retries = m ∧ c.backoff.first = selection.retryDelay.toQuantity ∧
      c.backoff.longest = Backoff.longestWait := by
  have hattempts : attempts selection = .ok (.whole (m + 1)) := by
    rw [attempts, hm]
    change Except.ok (atLeastOne (.whole (m + 1))) = _
    rw [atLeastOne, if_neg]
    simp [Quantity.less]
  refine ⟨_, by rw [clientFor, hattempts]; rfl, ?_, rfl, rfl⟩
  change ((m : Int) + 1 - 1).toNat = m
  omega

/-- A client gives up before its attempts have run out, and with another failure. -/
theorem Client.check_gives_up : ∃ c, Backend.clientFor patientSelection "http://lt.example:8081" = .ok c ∧
    c.backoff.retries = 1025 ∧ c.check (.scripted silent) ['a'] "en" [] 0 = (.error (.mishap .tooLarge), 1025) := by
  have hmost : patientSelection.maxRetries = .int (1025 : Nat) := rfl
  obtain ⟨c, hc, hretries, hfirst, -⟩ := Backend.exists_clientFor hmost "http://lt.example:8081"
  obtain ⟨span, hspans⟩ := c.backoff.exists_doubles_real hfirst (Nat.le_refl 1024)
  have hcheck : c.check (.scripted silent) ['a'] "en" [] 0 = _ := check_unpaused rfl hspans (by omega) rfl
    fun i _ => by rw [Network.replyAfter_scripted]; rfl
  rw [Network.resent_scripted] at hcheck
  exact ⟨c, hc, hretries, hcheck⟩

end Floats

/-! ### How far the spans reach

Both loops wait between attempts. As long as there is a span for every wait, a loop ends as its last attempt does; where
there is none, it ends with the failure to compute it. -/

/-- No request is answered. -/
def Network.IsSilent (net : Network σ τ) : Prop := ∀ r s, (net.send r s).1.isTransient = true

/-- No process that a server launches becomes ready. -/
def Server.IsBarred (v : Server τ) (host : Host σ τ) : Prop := ∀ s, (v.launchOnce host s).1 = none

namespace Backoff

/-- There is a span after each of so many attempts. -/
def Covers (b : Backoff τ) (attempt left : Nat) : Prop :=
  ∀ i, i < left → ∃ d, b.delay ((attempt + i : Nat) : Int) = .ok d

variable {b : Backoff τ} {attempt left : Nat}

theorem pause_of_delay {m : Mishap} {i : Int} (h : b.delay i = .error m) : b.pause i = .error m := by
  rw [pause, h]
  rfl

theorem Covers.head (h : b.Covers attempt (left + 1)) : ∃ d, b.pause attempt = .ok (Time.positive? d) := by
  obtain ⟨d, hd⟩ := h 0 (Nat.zero_lt_succ left)
  rw [Nat.add_zero] at hd
  exact ⟨d, by rw [pause, hd]; rfl⟩

theorem Covers.tail (h : b.Covers attempt (left + 1)) : b.Covers (attempt + 1) left := fun i hi => by
  rw [Nat.add_right_comm]
  exact h (i + 1) (Nat.succ_lt_succ hi)

end Backoff

namespace Client

variable {net : Network σ τ} {c : Client τ} {r : Request τ} {attempt left : Nat} {m : Mishap}

/-- With all spans there, the last attempt decides. -/
theorem exists_deliver (net : Network σ τ) (r : Request τ) (hspans : c.backoff.Covers attempt left) (s : σ) :
    ∃ k s', (c.deliver net r left attempt s).1 = c.ending k (net.send r s').1 ∧
      ((net.send r s').1.isTransient = true → k = attempt + left) := by
  induction left generalizing attempt s with
  | zero => exact ⟨attempt, s, by rw [deliver_ends rfl (Or.inr rfl)], fun _ => rfl⟩
  | succ left ih =>
    by_cases hfail : (net.send r s).1.isTransient = true
    · obtain ⟨d, hd⟩ := hspans.head
      obtain ⟨k, s', hdeliver, hk⟩ := ih hspans.tail (net.rest d (net.send r s).2)
      refine ⟨k, s', ?_, fun htransient => ?_⟩
      · rw [deliver_again rfl hfail hd, hdeliver]
      · rw [hk htransient]
        omega
    · exact ⟨attempt, s, by rw [deliver_ends rfl (Or.inl (by simpa using hfail))], fun h => absurd h hfail⟩

/-- The first span that is not there ends the attempts. -/
theorem deliver_breaks (hsilent : net.IsSilent) {n : Nat} (hspans : c.backoff.Covers attempt n)
    (hlast : c.backoff.delay ((attempt + n : Nat) : Int) = .error m) (left : Nat) (s : σ) :
    (c.deliver net r (left + 1 + n) attempt s).1 = .error (.mishap m) := by
  induction n generalizing attempt s with
  | zero =>
    rw [Nat.add_zero] at hlast ⊢
    rw [deliver_unpaused rfl (hsilent r s) (Backoff.pause_of_delay hlast)]
  | succ n ih =>
    obtain ⟨d, hd⟩ := hspans.head
    rw [← Nat.add_assoc, deliver_again rfl (hsilent r s) hd]
    refine ih hspans.tail ?_ _
    rw [Nat.add_assoc, Nat.add_comm 1]
    exact hlast

end Client

namespace Server

variable {host : Host σ τ} {v : Server τ} {attempt left launches : Nat} {m : Mishap} {s : σ}

theorem start_ends (h : (v.launchOnce host s).1 ≠ none ∨ left = 0) :
    (v.start host left attempt launches s).1 = .ok () ∨ (v.start host left attempt launches s).1 = .error v.notStarted := by
  rw [start.eq_def]
  dsimp only
  cases hlaunch : v.launchOnce host s with
  | mk made s' =>
    rw [hlaunch] at h
    cases made with
    | some p => exact Or.inl rfl
    | none =>
      obtain rfl := h.resolve_left fun hne => hne rfl
      exact Or.inr rfl

theorem start_again (hfail : (v.launchOnce host s).1 = none) {d : τ}
    (hpause : v.backoff.pause attempt = .ok (Time.positive? d)) : v.start host (left + 1) attempt launches s =
      v.start host left (attempt + 1) (launches + 1) (host.network.rest d (v.launchOnce host s).2) := by
  rw [start]
  cases hlaunch : v.launchOnce host s with
  | mk made s' =>
    rw [hlaunch] at hfail
    obtain rfl : made = none := hfail
    dsimp only
    rw [hpause, Network.rest]
    cases Time.positive? d <;> rfl

theorem start_unpaused (hfail : (v.launchOnce host s).1 = none) (hpause : v.backoff.pause attempt = .error m) :
    (v.start host (left + 1) attempt launches s).1 = .error (.mishap m) := by
  rw [start]
  cases hlaunch : v.launchOnce host s with
  | mk made s' =>
    rw [hlaunch] at hfail
    obtain rfl : made = none := hfail
    dsimp only
    rw [hpause]

theorem start_outcome (hspans : v.backoff.Covers attempt left) (s : σ) (launches : Nat) :
    (v.start host left attempt launches s).1 = .ok () ∨ (v.start host left attempt launches s).1 = .error v.notStarted := by
  induction left generalizing attempt launches s with
  | zero => exact start_ends (Or.inr rfl)
  | succ left ih =>
    by_cases hfail : (v.launchOnce host s).1 = none
    · obtain ⟨d, hd⟩ := hspans.head
      rw [start_again hfail hd]
      exact ih hspans.tail _ _
    · exact start_ends (Or.inl hfail)

theorem start_breaks (hbarred : v.IsBarred host) {n : Nat} (hspans : v.backoff.Covers attempt n)
    (hlast : v.backoff.delay ((attempt + n : Nat) : Int) = .error m) (left launches : Nat) (s : σ) :
    (v.start host (left + 1 + n) attempt launches s).1 = .error (.mishap m) := by
  induction n generalizing attempt launches s with
  | zero =>
    rw [Nat.add_zero] at hlast
    exact start_unpaused (hbarred s) (Backoff.pause_of_delay hlast)
  | succ n ih =>
    obtain ⟨d, hd⟩ := hspans.head
    rw [← Nat.add_assoc, start_again (hbarred s) hd]
    refine ih hspans.tail ?_ _ _
    rw [Nat.add_assoc, Nat.add_comm 1]
    exact hlast

end Server

/-- The attempts of a client end as one of them does, and where none is answered they run out. -/
structure Client.Perseveres (c : Client τ) : Prop where
  ends : ∀ (σ : Type) (net : Network σ τ) (r : Request τ) (s : σ) (m : Mishap),
    (c.deliver net r c.backoff.retries 1 s).1 = .error (.mishap m) → ∃ message, m = .request message
  runsOut : ∀ (σ : Type) (net : Network σ τ) (r : Request τ) (s : σ), net.IsSilent →
    ∃ message, (c.deliver net r c.backoff.retries 1 s).1 =
      .error (.problem (.connection message (.int c.backoff.attempts) []))

/-- A server is started, or the launches run out. -/
def Server.Perseveres (v : Server τ) : Prop :=
  ∀ (σ : Type) (host : Host σ τ) (launches : Nat) (s : σ),
    (v.start host v.retries 1 launches s).1 = .ok () ∨ (v.start host v.retries 1 launches s).1 = .error v.notStarted

theorem Client.perseveres {c : Client τ} (hspans : c.backoff.Covers 1 c.backoff.retries) : c.Perseveres where
  ends σ net r s m h := by
    obtain ⟨k, s', hdeliver, -⟩ := exists_deliver net r hspans s
    exact exists_request_of_ending (hdeliver.symm.trans h)
  runsOut σ net r s hsilent := by
    obtain ⟨k, s', hdeliver, hk⟩ := exists_deliver net r hspans s
    obtain ⟨message, hending⟩ := exists_ending c k (hsilent r s')
    refine ⟨message, ?_⟩
    rw [hdeliver, hending, hk (hsilent r s'), Nat.add_comm 1]
    rfl

namespace Backoff

variable {b : Backoff Quantity} {q : Quantity} {base longest : ℚ} {n : Nat}

theorem Waits.covers (h : b.Waits q base longest) (hn : n ≤ q.reach) : b.Covers 1 n := fun i hi => by
  obtain ⟨d, hd, -⟩ := h.exists_span (Nat.le_add_right 1 i) (by omega)
  exact ⟨d, hd⟩

/-- There is a span after every attempt within the reach of the first one, of the right length, so never longer than the
longest and never shorter than one before. Behind the reach there is none. The loops therefore end as they should if they
wait no more often, and with the failure to compute a span if they do. -/
theorem Waits.reach_decides (h : b.Waits q base longest) :
    (∀ i : Nat, 1 ≤ i → i ≤ q.reach →
      ∃ d, b.delay i = .ok d ∧ d.Is (min (base * 2 ^ (i - 1)) longest) ∧ b.longest.less d = false ∧
        ∀ (j : Nat) d', i ≤ j → b.delay j = .ok d' → d'.less d = false) ∧
    (∀ i : Nat, q.reach < i → b.delay i = .error .tooLarge) ∧
    (b.retries ≤ q.reach → (∀ c : Client Quantity, c.backoff = b → c.Perseveres) ∧
      ∀ v : Server Quantity, v.backoff = b → v.retries = b.retries → v.Perseveres) ∧
    (q.reach < b.retries →
      (∀ (σ : Type) (net : Network σ Quantity) (c : Client Quantity) (r : Request Quantity) (s : σ), c.backoff = b →
        net.IsSilent → (c.deliver net r b.retries 1 s).1 = .error (.mishap .tooLarge)) ∧
      ∀ (σ : Type) (host : Host σ Quantity) (v : Server Quantity) (launches : Nat) (s : σ), v.backoff = b →
        v.IsBarred host → (v.start host b.retries 1 launches s).1 = .error (.mishap .tooLarge)) := by
  have hbreak : b.delay ((1 + q.reach : Nat) : Int) = .error .tooLarge := h.delay_of_reach_lt (by omega)
  refine ⟨fun i hpos hi => ?_, fun i => h.delay_of_reach_lt, fun hle => ⟨?_, ?_⟩, fun hlt => ⟨?_, ?_⟩⟩
  · obtain ⟨d, hd, his⟩ := h.exists_span hpos hi
    exact ⟨d, hd, his, h.longest_not_less his, fun j d' hij hd' => h.not_less_of_le hpos hij hd hd'⟩
  · rintro c rfl
    exact Client.perseveres (h.covers hle)
  · rintro v rfl hretries σ host launches s
    rw [hretries]
    exact v.start_outcome (h.covers hle) s launches
  · rintro σ net c r s rfl hsilent
    have hdeliver := Client.deliver_breaks (c := c) (r := r) hsilent (h.covers (Nat.le_refl _)) hbreak
      (c.backoff.retries - q.reach - 1) s
    rwa [show c.backoff.retries - q.reach - 1 + 1 + q.reach = c.backoff.retries by omega] at hdeliver
  · rintro σ host v launches s rfl hbarred
    have hstart := Server.start_breaks hbarred (h.covers (Nat.le_refl _)) hbreak (v.backoff.retries - q.reach - 1) launches s
    rwa [show v.backoff.retries - q.reach - 1 + 1 + q.reach = v.backoff.retries by omega] at hstart

/-- The spans of settings: half a second at first, and ten at the most. -/
theorem waits_half (hfirst : b.first = .ok (.real 0.5)) (hlongest : b.longest = longestWait) :
    b.Waits (.real 0.5) (1 / 2) 10 where
  first := hfirst
  first_is := ⟨Rounding.partsFor false (2 ^ 52) (-53), rfl,
    by norm_num [FloatParts.value, FloatParts.magnitude, Rounding.partsFor]⟩
  nonneg := by norm_num
  longest_is := by
    rw [hlongest]
    exact ⟨Rounding.partsFor false (5 * 2 ^ 50) (-49), rfl,
      by norm_num [FloatParts.value, FloatParts.magnitude, Rounding.partsFor]⟩
  inRange := (by norm_num : (10 : ℚ) < 2 ^ 4).trans_le (pow_le_pow_right₀ one_le_two (by norm_num))

theorem reach_decides_standard : ∃ c, Backend.clientFor (.standard .remote) "http://lt.example:8081" = .ok c ∧
    c.backoff.Waits (.real 0.5) (1 / 2) 10 ∧ c.backoff.retries = 2 ∧ c.Perseveres := by
  have hmost : (Selection.standard .remote).maxRetries = .int (2 : Nat) := rfl
  obtain ⟨c, hc, hretries, hfirst, hlongest⟩ := Backend.exists_clientFor hmost "http://lt.example:8081"
  have hwaits := waits_half hfirst hlongest
  obtain ⟨-, -, hperseveres, -⟩ := hwaits.reach_decides
  have hreach : c.backoff.retries ≤ (Quantity.real 0.5).reach := by
    rw [hretries]
    decide
  exact ⟨c, hc, hwaits, hretries, (hperseveres hreach).1 c rfl⟩

/-- Settings with many attempts, and all else as it is. -/
def persistentSettings : Settings :=
  { Settings.standard with host := some "lt.example", port := some 8081, maxRetries := 1025 }

/-- Settings are in range, and a span is out of reach. -/
theorem delay_out_of_reach : persistentSettings.validate = .ok () ∧ ∃ selection c,
    persistentSettings.selection = .ok selection ∧ Backend.clientFor selection "http://lt.example:8081" = .ok c ∧
    c.backoff.Waits (.real 0.5) (1 / 2) 10 ∧ c.backoff.attempts = 1026 ∧ c.backoff.delay 1025 = .error .tooLarge := by
  obtain ⟨selection, hselection, hmost, hdelay⟩ : ∃ selection, persistentSettings.selection = .ok selection ∧
      selection.maxRetries = .int (1025 : Nat) ∧ selection.retryDelay = .float 0.5 := ⟨_, rfl, rfl, rfl⟩
  obtain ⟨c, hc, hretries, hfirst, hlongest⟩ := Backend.exists_clientFor hmost "http://lt.example:8081"
  rw [hdelay] at hfirst
  have hwaits := waits_half hfirst hlongest
  exact ⟨rfl, selection, c, hselection, hc, hwaits, by rw [attempts, hretries],
    hwaits.delay_of_reach_lt (show (Quantity.real 0.5).reach < 1025 by decide)⟩

end Backoff

end Proofreader
