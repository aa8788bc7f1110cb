import Proofreader.Proofs.Session.History
import Proofreader.Proofs.Session.Refinement
import Proofreader.Proofs.Session.Services

/-! What a session has to do with services over any course of actions. There is one service at a time, closed once and
before the next one is created; and after a launch that has failed no run tries another one until settings are put in
force. -/

namespace Proofreader

namespace Session

variable {σ β : Type} {provider : Provider σ β Selection} {disk : Disk} {s s' mid : Session (Nat × β)}
variable {w w' v v' : σ × List Dealing} {log log' made : List Dealing} {faults : List (Option Fault)}
variable {out : Except Fault Report}

/-- What one run has to do with services. It closes the one in use only if the settings that it puts in force select
another one, creates one only if it finds none, and asks only the one that it has then. -/
structure Deals (disk : Disk) (s s' : Session (Nat × β)) (log log' made : List Dealing) (faults : List (Option Fault)) :
    Prop where
  written : log' = log ++ (s.closing ++ (made ++ asking s'.live faults))
  making : Making (log ++ s.closing) s.found s'.live made
  /-- A launch that fails is remembered. -/
  launch : ∀ d ∈ made ++ asking s'.live faults, d.launchFails = true → s'.launchFailure.isSome = true
  /-- After one that has failed, services are left alone unless settings are put in force. -/
  broken : s.due = [] → s.launchFailure.isSome = true →
    made ++ asking s'.live faults = [] ∧ s'.launchFailure.isSome = true
  /-- Once they are, a run that finds no service tries to create one, and asks if there is anything to ask. -/
  again : ∀ c ∈ s.due, ∀ q, Pipeline.ofSettings c = .ok q → q.Needs (moveProject s.project c) disk →
    (s.found = none → made ≠ []) ∧ (q.Wants (moveProject s.project c) disk → made ++ asking s'.live faults ≠ [])

theorem Settles.deals (hsettles : Settles s mid log v.2) (hlog : log' = v.2 ++ (made ++ asking s'.live faults))
    (h : Attends disk mid s' v.2 made faults) : Deals disk s s' log log' made faults := by
  obtain ⟨hv, hfound, hstill, hafresh⟩ := hsettles
  refine ⟨?_, ?_, h.launch, fun hdue hsome => h.broken ((hstill hdue).symm ▸ hsome), fun c hc q hq hneeds => ?_⟩
  · rw [hlog, hv, List.append_assoc]
  · rw [← hv, ← hfound]
    exact h.making
  · obtain ⟨hpipeline, hproject, hfailure, hcache⟩ := hafresh c hc q hq
    rw [← hpipeline, ← hproject] at hneeds ⊢
    rw [← hfound]
    exact ⟨h.tries hfailure hneeds, h.asks hfailure hcache hneeds⟩

/-- A run that has to give its settings up goes no further. -/
theorem Settles.deals_nil (h : Settles s mid log log') (hdue : s.due = []) : Deals disk s mid log log' [] [] := by
  obtain ⟨hwritten, hfound, hstill, -⟩ := h
  have hnone : [] ++ asking mid.live [] = [] := asking_nil _
  refine ⟨?_, ?_, ?_, fun _ hsome => ⟨hnone, ?_⟩, fun c hc => ?_⟩
  · rw [hnone, List.append_nil]
    exact hwritten
  · rw [hfound]
    exact .kept _
  · rw [hnone]
    exact List.forall_mem_nil _
  · rw [hstill hdue]
    exact hsome
  · rw [hdue] at hc
    cases hc

/-- Only what the session keeps of services matters. -/
theorem Attends.of_eq {t : Session (Nat × β)} (h : Attends disk s t log made faults) (hbackend : s'.backend = t.backend)
    (hfailure : s'.launchFailure = t.launchFailure) : Attends disk s s' log made faults := by
  have hlive : s'.live = t.live := by rw [live, live, hbackend]
  obtain ⟨hmaking, hlaunch, hbroken, htries, hasks⟩ := h
  rw [← hlive] at hmaking hlaunch hbroken hasks
  rw [← hfailure] at hlaunch hbroken
  exact ⟨hmaking, hlaunch, hbroken, htries, hasks⟩

/-- A run has failed: it raises or reports an error, and the session says so. -/
structure Fails (out : Except Fault Report) (s : Session (Nat × β)) : Prop where
  status : s.status = .error
  report : ∀ r, out = .ok r → r.status = .error

theorem run_deals (h : s.run provider.watched disk w = (out, s', w')) :
    ∃ made faults, Deals disk s s' w.2 w'.2 made faults ∧
      (s.due = [] → s.launchFailure.isSome = true → Fails out s') := by
  rcases hpending : s.begun.applyPending provider.watched w with ⟨settled, mid, v⟩
  obtain ⟨hwritten, hfound, hstill, hafresh⟩ := settles_applyPending hpending
  have hsettles : Settles s mid w.2 v.2 := ⟨hwritten, hfound, hstill, hafresh⟩
  cases settled with
  | error e =>
    rw [run_unsettled hpending] at h
    cases h
    have hdue : s.due = [] := due_of_applyPending_error (s := s.begun) hpending
    have hdeals : Deals disk s mid w.2 w'.2 [] [] := hsettles.deals_nil hdue
    exact ⟨[], [], ⟨hdeals.1, hdeals.2, hdeals.3, hdeals.4, hdeals.5⟩, fun _ _ => ⟨rfl, nofun⟩⟩
  | ok u =>
    obtain ⟨e, v', hservice, hchecks, hother⟩ | ⟨view, r, t, next, v', hdrawn, hchecks⟩ :=
      runChecks_cases provider.watched disk mid v
    · rw [run_raised hpending hchecks] at h
      cases h
      obtain ⟨made, hlog, hattends⟩ := attends_unserved disk hservice hother
      exact ⟨made, [], hsettles.deals hlog (hattends.of_eq rfl rfl), fun _ _ => ⟨rfl, nofun⟩⟩
    · obtain ⟨made, faults, hlog, hattends, hfails⟩ := attends_drawn hdrawn
      unfold complete at hchecks
      cases hfinish : t.finish disk ⟨r, view⟩ with
      | error m =>
        rw [hfinish] at hchecks
        rw [run_raised hpending hchecks] at h
        cases h
        exact ⟨made, faults, hsettles.deals hlog (hattends.of_eq rfl rfl), fun _ _ => ⟨rfl, nofun⟩⟩
      | ok x =>
        obtain ⟨r', t'⟩ := x
        rw [hfinish] at hchecks
        rw [run_reported hpending hchecks] at h
        cases h
        obtain ⟨rows, -, rfl, rfl⟩ := finish_ok hfinish
        refine ⟨made, faults, hsettles.deals hlog (hattends.of_eq rfl rfl), fun hdue hsome => ?_⟩
        have hstatus : r.status = .error := hfails ((hstill hdue).symm ▸ hsome)
        refine ⟨hstatus, fun r' hr' => ?_⟩
        cases hr'
        exact hstatus

/-- After a failed launch a run leaves services alone and fails. -/
theorem run_broken (hdue : s.due = []) (hbroken : s.launchFailure.isSome = true)
    (h : s.run provider.watched disk w = (out, s', w')) : w'.2 = w.2 ∧ Fails out s' := by
  obtain ⟨made, faults, hdeals, hfails⟩ := run_deals h
  have hclosing : s.closing = [] := by
    rw [closing, replaces, hdue]
    rfl
  refine ⟨?_, hfails hdue hbroken⟩
  rw [hdeals.written, hclosing, (hdeals.broken hdue hbroken).1]
  exact List.append_nil _

/-- Settings that are put in force make a failed launch forgotten. -/
theorem run_forgets {γ : Type} (provider : Provider σ γ Selection) (disk : Disk) {s : Session γ} (w : σ) (hdue : s.due ≠ [])
    (failure : Option String) : ({ s with launchFailure := failure } : Session γ).run provider disk w = s.run provider disk w := by
  obtain ⟨c, q, hpending, hq, -⟩ := exists_of_due hdue
  have happly : ({ s with launchFailure := failure } : Session γ).begun.applyPending provider w =
      s.begun.applyPending provider w := by
    unfold applyPending begun
    dsimp only
    rw [hpending]
    dsimp only
    rw [hq]
  unfold begun at happly
  unfold run
  dsimp only at happly ⊢
  rw [happly]

theorem orderly_closing (h : Orderly log s.live) : Orderly (log ++ s.closing) s.found := by
  unfold closing found
  split
  · exact h.close
  · rw [List.append_nil]
    exact h

theorem Making.orderly {found live : Option Nat} (hmaking : Making log found live made) (h : Orderly log found) :
    Orderly (log ++ made) live := by
  cases hmaking with
  | kept =>
    rw [List.append_nil]
    exact h
  | made => exact h.make
  | refused e => exact h.refuse e

theorem orderly_asking {live : Option Nat} (h : Orderly log live) (faults : List (Option Fault)) :
    Orderly (log ++ asking live faults) live := by
  cases live with
  | none =>
    rw [asking, Option.toList_none, List.flatMap_nil, List.append_nil]
    exact h
  | some n =>
    rw [asking_some]
    exact h.ask faults

theorem Deals.orderly (h : Deals disk s s' log log' made faults) (hs : Orderly log s.live) : Orderly log' s'.live := by
  have hmade := h.making.orderly (orderly_closing hs)
  have hasked := orderly_asking hmade faults
  rw [h.written, ← List.append_assoc, ← List.append_assoc]
  exact hasked

theorem Deals.exists_launch (h : Deals disk s s' log log' made faults) {more : List Dealing} (hmore : log' = log ++ more)
    (hlaunch : ∃ d ∈ more, d.launchFails = true) : s'.launchFailure.isSome = true := by
  obtain ⟨d, hd, hfails⟩ := hlaunch
  rw [← List.append_cancel_left (h.written.symm.trans hmore)] at hd
  rcases List.mem_append.1 hd with hd | hd
  · have hquiet : d.launchFails = false := by
      unfold closing at hd
      split at hd
      · obtain ⟨n, -, rfl⟩ := List.mem_map.1 hd
        rfl
      · cases hd
    rw [hquiet] at hfails
    cases hfails
  · exact h.launch d hd hfails

/-- The same happens to a session whose services are watched. -/
def Action.watched : Action σ → Action (σ × List Dealing)
  | .edit f => .edit f
  | .update settings => .update settings
  | .run disk => .run disk
  | .close => .close
  | .meanwhile f => .meanwhile (Prod.map f id)

theorem refines_watched (provider : Provider σ β Selection) : provider.watched.Refines Prod.fst Prod.snd provider where
  create i tag w := by
    dsimp only [Provider.watched]
    rcases provider.create i tag w.1 with ⟨created, v⟩
    cases created with
    | ok b => rfl
    | error e => rfl
  check text profile b w := by
    dsimp only [Provider.watched]
    rcases provider.check text profile b.2 w.1 with ⟨answer, b', v⟩
    cases answer with
    | ok fs => rfl
    | error e => rfl
  close _ _ := rfl

theorem act_watched (provider : Provider σ β Selection) (a : Action σ) (s : Session (Nat × β)) (w : σ × List Dealing) :
    (s.seen Prod.snd).act provider w.1 a =
      ((s.act provider.watched w a.watched).1, (s.act provider.watched w a.watched).2.1.seen Prod.snd,
        (s.act provider.watched w a.watched).2.2.1) := by
  cases a with
  | edit f => rfl
  | update settings => rfl
  | run disk =>
    unfold act Action.watched
    dsimp only
    rw [run_seen (refines_watched provider)]
  | close =>
    unfold act Action.watched
    dsimp only
    rw [close_seen (refines_watched provider)]
  | meanwhile f => rfl

/-- Services that are watched serve as they would unwatched. -/
theorem after_watched (provider : Provider σ β Selection) (actions : List (Action σ)) (s : Session (Nat × β))
    (w : σ × List Dealing) :
    after provider actions (s.seen Prod.snd) w.1 =
      ((after provider.watched (actions.map .watched) s w).1.seen Prod.snd,
        (after provider.watched (actions.map .watched) s w).2.1) := by
  induction actions generalizing s w with
  | nil => rfl
  | cons a r ih =>
    rw [List.map_cons, after, after, act_watched]
    exact ih _ _

theorem orderly_act (a : Action σ) (hs : Orderly w.2 s.live) :
    Orderly (s.act provider.watched w a.watched).2.2.2 (s.act provider.watched w a.watched).2.1.live := by
  cases a with
  | edit f => exact hs
  | update settings => exact hs
  | run disk =>
    rcases hrun : s.run provider.watched disk w with ⟨out, s', w'⟩
    obtain ⟨made, faults, hdeals, -⟩ := run_deals hrun
    unfold act Action.watched
    dsimp only
    rw [hrun]
    exact hdeals.orderly hs
  | close =>
    have hclosed := hs.close
    unfold live at hclosed ⊢
    unfold act Action.watched close
    dsimp only
    cases hbackend : s.backend with
    | none =>
      rw [hbackend] at hclosed
      rw [Option.map_none, Option.toList_none, List.map_nil, List.append_nil] at hclosed
      exact hclosed
    | some b =>
      rw [hbackend] at hclosed
      exact hclosed
  | meanwhile f => exact hs

theorem orderly_after (actions : List (Action σ)) (hs : Orderly w.2 s.live) :
    Orderly (after provider.watched (actions.map .watched) s w).2.2
      (after provider.watched (actions.map .watched) s w).1.live := by
  induction actions generalizing s w with
  | nil => exact hs
  | cons a r ih => exact ih (orderly_act a hs)

/-- A failed launch stands whatever happens, until settings are put in force. -/
theorem broken_after (actions : List (Action σ)) (hs : s.launchFailure.isSome = true)
    (happlied : applied provider.watched (actions.map .watched) s w = []) :
    (after provider.watched (actions.map .watched) s w).1.launchFailure.isSome = true := by
  induction actions generalizing s w with
  | nil => exact hs
  | cons a r ih =>
    rw [List.map_cons, applied] at happlied
    dsimp only at happlied
    obtain ⟨hdue, hrest⟩ := List.append_eq_nil_iff.1 happlied
    refine ih ?_ hrest
    cases a with
    | edit f => exact hs
    | update settings => exact hs
    | run disk =>
      rcases hrun : s.run provider.watched disk w with ⟨out, s', w'⟩
      obtain ⟨made, faults, hdeals, -⟩ := run_deals hrun
      dsimp only [Action.watched]
      rw [hrun]
      exact (hdeals.broken hdue hs).2
    | close => exact hs
    | meanwhile f => exact hs

theorem orderly_of_create {p : Project} {c : Settings} {s₀ : Session (Nat × β)} {w₀ : σ} {actions : List (Action σ)}
    (hs₀ : create p c = .ok s₀) (h : after provider.watched (actions.map .watched) s₀ (w₀, []) = (s, w)) :
    Orderly w.2 s.live := by
  obtain ⟨q, -, rfl⟩ := create_ok hs₀
  have hstart : Orderly (w₀, ([] : List Dealing)).2 (live (β := β) ⟨p, q, none, none, none, [], [], [], 0, .idle⟩) := .nil
  have horderly : Orderly (after provider.watched (actions.map .watched) _ _).2.2 _ := orderly_after actions hstart
  rw [h] at horderly
  exact horderly

/-- At any moment at most one service is not closed, and services are closed once, in the order in which they were
created. A run closes the service in use only if it puts settings in force that select another one, and it creates a
service only if it finds none. After a run in which a service could not be launched, runs fail and leave services alone
until settings are put in force; then the failure is forgotten. All of this is seen in a log, which changes nothing. -/
theorem services_in_order (provider : Provider σ β Selection) {p : Project} {c : Settings} {s₀ : Session (Nat × β)}
    (hs₀ : create p c = .ok s₀) (w₀ : σ) (before : List (Action σ))
    (hbefore : after provider.watched (before.map .watched) s₀ (w₀, []) = (s, w)) :
    after provider before (s₀.seen Prod.snd) w₀ = (s.seen Prod.snd, w.1) ∧
      Orderly w.2 s.live ∧
      (∀ early, early <+: w.2 → ∃ live, Dealing.alive early = some live ∧
        early.filterMap Dealing.made? = early.filterMap Dealing.closed? ++ live.toList) ∧
      ∀ disk out s' w', s.run provider.watched disk w = (out, s', w') →
        (s.seen Prod.snd).run provider disk w.1 = (out, s'.seen Prod.snd, w'.1) ∧
        (∃ made faults, Deals disk s s' w.2 w'.2 made faults) ∧
        (s.due ≠ [] → ∀ failure, ({ s with launchFailure := failure } : Session (Nat × β)).run provider.watched disk w =
          (out, s', w')) ∧
        ∀ more, w'.2 = w.2 ++ more → (∃ d ∈ more, d.launchFails = true) →
          ∀ between : List (Action σ), applied provider.watched (between.map .watched) s' w' = [] →
            ∀ t v, after provider.watched (between.map .watched) s' w' = (t, v) → t.due = [] →
              ∀ disk' out' t' v', t.run provider.watched disk' v = (out', t', v') → v'.2 = v.2 ∧ Fails out' t' := by
  have horderly := orderly_of_create hs₀ hbefore
  refine ⟨?_, horderly, fun early hearly => horderly.exists_alive hearly, fun disk out s' w' hrun => ?_⟩
  · have hafter := after_watched provider before s₀ (w₀, [])
    rw [hbefore] at hafter
    exact hafter
  obtain ⟨made, faults, hdeals, -⟩ := run_deals hrun
  refine ⟨?_, ⟨made, faults, hdeals⟩, fun hdue failure => ?_, ?_⟩
  · rw [run_seen (refines_watched provider), hrun]
  · rw [run_forgets provider.watched disk w hdue, hrun]
  intro more hmore hlaunch between happlied t v hbetween hdue disk' out' t' v' hlater
  have hbroken := broken_after between (hdeals.exists_launch hmore hlaunch) happlied
  rw [hbetween] at hbroken
  exact run_broken hdue hbroken hlater

end Session

/-- A service that cannot be launched the first time. -/
def stubborn : Provider Nat Unit Selection where
  create _ _ w := (if w = 0 then .error (.problem (.launch "down" (.int 1) [])) else .ok (), w + 1)
  check _ _ _ w := (.ok [], (), w)
  close _ w := w

def stuckRun : Except Fault Report × Session (Nat × Unit) × Nat × List Dealing :=
  wideSession.run stubborn.watched sharedDisk (0, [])

/-- Settings that cannot be put in force do not help. -/
def uselessActions : List (Session.Action Nat) := [.update (bundledSettings 0), .run sharedDisk, .close, .meanwhile (· + 5)]

def stuckSession : Session (Nat × Unit) × Nat × List Dealing :=
  Session.after stubborn.watched (uselessActions.map .watched) stuckRun.2.1 stuckRun.2.2

theorem applied_useless :
    (Session.applied stubborn.watched (uselessActions.map .watched) stuckRun.2.1 stuckRun.2.2).isEmpty = true ∧
      stuckSession.1.due.isEmpty = true := by
  decide +kernel

theorem Session.services_in_order_stuck : stuckRun.2.2.2.any Dealing.launchFails = true ∧
    (∃ out t v, stuckSession.1.run stubborn.watched sharedDisk stuckSession.2 = (out, t, v) ∧ v.2 = stuckSession.2.2 ∧
      t.status = .error) ∧
    ((after stubborn.watched [.update (bundledSettings 6), .run sharedDisk] stuckSession.1 stuckSession.2).2.2.filterMap
      Dealing.made?) = [1] := by
  have hlaunch : stuckRun.2.2.2.any Dealing.launchFails = true := by decide +kernel
  have hmade : ((after stubborn.watched [.update (bundledSettings 6), .run sharedDisk] stuckSession.1
      stuckSession.2).2.2.filterMap Dealing.made?) = [1] := by decide +kernel
  refine ⟨hlaunch, ?_, hmade⟩
  obtain ⟨happlied, hdue⟩ := applied_useless
  obtain ⟨-, -, -, hruns⟩ := services_in_order stubborn create_wide 0 [] rfl
  -- the sessions are not to be computed from here on
  have hfirst : wideSession.run stubborn.watched sharedDisk (0, []) = stuckRun := by rw [stuckRun]
  have hafter : after stubborn.watched (uselessActions.map .watched) stuckRun.2.1 stuckRun.2.2 = stuckSession := by
    rw [stuckSession]
  generalize stuckRun = first at *
  generalize stuckSession = now at *
  obtain ⟨out, s, w⟩ := first
  obtain ⟨t, v⟩ := now
  obtain ⟨-, -, -, hstuck⟩ := hruns sharedDisk out s w hfirst
  rcases hlater : t.run stubborn.watched sharedDisk v with ⟨out', t', v'⟩
  obtain ⟨hlog, hfails⟩ := hstuck w.2 (List.nil_append _).symm (List.any_eq_true.1 hlaunch) uselessActions
    (List.isEmpty_iff.1 happlied) t v hafter (List.isEmpty_iff.1 hdue) sharedDisk out' t' v' hlater
  exact ⟨out', t', v', rfl, hlog, hfails.status⟩

end Proofreader
