import Mathlib.Data.List.Infix
import Proofreader.Proofs.Scheduler.History

/-! When a scheduler that makes its runs on the spot can go on. A check that raises does it no harm: as long as its calls
return, no run is left in progress. What the one who is shown a result raises leaves the call, as does the end of the stack;
the run is then in progress for good, and no request begins another one. -/

namespace Proofreader

/-- What holds of a plain run and of all that are to come holds of the next one. -/
theorem Run.next_of_forall {τ : Type} {P : Run τ → Prop} {script : List (Run τ)} (hplain : P .plain)
    (h : ∀ run ∈ script, P run) : P (script.headD .plain) := by
  cases script with
  | nil => exact hplain
  | cons run r => exact h run List.mem_cons_self

namespace Inline

variable {τ : Type} {m m₁ m₂ : Inline τ} {level : Nat} {out : Except Mishap Unit × Inline τ}
  {make : Inline τ → Except Mishap Unit × Inline τ}

/-- What stands after the incidents of the run that has begun. -/
def during [Time τ] (level : Nat) (m : Inline τ) : Inline τ :=
  (live (execute level) (m.script.headD .plain).incidents { m with script := m.script.drop 1 }).2

/-- The incidents of the run are over, and its result may have been shown. -/
structure Past [Time τ] (level : Nat) (m m₁ : Inline τ) : Prop where
  scheduler : m₁.scheduler = (m.during level).scheduler
  clock : m₁.clock = (m.during level).clock
  script : m₁.script = (m.during level).script

/-- After its incidents a run is finished, unless the one who is shown its result raises. -/
theorem execute_cases [Time τ] (level : Nat) (m : Inline τ) : ∃ m₁, Past level m m₁ ∧
    (execute (level + 1) m = finish (execute level) m₁.clock m₁ ∨
      ∃ run ∈ m.script, ∃ e, run.refusal = some e ∧ execute (level + 1) m = (.error e, m₁)) := by
  have hpast : ∀ results, Past level m { m.during level with results := results } := fun _ => ⟨rfl, rfl, rfl⟩
  rw [during] at hpast
  rw [execute]
  generalize live (execute level) (m.script.headD .plain).incidents { m with script := m.script.drop 1 } = out at hpast ⊢
  obtain ⟨outcome, m₁⟩ := out
  cases outcome with
  | error e => exact ⟨m₁, hpast _, .inl rfl⟩
  | ok =>
    by_cases hfails : (m.script.headD .plain).fails = true
    · exact ⟨m₁, hpast _, .inl (if_pos hfails)⟩
    refine ⟨{ m₁ with results := m.clock :: m₁.results }, hpast _, ?_⟩
    dsimp only
    rw [if_neg hfails]
    cases hrefusal : (m.script.headD .plain).refusal with
    | none => exact .inl rfl
    | some e =>
      refine .inr ⟨m.script.headD .plain, ?_, e, hrefusal, rfl⟩
      cases hscript : m.script with
      | nil =>
        rw [hscript] at hrefusal
        cases hrefusal
      | cons run r => exact List.mem_cons_self

/-! ### Going on -/

/-- Where a scheduler can come to: no run is taken back, and the runs to come are among those that were. -/
structure Onward (m m' : Inline τ) : Prop where
  runs : m.scheduler.runs ≤ m'.scheduler.runs
  script : m'.script <:+ m.script

namespace Onward

theorem refl (m : Inline τ) : Onward m m := ⟨Nat.le_refl _, List.suffix_refl _⟩

theorem trans (h : Onward m m₁) (h' : Onward m₁ m₂) : Onward m m₂ :=
  ⟨Nat.le_trans h.runs h'.runs, h'.script.trans h.script⟩

theorem take (hmake : ∀ m, Onward m (make m).2) {next : Scheduler τ × Bool} (hruns : m.scheduler.runs ≤ next.1.runs) :
    Onward m (take make m next).2 := by
  have hstep : Onward m { m with scheduler := next.1 } := ⟨hruns, List.suffix_refl _⟩
  unfold Inline.take
  split
  · exact hstep.trans (hmake _)
  · exact hstep

variable [Time τ]

theorem finish (hmake : ∀ m, Onward m (make m).2) (now : τ) (m : Inline τ) : Onward m (finish make now m).2 := by
  refine take hmake ?_
  rw [Scheduler.poll_runs, Scheduler.complete_runs]
  exact Nat.le_add_right _ _

theorem hear (hmake : ∀ m, Onward m (make m).2) (e : Event) (now : τ) (m : Inline τ) : Onward m (hear make e now m).2 := by
  unfold Inline.hear
  split
  · exact finish hmake now m
  · refine take hmake ?_
    rw [Scheduler.handle_runs]
    exact Nat.le_add_right _ _

theorem live (hmake : ∀ m, Onward m (make m).2) (incidents : List (Incident τ)) (m : Inline τ) :
    Onward m (live make incidents m).2 := by
  induction incidents generalizing m with
  | nil => exact refl m
  | cons i r ih =>
    cases i with
    | wait span =>
      have hwait : Onward m { m with clock := Time.add m.clock span } := ⟨Nat.le_refl _, List.suffix_refl _⟩
      exact hwait.trans (ih _)
    | raise e => exact refl m
    | call e at? =>
      have hhear := hear hmake e (at?.getD m.clock) m
      rw [Inline.live]
      split
      · next heq =>
        rw [heq] at hhear
        exact hhear
      · next heq =>
        rw [heq] at hhear
        exact hhear.trans (ih _)

theorem past (hmake : ∀ m : Inline τ, Onward m (execute level m).2) (h : Past level m m₁) : Onward m m₁ := by
  have hdrop : Onward m { m with script := m.script.drop 1 } := ⟨Nat.le_refl _, List.drop_suffix 1 m.script⟩
  have hduring : Onward m (m.during level) := hdrop.trans (live hmake _ _)
  exact ⟨h.scheduler ▸ hduring.runs, h.script ▸ hduring.script⟩

theorem execute (level : Nat) (m : Inline τ) : Onward m (execute level m).2 := by
  -- the runs that are made within this one have a level less
  induction level generalizing m with
  | zero => exact refl m
  | succ level ih =>
    obtain ⟨m₁, hpast, hfinish | ⟨-, -, e, -, hraised⟩⟩ := execute_cases level m
    · rw [hfinish]
      exact (past ih hpast).trans (finish ih m₁.clock m₁)
    · rw [hraised]
      exact past ih hpast

end Onward

/-! ### Coming to an end -/

/-- What a call may raise that makes `level` runs within one another at most: what one raises who is shown a result, or the end
of the stack once so many runs have begun. -/
def Grounds (level : Nat) (m m' : Inline τ) (e : Mishap) : Prop :=
  (∃ run ∈ m.script, run.refusal = some e) ∨ e = tooDeep ∧ m.scheduler.runs + level ≤ m'.scheduler.runs

/-- Where it returns, no run is left in progress. -/
structure Ends (level : Nat) (m : Inline τ) (out : Except Mishap Unit × Inline τ) : Prop where
  returned : out.1 = .ok () → out.2.scheduler.phase ≠ .checking
  raised : ∀ e, out.1 = .error e → Grounds level m out.2 e

namespace Ends

theorem after (h : Ends level m₁ out) (hon : Onward m m₁) : Ends level m out where
  returned := h.returned
  raised e he := by
    obtain ⟨run, hrun, hrefusal⟩ | ⟨hdeep, hruns⟩ := h.raised e he
    · exact .inl ⟨run, hon.script.subset hrun, hrefusal⟩
    · exact .inr ⟨hdeep, Nat.le_trans (Nat.add_le_add_right hon.runs level) hruns⟩

theorem take (hmake : ∀ m, Ends level m (make m)) {next : Scheduler τ × Bool}
    (hruns : next.1.runs = m.scheduler.runs + next.2.toNat) (hphase : next.2 = false → next.1.phase ≠ .checking) :
    Ends (level + 1) m (take make m next) := by
  unfold Inline.take
  split
  · next hbegins =>
    rw [hbegins, Bool.toNat_true] at hruns
    have hrun := hmake { m with scheduler := next.1 }
    refine ⟨hrun.returned, fun e he => (hrun.raised e he).imp_right fun ⟨hdeep, hmore⟩ => ⟨hdeep, ?_⟩⟩
    dsimp only at hmore
    omega
  · next hbegins => exact ⟨fun _ => hphase (Bool.eq_false_iff.2 hbegins), nofun⟩

variable [Time τ]

theorem finish (hmake : ∀ m, Ends level m (make m)) (now : τ) (m : Inline τ) :
    Ends (level + 1) m (finish make now m) := by
  refine take hmake ?_ (Scheduler.poll_phase (m.scheduler.complete_phase now))
  rw [Scheduler.poll_runs, Scheduler.complete_runs]

theorem execute (level : Nat) (m : Inline τ) : Ends level m (execute level m) := by
  induction level generalizing m with
  | zero =>
    refine ⟨nofun, fun e he => .inr ⟨(Except.error.inj he).symm, ?_⟩⟩
    exact Nat.le_refl _
  | succ level ih =>
    obtain ⟨m₁, hpast, hfinish | ⟨run, hrun, e, hrefusal, hraised⟩⟩ := execute_cases level m
    · rw [hfinish]
      exact (finish ih m₁.clock m₁).after (.past (.execute level) hpast)
    · rw [hraised]
      refine ⟨nofun, fun e' he' => .inl ⟨run, hrun, ?_⟩⟩
      rw [hrefusal, Except.error.inj he']

theorem hear (hmake : ∀ m, Ends level m (make m)) (hphase : m.scheduler.phase ≠ .checking) (e : Event) (now : τ) :
    Ends (level + 1) m (hear make e now m) := by
  unfold Inline.hear
  split
  · exact finish hmake now m
  · exact take hmake (m.scheduler.handle_runs e now) (Scheduler.handle_phase hphase)

end Ends

/-! ### Calls between runs -/

/-- What the owner of a scheduler can call. -/
inductive Call (τ : Type) where
  | handle (e : Event) (at? : Option τ)
  | poll (at? : Option τ)

variable [Time τ]

def call (m : Inline τ) : Call τ → Except Mishap Unit × Inline τ
  | .handle e at? => m.handle e at?
  | .poll at? =>
    let (r, m) := m.poll at?
    (r.map fun _ => (), m)

/-- One call after the other, up to the first that raises. -/
def calls : List (Call τ) → Inline τ → Except Mishap Unit × Inline τ
  | [], m => (.ok (), m)
  | c :: r, m =>
    match m.call c with
    | (.error e, m) => (.error e, m)
    | (.ok (), m) => calls r m

theorem poll_eq (m : Inline τ) (at? : Option τ) :
    m.call (.poll at?) = take (execute room) m (m.scheduler.poll (at?.getD m.clock)) := by
  unfold call poll
  dsimp only
  generalize take (execute room) m (m.scheduler.poll (at?.getD m.clock)) = out
  obtain ⟨outcome, m₁⟩ := out
  cases outcome <;> rfl

theorem onward_call (m : Inline τ) (c : Call τ) : Onward m (m.call c).2 := by
  cases c with
  | handle e at? => exact .hear (.execute room) e _ m
  | poll at? =>
    rw [poll_eq]
    refine .take (.execute room) ?_
    rw [Scheduler.poll_runs]
    exact Nat.le_add_right _ _

theorem ends_call (hphase : m.scheduler.phase ≠ .checking) (c : Call τ) : Ends (room + 1) m (m.call c) := by
  cases c with
  | handle e at? => exact .hear (.execute room) hphase e _
  | poll at? =>
    rw [poll_eq]
    exact .take (.execute room) (m.scheduler.poll_runs _) (Scheduler.poll_phase hphase)

theorem ends_calls (hphase : m.scheduler.phase ≠ .checking) (cs : List (Call τ)) : Ends (room + 1) m (calls cs m) := by
  induction cs generalizing m with
  | nil => exact ⟨fun _ => hphase, nofun⟩
  | cons c r ih =>
    have hcall := ends_call hphase c
    have hon := onward_call m c
    rw [calls]
    split
    · next heq =>
      rw [heq] at hcall
      exact hcall
    · next heq =>
      rw [heq] at hcall hon
      exact (ih (hcall.returned rfl)).after hon

/-- A request begins a run unless one is in progress. -/
theorem handle_request (hphase : m.scheduler.phase ≠ .checking) {e : Event} (hrequest : e.isRequest = true) (at? : Option τ) :
    m.handle e at? = execute room { m with scheduler := m.scheduler.begin } := by
  have hfinished : e ≠ .finished := by
    rintro rfl
    cases hrequest
  rw [handle, hear, if_neg hfinished, Scheduler.handle_request hphase hrequest, take, if_pos rfl]

theorem runs_lt_handle (hphase : m.scheduler.phase ≠ .checking) {e : Event} (hrequest : e.isRequest = true) (at? : Option τ) :
    m.scheduler.runs < (m.handle e at?).2.scheduler.runs := by
  rw [handle_request hphase hrequest]
  exact (Onward.execute room { m with scheduler := m.scheduler.begin }).runs

/-! ### Runs that stay in progress -/

/-- No run reports its own end. -/
def Unreported (script : List (Run τ)) : Prop := ∀ run ∈ script, ∀ at?, .call .finished at? ∉ run.incidents

/-- During a run events are kept in mind. -/
theorem hear_checking (make : Inline τ → Except Mishap Unit × Inline τ) (hphase : m.scheduler.phase = .checking) {e : Event}
    (he : e ≠ .finished) (now : τ) : hear make e now m = (.ok (), { m with scheduler := m.scheduler.remember e }) := by
  rw [hear, if_neg he, Scheduler.handle_checking hphase he, take, if_neg Bool.false_ne_true]

theorem live_checking (make : Inline τ → Except Mishap Unit × Inline τ) (hphase : m.scheduler.phase = .checking)
    {incidents : List (Incident τ)} (h : ∀ at?, .call .finished at? ∉ incidents) :
    (live make incidents m).2.scheduler.phase = .checking := by
  induction incidents generalizing m with
  | nil => exact hphase
  | cons i r ih =>
    have hr : ∀ at?, .call .finished at? ∉ r := fun at? hmem => h at? (List.mem_cons_of_mem i hmem)
    cases i with
    | wait span => exact ih hphase hr
    | raise e => exact hphase
    | call e at? =>
      have he : e ≠ .finished := by
        rintro rfl
        exact h at? List.mem_cons_self
      rw [live, hear_checking make hphase he]
      exact ih ((m.scheduler.remember_phase e).trans hphase) hr

/-- What raises leaves a run in progress. -/
def Hangs (out : Except Mishap Unit × Inline τ) : Prop := ∀ e, out.1 = .error e → out.2.scheduler.phase = .checking

omit [Time τ] in
theorem hangs_take (hmake : ∀ m, m.scheduler.phase = .checking → Unreported m.script → Hangs (make m))
    (hscript : Unreported m.script) {next : Scheduler τ × Bool} (hbegins : next.2 = true → next.1.phase = .checking) :
    Hangs (take make m next) := by
  unfold take
  split
  · next hb => exact hmake _ (hbegins hb) hscript
  · exact nofun

theorem hangs_execute (level : Nat) (hphase : m.scheduler.phase = .checking) (hscript : Unreported m.script) :
    Hangs (execute level m) := by
  induction level generalizing m with
  | zero => exact fun _ _ => hphase
  | succ level ih =>
    obtain ⟨m₁, hpast, hfinish | ⟨-, -, e, -, hraised⟩⟩ := execute_cases level m
    · rw [hfinish]
      have hrest : Unreported m₁.script := fun run hrun => hscript run ((Onward.past (.execute level) hpast).script.subset hrun)
      exact hangs_take (fun _ => ih) hrest Scheduler.poll_begins
    · rw [hraised]
      have hincidents : ∀ at?, .call .finished at? ∉ (m.script.headD .plain).incidents :=
        Run.next_of_forall (fun _ => List.not_mem_nil) hscript
      have hduring : (m.during level).scheduler.phase = .checking :=
        live_checking (m := { m with script := m.script.drop 1 }) _ hphase hincidents
      exact fun _ _ => hpast.scheduler ▸ hduring

theorem hangs_call (hscript : Unreported m.script) (c : Call τ) : Hangs (m.call c) := by
  have hmake : ∀ m : Inline τ, m.scheduler.phase = .checking → Unreported m.script → Hangs (execute room m) :=
    fun _ => hangs_execute room
  cases c with
  | handle e at? =>
    change Hangs (hear (execute room) e (at?.getD m.clock) m)
    unfold hear
    split
    · exact hangs_take hmake hscript Scheduler.poll_begins
    · exact hangs_take hmake hscript Scheduler.handle_begins
  | poll at? =>
    rw [poll_eq]
    exact hangs_take hmake hscript Scheduler.poll_begins

theorem hangs_calls (hscript : Unreported m.script) (cs : List (Call τ)) : Hangs (calls cs m) := by
  induction cs generalizing m with
  | nil => exact nofun
  | cons c r ih =>
    have hcall := hangs_call hscript c
    have hon := onward_call m c
    rw [calls]
    split
    · next heq =>
      rw [heq] at hcall
      exact hcall
    · next heq =>
      rw [heq] at hon
      exact ih fun run hrun => hscript run (hon.script.subset hrun)

/-- While a run is in progress no call begins another one, other than the report of its end. -/
theorem calls_checking (hphase : m.scheduler.phase = .checking) {cs : List (Call τ)}
    (h : ∀ at?, .handle .finished at? ∉ cs) : ∃ m', calls cs m = (.ok (), m') ∧ m'.scheduler.phase = .checking ∧
      m'.scheduler.runs = m.scheduler.runs := by
  induction cs generalizing m with
  | nil => exact ⟨m, rfl, hphase, rfl⟩
  | cons c r ih =>
    have hr : ∀ at?, .handle .finished at? ∉ r := fun at? hmem => h at? (List.mem_cons_of_mem c hmem)
    cases c with
    | handle e at? =>
      have he : e ≠ .finished := by
        rintro rfl
        exact h at? List.mem_cons_self
      have hkept := (m.scheduler.remember_phase e).trans hphase
      obtain ⟨m', hcalls, hphase', hruns⟩ := ih (m := { m with scheduler := m.scheduler.remember e }) hkept hr
      rw [calls, call, handle, hear_checking _ hphase he]
      exact ⟨m', hcalls, hphase', hruns.trans (m.scheduler.remember_runs e)⟩
    | poll at? =>
      have hpoll : m.call (.poll at?) = (.ok (), m) := by
        rw [poll_eq, Scheduler.poll_checking hphase, take, if_neg Bool.false_ne_true]
      rw [calls, hpoll]
      exact ih hphase hr

/-- A check that raises does no harm. As long as calls return, no run is in progress between them and the next request begins
one. A call raises only what one raises who is shown a result, or the end of the stack when more runs have begun than there is
room for. Then, unless a run reports its own end, one stays in progress: whatever is called after that, no other one begins. -/
theorem calls_settle (hphase : m.scheduler.phase ≠ .checking) (cs : List (Call τ)) :
    (∀ m', calls cs m = (.ok (), m') → m'.scheduler.phase ≠ .checking ∧
      ∀ e at?, e.isRequest = true → m'.scheduler.runs < (m'.handle e at?).2.scheduler.runs) ∧
    ∀ e m', calls cs m = (.error e, m') →
      ((∃ run ∈ m.script, run.refusal = some e) ∨ e = tooDeep ∧ m.scheduler.runs + room < m'.scheduler.runs) ∧
      (Unreported m.script → m'.scheduler.phase = .checking ∧ ∀ cs', (∀ at?, .handle .finished at? ∉ cs') →
        ∃ m'', calls cs' m' = (.ok (), m'') ∧ m''.scheduler.phase = .checking ∧
          m''.scheduler.runs = m'.scheduler.runs) := by
  have hends := ends_calls hphase cs
  refine ⟨fun m' hcalls => ?_, fun e m' hcalls => ?_⟩
  · rw [hcalls] at hends
    have hphase' := hends.returned rfl
    exact ⟨hphase', fun e at? hrequest => runs_lt_handle hphase' hrequest at?⟩
  · rw [hcalls] at hends
    refine ⟨hends.raised e rfl, fun hscript => ?_⟩
    have hhangs := hangs_calls hscript cs
    rw [hcalls] at hhangs
    exact ⟨hhangs e rfl, fun cs' hcs' => calls_checking (hhangs e rfl) hcs'⟩

/-- A check that asks for another one and fails, and one that raises in between. -/
def failing : Inline Nat := create (some 2) 0 [⟨[.call .asked none], true, none⟩, ⟨[.raise .outOfRange, .wait 1], false, none⟩]

/-- Whoever is shown the result of the only run raises. -/
def refused : Inline Nat := create none 0 [⟨[], false, some .outOfRange⟩]

theorem calls_settle_failing :
    (∃ m, calls [.handle .opened none, .poll (some 5)] failing = (.ok (), m) ∧ m.scheduler.runs = 2 ∧
      m.scheduler.phase ≠ .checking ∧ 2 < (m.handle .saved none).2.scheduler.runs) ∧
    (∃ m, calls [.handle .opened none] refused = (.error .outOfRange, m) ∧
      ∃ m', calls [.handle .asked none, .poll (some 5)] m = (.ok (), m') ∧ m'.scheduler.phase = .checking) := by
  obtain ⟨hreturned, -⟩ := calls_settle (m := failing) (by decide) [.handle .opened none, .poll (some 5)]
  obtain ⟨hphase, hnext⟩ := hreturned _ rfl
  obtain ⟨-, hraised⟩ := calls_settle (m := refused) (by decide) [.handle .opened none]
  have hscript : Unreported refused.script := by simp [Unreported, refused, create]
  obtain ⟨-, hstuck⟩ := (hraised _ _ rfl).2 hscript
  obtain ⟨m', hcalls, hphase', -⟩ := hstuck [.handle .asked none, .poll (some 5)] (by simp)
  exact ⟨⟨_, rfl, rfl, hphase, hnext .saved none rfl⟩, _, rfl, m', hcalls, hphase'⟩

/-- During this run another one is asked for. -/
def asking : Run Nat := ⟨[.call .asked none], false, none⟩

theorem execute_asking {m : Inline Nat} {r : List (Run Nat)} (hphase : m.scheduler.phase = .checking)
    (hscript : m.script = asking :: r) : execute (level + 1) m =
      execute level ⟨((m.scheduler.remember .asked).complete m.clock).begin, m.clock, r, m.clock :: m.results⟩ := by
  have hdue : ((m.scheduler.remember .asked).complete m.clock).isDue m.clock = true := by
    simp [Scheduler.remember, Event.isRequest, Scheduler.complete, Scheduler.await, Scheduler.isDue, Time.atMost]
  have hpoll : ((m.scheduler.remember .asked).complete m.clock).poll m.clock =
      (((m.scheduler.remember .asked).complete m.clock).begin, true) := if_pos hdue
  have hhear : hear (execute level) .asked m.clock ⟨m.scheduler, m.clock, r, m.results⟩ =
      (.ok (), ⟨m.scheduler.remember .asked, m.clock, r, m.results⟩) :=
    hear_checking (m := ⟨m.scheduler, m.clock, r, m.results⟩) _ hphase (by decide) _
  have hlive : live (execute level) asking.incidents { m with script := m.script.drop 1 } =
      (.ok (), ⟨m.scheduler.remember .asked, m.clock, r, m.results⟩) := by
    rw [asking, live, hscript, Option.getD_none, List.drop_one, List.tail_cons, hhear]
    rfl
  have hhead : m.script.headD .plain = asking := by rw [hscript, List.headD_cons]
  rw [execute, hhead, hlive]
  change finish (execute level) m.clock ⟨m.scheduler.remember .asked, m.clock, r, m.clock :: m.results⟩ = _
  rw [finish, hpoll, take, if_pos rfl]

/-- Down to the end of the stack, one run is made within the other. -/
theorem execute_asking_room {m : Inline Nat} (hphase : m.scheduler.phase = .checking)
    (hscript : m.script = List.replicate level asking) : ∃ m', execute level m = (.error tooDeep, m') ∧
      m'.scheduler.phase = .checking ∧ m'.scheduler.runs = m.scheduler.runs + level := by
  induction level generalizing m with
  | zero => exact ⟨m, rfl, hphase, rfl⟩
  | succ level ih =>
    rw [execute_asking hphase hscript]
    obtain ⟨m', hexecute, hphase', hruns⟩ := ih (m := ⟨((m.scheduler.remember .asked).complete m.clock).begin, m.clock,
      List.replicate level asking, m.clock :: m.results⟩) rfl rfl
    refine ⟨m', hexecute, hphase', hruns.trans ?_⟩
    simp only [Scheduler.begin, Scheduler.complete_runs, Scheduler.remember_runs]
    omega

def chained : Inline Nat := create none 0 (List.replicate room asking)

/-- What leaves the call leaves the run in progress, and the next request begins none. -/
theorem handle_raises :
    (refused.scheduler.phase = .idle ∧ ∃ m, refused.handle .opened none = (.error .outOfRange, m) ∧
      m.scheduler.phase = .checking ∧ (m.handle .asked none).2.scheduler.runs = m.scheduler.runs) ∧
    (chained.scheduler.phase = .idle ∧ ∃ m, chained.handle .opened none = (.error tooDeep, m) ∧
      m.scheduler.phase = .checking ∧ (m.handle .asked none).2.scheduler.runs = m.scheduler.runs) := by
  refine ⟨⟨rfl, _, rfl, rfl, rfl⟩, rfl, ?_⟩
  obtain ⟨m, hexecute, hphase, -⟩ := execute_asking_room (m := { chained with scheduler := chained.scheduler.begin }) rfl rfl
  refine ⟨m, (handle_request (by decide) rfl none).trans hexecute, hphase, ?_⟩
  rw [handle, hear_checking _ hphase (by decide)]
  exact m.scheduler.remember_runs .asked

end Inline

end Proofreader
