import Mathlib.Data.List.Find
import Proofreader.Proofs.Collections
import Proofreader.Proofs.Session.Typed

/-! Failed languages show their last good results. Whatever runs come to in between, a language that fails shows what it
showed when it was last checked with success, as long as it has had text in all runs since then that got as far as the
languages; runs that raise, cannot read the main file or get no service leave that alone. -/

namespace Proofreader

namespace Report

/-- The result of a language. -/
def result? (r : Report) (key : Language) : Option LanguageResult :=
  (r.languages.map Prod.snd).find? (·.profile.language = key)

/-- Whether the run got as far as the languages. Otherwise there is an error that is not that of a language. -/
def reachesLanguages (r : Report) : Bool := r.errors.all fun e => (e.get? "language").isSome

/-- The language was checked with success. -/
def Passes (r : Report) (key : Language) (ds : List Diagnostic) : Prop :=
  ∃ result, r.result? key = some result ∧ result.error = none ∧ result.diagnostics = ds

/-- The language has text, but its check failed. -/
def Fails (r : Report) (key : Language) : Prop := ∃ result, r.result? key = some result ∧ result.error ≠ none

end Report

/-- What a language showed in the last run that checked it with success, if it has had text in all runs since then that
got as far as the languages. -/
def LastGood (log : List (Except Fault Report)) (key : Language) (ds : List Diagnostic) : Prop :=
  ∃ before r after, log = before ++ .ok r :: after ∧ r.Passes key ds ∧
    ∀ r', .ok r' ∈ after → r'.reachesLanguages = true → r'.Fails key

def NeverGood (log : List (Except Fault Report)) (key : Language) : Prop := ∀ r ds, .ok r ∈ log → ¬ r.Passes key ds

variable {log : List (Except Fault Report)} {key : Language} {ds : List Diagnostic} {r : Report}

theorem LastGood.of_error {e : Fault} (h : LastGood (log ++ [.error e]) key ds) : LastGood log key ds := by
  obtain ⟨before, r, after, hlog, hpasses, hafter⟩ := h
  rcases snoc_eq_append_cons.1 hlog with ⟨-, hlast, -⟩ | ⟨after, rfl, rfl⟩
  · cases hlast
  · exact ⟨before, r, after, rfl, hpasses, fun r' hr' => hafter r' (List.mem_append_left _ hr')⟩

theorem LastGood.of_report (h : LastGood (log ++ [.ok r]) key ds) :
    r.Passes key ds ∨ LastGood log key ds ∧ (r.reachesLanguages = true → r.Fails key) := by
  obtain ⟨before, r₀, after, hlog, hpasses, hafter⟩ := h
  rcases snoc_eq_append_cons.1 hlog with ⟨-, hlast, -⟩ | ⟨after, rfl, rfl⟩
  · cases hlast
    exact Or.inl hpasses
  · exact Or.inr ⟨⟨before, r₀, after, rfl, hpasses, fun r' hr' => hafter r' (List.mem_append_left _ hr')⟩,
      hafter r (List.mem_append_right _ List.mem_cons_self)⟩

namespace Session

variable {σ β : Type} {provider : Provider σ β Selection} {s s' mid : Session β} {disk : Disk} {w v : σ} {view : Snapshot}
variable {next : Cache} {results : List (CheckedText × LanguageResult × Option Problem)}

/-- What a report tells of a language that fails. -/
structure Excuses (s : Session β) (r : Report) (result : LanguageResult) : Prop where
  stale : result.stale = true
  listed : ∃ e ∈ r.errors, ∃ m, result.error = some m ∧ e.get? "message" = some (.str m)
  diagnostics : result.diagnostics = (s.previous.lookup result.profile.language).getD []

/-- What a run tells of the languages, and what it keeps of them. -/
structure Accounts (s s' : Session β) (r : Report) : Prop where
  status : r.status = .error ↔ r.errors ≠ []
  excuses : ∀ l ∈ r.languages, l.2.error ≠ none → s.Excuses r l.2
  /-- Either the languages were reached, and their results are kept, or nothing is kept and no language passes. -/
  kept : r.reachesLanguages = true ∧ (∀ key, s'.previous.lookup key = (r.result? key).map (·.diagnostics)) ∨
    r.reachesLanguages = false ∧ s'.previous = s.previous ∧ ∀ key ds, ¬ r.Passes key ds

theorem Accounts.diagnostics {result : LanguageResult} (h : s.Accounts s' r) (hr : r.result? key = some result)
    (herror : result.error ≠ none) : result.diagnostics = (s.previous.lookup key).getD [] := by
  have hkey : result.profile.language = key := by simpa using List.find?_some hr
  obtain ⟨l, hl, rfl⟩ := List.mem_map.1 (List.mem_of_find?_eq_some hr)
  rw [← hkey]
  exact (h.excuses l hl herror).diagnostics

theorem get?_message (p : Problem) : Json.get? "message" (.obj p.members) = some (.str p.message) := rfl

theorem accounts_missing (s : Session β) (warnings : List Warning) : s.Accounts s
    { s.blankReport warnings with status := .error, errors := [mainMissing s.project.main] } where
  status := by simp
  excuses := List.forall_mem_nil _
  kept := Or.inr ⟨rfl, rfl, fun key ds ⟨result, h, _⟩ => (nomatch h)⟩

/-- Without a service every language with text fails. -/
theorem accounts_refused (s : Session β) (warnings : List Warning) (root : Node) (p : Problem) :
    s.Accounts (s.refusedBy p) (s.failAll (s.docReport warnings root) (s.checkedTexts root) p) := by
  have hfailed : ∀ l ∈ (s.failAll (s.docReport warnings root) (s.checkedTexts root) p).languages,
      l.2.error = some p.message ∧ l.2.stale = true ∧
        l.2.diagnostics = (s.previous.lookup l.2.profile.language).getD [] := by
    intro l hl
    obtain ⟨t, -, rfl⟩ := List.mem_map.1 (mem_of_mem_ofMembers hl)
    exact ⟨rfl, rfl, rfl⟩
  refine ⟨by simp [failAll], fun l hl _ => ?_, Or.inr ⟨rfl, ?_, fun key ds ⟨result, h, hpasses, _⟩ => ?_⟩⟩
  · obtain ⟨herror, hstale, hds⟩ := hfailed l hl
    exact ⟨hstale, ⟨_, List.mem_singleton_self _, _, herror, get?_message p⟩, hds⟩
  · unfold refusedBy
    split
    · rfl
    · rfl
  · obtain ⟨l, hl, rfl⟩ := List.mem_map.1 (List.mem_of_find?_eq_some h)
    rw [(hfailed l hl).1] at hpasses
    cases hpasses

/-- The results of the languages are kept as they are reported, and a failed one is reported as it was kept. -/
theorem accounts_checked (s : Session β) (report : Report) (b : Option β)
    (htags : ((results.map Prod.fst).map (·.profile.tag)).Nodup)
    (hresults : ∀ x ∈ results, x.2.1.profile = x.1.profile ∧ x.2.1.error = none ∧ x.2.1.stale = false) :
    s.Accounts { (s.conclude report results).2 with backend := b } (s.conclude report results).1 := by
  have hlanguages : (s.conclude report results).1.languages =
      results.map fun x => (x.1.profile.tag, s.settle x.1 x.2.1 x.2.2) := languages_conclude s report htags
  have hprofile : ∀ x ∈ results, (s.settle x.1 x.2.1 x.2.2).profile = x.1.profile := by
    intro x hx
    obtain ⟨t, result, problem⟩ := x
    cases problem with
    | none => exact (hresults _ hx).1
    | some p => exact (hresults _ hx).1
  have hresult : ∀ key, (s.conclude report results).1.result? key =
      (results.find? fun x => decide (x.1.key = key)).map fun x => s.settle x.1 x.2.1 x.2.2 := by
    intro key
    rw [Report.result?, hlanguages, List.map_map, List.find?_map]
    congr 1
    refine List.find?_congr fun x hx => ?_
    simp only [Function.comp_apply, hprofile x hx]
    rfl
  have hproblem : ∀ x ∈ results, ∀ p, x.2.2 = some p →
      ∃ e ∈ (s.conclude report results).1.errors, e.get? "message" = some (.str p.message) := by
    intro x hx p hp
    have hpair : (x.1.profile.tag, p) ∈ results.filterMap fun x => x.2.2.map fun p => (x.1.profile.tag, p) :=
      List.mem_filterMap.2 ⟨x, hx, by rw [hp]; rfl⟩
    exact ⟨_, List.mem_map_of_mem hpair, rfl⟩
  refine ⟨?_, fun l hl herror => ?_, Or.inl ⟨?_, fun key => ?_⟩⟩
  · simp only [conclude]
    split
    · next hempty => simp [List.isEmpty_iff.1 hempty]
    · next hempty => simpa using hempty
  · rw [hlanguages] at hl
    obtain ⟨x, hx, rfl⟩ := List.mem_map.1 hl
    obtain ⟨t, result, problem⟩ := x
    cases problem with
    | none => exact absurd (hresults _ hx).2.1 herror
    | some p =>
      obtain ⟨e, he, hmessage⟩ := hproblem _ hx p rfl
      refine ⟨rfl, ⟨e, he, p.message, rfl, hmessage⟩, ?_⟩
      rw [hprofile _ hx]
      rfl
  · simp only [Report.reachesLanguages, conclude, List.all_map, List.all_eq_true]
    intro x _
    rfl
  · rw [hresult, Option.map_map]
    simp only [conclude, List.map_map]
    exact lookup_map (fun x => x.1.key) (fun x => (s.settle x.1 x.2.1 x.2.2).diagnostics) results key

theorem Drawn.accounts (h : Drawn provider disk s w view r s' next v) (hs : s.Regular) : s.Accounts s' r := by
  cases h with
  | missing => exact accounts_missing s _
  | refused => exact accounts_refused s _ _ _
  | @checked root warnings _ b _ results c _ _ hresults =>
    obtain ⟨htexts, hall⟩ := checkTexts_results hresults
    refine accounts_checked s _ _ ?_ hall
    rw [htexts]
    exact hs.nodup_tags root

/-- A report keeps what it tells of the languages when it is laid out by file. -/
theorem Accounts.finish {r' : Report} {s'' : Session β} (h : s.Accounts s' r)
    (hfinish : s'.finish disk ⟨r, view⟩ = .ok (r', s'')) : s.Accounts s'' r' := by
  obtain ⟨rows, -, rfl, rfl⟩ := finish_ok hfinish
  refine ⟨h.status, fun l hl herror => ?_, h.kept⟩
  obtain ⟨hstale, hlisted, hds⟩ := h.excuses l hl herror
  exact ⟨hstale, hlisted, hds⟩

/-- The session recalls the last good results of every language. -/
structure Recalls (s : Session β) (log : List (Except Fault Report)) : Prop where
  good : ∀ key ds, LastGood log key ds → s.previous.lookup key = some ds
  never : ∀ key, NeverGood log key → (s.previous.lookup key).getD [] = []

theorem Recalls.raise {e : Fault} (h : s.Recalls log) (hs' : s'.previous = s.previous) :
    s'.Recalls (log ++ [.error e]) where
  good := fun key ds hgood => by
    rw [hs']
    exact h.good key ds hgood.of_error
  never := fun key hnever => by
    rw [hs']
    exact h.never key fun r ds hr => hnever r ds (List.mem_append_left _ hr)

theorem Recalls.report (h : s.Recalls log) (haccounts : s.Accounts s' r) : s'.Recalls (log ++ [.ok r]) where
  good := by
    intro key ds hgood
    obtain ⟨hreached, hkept⟩ | ⟨hreached, hsame, hnone⟩ := haccounts.kept
    · rw [hkept]
      obtain ⟨result, hr, -, rfl⟩ | ⟨hgood, hfails⟩ := hgood.of_report
      · rw [hr]
        rfl
      · obtain ⟨result, hr, herror⟩ := hfails hreached
        rw [hr, Option.map_some, haccounts.diagnostics hr herror, h.good key ds hgood]
        rfl
    · obtain hpasses | ⟨hgood, -⟩ := hgood.of_report
      · exact absurd hpasses (hnone key ds)
      · rw [hsame]
        exact h.good key ds hgood
  never := by
    intro key hnever
    have hbefore := h.never key fun r ds hr => hnever r ds (List.mem_append_left _ hr)
    obtain ⟨-, hkept⟩ | ⟨-, hsame, -⟩ := haccounts.kept
    · rw [hkept]
      cases hr : r.result? key with
      | none => rfl
      | some result =>
        have herror : result.error ≠ none := fun he =>
          hnever r _ (List.mem_append_right _ List.mem_cons_self) ⟨result, hr, he, rfl⟩
        rw [Option.map_some, Option.getD_some, haccounts.diagnostics hr herror]
        exact hbefore
    · rw [hsame]
      exact hbefore

theorem Recalls.applyPending (h : s.Recalls log) (hpending : s.begun.applyPending provider w = (.ok (), mid, v)) :
    mid.Recalls log := by
  obtain rfl | ⟨settings, q, backend, -, rfl⟩ := applyPending_ok hpending
  · exact ⟨h.good, h.never⟩
  · exact ⟨h.good, h.never⟩

/-- A run that ends with a report has been drawn up by a session that recalls what the one before it does. -/
theorem Recalls.exists_accounts (h : s.Recalls log) (hs : s.Regular)
    (hcourse : Course provider disk s w (.ok r) s' v) : ∃ mid : Session β, mid.Recalls log ∧ mid.Accounts s' r := by
  cases hcourse with
  | reported hpending hdrawn hfinish =>
    obtain ⟨hstatus, hexcuses, hkept⟩ := (hdrawn.accounts (hs.applyPending hpending)).finish hfinish
    exact ⟨_, h.applyPending hpending, hstatus, hexcuses, hkept⟩

theorem Recalls.course {out : Except Fault Report} (h : s.Recalls log) (hs : s.Regular) (htyped : s.Typed)
    (hp : provider.Typed) (hcourse : Course provider disk s w out s' v) : s'.Recalls (log ++ [out]) := by
  cases out with
  | ok r =>
    obtain ⟨mid, hmid, haccounts⟩ := h.exists_accounts hs hcourse
    exact hmid.report haccounts
  | error e =>
    cases hcourse with
    | unsettled hpending =>
      rw [applyPending_error hpending]
      exact h.raise rfl
    | unserved hpending _ => exact (h.applyPending hpending).raise rfl
    | unsorted hpending hdrawn hfinish =>
      obtain ⟨r', s'', hok⟩ := (htyped.applyPending hpending).exists_finish hp hdrawn
      rw [hfinish] at hok
      cases hok

theorem History.recalls (h : History provider log s) (hp : provider.Typed) : s.Recalls log := by
  induction h with
  | create _ hs =>
    obtain ⟨q, -, rfl⟩ := create_ok hs
    refine ⟨fun key ds hgood => ?_, fun key _ => rfl⟩
    obtain ⟨before, r, after, hlog, -⟩ := hgood
    simp at hlog
  | edit _ _ ih => exact ⟨ih.good, ih.never⟩
  | update settings _ ih => exact ⟨ih.good, ih.never⟩
  | run disk w h ih => exact ih.course h.regular (h.typed hp) hp (run_course provider disk _ w)
  | close w _ ih => exact ⟨ih.good, ih.never⟩

/-- After any history, a language that a run reports as failed shows what it showed when it was last checked with
success, or nothing if it never was. It is marked as stale with one of the errors that the report lists, and a report
has the status of an error exactly if it lists one. The service is only taken to name its rules by texts, so that what
it finds can be put in order. -/
theorem failed_shows_lastGood (h : History provider log s) (hp : provider.Typed)
    (hrun : s.run provider disk w = (.ok r, s', v)) :
    (r.status = .error ↔ r.errors ≠ []) ∧
      ∀ l ∈ r.languages, l.2.error ≠ none →
        r.status = .error ∧ l.2.stale = true ∧
          (∃ e ∈ r.errors, ∃ m, l.2.error = some m ∧ e.get? "message" = some (.str m)) ∧
          (∀ ds, LastGood log l.2.profile.language ds → l.2.diagnostics = ds) ∧
          (NeverGood log l.2.profile.language → l.2.diagnostics = []) := by
  have hcourse := run_course provider disk s w
  rw [hrun] at hcourse
  obtain ⟨mid, hmid, haccounts⟩ := (h.recalls hp).exists_accounts h.regular hcourse
  refine ⟨haccounts.status, fun l hl herror => ?_⟩
  obtain ⟨hstale, hlisted, hds⟩ := haccounts.excuses l hl herror
  refine ⟨?_, hstale, hlisted, fun ds hgood => ?_, fun hnever => ?_⟩
  · obtain ⟨e, he, -⟩ := hlisted
    exact haccounts.status.2 (List.ne_nil_of_mem he)
  · rw [hds, hmid.good _ ds hgood]
    rfl
  · rw [hds]
    exact hmid.never _ hnever

end Session

def goodRun : Except Fault Report × Session Unit × Bool := wideSession.run moody sharedDisk false

def missingRun : Except Fault Report × Session Unit × Bool := goodRun.2.1.run moody Disk.empty true

/-- After a good run, one without the main file and new settings. -/
def moodySession : Session Unit := missingRun.2.1.update (bundledSettings 21)

def moodyRun : Except Fault Report × Session Unit × Bool := moodySession.run moody sharedDisk true

theorem history_moody : Session.History moody ([] ++ [goodRun.1] ++ [missingRun.1]) moodySession := by
  unfold moodySession missingRun goodRun
  have hgood := (history_wide moody).run sharedDisk false
  have hmissing := hgood.run Disk.empty true
  exact hmissing.update (bundledSettings 21)

theorem verdicts_good : goodRun.1.toOption.map (·.verdicts) = some [("en", 1, none)] := by decide +kernel

theorem reachesLanguages_missing : missingRun.1.toOption.map (·.reachesLanguages) = some false := by decide +kernel

theorem verdicts_moody : moodyRun.1.toOption.map (·.verdicts) = some [("en", 1, some "gone")] := by decide +kernel

theorem Session.failed_shows_lastGood_moody : ∃ r₀ r s' v,
    goodRun.1 = .ok r₀ ∧ r₀.verdicts = [("en", 1, none)] ∧
    moodySession.run moody sharedDisk true = (.ok r, s', v) ∧ r.verdicts = [("en", 1, some "gone")] ∧
    ∀ l ∈ r.languages, l.2.error ≠ none → r.status = .error ∧ l.2.stale = true ∧
      ∀ ds, r₀.Passes l.2.profile.language ds → l.2.diagnostics = ds := by
  obtain ⟨r₀, hgood, hverdicts₀⟩ := eq_ok_of_toOption_map verdicts_good
  obtain ⟨missing, hmissing, hreached⟩ := eq_ok_of_toOption_map reachesLanguages_missing
  obtain ⟨r, hmoody, hverdicts⟩ := eq_ok_of_toOption_map verdicts_moody
  rcases hrun : moodyRun with ⟨out, s', v⟩
  rw [hrun] at hmoody
  dsimp only at hmoody
  subst hmoody
  unfold moodyRun at hrun
  have hhistory := history_moody
  rw [hgood, hmissing] at hhistory
  refine ⟨r₀, r, s', v, hgood, hverdicts₀, hrun, hverdicts, fun l hl herror => ?_⟩
  obtain ⟨hstatus, hstale, -, hgood, -⟩ := (failed_shows_lastGood hhistory typed_moody hrun).2 l hl herror
  refine ⟨hstatus, hstale, fun ds hpasses => hgood ds ⟨[], r₀, [.ok missing], rfl, hpasses, fun r' hr' hreached' => ?_⟩⟩
  simp only [List.mem_singleton, Except.ok.injEq] at hr'
  rw [hr', hreached] at hreached'
  cases hreached'

end Proofreader
