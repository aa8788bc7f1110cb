import Proofreader.Proofs.Session.Course
import Proofreader.Proofs.Session.Exchanges

/-! A chunk that was answered is not sent again while it stands in the document, unless a chunk in front of it fails: a
language is checked up to its first failure, and what stands behind it is forgotten. -/

namespace Proofreader

namespace Session

variable {σ β : Type} {provider : Provider σ β Selection} {s s' : Session β} {disk : Disk} {w w' : σ}
variable {out : Except Fault Report} {key : CacheKey}

/-- No run among the actions puts settings in force, and in each of them the chunk stands behind no failure. -/
def Lasts (provider : Provider σ β Selection) (key : CacheKey) : List (Action σ) → Session β → σ → Prop
  | [], _, _ => True
  | a :: r, s, w =>
    (∀ disk, a = .run disk → s.due = [] ∧ s.Stands disk (s.exchanged provider disk w) key) ∧
      Lasts provider key r (s.act provider w a).2.1 (s.act provider w a).2.2

theorem run_exchanged (h : s.run provider disk w = (out, s', w')) :
    s.run provider.recorded disk (w, []) = (out, s', w', s.exchanged provider disk w) := by
  rw [run_recorded, h]
  rfl

/-- What a run leaves in memory, told by what it sends. -/
theorem exchanged_carries (h : s.run provider disk w = (out, s', w')) :
    (out.isOk = true → ∀ x ∈ s.exchanged provider disk w, x.answered = true → s'.cache.Knows x.key) ∧
      (s.due = [] → s.Carries disk (s.exchanged provider disk w) s'.cache) ∧
      ∀ r, out = .ok r → r.status = .idle → ∀ t ∈ s'.docTexts disk, ∀ key ∈ s'.pipeline.keys t, s'.cache.Knows key := by
  obtain ⟨new, hlog, hcarries⟩ := run_carries (run_exchanged h)
  rw [List.nil_append] at hlog
  subst hlog
  exact hcarries

theorem knows_act {a : Action σ}
    (hlasts : ∀ disk, a = .run disk → s.due = [] ∧ s.Stands disk (s.exchanged provider disk w) key)
    (hkey : s.cache.Knows key) : (s.act provider w a).2.1.cache.Knows key := by
  cases a with
  | edit f => exact hkey
  | update settings => exact hkey
  | run disk =>
    obtain ⟨hdue, hstands⟩ := hlasts disk rfl
    rcases hrun : s.run provider disk w with ⟨out, s', w'⟩
    obtain ⟨-, hcarries, -⟩ := exchanged_carries hrun
    unfold act
    dsimp only
    rw [hrun]
    exact (hcarries hdue).kept key hstands hkey
  | close => exact hkey
  | meanwhile f => exact hkey

theorem knows_after {actions : List (Action σ)} (hlasts : Lasts provider key actions s w) (hkey : s.cache.Knows key) :
    (after provider actions s w).1.cache.Knows key := by
  induction actions generalizing s w with
  | nil => exact hkey
  | cons a r ih => exact ih hlasts.2 (knows_act hlasts.1 hkey)

theorem Typed.act (hs : s.Typed) (hp : provider.Typed) (a : Action σ) (w : σ) : (s.act provider w a).2.1.Typed := by
  cases a with
  | edit f => exact ⟨hs.cache, hs.previous⟩
  | update settings => exact ⟨hs.cache, hs.previous⟩
  | run disk => exact hs.course hp (run_course provider disk s w)
  | close => exact ⟨hs.cache, hs.previous⟩
  | meanwhile f => exact hs

theorem Typed.after (hs : s.Typed) (hp : provider.Typed) (actions : List (Action σ)) (w : σ) :
    (Session.after provider actions s w).1.Typed :=
  after_keeps (fun h => h.act hp _ _) hs actions w

theorem typed_create {p : Project} {c : Settings} (h : create p c = .ok s) : s.Typed := by
  obtain ⟨q, -, rfl⟩ := create_ok h
  exact ⟨Cache.typed_nil, List.forall_mem_nil _⟩

/-- Nothing that is known is sent by a run without new settings. -/
theorem ne_of_mem_exchanged (hdue : s.due = []) (hkey : s.cache.Knows key) (disk : Disk) (w : σ) :
    ∀ x ∈ s.exchanged provider disk w, x.key ≠ key := by
  rcases hrun : s.run provider disk w with ⟨out, s', w'⟩
  obtain ⟨-, hcarries, -⟩ := exchanged_carries hrun
  rintro x hx rfl
  exact (hcarries hdue).unknown x hx hkey

/-- After any actions: what a run sends can be written down without a change to it, and with a service that keeps to its
types a run that sends something gives a report. A chunk that was answered in a run with a report is not sent by a later
run, as long as no settings are put in force and no chunk of its language in front of it fails. -/
theorem answered_stays (provider : Provider σ β Selection) {p : Project} {c : Settings} {s₀ : Session β}
    (hs₀ : create p c = .ok s₀) (w₀ : σ) (earlier : List (Action σ)) (hearlier : after provider earlier s₀ w₀ = (s, w))
    (hrun : s.run provider disk w = (out, s', w')) :
    (∀ log, s.run provider.recorded disk (w, log) = (out, s', w', log ++ s.exchanged provider disk w)) ∧
      (provider.Typed → s.exchanged provider disk w ≠ [] → ∃ r, out = .ok r) ∧
      ∀ key, ⟨key, true⟩ ∈ s.exchanged provider disk w → out.isOk = true →
        ∀ (between : List (Action σ)) t v, after provider between s' w' = (t, v) → Lasts provider key between s' w' →
          t.due = [] → ∀ disk', ∀ x ∈ t.exchanged provider disk' v, x.key ≠ key := by
  refine ⟨fun log => ?_, fun hp hsent => ?_, fun key hanswered hreport between t v hbetween hlasts hdue disk' => ?_⟩
  · rw [run_recorded, hrun]
  · have hs : s.Typed := by
      have htyped := (typed_create hs₀).after hp earlier w₀
      rw [hearlier] at htyped
      exact htyped
    exact hs.exists_report hp (run_exchanged hrun) hsent
  · obtain ⟨hremembered, -, -⟩ := exchanged_carries hrun
    have hknown : t.cache.Knows key := by
      have hafter := knows_after hlasts (hremembered hreport _ hanswered rfl)
      rw [hbetween] at hafter
      exact hafter
    exact ne_of_mem_exchanged hdue hknown disk' v

instance (s : Session β) (disk : Disk) (new : List Exchange) (key : CacheKey) : Decidable (s.Stands disk new key) :=
  inferInstanceAs (Decidable ((s.project.snapshot.compile disk).1.isSome = true → ∃ t ∈ s.docTexts disk,
    key ∈ s.pipeline.keys t ∧ ∀ k ∈ (s.pipeline.keys t).takeWhile (· ≠ key), ⟨k, false⟩ ∉ new))

end Session

/-- A service that fails once, when it is asked for the third time. -/
def fallible : Provider Nat Unit Selection where
  create _ _ w := (.ok (), w)
  check _ _ _ w := (if w = 2 then .error (.problem (.general "busy" "BUSY" [])) else .ok [], (), w + 1)
  close _ w := w

/-- A main file with the text of two paragraphs. -/
def pairDisk (first second : String) : Disk :=
  Disk.empty.write "/home/me/main" ((first ++ "\n\n" ++ second).toList.map Char.toNat)

def chunkKey (text : String) : CacheKey := ⟨"en", [], text.toList⟩

def firstDisk : Disk := pairDisk "First one." "Second one."

def thirdDisk : Disk := pairDisk "First one." "Third one."

def anotherDisk : Disk := pairDisk "Another one." "Second one."

def firstRun : Except Fault Report × Session Unit × Nat := wideSession.run fallible firstDisk 0

/-- The run behind the first one. -/
def secondRun (disk : Disk) : Except Fault Report × Session Unit × Nat := firstRun.2.1.run fallible disk firstRun.2.2

theorem stands_first : ⟨chunkKey "First one.\n\n", true⟩ ∈ wideSession.exchanged fallible firstDisk 0 ∧
    firstRun.1.isOk = true ∧ firstRun.2.1.due.isEmpty = true ∧
    firstRun.2.1.Stands thirdDisk (firstRun.2.1.exchanged fallible thirdDisk firstRun.2.2) (chunkKey "First one.\n\n") ∧
    ⟨chunkKey "Third one.", false⟩ ∈ firstRun.2.1.exchanged fallible thirdDisk firstRun.2.2 ∧
    (secondRun thirdDisk).2.1.due.isEmpty = true := by
  decide +kernel

theorem Session.answered_stays_ahead :
    ⟨chunkKey "Third one.", false⟩ ∈ firstRun.2.1.exchanged fallible thirdDisk firstRun.2.2 ∧
    ∀ disk, ∀ x ∈ (secondRun thirdDisk).2.1.exchanged fallible disk (secondRun thirdDisk).2.2,
      x.key ≠ chunkKey "First one.\n\n" := by
  obtain ⟨hanswered, hreport, hdue, hstands, hfailed, hdue'⟩ := stands_first
  refine ⟨hfailed, ?_⟩
  have hfirst : wideSession.run fallible firstDisk 0 = (firstRun.1, firstRun.2.1, firstRun.2.2) := by rw [firstRun]
  obtain ⟨-, -, hstays⟩ := answered_stays fallible create_wide 0 [] rfl hfirst
  unfold secondRun at hdue' ⊢
  -- the sessions are not to be computed from here on
  generalize firstRun = first at *
  generalize thirdDisk = disk at *
  generalize hsecond : first.2.1.run fallible disk first.2.2 = second at *
  refine hstays _ hanswered hreport [.run disk] second.2.1 second.2.2 ?_ ⟨fun disk' hdisk => ?_, trivial⟩
    (List.isEmpty_iff.1 hdue')
  · rw [← hsecond]
    rfl
  · cases hdisk
    exact ⟨List.isEmpty_iff.1 hdue, hstands⟩

/-- A chunk that stands in every document is sent again after a run in which the chunk in front of it has failed. -/
theorem Session.answered_resent : ⟨chunkKey "Second one.", true⟩ ∈ wideSession.exchanged fallible firstDisk 0 ∧
    firstRun.1.isOk = true ∧ firstRun.2.1.due.isEmpty = true ∧
    chunkKey "Second one." ∈ (firstRun.2.1.docTexts anotherDisk).flatMap firstRun.2.1.pipeline.keys ∧
    ⟨chunkKey "Another one.\n\n", false⟩ ∈ firstRun.2.1.exchanged fallible anotherDisk firstRun.2.2 ∧
    (secondRun anotherDisk).2.1.due.isEmpty = true ∧
    chunkKey "Second one." ∈ ((secondRun anotherDisk).2.1.docTexts anotherDisk).flatMap
      (secondRun anotherDisk).2.1.pipeline.keys ∧
    ⟨chunkKey "Second one.", true⟩ ∈ (secondRun anotherDisk).2.1.exchanged fallible anotherDisk (secondRun anotherDisk).2.2 := by
  decide +kernel

end Proofreader
