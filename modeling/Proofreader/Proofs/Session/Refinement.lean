import Proofreader.Proofs.Session.Course

/-! A service that keeps more to itself than another one, and otherwise does the same. A session cannot tell them apart. -/

namespace Proofreader

variable {σ τ β γ ι : Type}

/-- Seen through `f` and `g`, the one service does what the other one does. -/
structure Provider.Refines (f : σ → τ) (g : β → γ) (p : Provider σ β ι) (q : Provider τ γ ι) : Prop where
  create : ∀ i tag w, q.create i tag (f w) = ((p.create i tag w).1.map g, f (p.create i tag w).2)
  check : ∀ text profile b w, q.check text profile (g b) (f w) =
    ((p.check text profile b w).1, g (p.check text profile b w).2.1, f (p.check text profile b w).2.2)
  close : ∀ b w, q.close (g b) (f w) = f (p.close b w)

def Checking.seen (f : σ → τ) (g : β → γ) (c : Checking σ β) : Checking τ γ := ⟨c.next, c.calls, g c.backend, f c.world⟩

section

variable {f : σ → τ} {g : β → γ} {p : Provider σ β ι} {q : Provider τ γ ι}

theorem checkChunk_seen (h : p.Refines f g q) (last : Cache) (profile : Profile) (chunk : Chunk) (c : Checking σ β) :
    checkChunk q last profile chunk (c.seen f g) =
      ((checkChunk p last profile chunk c).1, (checkChunk p last profile chunk c).2.seen f g) := by
  unfold checkChunk Checking.seen
  dsimp only
  cases (c.next.lookup (profile.cacheKey chunk.text)).or (last.lookup (profile.cacheKey chunk.text)) with
  | some fs => rfl
  | none =>
    dsimp only
    rw [h.check]
    rcases p.check chunk.text profile c.backend c.world with ⟨answer, b, w⟩
    cases answer with
    | ok fs => rfl
    | error e => rfl

theorem checkChunks_seen (h : p.Refines f g q) (last : Cache) (profile : Profile) (chunks : List Chunk) (c : Checking σ β) :
    checkChunks q last profile chunks (c.seen f g) =
      ((checkChunks p last profile chunks c).1, (checkChunks p last profile chunks c).2.seen f g) := by
  induction chunks generalizing c with
  | nil => rfl
  | cons chunk r ih =>
    rw [checkChunks, checkChunks, checkChunk_seen h]
    rcases checkChunk p last profile chunk c with ⟨one, mid⟩
    cases one with
    | error e => rfl
    | ok fs =>
      dsimp only
      rw [ih mid]
      rcases checkChunks p last profile r mid with ⟨rest, c'⟩
      cases rest with
      | error e => rfl
      | ok gs => rfl

end

namespace Session

variable {f : σ → τ} {g : β → γ} {p : Provider σ β Selection} {q : Provider τ γ Selection}

def seen (g : β → γ) (s : Session β) : Session γ :=
  ⟨s.project, s.pipeline, s.pending, s.backend.map g, s.launchFailure, s.cache, s.previous, s.published, s.runs, s.status⟩

theorem checkText_seen (h : p.Refines f g q) (pipeline : Pipeline) (last : Cache) (t : CheckedText) (c : Checking σ β) :
    checkText pipeline q last t (c.seen f g) =
      ((checkText pipeline p last t c).1, (checkText pipeline p last t c).2.1,
        (checkText pipeline p last t c).2.2.seen f g) := by
  have hchunks := checkChunks_seen h last t.profile
    (pipeline.chunker.split t.text (t.pageBreaks.map fun (b : Nat) => (b : Int))) { c with calls := 0 }
  unfold Checking.seen at hchunks
  dsimp only at hchunks
  unfold checkText Checking.seen
  dsimp only
  rw [hchunks]
  rcases checkChunks p last t.profile (pipeline.chunker.split t.text (t.pageBreaks.map fun (b : Nat) => (b : Int)))
    { c with calls := 0 } with ⟨got, c'⟩
  cases got with
  | error e => rfl
  | ok fs =>
    dsimp only
    split
    · rfl
    · rfl

theorem checkTexts_seen (h : p.Refines f g q) (pipeline : Pipeline) (last : Cache) (texts : List CheckedText)
    (c : Checking σ β) :
    checkTexts pipeline q last texts (c.seen f g) =
      ((checkTexts pipeline p last texts c).1, (checkTexts pipeline p last texts c).2.seen f g) := by
  induction texts generalizing c with
  | nil => rfl
  | cons t r ih =>
    rw [checkTexts, checkTexts, checkText_seen h]
    rcases checkText pipeline p last t c with ⟨result, problem, mid⟩
    dsimp only
    rw [ih mid]

theorem applyPending_seen (h : p.Refines f g q) (s : Session β) (w : σ) :
    (s.seen g).applyPending q (f w) =
      ((s.applyPending p w).1, (s.applyPending p w).2.1.seen g, f (s.applyPending p w).2.2) := by
  obtain ⟨project, pipeline, pending, backend, launchFailure, cache, previous, published, runs, status⟩ := s
  unfold applyPending seen
  cases pending with
  | none => rfl
  | some c =>
    dsimp only
    cases Pipeline.ofSettings c with
    | error e => rfl
    | ok new =>
      dsimp only
      cases new.sameService pipeline with
      | true => rfl
      | false =>
        cases backend with
        | none => rfl
        | some b =>
          dsimp only [Option.map, Option.elim]
          rw [h.close]
          rfl

theorem ensureBackend_seen (h : p.Refines f g q) (s : Session β) (w : σ) :
    (s.seen g).ensureBackend q (f w) =
      ((s.ensureBackend p w).1.map g, (s.ensureBackend p w).2.1.seen g, f (s.ensureBackend p w).2.2) := by
  obtain ⟨project, pipeline, pending, backend, launchFailure, cache, previous, published, runs, status⟩ := s
  unfold ensureBackend seen
  dsimp only
  cases pipeline.selection with
  | error e => rfl
  | ok selection =>
    cases launchFailure with
    | some message => rfl
    | none =>
      cases backend with
      | some b => rfl
      | none =>
        dsimp only [Option.map]
        rw [h.create]
        rcases p.create selection pipeline.settings.defaultTag w with ⟨created, v⟩
        cases created with
        | ok b => rfl
        | error e => rfl

theorem finish_seen (g : β → γ) (s : Session β) (disk : Disk) (d : Draw) :
    (s.seen g).finish disk d = (s.finish disk d).map fun x => (x.1, x.2.seen g) := by
  unfold finish seen
  dsimp only [bind, Except.bind]
  split
  · rfl
  · rfl

theorem complete_seen (f : σ → τ) (g : β → γ) (s : Session β) (disk : Disk) (view : Snapshot) (r : Report) (next : Cache)
    (w : σ) :
    (s.seen g).complete disk view r next (f w) =
      ((s.complete disk view r next w).1, (s.complete disk view r next w).2.1.seen g,
        f (s.complete disk view r next w).2.2) := by
  unfold complete
  rw [finish_seen]
  cases s.finish disk ⟨r, view⟩ with
  | error m => rfl
  | ok x => rfl

theorem runChecks_seen (h : p.Refines f g q) (disk : Disk) (s : Session β) (w : σ) :
    (s.seen g).runChecks q disk (f w) =
      ((s.runChecks p disk w).1, (s.runChecks p disk w).2.1.seen g, f (s.runChecks p disk w).2.2) := by
  rcases hcompile : s.project.snapshot.compile disk with ⟨root, warnings, view⟩
  have hcompile' : (s.seen g).project.snapshot.compile disk = (root, warnings, view) := hcompile
  have hservice := ensureBackend_seen h s w
  unfold runChecks
  rw [hcompile, hcompile']
  dsimp only
  cases root with
  | none =>
    exact complete_seen f g s disk view
      { s.blankReport warnings with status := .error, errors := [mainMissing s.project.main] } s.cache w
  | some root =>
    dsimp only
    rw [hservice]
    rcases s.ensureBackend p w with ⟨service, mid, v⟩
    cases service with
    | error e =>
      cases e with
      | mishap m => rfl
      | problem e =>
        dsimp only [Except.map]
        cases e.kind with
        | launch =>
          exact complete_seen f g { mid with launchFailure := some e.message } disk view
            (mid.failAll (s.docReport warnings root) (s.checkedTexts root) e) mid.cache v
        | configuration =>
          exact complete_seen f g mid disk view (mid.failAll (s.docReport warnings root) (s.checkedTexts root) e) mid.cache v
        | general => rfl
        | connection => rfl
        | mapping => rfl
    | ok b =>
      have htexts := checkTexts_seen h mid.pipeline mid.cache (s.checkedTexts root) ⟨[], 0, b, v⟩
      rcases hcheck : checkTexts mid.pipeline p mid.cache (s.checkedTexts root) ⟨[], 0, b, v⟩ with ⟨results, c⟩
      rw [hcheck] at htexts
      unfold checkedTexts at hcheck htexts
      dsimp only [Except.map]
      dsimp only [Checking.seen, seen] at htexts ⊢
      rw [hcheck, htexts]
      exact complete_seen f g
        { (mid.conclude (s.docReport warnings root) results).2 with backend := some c.backend } disk view
        (mid.conclude (s.docReport warnings root) results).1 c.next c.world

/-- A run is the same with the one service and with the other one. -/
theorem run_seen (h : p.Refines f g q) (disk : Disk) (s : Session β) (w : σ) :
    (s.seen g).run q disk (f w) = ((s.run p disk w).1, (s.run p disk w).2.1.seen g, f (s.run p disk w).2.2) := by
  have hpending := applyPending_seen h s.begun w
  rcases hsettled : s.begun.applyPending p w with ⟨settled, mid, v⟩
  rw [hsettled] at hpending
  have hbegun : (s.seen g).begun = s.begun.seen g := rfl
  rw [← hbegun] at hpending
  cases settled with
  | error e =>
    rw [run_unsettled hpending, run_unsettled hsettled]
    rfl
  | ok u =>
    have hchecks := runChecks_seen h disk mid v
    rcases hrun : mid.runChecks p disk v with ⟨out, s', v'⟩
    rw [hrun] at hchecks
    cases out with
    | error e =>
      rw [run_raised hpending hchecks, run_raised hsettled hrun]
      rfl
    | ok r => rw [run_reported hpending hchecks, run_reported hsettled hrun]

theorem close_seen (h : p.Refines f g q) (s : Session β) (w : σ) :
    (s.seen g).close q (f w) = ((s.close p w).1.seen g, f (s.close p w).2) := by
  obtain ⟨project, pipeline, pending, backend, launchFailure, cache, previous, published, runs, status⟩ := s
  unfold close seen
  cases backend with
  | none => rfl
  | some b =>
    dsimp only [Option.map, Option.elim]
    rw [h.close]

end Session

end Proofreader
