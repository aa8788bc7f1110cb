import Mathlib.Logic.Function.Iterate
import Proofreader.Proofs.Session.Private

/-! The checks of several texts at once. Workers take the texts in order. A lookup, a request and a note in the cache are
one step each, and the steps of different texts may come in any order. -/

namespace Proofreader

/-- What a check does next for its first chunk. -/
inductive Task.Phase where
  | lookup
  | ask
  | store (fs : List Finding)

/-- The check of one text, with the chunks that are left and what has come of the others. -/
structure Task where
  text : CheckedText
  rest : List Chunk
  phase : Task.Phase
  found : List Finding
  calls : Nat
  failure : Option Fault

variable {σ β ι : Type}

namespace Task

def start (q : Pipeline) (t : CheckedText) : Task := ⟨t, q.chunker.chunks t, .lookup, [], 0, none⟩

def finished (t : Task) : Bool := t.failure.isSome || t.rest.isEmpty

def got (t : Task) : Except Fault (List Finding) :=
  match t.failure with
  | some e => .error e
  | none => .ok t.found

def step (provider : Provider σ β ι) (last : Cache) (t : Task) (b : Board σ β) : Task × Board σ β :=
  match t.failure, t.rest with
  | none, chunk :: r =>
    let key := t.text.profile.cacheKey chunk.text
    match t.phase with
    | .lookup =>
      match (b.next.lookup key).or (last.lookup key) with
      | some fs => ({ t with phase := .store fs }, b)
      | none => ({ t with phase := .ask }, b)
    | .ask =>
      match provider.check chunk.text t.text.profile b.backend b.world with
      | (.ok fs, backend, world) => ({ t with phase := .store fs, calls := t.calls + 1 }, ⟨b.next, backend, world⟩)
      | (.error e, backend, world) => ({ t with failure := some e }, ⟨b.next, backend, world⟩)
    | .store fs =>
      ({ t with rest := r, phase := .lookup, found := t.found ++ chunk.translate fs },
        { b with next := (key, fs) :: b.next })
  | _, _ => (t, b)

/-- How many steps may be left. -/
def steps (t : Task) : Nat :=
  if t.finished then 0
  else
    match t.phase with
    | .lookup => 3 * t.rest.length
    | .ask => 3 * t.rest.length - 1
    | .store _ => 3 * t.rest.length - 2

end Task

structure Pool (σ β : Type) where
  tasks : List Task
  board : Board σ β

namespace Pool

/-- One step of a task, unless all workers are busy with tasks before it. -/
def turn (provider : Provider σ β ι) (last : Cache) (workers : Nat) (p : Pool σ β) (i : Nat) : Pool σ β :=
  match p.tasks[i]? with
  | none => p
  | some t =>
    if (p.tasks.take i).countP (!·.finished) < max 1 workers then
      ⟨p.tasks.set i (t.step provider last p.board).1, (t.step provider last p.board).2⟩
    else p

/-- The tasks take their turns as a schedule says. -/
def play (provider : Provider σ β ι) (last : Cache) (workers : Nat) (p : Pool σ β) (schedule : List Nat) : Pool σ β :=
  schedule.foldl (turn provider last workers) p

/-- The tasks of some texts after a schedule. What is not done when it ends is done in order. -/
def after (provider : Provider σ β ι) (last : Cache) (workers : Nat) (q : Pipeline) (texts : List CheckedText)
    (b : Board σ β) (schedule : List Nat) : Pool σ β :=
  let most := 3 * (texts.flatMap q.chunker.chunks).length
  play provider last workers ⟨texts.map (Task.start q), b⟩
    (schedule ++ (List.range texts.length).flatMap (List.replicate most))

end Pool

/-- Checks texts at once. -/
def checkAtOnce (workers : Nat) (schedule : List Nat) (q : Pipeline) (provider : Provider σ β ι) (last : Cache)
    (texts : List CheckedText) (b : Board σ β) :
    List (CheckedText × LanguageResult × Option Problem) × Board σ β :=
  let pool := Pool.after provider last workers q texts b schedule
  (pool.tasks.map fun t => (t.text, q.judge t.text t.got t.calls), pool.board)

namespace Task

variable {provider : Provider σ β ι} {last : Cache} {t t' : Task} {a b b' : Board σ β}
variable {asked : String → β → σ → List CacheKey} {answer : List CacheKey → Except Fault (List Finding)} {tag : String}

/-- What a step can do. -/
inductive Moved (provider : Provider σ β ι) (last : Cache) : Task → Board σ β → Task → Board σ β → Prop
  | idle {t : Task} {b : Board σ β} : t.finished = true → Moved provider last t b t b
  | known {text : CheckedText} {chunk : Chunk} {r : List Chunk} {found fs : List Finding} {calls : Nat} {b : Board σ β} :
      (b.next.lookup (text.profile.cacheKey chunk.text)).or (last.lookup (text.profile.cacheKey chunk.text)) = some fs →
      Moved provider last ⟨text, chunk :: r, .lookup, found, calls, none⟩ b
        ⟨text, chunk :: r, .store fs, found, calls, none⟩ b
  | unknown {text : CheckedText} {chunk : Chunk} {r : List Chunk} {found : List Finding} {calls : Nat} {b : Board σ β} :
      (b.next.lookup (text.profile.cacheKey chunk.text)).or (last.lookup (text.profile.cacheKey chunk.text)) = none →
      Moved provider last ⟨text, chunk :: r, .lookup, found, calls, none⟩ b
        ⟨text, chunk :: r, .ask, found, calls, none⟩ b
  | answered {text : CheckedText} {chunk : Chunk} {r : List Chunk} {found fs : List Finding} {calls : Nat}
      {b : Board σ β} {backend : β} {world : σ} :
      provider.check chunk.text text.profile b.backend b.world = (.ok fs, backend, world) →
      Moved provider last ⟨text, chunk :: r, .ask, found, calls, none⟩ b
        ⟨text, chunk :: r, .store fs, found, calls + 1, none⟩ ⟨b.next, backend, world⟩
  | failed {text : CheckedText} {chunk : Chunk} {r : List Chunk} {found : List Finding} {calls : Nat}
      {b : Board σ β} {backend : β} {world : σ} {e : Fault} :
      provider.check chunk.text text.profile b.backend b.world = (.error e, backend, world) →
      Moved provider last ⟨text, chunk :: r, .ask, found, calls, none⟩ b
        ⟨text, chunk :: r, .ask, found, calls, some e⟩ ⟨b.next, backend, world⟩
  | stored {text : CheckedText} {chunk : Chunk} {r : List Chunk} {found fs : List Finding} {calls : Nat}
      {b : Board σ β} :
      Moved provider last ⟨text, chunk :: r, .store fs, found, calls, none⟩ b
        ⟨text, r, .lookup, found ++ chunk.translate fs, calls, none⟩
        ⟨(text.profile.cacheKey chunk.text, fs) :: b.next, b.backend, b.world⟩

theorem moved_step (provider : Provider σ β ι) (last : Cache) (t : Task) (b : Board σ β) :
    Moved provider last t b (t.step provider last b).1 (t.step provider last b).2 := by
  obtain ⟨text, rest, phase, found, calls, failure⟩ := t
  cases failure with
  | some e => exact .idle rfl
  | none =>
    cases rest with
    | nil => exact .idle rfl
    | cons chunk r =>
      cases phase with
      | lookup =>
        simp only [step]
        split
        · next h => exact .known h
        · next h => exact .unknown h
      | ask =>
        simp only [step]
        split
        · next h => exact .answered h
        · next h => exact .failed h
      | store fs => exact .stored

theorem Moved.text (h : Moved provider last t b t' b') : t'.text = t.text := by
  cases h with
  | _ => rfl

theorem Moved.eq_of_finished (h : Moved provider last t b t' b') (ht : t.finished = true) : t' = t ∧ b' = b := by
  cases h with
  | idle => exact ⟨rfl, rfl⟩
  | _ => cases ht

section

variable (text : CheckedText) (rest : List Chunk) (found : List Finding) (calls : Nat)

theorem steps_lookup : steps ⟨text, rest, .lookup, found, calls, none⟩ = 3 * rest.length := by
  cases rest with
  | nil => rfl
  | cons chunk r => rfl

theorem steps_ask : steps ⟨text, rest, .ask, found, calls, none⟩ = 3 * rest.length - 1 := by
  cases rest with
  | nil => rfl
  | cons chunk r => rfl

theorem steps_store (fs : List Finding) : steps ⟨text, rest, .store fs, found, calls, none⟩ = 3 * rest.length - 2 := by
  cases rest with
  | nil => rfl
  | cons chunk r => rfl

theorem steps_failed (phase : Phase) (e : Fault) : steps ⟨text, rest, phase, found, calls, some e⟩ = 0 := rfl

end

/-- Every step brings a task that is not finished closer to its end. -/
theorem Moved.steps_lt (h : Moved provider last t b t' b') (ht : t.finished = false) : t'.steps < t.steps := by
  cases h with
  | idle h =>
    rw [h] at ht
    cases ht
  | known _ =>
    rw [steps_lookup, steps_store, List.length_cons]
    omega
  | unknown _ =>
    rw [steps_lookup, steps_ask, List.length_cons]
    omega
  | answered _ =>
    rw [steps_ask, steps_store, List.length_cons]
    omega
  | failed _ =>
    rw [steps_ask, steps_failed, List.length_cons]
    omega
  | stored =>
    rw [steps_store, steps_lookup, List.length_cons]
    omega

theorem Moved.steps_le (h : Moved provider last t b t' b') : t'.steps ≤ t.steps := by
  cases ht : t.finished with
  | true => exact (congrArg steps (h.eq_of_finished ht).1).le
  | false => exact (h.steps_lt ht).le

/-- A step of a task leaves what belongs to other tags as it is. -/
theorem Moved.others (hp : provider.Private asked answer) (h : Moved provider last t b t' b')
    (htag : t.text.profile.tag ≠ tag) : b'.Agrees asked tag b := by
  cases h with
  | answered hcheck => exact ⟨fun _ _ => rfl, hp.others hcheck htag⟩
  | failed hcheck => exact ⟨fun _ _ => rfl, hp.others hcheck htag⟩
  | @stored text chunk =>
    have hkey : (text.profile.cacheKey chunk.text).tag ≠ tag := htag
    exact .cons_of_ne hkey _
  | _ => exact .refl _

/-- What a step does to its own tag only depends on that tag. -/
theorem step_alike (last : Cache) (hp : provider.Private asked answer) (h : a.Agrees asked t.text.profile.tag b) :
    (t.step provider last a).1 = (t.step provider last b).1 ∧
      (t.step provider last a).2.Agrees asked t.text.profile.tag (t.step provider last b).2 := by
  obtain ⟨text, rest, phase, found, calls, failure⟩ := t
  cases failure with
  | some e => exact ⟨rfl, h⟩
  | none =>
    cases rest with
    | nil => exact ⟨rfl, h⟩
    | cons chunk r =>
      cases phase with
      | lookup =>
        simp only [step]
        rw [h.lookup (text.profile.cacheKey chunk.text) rfl]
        split
        · exact ⟨rfl, h⟩
        · exact ⟨rfl, h⟩
      | ask =>
        obtain ⟨ba, wa, hchecka, howna, -⟩ := hp chunk.text text.profile a.backend a.world
        obtain ⟨bb, wb, hcheckb, hownb, -⟩ := hp chunk.text text.profile b.backend b.world
        have hasked : asked text.profile.tag a.backend a.world = asked text.profile.tag b.backend b.world := h.asked
        rw [hasked] at hchecka howna
        rw [← hownb] at howna
        simp only [step]
        rw [hchecka, hcheckb]
        cases answer (text.profile.cacheKey chunk.text :: asked text.profile.tag b.backend b.world) with
        | ok fs => exact ⟨rfl, h.lookup, howna⟩
        | error e => exact ⟨rfl, h.lookup, howna⟩
      | store fs => exact ⟨rfl, h.cons _ _⟩

/-- A step of a task with the board it is made on. -/
def move (provider : Provider σ β ι) (last : Cache) (x : Task × Board σ β) : Task × Board σ β :=
  x.1.step provider last x.2

/-- What comes of a task that is left alone. -/
def outcome (provider : Provider σ β ι) (last : Cache) (t : Task) (b : Board σ β) : Task × Board σ β :=
  (move provider last)^[t.steps] (t, b)

theorem finished_of_steps (h : t.steps = 0) : t.finished = true := by
  obtain ⟨text, rest, phase, found, calls, failure⟩ := t
  by_contra hfinished
  cases rest with
  | nil => simp [finished] at hfinished
  | cons chunk r =>
    simp only [steps, if_neg hfinished, List.length_cons] at h
    cases phase with
    | _ =>
      dsimp only at h
      omega

theorem iterate_of_finished (h : t.finished = true) (n : Nat) : (move provider last)^[n] (t, b) = (t, b) := by
  induction n with
  | zero => rfl
  | succ n ih =>
    rw [Function.iterate_succ_apply', ih]
    obtain ⟨ht, hb⟩ := (moved_step provider last t b).eq_of_finished h
    exact Prod.ext ht hb

theorem finished_iterate {n : Nat} (h : t.steps ≤ n) : ((move provider last)^[n] (t, b)).1.finished = true := by
  induction n generalizing t b with
  | zero => exact finished_of_steps (Nat.le_zero.1 h)
  | succ n ih =>
    cases hfinished : t.finished with
    | true =>
      rw [iterate_of_finished hfinished]
      exact hfinished
    | false =>
      have hlt := (moved_step provider last t b).steps_lt hfinished
      rw [Function.iterate_succ_apply]
      exact ih (t := (t.step provider last b).1) (Nat.le_of_lt_succ (hlt.trans_le h))

theorem finished_outcome : (t.outcome provider last b).1.finished = true := finished_iterate le_rfl

/-- More steps change nothing. -/
theorem iterate_eq_outcome {n : Nat} (h : t.steps ≤ n) : (move provider last)^[n] (t, b) = t.outcome provider last b := by
  obtain ⟨k, rfl⟩ := Nat.exists_eq_add_of_le' h
  rw [Function.iterate_add_apply]
  exact iterate_of_finished finished_outcome k

theorem outcome_of_finished (h : t.finished = true) : t.outcome provider last b = (t, b) := iterate_of_finished h _

/-- After its own next step, the same comes of a task. -/
theorem outcome_step : (t.step provider last b).1.outcome provider last (t.step provider last b).2 =
    t.outcome provider last b := by
  cases hfinished : t.finished with
  | true =>
    obtain ⟨ht, hb⟩ := (moved_step provider last t b).eq_of_finished hfinished
    rw [ht, hb]
  | false =>
    have hlt := (moved_step provider last t b).steps_lt hfinished
    rw [← iterate_eq_outcome (Nat.le_pred_of_lt hlt), ← iterate_eq_outcome (le_refl t.steps)]
    obtain ⟨n, hn⟩ := Nat.exists_eq_add_one_of_ne_zero (Nat.ne_of_gt (Nat.zero_lt_of_lt hlt))
    rw [hn, Function.iterate_succ_apply]
    rfl

/-- What comes of a task only depends on what belongs to its tag. -/
theorem outcome_alike (last : Cache) (hp : provider.Private asked answer) (h : a.Agrees asked t.text.profile.tag b) :
    (t.outcome provider last a).1 = (t.outcome provider last b).1 ∧
      (t.outcome provider last a).2.Agrees asked t.text.profile.tag (t.outcome provider last b).2 := by
  have hiterate : ∀ n, ((move provider last)^[n] (t, a)).1 = ((move provider last)^[n] (t, b)).1 ∧
      ((move provider last)^[n] (t, a)).1.text = t.text ∧
      ((move provider last)^[n] (t, a)).2.Agrees asked t.text.profile.tag ((move provider last)^[n] (t, b)).2 := by
    intro n
    induction n with
    | zero => exact ⟨rfl, rfl, h⟩
    | succ n ih =>
      obtain ⟨htask, htext, hboard⟩ := ih
      rw [Function.iterate_succ_apply', Function.iterate_succ_apply', move, move, ← htask]
      rw [← htext] at hboard
      obtain ⟨hstep, hboard'⟩ := step_alike last hp hboard
      rw [htext] at hboard'
      exact ⟨hstep, (moved_step ..).text.trans htext, hboard'⟩
  exact ⟨(hiterate _).1, (hiterate _).2.2⟩

/-- After a chunk with findings the others are checked. -/
theorem checkChunks_cons {provider : Provider σ β ι} {last : Cache} {profile : Profile} {chunk : Chunk}
    {r : List Chunk} {fs : List Finding} {got : Except Fault (List Finding)} {c mid c' : Checking σ β}
    (hone : checkChunk provider last profile chunk c = (.ok fs, mid))
    (h : checkChunks provider last profile (chunk :: r) c = (got, c')) :
    ∃ rest, checkChunks provider last profile r mid = (rest, c') ∧ got = rest.map (chunk.translate fs ++ ·) := by
  rw [checkChunks, hone] at h
  dsimp only at h
  rcases hrest : checkChunks provider last profile r mid with ⟨rest, stop⟩
  rw [hrest] at h
  cases rest with
  | error e =>
    cases h
    exact ⟨_, rfl, rfl⟩
  | ok gs =>
    cases h
    exact ⟨_, rfl, rfl⟩

/-- What comes of a task that is left alone is what checking its chunks one after the other gives. -/
theorem outcome_eq {provider : Provider σ β ι} {last : Cache} {text : CheckedText} {chunks : List Chunk}
    (found : List Finding) {calls : Nat} {got : Except Fault (List Finding)} {c : Checking σ β}
    (h : checkChunks provider last text.profile chunks ⟨b.next, calls, b.backend, b.world⟩ = (got, c)) :
    ∃ t, outcome provider last ⟨text, chunks, .lookup, found, calls, none⟩ b = (t, c.board) ∧ t.text = text ∧
      t.calls = c.calls ∧ t.got = got.map (found ++ ·) := by
  induction chunks generalizing found calls b got c with
  | nil =>
    cases h
    refine ⟨_, outcome_of_finished rfl, rfl, rfl, ?_⟩
    simp [Task.got, Except.map]
  | cons chunk r ih =>
    -- once the chunk has its findings, they are stored, and the other chunks follow
    have hstored : ∀ {fs : List Finding} {calls : Nat} {b : Board σ β} {rest : Except Fault (List Finding)},
        checkChunks provider last text.profile r
          ⟨(text.profile.cacheKey chunk.text, fs) :: b.next, calls, b.backend, b.world⟩ = (rest, c) →
        got = rest.map (chunk.translate fs ++ ·) →
        ∃ t, outcome provider last ⟨text, chunk :: r, .store fs, found, calls, none⟩ b = (t, c.board) ∧
          t.text = text ∧ t.calls = c.calls ∧ t.got = got.map (found ++ ·) := by
      intro fs calls b rest hrest hgot
      obtain ⟨t, houtcome, htext, hcalls, htgot⟩ := ih (found ++ chunk.translate fs)
        (b := ⟨(text.profile.cacheKey chunk.text, fs) :: b.next, b.backend, b.world⟩) hrest
      rw [← outcome_step]
      refine ⟨t, houtcome, htext, hcalls, ?_⟩
      rw [htgot, hgot]
      cases rest with
      | error e => rfl
      | ok gs => exact congrArg Except.ok (List.append_assoc found (chunk.translate fs) gs)
    rcases hone : checkChunk provider last text.profile chunk ⟨b.next, calls, b.backend, b.world⟩ with ⟨one, mid⟩
    have hchunk := hone
    unfold checkChunk at hchunk
    dsimp only at hchunk
    rw [← outcome_step]
    cases hl : (b.next.lookup (text.profile.cacheKey chunk.text)).or (last.lookup (text.profile.cacheKey chunk.text)) with
    | some fs =>
      rw [hl] at hchunk
      cases hchunk
      obtain ⟨rest, hrest, hgot⟩ := checkChunks_cons hone h
      simp only [step, hl]
      exact hstored hrest hgot
    | none =>
      rw [hl] at hchunk
      simp only [step, hl]
      rw [← outcome_step]
      simp only [step]
      dsimp only at hchunk
      rcases hcheck : provider.check chunk.text text.profile b.backend b.world with ⟨answer, backend, world⟩
      rw [hcheck] at hchunk
      cases answer with
      | ok fs =>
        cases hchunk
        obtain ⟨rest, hrest, hgot⟩ := checkChunks_cons hone h
        exact hstored (b := ⟨b.next, backend, world⟩) hrest hgot
      | error e =>
        cases hchunk
        rw [checkChunks, hone] at h
        cases h
        exact ⟨_, outcome_of_finished rfl, rfl, rfl, rfl⟩

/-- A text that is checked alone gets the result that `checkText` gives it. -/
theorem outcome_start (provider : Provider σ β Selection) (last : Cache) (q : Pipeline) (text : CheckedText)
    (c : Checking σ β) :
    ∃ t, (start q text).outcome provider last c.board = (t, (Session.checkText q provider last text c).2.2.board) ∧
      t.text = text ∧ q.judge text t.got t.calls =
        ((Session.checkText q provider last text c).1, (Session.checkText q provider last text c).2.1) := by
  rcases hgot : checkChunks provider last text.profile (q.chunker.chunks text) { c with calls := 0 } with ⟨got, c'⟩
  obtain ⟨t, houtcome, htext, hcalls, htgot⟩ := outcome_eq [] (b := c.board) hgot
  rw [Session.checkText_eq hgot]
  refine ⟨t, houtcome, htext, ?_⟩
  rw [htgot, hcalls]
  cases got with
  | error e => rfl
  | ok fs => rfl

end Task

namespace Pool

variable {provider : Provider σ β ι} {last : Cache} {workers : Nat} {p : Pool σ β} {q : Pipeline} {b₀ : Board σ β}
variable {asked : String → β → σ → List CacheKey} {answer : List CacheKey → Except Fault (List Finding)}
variable {texts : List CheckedText} {i j : Nat} {t u : Task}

/-- What is kept while the tasks take their turns: left alone, each one would come to what it would have come to from the
beginning, and what belongs to no task is as it was. -/
structure Kept (asked : String → β → σ → List CacheKey) (provider : Provider σ β ι) (last : Cache) (q : Pipeline)
    (texts : List CheckedText) (b₀ : Board σ β) (p : Pool σ β) : Prop where
  order : p.tasks.map (·.text) = texts
  steps : ∀ (i : Nat) (t : Task), p.tasks[i]? = some t → t.steps ≤ (Task.start q t.text).steps
  own : ∀ (i : Nat) (t : Task), p.tasks[i]? = some t →
    (t.outcome provider last p.board).1 = ((Task.start q t.text).outcome provider last b₀).1 ∧
      (t.outcome provider last p.board).2.Agrees asked t.text.profile.tag
        ((Task.start q t.text).outcome provider last b₀).2
  others : ∀ tag, (∀ t ∈ texts, t.profile.tag ≠ tag) → p.board.Agrees asked tag b₀

theorem Kept.start (texts : List CheckedText) (b₀ : Board σ β) :
    Kept asked provider last q texts b₀ ⟨texts.map (Task.start q), b₀⟩ := by
  have hstart : ∀ (i : Nat) (t : Task), (texts.map (Task.start q))[i]? = some t → Task.start q t.text = t := by
    intro i t ht
    rw [List.getElem?_map, Option.map_eq_some_iff] at ht
    obtain ⟨text, -, rfl⟩ := ht
    rfl
  refine ⟨?_, fun i t ht => ?_, fun i t ht => ?_, fun _ _ => .refl _⟩
  · rw [List.map_map]
    exact List.map_id _
  · rw [hstart i t ht]
  · rw [hstart i t ht]
    exact ⟨rfl, .refl _⟩

theorem Kept.tag_ne (h : Kept asked provider last q texts b₀ p) (hnodup : (texts.map (·.profile.tag)).Nodup)
    (hi : p.tasks[i]? = some t) (hj : p.tasks[j]? = some u) (hij : i ≠ j) :
    t.text.profile.tag ≠ u.text.profile.tag := by
  intro he
  rw [← h.order, List.map_map] at hnodup
  refine hij ((List.getElem?_inj ?_ hnodup).1 ?_)
  · rw [List.length_map]
    exact (List.getElem?_eq_some_iff.1 hi).1
  · rw [List.getElem?_map, List.getElem?_map, hi, hj]
    exact congrArg some he

/-- One step of one task. -/
theorem Kept.set (h : Kept asked provider last q texts b₀ p) (hp : provider.Private asked answer)
    (hnodup : (texts.map (·.profile.tag)).Nodup) (hi : p.tasks[i]? = some t) :
    Kept asked provider last q texts b₀
      ⟨p.tasks.set i (t.step provider last p.board).1, (t.step provider last p.board).2⟩ := by
  have hmoved := Task.moved_step provider last t p.board
  have hframe : ∀ tag, t.text.profile.tag ≠ tag → (t.step provider last p.board).2.Agrees asked tag p.board :=
    fun tag htag => hmoved.others hp htag
  obtain ⟨hlt, hget⟩ := List.getElem?_eq_some_iff.1 hi
  refine ⟨?_, fun j u hu => ?_, fun j u hu => ?_, fun tag htag => ?_⟩
  · have hlength : i < (p.tasks.map (·.text)).length := by rwa [List.length_map]
    have hsame : (t.step provider last p.board).1.text = (p.tasks.map (·.text))[i] := by
      rw [hmoved.text, List.getElem_map, hget]
    rw [List.map_set, hsame, List.set_getElem_self, h.order]
  · obtain rfl | hij := eq_or_ne i j
    · rw [List.getElem?_set_self hlt] at hu
      cases hu
      rw [hmoved.text]
      exact hmoved.steps_le.trans (h.steps i t hi)
    · rw [List.getElem?_set_ne hij] at hu
      exact h.steps j u hu
  · obtain rfl | hij := eq_or_ne i j
    · rw [List.getElem?_set_self hlt] at hu
      cases hu
      rw [hmoved.text, Task.outcome_step]
      exact h.own i t hi
    · rw [List.getElem?_set_ne hij] at hu
      -- the board has changed, but not for the tag of this task
      obtain ⟨htask, hboard⟩ := h.own j u hu
      obtain ⟨htask', hboard'⟩ := Task.outcome_alike last hp (hframe _ (h.tag_ne hnodup hi hu hij))
      exact ⟨htask'.trans htask, hboard'.trans hboard⟩
  · refine (hframe tag ?_).trans (h.others tag htag)
    exact htag _ (h.order ▸ List.mem_map_of_mem (List.mem_of_getElem? hi))

theorem Kept.turn (h : Kept asked provider last q texts b₀ p) (hp : provider.Private asked answer)
    (hnodup : (texts.map (·.profile.tag)).Nodup) (workers i : Nat) :
    Kept asked provider last q texts b₀ (p.turn provider last workers i) := by
  unfold Pool.turn
  split
  · exact h
  · next t ht =>
    split
    · exact h.set hp hnodup ht
    · exact h

theorem Kept.play (h : Kept asked provider last q texts b₀ p) (hp : provider.Private asked answer)
    (hnodup : (texts.map (·.profile.tag)).Nodup) (workers : Nat) (schedule : List Nat) :
    Kept asked provider last q texts b₀ (p.play provider last workers schedule) := by
  induction schedule generalizing p with
  | nil => exact h
  | cons i r ih => exact ih (h.turn hp hnodup workers i)

theorem turn_eq (hi : p.tasks[i]? = some t) (hbefore : ∀ u ∈ p.tasks.take i, u.finished = true) :
    p.turn provider last workers i =
      ⟨p.tasks.set i (t.step provider last p.board).1, (t.step provider last p.board).2⟩ := by
  have hidle : (p.tasks.take i).countP (!·.finished) = 0 := by
    rw [List.countP_eq_zero]
    intro u hu
    simp [hbefore u hu]
  unfold Pool.turn
  rw [hi]
  dsimp only
  rw [hidle, if_pos (Nat.lt_of_lt_of_le Nat.one_pos (Nat.le_max_left 1 workers))]

/-- A task makes all of its steps once those before it are finished, however many workers there are. -/
theorem play_replicate (n : Nat) (hi : p.tasks[i]? = some t) (hbefore : ∀ u ∈ p.tasks.take i, u.finished = true) :
    p.play provider last workers (List.replicate n i) =
      ⟨p.tasks.set i ((Task.move provider last)^[n] (t, p.board)).1, ((Task.move provider last)^[n] (t, p.board)).2⟩ := by
  obtain ⟨hlt, hget⟩ := List.getElem?_eq_some_iff.1 hi
  induction n generalizing p t with
  | zero =>
    rw [Function.iterate_zero_apply, ← hget, List.set_getElem_self]
    rfl
  | succ n ih =>
    rw [List.replicate_succ, Pool.play, List.foldl_cons, turn_eq hi hbefore]
    refine (ih (t := (t.step provider last p.board).1) ?_ ?_ ?_ ?_).trans ?_
    · exact List.getElem?_set_self hlt
    · rwa [List.take_set_of_le (Nat.le_refl i)]
    · rwa [List.length_set]
    · exact List.getElem_set_self _
    · rw [List.set_set, Function.iterate_succ_apply]
      rfl

theorem Kept.finished_range {n k : Nat} (workers : Nat) (h : Kept asked provider last q texts b₀ p) (hp : provider.Private asked answer)
    (hnodup : (texts.map (·.profile.tag)).Nodup) (hn : ∀ t ∈ texts, (Task.start q t).steps ≤ n) (hk : k ≤ texts.length) :
    ∀ u ∈ (p.play provider last workers ((List.range k).flatMap (List.replicate n))).tasks.take k,
      u.finished = true := by
  induction k with
  | zero =>
    intro u hu
    rw [List.take_zero] at hu
    cases hu
  | succ k ih =>
    have hbefore := ih (Nat.le_of_succ_le hk)
    have hkept := h.play hp hnodup workers ((List.range k).flatMap (List.replicate n))
    have hplay : p.play provider last workers ((List.range (k + 1)).flatMap (List.replicate n)) =
        (p.play provider last workers ((List.range k).flatMap (List.replicate n))).play provider last workers
          (List.replicate n k) := by
      rw [List.range_succ, List.flatMap_append, List.flatMap_singleton, Pool.play, List.foldl_append]
      rfl
    rw [hplay]
    generalize p.play provider last workers ((List.range k).flatMap (List.replicate n)) = mid at hbefore hkept
    have hlt : k < mid.tasks.length := by
      rw [← hkept.order, List.length_map] at hk
      exact hk
    have hget : mid.tasks[k]? = some mid.tasks[k] := List.getElem?_eq_getElem hlt
    have hmem : mid.tasks[k].text ∈ texts := by
      rw [← hkept.order]
      exact List.mem_map_of_mem (List.getElem_mem hlt)
    have hsteps := (hkept.steps k _ hget).trans (hn _ hmem)
    rw [play_replicate n hget hbefore]
    intro u hu
    rw [List.take_add_one, List.take_set_of_le (Nat.le_refl k), List.getElem?_set_self hlt, List.mem_append] at hu
    rcases hu with hu | hu
    · exact hbefore u hu
    · rw [Option.toList_some, List.mem_singleton] at hu
      rw [hu]
      exact Task.finished_iterate hsteps

theorem Kept.after (hp : provider.Private asked answer) (hnodup : (texts.map (·.profile.tag)).Nodup)
    (b : Board σ β) (schedule : List Nat) :
    Kept asked provider last q texts b (Pool.after provider last workers q texts b schedule) :=
  (Kept.start texts b).play hp hnodup workers _

theorem finished_after (hp : provider.Private asked answer) (hnodup : (texts.map (·.profile.tag)).Nodup)
    (b : Board σ β) (schedule : List Nat) :
    ∀ t ∈ (Pool.after provider last workers q texts b schedule).tasks, t.finished = true := by
  have hmost : ∀ t ∈ texts, (Task.start q t).steps ≤ 3 * (texts.flatMap q.chunker.chunks).length := by
    intro t ht
    have hmem : q.chunker.chunks t ∈ texts.map q.chunker.chunks := List.mem_map_of_mem ht
    have hchunks := (List.sublist_flatten_of_mem hmem).length_le
    unfold Task.steps
    split
    · exact Nat.zero_le _
    · exact Nat.mul_le_mul_left 3 hchunks
  have hmid : Kept asked provider last q texts b (play provider last workers ⟨texts.map (Task.start q), b⟩ schedule) :=
    (Kept.start texts b).play hp hnodup workers schedule
  have hall := hmid.finished_range workers hp hnodup hmost (Nat.le_refl _)
  have hafter : Kept asked provider last q texts b (Pool.after provider last workers q texts b schedule) :=
    .after hp hnodup b schedule
  have hlength : (Pool.after provider last workers q texts b schedule).tasks.length = texts.length := by
    have horder := congrArg List.length hafter.order
    rwa [List.length_map] at horder
  rw [play, play, ← List.foldl_append] at hall
  change ∀ t ∈ (Pool.after provider last workers q texts b schedule).tasks.take texts.length, t.finished = true at hall
  rwa [List.take_of_length_le hlength.le] at hall

end Pool

namespace Session

variable {provider : Provider σ β Selection} {last : Cache} {q : Pipeline} {texts : List CheckedText}
variable {asked : String → β → σ → List CacheKey} {answer : List CacheKey → Except Fault (List Finding)}

/-- However many workers there are and however their steps are interleaved, every text is checked as if it were the only
one. -/
theorem checkAtOnce_eachAlone (hp : provider.Private asked answer) (hnodup : (texts.map (·.profile.tag)).Nodup)
    (workers : Nat) (schedule : List Nat) (c : Checking σ β) :
    EachAlone asked q provider last texts c (checkAtOnce workers schedule q provider last texts c.board).1
      (checkAtOnce workers schedule q provider last texts c.board).2 := by
  have hkept : Pool.Kept asked provider last q texts c.board (.after provider last workers q texts c.board schedule) :=
    .after hp hnodup c.board schedule
  have hfinished : ∀ t ∈ (Pool.after provider last workers q texts c.board schedule).tasks, t.finished = true :=
    Pool.finished_after hp hnodup c.board schedule
  unfold checkAtOnce
  dsimp only
  generalize Pool.after provider last workers q texts c.board schedule = pool at hkept hfinished
  have halone : ∀ t ∈ pool.tasks,
      q.judge t.text t.got t.calls =
          ((checkText q provider last t.text c).1, (checkText q provider last t.text c).2.1) ∧
        pool.board.Agrees asked t.text.profile.tag (checkText q provider last t.text c).2.2.board := by
    intro t ht
    obtain ⟨i, hi⟩ := List.getElem?_of_mem ht
    obtain ⟨htask, hboard⟩ := hkept.own i t hi
    obtain ⟨u, houtcome, -, hjudge⟩ := Task.outcome_start provider last q t.text c
    rw [Task.outcome_of_finished (hfinished t ht), houtcome] at htask hboard
    dsimp only at htask hboard
    subst htask
    exact ⟨hjudge, hboard⟩
  refine ⟨?_, fun text htext => ?_, hkept.others⟩
  · rw [← hkept.order, List.map_map]
    exact List.map_congr_left fun t ht => congrArg _ (halone t ht).1
  · rw [← hkept.order] at htext
    obtain ⟨t, ht, rfl⟩ := List.mem_map.1 htext
    exact (halone t ht).2

end Session

end Proofreader
