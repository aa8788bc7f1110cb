import Proofreader.Proofs.Mapping.Located
import Proofreader.Session.Basic

/-! The check of the texts of a run, one after the other: what is reported of each, and what holds of all of them. -/

namespace Proofreader

/-- What is reported of a text, once all of its chunks have been answered or one has failed. -/
def Pipeline.judge (q : Pipeline) (t : CheckedText) (got : Except Fault (List Finding)) (calls : Nat) :
    LanguageResult × Option Problem :=
  match got with
  | .error e => (⟨t.profile, [], 0, calls, none, false⟩, some (Session.checkProblem t.profile.tag e))
  | .ok fs =>
    match q.mapper.map t (q.chunker.forced t) fs with
    | .error m => (⟨t.profile, [], (q.chunker.chunks t).length, calls, none, false⟩,
        some (Session.checkProblem t.profile.tag (.mishap m)))
    | .ok ds => (⟨t.profile, ds, (q.chunker.chunks t).length, calls, none, false⟩, none)

namespace Session

variable {σ β : Type} {provider : Provider σ β Selection} {pipeline : Pipeline} {last : Cache} {t : CheckedText}
variable {texts : List CheckedText} {c c' : Checking σ β}

theorem checkText_eq {got : Except Fault (List Finding)}
    (h : checkChunks provider last t.profile (pipeline.chunker.chunks t) { c with calls := 0 } = (got, c')) :
    checkText pipeline provider last t c =
      ((pipeline.judge t got c'.calls).1, (pipeline.judge t got c'.calls).2, c') := by
  rw [Chunker.chunks] at h
  unfold checkText
  dsimp only
  rw [h]
  cases got with
  | error e => rfl
  | ok fs =>
    unfold Pipeline.judge Chunker.forced Chunker.chunks
    dsimp only
    generalize pipeline.mapper.map t _ fs = shown
    cases shown with
    | error m => rfl
    | ok ds => rfl

/-- All that is shown of a text was found in it. -/
theorem of_mem_judge {got : Except Fault (List Finding)} {calls : Nat} {d : Diagnostic}
    (hd : d ∈ (pipeline.judge t got calls).1.diagnostics) :
    ∃ fs ds, got = .ok fs ∧ pipeline.mapper.map t (pipeline.chunker.forced t) fs = .ok ds ∧ d ∈ ds := by
  cases got with
  | error e => cases hd
  | ok fs =>
    cases hmap : pipeline.mapper.map t (pipeline.chunker.forced t) fs with
    | error m =>
      rw [Pipeline.judge, hmap] at hd
      cases hd
    | ok ds =>
      rw [Pipeline.judge, hmap] at hd
      exact ⟨fs, ds, rfl, hmap, hd⟩

/-- Each text has its result, in the same order. What the check of one text keeps true, the check of all does. -/
theorem forall_checkTexts {I : Checking σ β → Prop} {P : CheckedText × LanguageResult × Option Problem → Prop}
    {results : List (CheckedText × LanguageResult × Option Problem)}
    (hstep : ∀ t ∈ texts, ∀ c result problem c', I c → checkText pipeline provider last t c = (result, problem, c') →
      I c' ∧ P (t, result, problem))
    (hc : I c) (h : checkTexts pipeline provider last texts c = (results, c')) :
    I c' ∧ results.map Prod.fst = texts ∧ ∀ x ∈ results, P x := by
  induction texts generalizing c c' results with
  | nil =>
    cases h
    exact ⟨hc, rfl, List.forall_mem_nil _⟩
  | cons t r ih =>
    rw [checkTexts] at h
    rcases htext : checkText pipeline provider last t c with ⟨result, problem, mid⟩
    obtain ⟨hmid, hresult⟩ := hstep t List.mem_cons_self c result problem mid hc htext
    rw [htext] at h
    dsimp only at h
    rcases hrest : checkTexts pipeline provider last r mid with ⟨rest, stop⟩
    obtain ⟨hstop, htexts, hresults⟩ := ih (fun u hu => hstep u (List.mem_cons_of_mem _ hu)) hmid hrest
    rw [hrest] at h
    cases h
    exact ⟨hstop, congrArg (t :: ·) htexts, List.forall_mem_cons.2 ⟨hresult, hresults⟩⟩

end Session

end Proofreader

/-! ### One text

A service that keeps to its types only ever leaves typed findings in the cache, so
the check fails only where the service does. -/

namespace Proofreader

variable {σ β ι : Type}

/-- The service gives findings of their declared types, if it gives any. -/
def Provider.Typed (provider : Provider σ β ι) : Prop :=
  ∀ text profile b w fs b' w', provider.check text profile b w = (.ok fs, b', w') → ∀ f ∈ fs, f.Typed

def Cache.Typed (c : Cache) : Prop := ∀ x ∈ c, ∀ f ∈ x.2, f.Typed

theorem Cache.typed_nil : Cache.Typed [] := List.forall_mem_nil _

/-- All findings that the service gives satisfy `P`. -/
def Provider.Gives (provider : Provider σ β ι) (P : Finding → Prop) : Prop :=
  ∀ text profile b w fs b' w', provider.check text profile b w = (.ok fs, b', w') → ∀ f ∈ fs, P f

def Cache.Holds (c : Cache) (P : Finding → Prop) : Prop := ∀ x ∈ c, ∀ f ∈ x.2, P f

theorem Cache.holds_nil (P : Finding → Prop) : Cache.Holds [] P := List.forall_mem_nil _

section

variable {provider : Provider σ β ι} {last : Cache} {profile : Profile} {chunk : Chunk} {chunks : List Chunk}
variable {c c' : Checking σ β} {got : Except Fault (List Finding)} {P : Finding → Prop}

theorem Cache.Holds.cons {c : Cache} (h : c.Holds P) {key : CacheKey} {fs : List Finding} (hfs : ∀ f ∈ fs, P f) :
    Cache.Holds ((key, fs) :: c) P := by
  intro x hx
  rcases List.mem_cons.1 hx with rfl | hx
  · exact hfs
  · exact h x hx

theorem Cache.Holds.of_lookup {key : CacheKey} {fs : List Finding} {a b : Cache} (ha : a.Holds P) (hb : b.Holds P)
    (h : (a.lookup key).or (b.lookup key) = some fs) : ∀ f ∈ fs, P f := by
  rcases Option.or_eq_some_iff.1 h with h | ⟨-, h⟩
  · exact ha _ (mem_of_lookup h)
  · exact hb _ (mem_of_lookup h)

theorem Provider.Gives.checkChunk (hp : provider.Gives P) (hlast : last.Holds P) (hnext : c.next.Holds P)
    (h : Proofreader.checkChunk provider last profile chunk c = (got, c')) :
    c'.next.Holds P ∧ ∀ fs, got = .ok fs → ∀ f ∈ fs, P f := by
  unfold Proofreader.checkChunk at h
  dsimp only at h
  split at h
  · next fs hfs =>
    cases h
    have hfs := hnext.of_lookup hlast hfs
    exact ⟨hnext.cons hfs, fun _ he => Except.ok.inj he ▸ hfs⟩
  · split at h
    · next fs b w hcheck =>
      cases h
      have hfs := hp _ _ _ _ _ _ _ hcheck
      exact ⟨hnext.cons hfs, fun _ he => Except.ok.inj he ▸ hfs⟩
    · cases h
      exact ⟨hnext, nofun⟩

/-- Over all chunks the cache keeps what all findings satisfy wherever they lie, and so do the findings that come of it. -/
theorem Provider.Gives.checkChunks (hp : provider.Gives P) (hshift : ∀ f n, P f → P (f.shift n)) (hlast : last.Holds P)
    (hnext : c.next.Holds P) (h : Proofreader.checkChunks provider last profile chunks c = (got, c')) :
    c'.next.Holds P ∧ ∀ fs, got = .ok fs → ∀ f ∈ fs, P f := by
  induction chunks generalizing c c' got with
  | nil =>
    cases h
    exact ⟨hnext, fun fs he => Except.ok.inj he ▸ List.forall_mem_nil _⟩
  | cons chunk r ih =>
    rw [Proofreader.checkChunks] at h
    rcases hchunk : Proofreader.checkChunk provider last profile chunk c with ⟨one, mid⟩
    obtain ⟨hmid, hone⟩ := hp.checkChunk hlast hnext hchunk
    rw [hchunk] at h
    cases one with
    | error e =>
      cases h
      exact ⟨hmid, nofun⟩
    | ok fs =>
      dsimp only at h
      rcases hrest : Proofreader.checkChunks provider last profile r mid with ⟨rest, end_⟩
      obtain ⟨hend, hgot⟩ := ih hmid hrest
      rw [hrest] at h
      cases rest with
      | error e =>
        cases h
        exact ⟨hend, nofun⟩
      | ok gs =>
        cases h
        refine ⟨hend, fun _ he f hf => ?_⟩
        rw [← Except.ok.inj he, List.mem_append] at hf
        rcases hf with hf | hf
        · exact Chunk.of_mem_translate hshift (hone fs rfl) hf
        · exact hgot gs rfl f hf

theorem typed_checkChunks (hp : provider.Typed) (hlast : last.Typed) (hnext : c.next.Typed)
    (h : checkChunks provider last profile chunks c = (got, c')) :
    c'.next.Typed ∧ ∀ fs, got = .ok fs → ∀ f ∈ fs, f.Typed :=
  Provider.Gives.checkChunks hp (fun _ n hf => hf.shift n) hlast hnext h

end

variable {p : Project} {disk : Disk} {root : Node} {warnings : List Warning} {view : Snapshot}
variable {table : Table} {r : Resolver} {language : Language} {t : CheckedText} {last : Cache} {c c' : Checking σ β}

/-- Whatever the service gives, all that a check shows lies in the files of the document. -/
theorem Session.holds_of_checkText {provider : Provider σ β Selection} (hp : p.Reachable)
    (h : p.snapshot.compile disk = (some root, warnings, view)) (ht : t ∈ (extract table r language root).texts)
    {pipeline : Pipeline} {result : LanguageResult} {problem : Option Problem}
    (hcheck : checkText pipeline provider last t c = (result, problem, c')) :
    ∀ d ∈ result.diagnostics, view.Holds d.location := by
  rcases hgot : checkChunks provider last t.profile (pipeline.chunker.chunks t) { c with calls := 0 } with ⟨got, mid⟩
  rw [checkText_eq hgot] at hcheck
  cases hcheck
  intro d hd
  obtain ⟨fs, ds, -, hmap, hd⟩ := of_mem_judge hd
  obtain ⟨f, -, hshows⟩ := Mapper.shows_of_mem_map hmap d hd
  exact ((Project.covers hp h).holds_of_shows ht hshows).1

theorem Session.holds_of_checkTexts {provider : Provider σ β Selection} (hp : p.Reachable)
    (h : p.snapshot.compile disk = (some root, warnings, view)) {texts : List CheckedText}
    (htexts : ∀ t ∈ texts, t ∈ (extract table r language root).texts) {pipeline : Pipeline}
    {results : List (CheckedText × LanguageResult × Option Problem)}
    (hcheck : checkTexts pipeline provider last texts c = (results, c')) :
    ∀ x ∈ results, ∀ d ∈ x.2.1.diagnostics, view.Holds d.location :=
  (forall_checkTexts (I := fun _ => True)
    (fun t ht _ _ _ _ _ htext => ⟨trivial, holds_of_checkText hp h (htexts t ht) htext⟩) trivial hcheck).2.2

end Proofreader
