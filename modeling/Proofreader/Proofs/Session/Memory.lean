import Proofreader.Proofs.Collections
import Proofreader.Session.Cache

/-! What a session remembers of a service that answers by the key of a chunk alone. What it recalls is what the service
would say, and what was sent in a run is known for the rest of it. -/

namespace Proofreader

variable {σ β ι : Type}

/-- The service never fails, and its answer depends on the tag, the disabled rules and the text only. -/
def Provider.Answers (provider : Provider σ β ι) (answer : CacheKey → List Finding) : Prop :=
  ∀ text profile b w, ∃ b' w', provider.check text profile b w = (.ok (answer (profile.cacheKey text)), b', w')

/-- The world keeps the keys that were sent, last one first. -/
structure Provider.Records (provider : Provider σ β ι) (sent : σ → List CacheKey) : Prop where
  create : ∀ i tag w, sent (provider.create i tag w).2 = sent w
  check : ∀ text profile b w, sent (provider.check text profile b w).2.2 = profile.cacheKey text :: sent w
  close : ∀ b w, sent (provider.close b w) = sent w

/-- Everything remembered is what the service answers. -/
def Cache.Exact (c : Cache) (answer : CacheKey → List Finding) : Prop := ∀ x ∈ c, x.2 = answer x.1

/-- From `w` on nothing was sent twice, and what was sent is known. -/
structure Checking.Sound (provider : Provider σ β ι) (answer : CacheKey → List Finding) (w : σ) (c : Checking σ β) :
    Prop where
  exact : c.next.Exact answer
  once : ∀ sent, provider.Records sent →
    ∃ new, sent c.world = new ++ sent w ∧ new.Nodup ∧ ∀ key ∈ new, key ∈ c.next.map Prod.fst

variable {provider : Provider σ β ι} {answer : CacheKey → List Finding} {last : Cache} {profile : Profile}
variable {c : Checking σ β} {w : σ}

theorem Cache.Exact.cons {c : Cache} (h : c.Exact answer) (key : CacheKey) :
    Cache.Exact ((key, answer key) :: c) answer := by
  intro x hx
  rcases List.mem_cons.1 hx with rfl | hx
  · rfl
  · exact h x hx

theorem Cache.Exact.eq_of_lookup {a b : Cache} (ha : a.Exact answer) (hb : b.Exact answer) {key : CacheKey}
    {fs : List Finding} (h : (a.lookup key).or (b.lookup key) = some fs) : fs = answer key := by
  rcases Option.or_eq_some_iff.1 h with h | ⟨-, h⟩
  · exact ha _ (mem_of_lookup h)
  · exact hb _ (mem_of_lookup h)

theorem not_mem_keys_of_lookup {α : Type} {l : List (CacheKey × α)} {key : CacheKey} (h : l.lookup key = none) :
    key ∉ l.map Prod.fst := by
  intro hkey
  obtain ⟨x, hx, rfl⟩ := List.mem_map.1 hkey
  have := List.lookup_eq_none_iff.1 h x hx
  simp at this

namespace Checking.Sound

theorem start (provider : Provider σ β ι) (answer : CacheKey → List Finding) (calls : Nat) (b : β) (w : σ) :
    Sound provider answer w ⟨[], calls, b, w⟩ :=
  ⟨nofun, fun _ _ => ⟨[], rfl, .nil, nofun⟩⟩

theorem remember (h : c.Sound provider answer w) (key : CacheKey) :
    Sound provider answer w { c with next := (key, answer key) :: c.next } := by
  refine ⟨h.exact.cons key, fun sent hsent => ?_⟩
  obtain ⟨new, hnew, hnodup, hknown⟩ := h.once sent hsent
  exact ⟨new, hnew, hnodup, fun k hk => List.mem_cons_of_mem _ (hknown k hk)⟩

/-- A key that is not known yet has not been sent yet. -/
theorem ask (h : c.Sound provider answer w) {text : Text} {fs : List Finding} {b : β} {v : σ}
    (hfs : fs = answer (profile.cacheKey text)) (hcheck : provider.check text profile c.backend c.world = (.ok fs, b, v))
    (hunknown : c.next.lookup (profile.cacheKey text) = none) (calls : Nat) :
    Sound provider answer w ⟨(profile.cacheKey text, fs) :: c.next, calls, b, v⟩ := by
  subst hfs
  refine ⟨h.exact.cons _, fun sent hsent => ?_⟩
  obtain ⟨new, hnew, hnodup, hknown⟩ := h.once sent hsent
  have hsends := hsent.check text profile c.backend c.world
  rw [hcheck, hnew] at hsends
  refine ⟨profile.cacheKey text :: new, hsends, List.nodup_cons.2 ⟨fun hk => ?_, hnodup⟩, fun k hk => ?_⟩
  · exact not_mem_keys_of_lookup hunknown (hknown _ hk)
  · rcases List.mem_cons.1 hk with rfl | hk
    · exact List.mem_cons_self
    · exact List.mem_cons_of_mem _ (hknown k hk)

theorem exists_checkChunk (h : c.Sound provider answer w) (hp : provider.Answers answer) (hlast : last.Exact answer)
    (profile : Profile) (chunk : Chunk) : ∃ c', checkChunk provider last profile chunk c =
      (.ok (answer (profile.cacheKey chunk.text)), c') ∧ c'.Sound provider answer w := by
  unfold checkChunk
  dsimp only
  split
  · next fs hfs =>
    rw [h.exact.eq_of_lookup hlast hfs]
    exact ⟨_, rfl, h.remember _⟩
  · next hunknown =>
    obtain ⟨b, v, hcheck⟩ := hp chunk.text profile c.backend c.world
    rw [hcheck]
    exact ⟨_, rfl, h.ask rfl hcheck (Option.or_eq_none_iff.1 hunknown).1 _⟩

/-- All chunks of a text come to what the service answers for each of them, wherever the answers are taken from. -/
theorem exists_checkChunks (h : c.Sound provider answer w) (hp : provider.Answers answer) (hlast : last.Exact answer)
    (profile : Profile) (chunks : List Chunk) : ∃ c', checkChunks provider last profile chunks c =
      (.ok (chunks.flatMap fun chunk => chunk.translate (answer (profile.cacheKey chunk.text))), c') ∧
        c'.Sound provider answer w := by
  induction chunks generalizing c with
  | nil => exact ⟨c, rfl, h⟩
  | cons chunk r ih =>
    obtain ⟨mid, hchunk, hmid⟩ := h.exists_checkChunk hp hlast profile chunk
    obtain ⟨c', hrest, hc'⟩ := ih hmid
    refine ⟨c', ?_, hc'⟩
    rw [checkChunks, hchunk]
    dsimp only
    rw [hrest]
    rfl

end Checking.Sound

end Proofreader
