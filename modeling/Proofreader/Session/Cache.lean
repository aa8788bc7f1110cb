import Proofreader.Mapping

/-! What the checking service has answered. A chunk is known again by its tag, the rules that are disabled
for it and its text. -/

namespace Proofreader

structure CacheKey where
  tag : String
  disabled : List String
  text : Text
deriving DecidableEq

abbrev Cache := List (CacheKey × List Finding)

def Profile.cacheKey (p : Profile) (text : Text) : CacheKey := ⟨p.tag, sortedSet p.disabled, text⟩

/-- A service as a session sees it: it can be created, asked and closed. -/
structure Provider (σ β ι : Type) where
  create : ι → String → σ → Except Fault β × σ
  check : Text → Profile → β → σ → Except Fault (List Finding) × β × σ
  close : β → σ → σ

/-- Where the check of a text stands. -/
structure Checking (σ β : Type) where
  /-- What this run knows so far. -/
  next : Cache
  /-- How many chunks of this text were sent. -/
  calls : Nat
  backend : β
  world : σ

variable {σ β ι : Type}

/-- The findings in a chunk, from this run or the last one, or else from the service. -/
def checkChunk (provider : Provider σ β ι) (last : Cache) (profile : Profile) (chunk : Chunk)
    (c : Checking σ β) : Except Fault (List Finding) × Checking σ β :=
  let key := profile.cacheKey chunk.text
  match (c.next.lookup key).or (last.lookup key) with
  | some fs => (.ok fs, { c with next := (key, fs) :: c.next })
  | none =>
    match provider.check chunk.text profile c.backend c.world with
    | (.ok fs, b, w) => (.ok fs, ⟨(key, fs) :: c.next, c.calls + 1, b, w⟩)
    | (.error e, b, w) => (.error e, { c with backend := b, world := w })

/-- The findings in all chunks, as findings in the whole text. -/
def checkChunks (provider : Provider σ β ι) (last : Cache) (profile : Profile) :
    List Chunk → Checking σ β → Except Fault (List Finding) × Checking σ β
  | [], c => (.ok [], c)
  | chunk :: r, c =>
    match checkChunk provider last profile chunk c with
    | (.error e, c) => (.error e, c)
    | (.ok fs, c) =>
      match checkChunks provider last profile r c with
      | (.error e, c) => (.error e, c)
      | (.ok gs, c) => (.ok (chunk.translate fs ++ gs), c)

end Proofreader
