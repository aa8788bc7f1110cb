import Proofreader.Proofs.Session.History
import Proofreader.Service.Tool

/-! A service that keeps the languages apart answers a language from what it has been asked for that language alone. Then
the check of a language only depends on its own part of what the checks share, and leaves the other parts alone. -/

namespace Proofreader

variable {σ β ι : Type}

/-- What the checks of all languages share. -/
structure Board (σ β : Type) where
  next : Cache
  backend : β
  world : σ

def Checking.board (c : Checking σ β) : Board σ β := ⟨c.next, c.backend, c.world⟩

/-- The answer to a request depends on the requests of its tag, which `asked` gives with the last one first. -/
def Provider.Private (provider : Provider σ β ι) (asked : String → β → σ → List CacheKey)
    (answer : List CacheKey → Except Fault (List Finding)) : Prop :=
  ∀ text profile b w, ∃ b' w', provider.check text profile b w =
      (answer (profile.cacheKey text :: asked profile.tag b w), b', w') ∧
    asked profile.tag b' w' = profile.cacheKey text :: asked profile.tag b w ∧
    ∀ tag, tag ≠ profile.tag → asked tag b' w' = asked tag b w

/-- The same of a tool that can be created and does not take a creation for a request. -/
structure Toolbox.Private (box : Toolbox σ) (asked : String → σ → List CacheKey)
    (answer : List CacheKey → Except ToolError (List Finding)) : Prop where
  create : ∀ language w, ∃ w', box.create language w = (.ok (), w') ∧ ∀ tag, asked tag w' = asked tag w
  check : ∀ text tag disabled w, ∃ w', box.check text tag disabled w =
      (answer (⟨tag, disabled, text⟩ :: asked tag w), w') ∧
    asked tag w' = ⟨tag, disabled, text⟩ :: asked tag w ∧ ∀ other, other ≠ tag → asked other w' = asked other w

/-- The bundled tool as a service. -/
def Tool.service (box : Toolbox σ) : Provider σ ToolState Selection where
  create _ language w := (.ok ⟨language, false⟩, w)
  check := Tool.check box
  close _ w := w

/-- What the service makes of the answers of the tool. -/
def Tool.answer (answer : List CacheKey → Except ToolError (List Finding)) (keys : List CacheKey) :
    Except Fault (List Finding) :=
  match answer keys with
  | .ok fs => .ok (fs.map Tool.complete)
  | .error e => .error (Tool.checkFault ((keys.head?.map (·.tag)).getD "") e)

theorem Toolbox.Private.service {box : Toolbox σ} {asked : String → σ → List CacheKey}
    {answer : List CacheKey → Except ToolError (List Finding)} (h : box.Private asked answer) :
    (Tool.service box).Private (fun tag _ w => asked tag w) (Tool.answer answer) := by
  intro text profile t w
  have hstart : ∃ t' u, Tool.start box t w = (.ok (), t', u) ∧ ∀ tag, asked tag u = asked tag w := by
    unfold Tool.start
    split
    · exact ⟨t, w, rfl, fun _ => rfl⟩
    · obtain ⟨u, hu, hasked⟩ := h.create t.language w
      rw [hu]
      exact ⟨_, u, rfl, hasked⟩
  obtain ⟨t', u, hstart, hasked⟩ := hstart
  obtain ⟨v, hcheck, hown, hothers⟩ := h.check text profile.tag (sortedSet profile.disabled) u
  rw [hasked] at hcheck hown
  refine ⟨t', v, ?_, hown, fun tag hne => (hothers tag hne).trans (hasked tag)⟩
  change Tool.check box text profile t w = _
  unfold Tool.check Tool.answer Profile.cacheKey
  rw [hstart]
  dsimp only
  rw [hcheck]
  cases answer (⟨profile.tag, sortedSet profile.disabled, text⟩ :: asked profile.tag w) with
  | ok fs => rfl
  | error e => rfl

/-- Both boards are the same for one tag. -/
structure Board.Agrees (asked : String → β → σ → List CacheKey) (tag : String) (a b : Board σ β) : Prop where
  lookup : ∀ key, key.tag = tag → a.next.lookup key = b.next.lookup key
  asked : asked tag a.backend a.world = asked tag b.backend b.world

variable {asked : String → β → σ → List CacheKey} {answer answer' : List CacheKey → Except Fault (List Finding)}
variable {tag : String} {key : CacheKey} {fs : List Finding}

theorem Provider.Private.others {provider : Provider σ β ι} (hp : provider.Private asked answer) {text : Text}
    {profile : Profile} {b b' : β} {w w' : σ} {got : Except Fault (List Finding)}
    (h : provider.check text profile b w = (got, b', w')) (htag : profile.tag ≠ tag) :
    asked tag b' w' = asked tag b w := by
  obtain ⟨b₁, w₁, hcheck, -, hothers⟩ := hp text profile b w
  rw [h, Prod.mk.injEq, Prod.mk.injEq] at hcheck
  obtain ⟨-, rfl, rfl⟩ := hcheck
  exact hothers tag htag.symm

namespace Board.Agrees

variable {a b c : Board σ β}

theorem refl (a : Board σ β) : a.Agrees asked tag a := ⟨fun _ _ => rfl, rfl⟩

theorem symm (h : a.Agrees asked tag b) : b.Agrees asked tag a :=
  ⟨fun key hkey => (h.lookup key hkey).symm, h.asked.symm⟩

theorem trans (h : a.Agrees asked tag b) (h' : b.Agrees asked tag c) : a.Agrees asked tag c :=
  ⟨fun key hkey => (h.lookup key hkey).trans (h'.lookup key hkey), h.asked.trans h'.asked⟩

theorem cons (h : a.Agrees asked tag b) (key : CacheKey) (fs : List Finding) :
    Agrees asked tag ⟨(key, fs) :: a.next, a.backend, a.world⟩ ⟨(key, fs) :: b.next, b.backend, b.world⟩ := by
  refine ⟨fun k hk => ?_, h.asked⟩
  rw [List.lookup_cons, List.lookup_cons, h.lookup k hk]

/-- What is noted for another tag does not show. -/
theorem cons_of_ne (hkey : key.tag ≠ tag) (fs : List Finding) :
    Agrees asked tag ⟨(key, fs) :: a.next, a.backend, a.world⟩ a := by
  refine ⟨fun k hk => ?_, rfl⟩
  have hne : k ≠ key := by
    rintro rfl
    exact hkey hk
  rw [List.lookup_cons, beq_false_of_ne hne]

end Board.Agrees

/-- The same came of two checks, as far as one tag is concerned. -/
structure Alike {α : Type} (asked : String → β → σ → List CacheKey) (tag : String) (x y : α × Checking σ β) : Prop where
  result : x.1 = y.1
  calls : x.2.calls = y.2.calls
  board : x.2.board.Agrees asked tag y.2.board

variable {p q : Provider σ β ι} {last : Cache} {profile : Profile} {chunk : Chunk} {chunks : List Chunk}
variable {c d : Checking σ β}

theorem checkChunk_alike (hp : p.Private asked answer) (hq : q.Private asked answer')
    (hsame : ∀ key keys, key.tag = profile.tag → answer (key :: keys) = answer' (key :: keys))
    (hcalls : c.calls = d.calls) (h : c.board.Agrees asked profile.tag d.board) :
    Alike asked profile.tag (checkChunk p last profile chunk c) (checkChunk q last profile chunk d) := by
  obtain ⟨bp, wp, hcheckp, hownp, -⟩ := hp chunk.text profile c.backend c.world
  obtain ⟨bq, wq, hcheckq, hownq, -⟩ := hq chunk.text profile d.backend d.world
  have hasked : asked profile.tag c.backend c.world = asked profile.tag d.backend d.world := h.asked
  have hlookup : c.next.lookup (profile.cacheKey chunk.text) = d.next.lookup (profile.cacheKey chunk.text) :=
    h.lookup _ rfl
  rw [hasked, hsame _ _ rfl] at hcheckp
  rw [hasked, ← hownq] at hownp
  have hboard : Board.Agrees asked profile.tag ⟨c.next, bp, wp⟩ ⟨d.next, bq, wq⟩ := ⟨h.lookup, hownp⟩
  unfold checkChunk
  dsimp only
  rw [hlookup]
  split
  · exact ⟨rfl, hcalls, h.cons _ _⟩
  · rw [hcheckp, hcheckq]
    cases answer' (profile.cacheKey chunk.text :: asked profile.tag d.backend d.world) with
    | ok fs => exact ⟨rfl, congrArg (· + 1) hcalls, hboard.cons _ _⟩
    | error e => exact ⟨rfl, hcalls, hboard⟩

theorem checkChunks_alike (hp : p.Private asked answer) (hq : q.Private asked answer')
    (hsame : ∀ key keys, key.tag = profile.tag → answer (key :: keys) = answer' (key :: keys))
    (hcalls : c.calls = d.calls) (h : c.board.Agrees asked profile.tag d.board) :
    Alike asked profile.tag (checkChunks p last profile chunks c) (checkChunks q last profile chunks d) := by
  induction chunks generalizing c d with
  | nil => exact ⟨rfl, hcalls, h⟩
  | cons chunk r ih =>
    have hchunk : Alike asked profile.tag (checkChunk p last profile chunk c) (checkChunk q last profile chunk d) :=
      checkChunk_alike hp hq hsame hcalls h
    rw [checkChunks, checkChunks]
    rcases hone : checkChunk p last profile chunk c with ⟨got, c'⟩
    rcases hone' : checkChunk q last profile chunk d with ⟨got', d'⟩
    rw [hone, hone'] at hchunk
    obtain ⟨hgot, hcalls', hboard⟩ := hchunk
    dsimp only at hgot hcalls' hboard
    subst hgot
    cases got with
    | error e => exact ⟨rfl, hcalls', hboard⟩
    | ok fs =>
      have hrest := ih hcalls' hboard
      dsimp only
      rcases hmore : checkChunks p last profile r c' with ⟨rest, c''⟩
      rcases hmore' : checkChunks q last profile r d' with ⟨rest', d''⟩
      rw [hmore, hmore'] at hrest
      obtain ⟨hgot', hcalls'', hboard'⟩ := hrest
      dsimp only at hgot' hcalls'' hboard'
      subst hgot'
      cases rest with
      | error e => exact ⟨rfl, hcalls'', hboard'⟩
      | ok gs => exact ⟨rfl, hcalls'', hboard'⟩

theorem checkChunk_others (hp : p.Private asked answer) (htag : profile.tag ≠ tag) :
    (checkChunk p last profile chunk c).2.board.Agrees asked tag c.board := by
  obtain ⟨b, w, hcheck, -, hothers⟩ := hp chunk.text profile c.backend c.world
  have hboard : Board.Agrees asked tag ⟨c.next, b, w⟩ c.board := ⟨fun _ _ => rfl, hothers tag htag.symm⟩
  have hkey : (profile.cacheKey chunk.text).tag ≠ tag := htag
  unfold checkChunk
  dsimp only
  split
  · exact Board.Agrees.cons_of_ne (a := c.board) hkey _
  · rw [hcheck]
    cases answer (profile.cacheKey chunk.text :: asked profile.tag c.backend c.world) with
    | ok fs => exact (Board.Agrees.cons_of_ne (a := ⟨c.next, b, w⟩) hkey fs).trans hboard
    | error e => exact hboard

/-- The check of a language leaves what belongs to the others as it is. -/
theorem checkChunks_others (hp : p.Private asked answer) (htag : profile.tag ≠ tag) :
    (checkChunks p last profile chunks c).2.board.Agrees asked tag c.board := by
  induction chunks generalizing c with
  | nil => exact .refl _
  | cons chunk r ih =>
    have hchunk : (checkChunk p last profile chunk c).2.board.Agrees asked tag c.board := checkChunk_others hp htag
    rw [checkChunks]
    rcases hone : checkChunk p last profile chunk c with ⟨got, c'⟩
    rw [hone] at hchunk
    cases got with
    | error e => exact hchunk
    | ok fs =>
      have hrest : (checkChunks p last profile r c').2.board.Agrees asked tag c'.board := ih
      dsimp only
      rcases hmore : checkChunks p last profile r c' with ⟨rest, c''⟩
      rw [hmore] at hrest
      cases rest with
      | error e => exact hrest.trans hchunk
      | ok gs => exact hrest.trans hchunk

namespace Session

variable {pipeline : Pipeline} {p q : Provider σ β Selection} {t : CheckedText} {texts : List CheckedText}

/-- The result of a text and what is on the board afterwards, as far as its own tag is concerned. -/
theorem checkText_alike (pipeline : Pipeline) (last : Cache) (hp : p.Private asked answer) (hq : q.Private asked answer')
    (hsame : ∀ key keys, key.tag = t.profile.tag → answer (key :: keys) = answer' (key :: keys))
    (h : c.board.Agrees asked t.profile.tag d.board) :
    (checkText pipeline p last t c).1 = (checkText pipeline q last t d).1 ∧
      (checkText pipeline p last t c).2.1 = (checkText pipeline q last t d).2.1 ∧
      (checkText pipeline p last t c).2.2.board.Agrees asked t.profile.tag (checkText pipeline q last t d).2.2.board := by
  have hchunks : Alike asked t.profile.tag
      (checkChunks p last t.profile (pipeline.chunker.chunks t) { c with calls := 0 })
      (checkChunks q last t.profile (pipeline.chunker.chunks t) { d with calls := 0 }) :=
    checkChunks_alike hp hq hsame rfl h
  rcases hgot : checkChunks p last t.profile (pipeline.chunker.chunks t) { c with calls := 0 } with ⟨got, c'⟩
  rcases hgot' : checkChunks q last t.profile (pipeline.chunker.chunks t) { d with calls := 0 } with ⟨got', d'⟩
  rw [hgot, hgot'] at hchunks
  obtain ⟨hresult, hcalls, hboard⟩ := hchunks
  dsimp only at hresult hcalls hboard
  rw [checkText_eq hgot, checkText_eq hgot', hresult, hcalls]
  exact ⟨rfl, rfl, hboard⟩

theorem checkText_others (pipeline : Pipeline) (last : Cache) (c : Checking σ β) (hp : p.Private asked answer)
    (htag : t.profile.tag ≠ tag) :
    (checkText pipeline p last t c).2.2.board.Agrees asked tag c.board := by
  have hchunks : (checkChunks p last t.profile (pipeline.chunker.chunks t) { c with calls := 0 }).2.board.Agrees asked
      tag c.board := checkChunks_others hp htag
  rcases hgot : checkChunks p last t.profile (pipeline.chunker.chunks t) { c with calls := 0 } with ⟨got, c'⟩
  rw [hgot] at hchunks
  rw [checkText_eq hgot]
  exact hchunks

/-- Every text was checked as if it were the only one. -/
structure EachAlone (asked : String → β → σ → List CacheKey) (pipeline : Pipeline) (p : Provider σ β Selection)
    (last : Cache) (texts : List CheckedText) (c : Checking σ β)
    (results : List (CheckedText × LanguageResult × Option Problem)) (b : Board σ β) : Prop where
  results : results =
    texts.map fun t => (t, (checkText pipeline p last t c).1, (checkText pipeline p last t c).2.1)
  own : ∀ t ∈ texts, b.Agrees asked t.profile.tag (checkText pipeline p last t c).2.2.board
  others : ∀ tag, (∀ t ∈ texts, t.profile.tag ≠ tag) → b.Agrees asked tag c.board

/-- Only one thing comes of checking every text as if it were the only one. -/
theorem EachAlone.agrees {results results' : List (CheckedText × LanguageResult × Option Problem)} {a b : Board σ β}
    (ha : EachAlone asked pipeline p last texts c results a) (hb : EachAlone asked pipeline p last texts c results' b) :
    results = results' ∧ ∀ tag, a.Agrees asked tag b := by
  refine ⟨ha.results.trans hb.results.symm, fun tag => ?_⟩
  by_cases htag : ∃ t ∈ texts, t.profile.tag = tag
  · obtain ⟨t, ht, rfl⟩ := htag
    exact (ha.own t ht).trans (hb.own t ht).symm
  · have hne : ∀ t ∈ texts, t.profile.tag ≠ tag := fun t ht he => htag ⟨t, ht, he⟩
    exact (ha.others tag hne).trans (hb.others tag hne).symm

/-- One after the other, texts with different tags are checked as if each were the only one. -/
theorem checkTexts_eachAlone {results : List (CheckedText × LanguageResult × Option Problem)} {c' : Checking σ β}
    (hp : p.Private asked answer) (hnodup : (texts.map (·.profile.tag)).Nodup)
    (h : checkTexts pipeline p last texts c = (results, c')) :
    EachAlone asked pipeline p last texts c results c'.board := by
  induction texts generalizing c c' results with
  | nil =>
    cases h
    exact ⟨rfl, List.forall_mem_nil _, fun _ _ => .refl _⟩
  | cons t r ih =>
    rw [List.map_cons, List.nodup_cons] at hnodup
    obtain ⟨hfresh, hnodup⟩ := hnodup
    have htag : ∀ u ∈ r, t.profile.tag ≠ u.profile.tag := by
      intro u hu he
      exact hfresh (he ▸ List.mem_map_of_mem hu)
    rw [checkTexts] at h
    rcases htext : checkText pipeline p last t c with ⟨result, problem, mid⟩
    have hframe : ∀ tag, t.profile.tag ≠ tag → mid.board.Agrees asked tag c.board := by
      intro tag hne
      have hothers := checkText_others pipeline last c hp hne
      rwa [htext] at hothers
    have halone := fun u hu => checkText_alike pipeline last hp hp (fun _ _ _ => rfl) (hframe _ (htag u hu))
    rw [htext] at h
    dsimp only at h
    rcases hrest : checkTexts pipeline p last r mid with ⟨rest, stop⟩
    obtain ⟨hresults, hown, hothers⟩ := ih hnodup hrest
    rw [hrest] at h
    cases h
    refine ⟨?_, fun u hu => ?_, fun tag hne => ?_⟩
    · rw [List.map_cons, htext]
      refine congrArg _ (hresults.trans (List.map_congr_left fun u hu => ?_))
      obtain ⟨hresult, hproblem, -⟩ := halone u hu
      rw [hresult, hproblem]
    · rcases List.mem_cons.1 hu with rfl | hu
      · rw [htext]
        exact hothers _ fun v hv => (htag v hv).symm
      · exact (hown u hu).trans (halone u hu).2.2
    · exact (hothers tag fun u hu => hne u (List.mem_cons_of_mem _ hu)).trans (hframe tag (hne t List.mem_cons_self))

end Session

/-- A tool that cannot check one language, in a world that only keeps the requests. -/
def trippingBox (failing : String) : Toolbox (List CacheKey) where
  create _ w := (.ok (), w)
  check text tag disabled w :=
    (if tag = failing then .error ⟨.java, "down"⟩ else .ok [spelled 0 1], ⟨tag, disabled, text⟩ :: w)

def requestsOf (tag : String) (w : List CacheKey) : List CacheKey := w.filter fun key => decide (key.tag = tag)

def trippingAnswer (failing : String) : List CacheKey → Except ToolError (List Finding)
  | key :: _ => if key.tag = failing then .error ⟨.java, "down"⟩ else .ok [spelled 0 1]
  | [] => .ok []

theorem private_trippingBox (failing : String) : (trippingBox failing).Private requestsOf (trippingAnswer failing) where
  create _ w := ⟨w, rfl, fun _ => rfl⟩
  check text tag disabled w := by
    refine ⟨_, rfl, List.filter_cons_of_pos (by simp), fun other hother => List.filter_cons_of_neg ?_⟩
    simpa using hother.symm

def trippingService (failing : String) : Provider (List CacheKey) ToolState Selection := Tool.service (trippingBox failing)

theorem private_tripping (failing : String) :
    (trippingService failing).Private (fun tag _ w => requestsOf tag w) (Tool.answer (trippingAnswer failing)) :=
  (private_trippingBox failing).service

/-- A document in three languages. -/
def threefoldDisk : Disk :=
  Disk.empty.write "/home/me/main" ("So #text(lang: \"de\")[Da] #text(lang: \"fr\")[Or]".toList.map Char.toNat)

end Proofreader
