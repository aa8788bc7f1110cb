import Proofreader.Proofs.Chunk.Pages
import Proofreader.Proofs.Session.Fresh
import Proofreader.Proofs.Session.Remembered

/-! A page that two versions of a text have in common is sent once: its chunks are the same wherever it stands, and after
a run that fails nowhere they are all known. -/

namespace Proofreader

/-- The text is made of the pages, in their order. -/
structure CheckedText.MadeOf (t : CheckedText) (ps : List Text) : Prop where
  text : t.text = ps.flatten
  breaks : BreaksAt ps (t.pageBreaks.map fun (b : Nat) => (b : Int))

theorem CheckedText.MadeOf.exists_chunks {t : CheckedText} {pre post : List Text} {page : Text}
    (h : t.MadeOf (pre ++ page :: post)) (c : Chunker) : ∃ front back, c.chunks t =
      front ++ (c.split page []).map (·.shift pre.flatten.length) ++ back := by
  rw [Chunker.chunks, h.text]
  exact c.exists_split_append h.breaks

namespace Session

variable {σ β : Type} {provider : Provider σ β Selection} {s s' : Session β} {w : σ}

def Action.isRun : Action σ → Bool
  | .run _ => true
  | _ => false

/-- Only runs change what is remembered and what follows from the settings. -/
theorem act_quiet (provider : Provider σ β Selection) (s : Session β) (w : σ) {a : Action σ} (h : a.isRun = false) :
    (s.act provider w a).2.1.cache = s.cache ∧ (s.act provider w a).2.1.pipeline = s.pipeline := by
  cases a with
  | run disk => cases h
  | edit f => exact ⟨rfl, rfl⟩
  | update settings => exact ⟨rfl, rfl⟩
  | close => exact ⟨rfl, rfl⟩
  | meanwhile f => exact ⟨rfl, rfl⟩

theorem after_quiet (provider : Provider σ β Selection) (s : Session β) (w : σ) {actions : List (Action σ)}
    (h : ∀ a ∈ actions, a.isRun = false) :
    (after provider actions s w).1.cache = s.cache ∧ (after provider actions s w).1.pipeline = s.pipeline := by
  induction actions generalizing s w with
  | nil => exact ⟨rfl, rfl⟩
  | cons a r ih =>
    obtain ⟨ha, hr⟩ := List.forall_mem_cons.1 h
    obtain ⟨hcache, hpipeline⟩ := act_quiet provider s w ha
    obtain ⟨hcache', hpipeline'⟩ := ih (s.act provider w a).2.1 (s.act provider w a).2.2 hr
    exact ⟨hcache'.trans hcache, hpipeline'.trans hpipeline⟩

/-- Everything follows from some settings. -/
def Configured (s : Session β) : Prop := ∃ settings, Pipeline.ofSettings settings = .ok s.pipeline

theorem Configured.course {disk : Disk} {out : Except Fault Report} {v : σ} (hs : s.Configured)
    (h : Course provider disk s w out s' v) : s'.Configured := by
  have hmid : ∀ {mid : Session β} {v : σ}, s.begun.applyPending provider w = (.ok (), mid, v) → mid.Configured := by
    intro mid v hsettled
    obtain rfl | ⟨settings, q, backend, hq, rfl⟩ := applyPending_ok hsettled
    · exact hs
    · exact ⟨settings, hq⟩
  cases h with
  | unsettled hsettled =>
    obtain rfl := applyPending_error hsettled
    exact hs
  | unserved hsettled _ =>
    obtain ⟨settings, hq⟩ := hmid hsettled
    exact ⟨settings, hq⟩
  | unsorted hsettled hdrawn _ =>
    obtain ⟨settings, hq⟩ := hmid hsettled
    exact ⟨settings, hdrawn.unmoved.2.1 ▸ hq⟩
  | reported hsettled hdrawn hfinish =>
    obtain ⟨settings, hq⟩ := hmid hsettled
    obtain ⟨rows, -, -, rfl⟩ := finish_ok hfinish
    exact ⟨settings, hdrawn.unmoved.2.1 ▸ hq⟩

theorem Configured.act (hs : s.Configured) (a : Action σ) : (s.act provider w a).2.1.Configured := by
  cases a with
  | run disk => exact hs.course (run_course provider disk s w)
  | edit f => exact hs
  | update settings => exact hs
  | close => exact hs
  | meanwhile f => exact hs

theorem Configured.after (hs : s.Configured) (provider : Provider σ β Selection) (actions : List (Action σ)) (w : σ) :
    (Session.after provider actions s w).1.Configured :=
  after_keeps (fun h => h.act _) hs actions w

theorem configured_create {p : Project} {c : Settings} (h : create p c = .ok s) : s.Configured := by
  obtain ⟨q, hq, rfl⟩ := create_ok h
  exact ⟨c, hq⟩

theorem Configured.plain (hs : s.Configured) : s.pipeline.resolver.Plain := by
  obtain ⟨settings, hq⟩ := hs
  rw [(Pipeline.of_ofSettings hq).2]
  exact Resolver.plain_ofSettings _ _ _

theorem exists_root {disk : Disk} {u : CheckedText} (h : u ∈ s.docTexts disk) : ∃ root, u ∈ s.checkedTexts root := by
  unfold docTexts at h
  cases hroot : (s.project.snapshot.compile disk).1 with
  | none =>
    rw [hroot] at h
    cases h
  | some root =>
    rw [hroot] at h
    exact ⟨root, h⟩

/-- With the offsets of the whole text, each page is split as it is alone: wherever it stands, and whatever stands around
it, its chunks are the same, moved to where it begins. So when a run has failed nowhere, the next one sends no chunk of a
page that a text under the same tag had before, whatever actions lie between that put no settings in force. -/
theorem pages_apart (provider : Provider σ β Selection) {p : Project} {settings : Settings} {s₀ : Session β}
    (hs₀ : create p settings = .ok s₀) (w₀ : σ) (earlier : List (Action σ)) :
    (∀ (c : Chunker) (t : Text) (breaks : List Int), c.split t breaks =
      ((0 :: innerBreaks t.length breaks).zip (innerBreaks t.length breaks ++ [t.length])).flatMap
        fun x => c.splitWithin t x.1 x.2 x.1 false) ∧
    (∀ (c : Chunker) (ps : List Text) (breaks : List Int), BreaksAt ps breaks → c.split ps.flatten breaks =
      ((pageStarts 0 ps).zip ps).flatMap fun x => (c.split x.2 []).map (·.shift x.1)) ∧
    ∀ s w, after provider earlier s₀ w₀ = (s, w) → ∀ disk r s' w', s.run provider disk w = (.ok r, s', w') →
      r.status = .idle → ∀ between : List (Action σ), (∀ a ∈ between, a.isRun = false) →
      ∀ t v, after provider between s' w' = (t, v) → t.due = [] →
      ∀ disk', ∀ u ∈ s'.docTexts disk, ∀ u' ∈ t.docTexts disk', u.profile.tag = u'.profile.tag →
      ∀ pre page post pre' post', u.MadeOf (pre ++ page :: post) → u'.MadeOf (pre' ++ page :: post') →
        (∃ front back, t.pipeline.chunker.chunks u =
          front ++ (t.pipeline.chunker.split page []).map (·.shift pre.flatten.length) ++ back) ∧
        (∃ front back, t.pipeline.chunker.chunks u' =
          front ++ (t.pipeline.chunker.split page []).map (·.shift pre'.flatten.length) ++ back) ∧
        ∀ k ∈ t.pipeline.chunker.split page [], ∀ x ∈ t.exchanged provider disk' v, x.key ≠ u'.profile.cacheKey k.text := by
  refine ⟨fun c t breaks => c.split_eq_splitWithin t breaks, fun c ps breaks h => c.split_flatten h, ?_⟩
  intro s w hearlier disk r s' w' hrun hidle between hquiet t v hbetween hdue disk' u hu u' hu' htag pre page
    post pre' post' hpages hpages'
  have hs : s.Configured := by
    have hafter := (configured_create hs₀).after provider earlier w₀
    rw [hearlier] at hafter
    exact hafter
  have hs' : s'.Configured := by
    have hcourse := run_course provider disk s w
    rw [hrun] at hcourse
    exact hs.course hcourse
  obtain ⟨hcache, hpipeline⟩ := after_quiet provider s' w' hquiet
  rw [hbetween] at hcache hpipeline
  have hprofile : u.profile = u'.profile := by
    obtain ⟨root, hu⟩ := exists_root hu
    obtain ⟨root', hu'⟩ := exists_root hu'
    rw [checkedTexts] at hu hu'
    rw [hpipeline] at hu'
    exact profile_eq_of_tag hs'.plain hu hu' htag
  refine ⟨hpages.exists_chunks _, hpages'.exists_chunks _, fun k hk => ?_⟩
  have hkey : u.profile.cacheKey k.text ∈ s'.pipeline.keys u := by
    obtain ⟨front, back, hchunks⟩ := hpages.exists_chunks s'.pipeline.chunker
    rw [hpipeline] at hk
    rw [Pipeline.keys, hchunks]
    refine List.mem_map.2 ⟨k.shift pre.flatten.length, ?_, rfl⟩
    exact List.mem_append_left _ (List.mem_append_right _ (List.mem_map_of_mem hk))
  obtain ⟨-, -, hlearned⟩ := exchanged_carries hrun
  have hknown : t.cache.Knows (u'.profile.cacheKey k.text) := by
    rw [hcache, ← hprofile]
    exact hlearned r rfl hidle u hu _ hkey
  exact ne_of_mem_exchanged hdue hknown disk' v

end Session

/-- A first page that changes and a second one that stays. -/
def pagedDisk (first : String) : Disk :=
  Disk.empty.write "/home/me/main" ((first ++ "\n= Two\nC d.").toList.map Char.toNat)

def pagedRun : Except Fault Report × Session Unit × Nat := narrowSession.run fallible (pagedDisk "A.") 3

theorem create_narrow : Session.create sharedProject (bundledSettings 6) = .ok narrowSession := rfl

def secondPage : Text := "Two\n\nC d.".toList

/-- The texts of a document with where their pages begin and what they are checked under. -/
def pagedTexts (first : String) : List (Text × List Nat × String × List String) :=
  (pagedRun.2.1.docTexts (pagedDisk first)).map fun t => (t.text, t.pageBreaks, t.profile.tag, t.profile.disabled)

theorem docTexts_paged : pagedRun.1.toOption.any (·.status = .idle) = true ∧ pagedRun.2.1.due.isEmpty = true ∧
    pagedTexts "A." = [("A.\n\n".toList ++ secondPage, [4], "en", [])] ∧
    pagedTexts "Xy." = [("Xy.\n\n".toList ++ secondPage, [5], "en", [])] ∧
    "C d.".toList ∈ (pagedRun.2.1.pipeline.chunker.split secondPage []).map Chunk.text ∧
    ⟨chunkKey "Xy.\n\n", true⟩ ∈
      pagedRun.2.1.exchanged fallible (pagedDisk "Xy.") pagedRun.2.2 := by
  decide +kernel

theorem CheckedText.madeOf_pair {t : CheckedText} {a b : Text} (htext : t.text = a ++ b)
    (hbreaks : t.pageBreaks = [a.length]) : t.MadeOf [a, b] := by
  refine ⟨by rw [htext, List.flatten_cons, List.flatten_singleton], fun n hpos _ => ?_⟩
  rw [hbreaks, List.map_singleton, List.mem_singleton, pageStarts, pageStarts, pageStarts, List.mem_cons, List.mem_singleton]
  omega

theorem Session.pages_apart_second : ⟨chunkKey "Xy.\n\n", true⟩ ∈
      pagedRun.2.1.exchanged fallible (pagedDisk "Xy.") pagedRun.2.2 ∧
    ∀ x ∈ pagedRun.2.1.exchanged fallible (pagedDisk "Xy.") pagedRun.2.2,
      x.key ≠ chunkKey "C d." := by
  obtain ⟨hidle, hdue, hfirst, hsecond, hchunk, hanother⟩ := docTexts_paged
  refine ⟨hanother, ?_⟩
  obtain ⟨u, hu, hufacts⟩ := List.map_eq_singleton_iff.1 hfirst
  obtain ⟨u', hu', hufacts'⟩ := List.map_eq_singleton_iff.1 hsecond
  simp only [Prod.mk.injEq] at hufacts hufacts'
  obtain ⟨htext, hbreaks, htag, -⟩ := hufacts
  obtain ⟨htext', hbreaks', htag', hdisabled⟩ := hufacts'
  obtain ⟨k, hk, hktext⟩ := List.mem_map.1 hchunk
  obtain ⟨-, -, hstays⟩ := pages_apart fallible create_narrow 3 []
  have hrun : narrowSession.run fallible (pagedDisk "A.") 3 = (pagedRun.1, pagedRun.2.1, pagedRun.2.2) := by
    rw [pagedRun]
  -- the session is not to be computed from here on
  generalize pagedRun = first at *
  obtain ⟨out, s, w⟩ := first
  cases out with
  | error e => cases hidle
  | ok r =>
    have hstatus : r.status = .idle := of_decide_eq_true hidle
    obtain ⟨-, -, hsent⟩ := hstays narrowSession 3 rfl _ r s w hrun hstatus [] (List.forall_mem_nil _) s w rfl
      (List.isEmpty_iff.1 hdue) (pagedDisk "Xy.") u (hu ▸ List.mem_singleton_self u) u'
      (hu' ▸ List.mem_singleton_self u') (htag.trans htag'.symm) [_] secondPage [] [_] [] (u.madeOf_pair htext hbreaks)
      (u'.madeOf_pair htext' hbreaks')
    have hkey : u'.profile.cacheKey k.text = chunkKey "C d." := by
      rw [Profile.cacheKey, htag', hdisabled, hktext]
      rfl
    rw [← hkey]
    exact hsent k hk

end Proofreader
