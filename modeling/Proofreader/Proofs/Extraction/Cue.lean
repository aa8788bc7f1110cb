import Proofreader.Proofs.Collections
import Proofreader.Proofs.Extraction.Draft
import Proofreader.Proofs.Style.Stream

/-! One text at a time. To the text of one language a stream is prose and pauses: a separator is a pause,
and so is prose in another language. What extraction builds for a language is what a single draft makes of
these cues, so that facts about texts are facts about one draft. -/

namespace Proofreader

/-- The language of the text that a piece goes to. -/
def Resolver.key (r : Resolver) (p : Piece) : Language := (r.profile p.language).language

/-- What a draft makes of a segment. -/
inductive Cue where
  | prose (p : Piece)
  | pause (page : Bool)

def Segment.cue (r : Resolver) (key : Language) : Segment → Cue
  | .piece p => if r.key p = key then .prose p else .pause false
  | .separator _ page => .pause page

namespace Segment

variable {r : Resolver} {key : Language} {p : Piece}

theorem cue_own (h : r.key p = key) : cue r key (.piece p) = .prose p := if_pos h

theorem cue_other (h : r.key p ≠ key) : cue r key (.piece p) = .pause false := if_neg h

theorem cue_eq_prose {x : Segment} : x.cue r key = .prose p ↔ x = .piece p ∧ r.key p = key := by
  cases x with
  | separator l page => exact ⟨nofun, nofun⟩
  | piece q =>
    by_cases h : r.key q = key
    · rw [cue_own h, Cue.prose.injEq, Segment.piece.injEq]
      exact ⟨fun he => ⟨he, he ▸ h⟩, And.left⟩
    · rw [cue_other h, Segment.piece.injEq]
      exact ⟨nofun, fun ⟨he, hk⟩ => absurd (he ▸ hk) h⟩

theorem mem_of_prose_mem {ss : List Segment} (h : .prose p ∈ ss.map (cue r key)) : .piece p ∈ ss ∧ r.key p = key := by
  obtain ⟨x, hx, hcue⟩ := List.mem_map.1 h
  obtain ⟨rfl, hkey⟩ := cue_eq_prose.1 hcue
  exact ⟨hx, hkey⟩

end Segment

namespace Draft

def heed (d : Draft) : Cue → Draft
  | .prose p => d.append p
  | .pause page => d.separate page

def hear (d : Draft) (cues : List Cue) : Draft := cues.foldl heed d

theorem hear_append (d : Draft) (cs ks : List Cue) : d.hear (cs ++ ks) = (d.hear cs).hear ks := List.foldl_append

theorem hear_snoc (d : Draft) (cues : List Cue) (c : Cue) : d.hear (cues ++ [c]) = (d.hear cues).heed c := by
  simp [hear]

/-- The draft in which a separator is due if `gap` says so. -/
def interrupted (d : Draft) (gap : Bool) : Draft := { d with pendingGap := d.pendingGap || gap }

theorem interrupted_eq (d : Draft) (gap : Bool) :
    d.interrupted gap = if gap then { d with pendingGap := true } else d := by
  cases gap <;> simp [interrupted]

theorem append_profile (d : Draft) (p : Piece) : (d.append p).profile = d.profile := by
  rcases d.append_cases p with ⟨-, -, he⟩ | ⟨-, -, -, he⟩ | ⟨-, -, he⟩ | ⟨-, -, he⟩ <;> rw [he] <;> rfl

/-- A draft without prose forgets what is due. -/
theorem append_of_empty {d : Draft} (h : d.map.length = 0) (gap page : Bool) (p : Piece) :
    { d with pendingGap := gap, pendingPage := page }.append p = d.append p := by
  simp [append, h]

theorem hear_pauses {cues : List Cue} (h : ∀ c ∈ cues, ∃ page, c = .pause page) (d : Draft) :
    ∃ gap page, d.hear cues = { d with pendingGap := gap, pendingPage := page } := by
  induction cues generalizing d with
  | nil => exact ⟨d.pendingGap, d.pendingPage, rfl⟩
  | cons c r ih =>
    obtain ⟨page, rfl⟩ := h c (by simp)
    obtain ⟨g, b, he⟩ := ih (fun c hc => h c (by simp [hc])) (d.separate page)
    exact ⟨g, b, he⟩

theorem sound_hear {d : Draft} (h : d.Sound) {cues : List Cue} (hc : ∀ p, .prose p ∈ cues → p.text ≠ []) :
    (d.hear cues).Sound := by
  induction cues generalizing d with
  | nil => exact h
  | cons c r ih =>
    have hr : ∀ p, .prose p ∈ r → p.text ≠ [] := fun p hp => hc p (by simp [hp])
    cases c with
    | prose p => exact ih (h.append (hc p (by simp))) hr
    | pause page => exact ih (h.separate page) hr

end Draft

namespace Extracting

variable {profile : Profile} {f : Draft → Draft} {ds : List (Language × Draft)}

theorem keys_update : (update profile f ds).map Prod.fst =
    if profile.language ∈ ds.map Prod.fst then ds.map Prod.fst else ds.map Prod.fst ++ [profile.language] := by
  induction ds with
  | nil => rfl
  | cons x r ih =>
    obtain ⟨k, d⟩ := x
    by_cases hk : k = profile.language
    · simp [update, hk]
    · have hk' : profile.language ≠ k := fun h => hk h.symm
      simp only [update, if_neg hk, List.map_cons, ih, List.mem_cons, hk', false_or]
      split <;> simp

theorem mem_keys_update {key : Language} :
    key ∈ (update profile f ds).map Prod.fst ↔ key ∈ ds.map Prod.fst ∨ key = profile.language := by
  rw [keys_update]
  split
  · next hm => exact ⟨Or.inl, fun h => h.elim id fun he => he ▸ hm⟩
  · rw [List.mem_append, List.mem_singleton]

theorem nodup_update (h : (ds.map Prod.fst).Nodup) : ((update profile f ds).map Prod.fst).Nodup := by
  rw [keys_update]
  exact nodup_put h _

/-- What an update leaves: other drafts as they were, and the one of its language changed or begun. -/
theorem mem_update (h : (ds.map Prod.fst).Nodup) {k : Language} {d : Draft} (hd : (k, d) ∈ update profile f ds) :
    (k ≠ profile.language ∧ (k, d) ∈ ds) ∨
    (k = profile.language ∧ ∃ e, (k, e) ∈ ds ∧ d = f e) ∨
    (k = profile.language ∧ k ∉ ds.map Prod.fst ∧ d = f (.start profile)) := by
  induction ds with
  | nil =>
    simp only [update, List.mem_singleton, Prod.mk.injEq] at hd
    exact Or.inr (Or.inr ⟨hd.1, by simp, hd.2⟩)
  | cons x r ih =>
    obtain ⟨j, e⟩ := x
    rw [List.map_cons, List.nodup_cons] at h
    by_cases hj : j = profile.language
    · simp only [update, if_pos hj, List.mem_cons, Prod.mk.injEq] at hd
      rcases hd with ⟨rfl, rfl⟩ | hd
      · exact Or.inr (Or.inl ⟨hj, e, by simp, rfl⟩)
      · have hk : k ≠ j := by
          rintro rfl
          exact h.1 (List.mem_map.2 ⟨_, hd, rfl⟩)
        exact Or.inl ⟨hj ▸ hk, by simp [hd]⟩
    · simp only [update, if_neg hj, List.mem_cons, Prod.mk.injEq] at hd
      rcases hd with ⟨rfl, rfl⟩ | hd
      · exact Or.inl ⟨hj, by simp⟩
      · rcases ih h.2 hd with ⟨hk, hm⟩ | ⟨hk, e', hm, he⟩ | ⟨hk, hm, he⟩
        · exact Or.inl ⟨hk, by simp [hm]⟩
        · exact Or.inr (Or.inl ⟨hk, e', by simp [hm], he⟩)
        · refine Or.inr (Or.inr ⟨hk, ?_, he⟩)
          rw [List.map_cons, List.mem_cons, not_or]
          exact ⟨fun hkj => hj (hkj.symm.trans hk), hm⟩

variable {r : Resolver}

theorem step_piece_drafts (s : Extracting) (p : Piece) : (s.step r (.piece p)).drafts =
    update (r.profile p.language) (fun d => (d.interrupted (s.last.any (· ≠ r.key p))).append p) s.drafts := by
  simp only [step, Draft.interrupted_eq]
  split <;> rfl

theorem step_piece_last (s : Extracting) (p : Piece) : (s.step r (.piece p)).last = some (r.key p) := rfl

/-- The drafts after a stream, each as a single draft would have it that hears the cues of its language;
prose in another language counts as a pause at once. -/
structure Tracks (r : Resolver) (ss : List Segment) (s : Extracting) : Prop where
  nodup : (s.drafts.map Prod.fst).Nodup
  keys : ∀ key, key ∈ s.drafts.map Prod.fst ↔ ∃ p, .piece p ∈ ss ∧ r.key p = key
  profile : ∀ key d, (key, d) ∈ s.drafts → d.profile.language = key
  draft : ∀ key d, (key, d) ∈ s.drafts →
    (Draft.start d.profile).hear (ss.map (Segment.cue r key)) = d.interrupted (s.last.any (· ≠ key))

theorem tracks_start (r : Resolver) : Tracks r [] start where
  nodup := List.nodup_nil
  keys := by simp [start]
  profile := by simp [start]
  draft := by simp [start]

theorem Tracks.separator {ss : List Segment} {s : Extracting} (h : Tracks r ss s) (l : Language) (page : Bool) :
    Tracks r (ss ++ [.separator l page]) (s.step r (.separator l page)) where
  nodup := by simpa [step, Function.comp_def] using h.nodup
  keys := by simpa [step, Function.comp_def] using h.keys
  profile := by
    intro key d hd
    simp only [step, List.mem_map, Prod.mk.injEq, Prod.exists] at hd
    obtain ⟨k, e, he, rfl, rfl⟩ := hd
    exact h.profile k e he
  draft := by
    intro key d hd
    simp only [step, List.mem_map, Prod.mk.injEq, Prod.exists] at hd
    obtain ⟨k, e, he, rfl, rfl⟩ := hd
    have hheard := h.draft k e he
    rw [List.map_append, List.map_singleton, Draft.hear_snoc]
    change ((Draft.start e.profile).hear _).heed _ = _
    rw [hheard]
    simp [Draft.heed, Draft.separate, Draft.interrupted, Segment.cue, step]

theorem exists_pause_of_cue {ss : List Segment} {key : Language} (h : ∀ p, .piece p ∈ ss → r.key p ≠ key) :
    ∀ c ∈ ss.map (Segment.cue r key), ∃ page, c = .pause page := by
  intro c hc
  obtain ⟨x, hx, rfl⟩ := List.mem_map.1 hc
  cases x with
  | piece q => exact ⟨false, Segment.cue_other (h q hx)⟩
  | separator l page => exact ⟨page, rfl⟩

/-- The first prose of a language meets a draft that heard nothing but pauses. -/
theorem append_hear_first {ss : List Segment} {key : Language} (h : ∀ p, .piece p ∈ ss → r.key p ≠ key)
    (profile : Profile) (gap : Bool) (p : Piece) :
    ((Draft.start profile).hear (ss.map (Segment.cue r key))).append p =
      ((Draft.start profile).interrupted gap).append p := by
  obtain ⟨g, b, he⟩ := Draft.hear_pauses (exists_pause_of_cue h) (.start profile)
  rw [he, Draft.append_of_empty rfl]
  exact (Draft.append_of_empty (d := .start profile) rfl _ false p).symm

theorem Tracks.piece {ss : List Segment} {s : Extracting} (h : Tracks r ss s) (p : Piece) :
    Tracks r (ss ++ [.piece p]) (s.step r (.piece p)) where
  nodup := by
    rw [step_piece_drafts]
    exact nodup_update h.nodup
  keys := by
    intro key
    rw [step_piece_drafts, mem_keys_update, h.keys]
    simp only [List.mem_append, List.mem_singleton, Segment.piece.injEq, or_and_right, exists_or]
    exact or_congr_right ⟨fun he => ⟨p, rfl, he.symm⟩, fun ⟨q, hq, he⟩ => hq ▸ he.symm⟩
  profile := by
    intro key d hd
    rw [step_piece_drafts] at hd
    rcases mem_update h.nodup hd with ⟨-, hm⟩ | ⟨-, e, hm, rfl⟩ | ⟨rfl, -, rfl⟩
    · exact h.profile key d hm
    · rw [Draft.append_profile]
      exact h.profile key e hm
    · rw [Draft.append_profile]
      rfl
  draft := by
    intro key d hd
    rw [step_piece_drafts] at hd
    rw [step_piece_last, List.map_append, List.map_singleton, Draft.hear_snoc]
    rcases mem_update h.nodup hd with ⟨hk, hm⟩ | ⟨hk, e, hm, rfl⟩ | ⟨hk, hm, rfl⟩
    · have hk' : r.key p ≠ key := fun he => hk he.symm
      rw [h.draft key d hm, Segment.cue_other hk']
      simp [Draft.heed, Draft.separate, Draft.interrupted, hk']
    · have hk' : r.key p = key := hk.symm
      rw [Segment.cue_own hk', Draft.append_profile]
      change ((Draft.start e.profile).hear _).append p = _
      rw [h.draft key e hm]
      simp [Draft.interrupted, hk']
    · have hk' : r.key p = key := hk.symm
      have hnew : ∀ q, .piece q ∈ ss → r.key q ≠ key := fun q hq hkey => hm ((h.keys key).2 ⟨q, hq, hkey⟩)
      rw [Segment.cue_own hk', Draft.append_profile]
      change ((Draft.start (r.profile p.language)).hear _).append p = _
      rw [append_hear_first hnew _ (s.last.any (· ≠ r.key p))]
      simp [Draft.interrupted, hk']

theorem Tracks.run {pre : List Segment} {s : Extracting} (h : Tracks r pre s) (ss : List Segment) :
    Tracks r (pre ++ ss) (ss.foldl (step r) s) := by
  induction ss generalizing pre s with
  | nil => simpa using h
  | cons x t ih =>
    have hx : Tracks r (pre ++ [x]) (s.step r x) := by
      cases x with
      | piece p => exact h.piece p
      | separator l page => exact h.separator l page
    simpa using ih hx

def run (r : Resolver) (ss : List Segment) : Extracting := ss.foldl (step r) start

theorem run_tracks (r : Resolver) (ss : List Segment) : Tracks r ss (run r ss) := (tracks_start r).run ss

end Extracting

variable {table : Table} {r : Resolver} {language : Language} {root : Node} {t : CheckedText}

theorem mem_texts : t ∈ (extract table r language root).texts ↔
    ∃ key d, (key, d) ∈ (Extracting.run r (root.segments table language)).drafts ∧ 0 < d.map.length ∧ d.finish = t := by
  simp only [extract, Extracting.finish, Extracting.run, List.mem_map, List.mem_filter, decide_eq_true_eq,
    Prod.exists, and_assoc]

/-- What a single draft makes of the cues that a stream holds for a language. -/
def draftOf (r : Resolver) (profile : Profile) (ss : List Segment) : Draft :=
  (Draft.start profile).hear (ss.map (Segment.cue r profile.language))

theorem Extracting.Tracks.draftOf {ss : List Segment} {s : Extracting} (h : Tracks r ss s) {key : Language} {d : Draft}
    (hd : (key, d) ∈ s.drafts) : ∃ gap, draftOf r d.profile ss = d.interrupted gap := by
  rw [Proofreader.draftOf, h.profile key d hd]
  exact ⟨_, h.draft key d hd⟩

/-- Each text of an extraction is what a single draft makes of the cues for its language. -/
theorem eq_finish_of_mem_texts (h : t ∈ (extract table r language root).texts) :
    t = (draftOf r t.profile (root.segments table language)).finish ∧
      0 < (draftOf r t.profile (root.segments table language)).map.length := by
  obtain ⟨key, d, hd, hpos, rfl⟩ := mem_texts.1 h
  obtain ⟨gap, hdraft⟩ := (Extracting.run_tracks r _).draftOf hd
  change d.finish = (draftOf r d.profile _).finish ∧ 0 < (draftOf r d.profile _).map.length
  rw [hdraft]
  exact ⟨rfl, hpos⟩

end Proofreader

/-! ### Well-formed texts

The map covers the text, part by part, with prose on both sides of each
separator, and pages begin behind separators. -/

namespace Proofreader

structure CheckedText.WellFormed (t : CheckedText) : Prop where
  length : t.map.length = t.text.length
  tiled : Tiling 0 t.map.entries.toList t.map.gaps.toList t.text.length
  separators : ∀ g ∈ t.map.gaps.toList, t.text.extract g.start g.stop = separatorText
  renders : List.Forall₂ (Entry.Renders t.text) t.map.entries.toList t.pieces
  inner : ∀ g ∈ t.map.gaps.toList, 0 < g.start ∧ g.stop < t.text.length
  apart : t.map.gaps.toList.Pairwise fun g k => g.stop < k.start
  breaksIncrease : t.pageBreaks.Pairwise (· < ·)
  breaksInside : ∀ b ∈ t.pageBreaks, 0 < b ∧ b < t.text.length ∧ ∃ g ∈ t.map.gaps.toList, g.stop = b

theorem Draft.Sound.wellFormed {d : Draft} (h : d.Sound) : d.finish.WellFormed where
  length := h.length
  tiled := h.length ▸ h.tiled
  separators := h.separators
  renders := h.renders
  inner g hg := h.length ▸ h.inner g hg
  apart := h.apart
  breaksIncrease := h.breaksIncrease
  breaksInside := by
    intro b hb
    obtain ⟨g, hg, rfl⟩ := h.breaksFollow b hb
    have hinner := h.inner g hg
    have hbounds := h.tiled.gap_bounds hg
    exact ⟨by omega, h.length ▸ hinner.2, g, hg, rfl⟩

variable {table : Table} {r : Resolver} {language : Language} {root : Node} {t : CheckedText}

theorem text_of_mem_segments (p : Piece) (h : .piece p ∈ root.segments table language) : p.text ≠ [] := by
  obtain ⟨m, -, hm⟩ := Node.exists_from h
  exact hm.text

theorem sound_draftOf (profile : Profile) : (draftOf r profile (root.segments table language)).Sound :=
  Draft.sound_hear (Draft.sound_start profile) fun p hp => text_of_mem_segments p (Segment.mem_of_prose_mem hp).1

theorem wellFormed_of_mem_texts (h : t ∈ (extract table r language root).texts) : t.WellFormed := by
  rw [(eq_finish_of_mem_texts h).1]
  exact (sound_draftOf t.profile).wellFormed

/-- Every text that is extracted, from any tree and under any rules, is well formed. -/
theorem extract_wellFormed (h : t ∈ (extract table r language root).texts) : t.WellFormed := wellFormed_of_mem_texts h

/-- English around German in one paragraph, and a heading after it. -/
def mixedPages : Node :=
  let prose (text : Text) (start : Nat) : Node :=
    ⟨.text, ⟨"main", start, start + text.length⟩, text, .unset, 0, true, []⟩
  let german : Node := ⟨.lang, ⟨"main", 2, 25⟩, [], ⟨some "de", none⟩, 0, false, [prose ['x'] 22]⟩
  let paragraph : Node :=
    ⟨.paragraph, ⟨"main", 0, 27⟩, [], .unset, 0, false,
      [prose ['a'] 0, prose [' '] 1, german, prose [' '] 25, prose ['b'] 26]⟩
  let heading : Node := ⟨.heading, ⟨"main", 29, 32⟩, [], .unset, 1, false, [prose ['c'] 31]⟩
  ⟨.document, ⟨"main", 0, 32⟩, [], .unset, 0, false, [paragraph, heading]⟩

def mixedResolver : Resolver := ⟨[], [], [], ["de", "en"]⟩

def mixedTexts : List CheckedText := (extract (.checking 1) mixedResolver defaultLanguage mixedPages).texts

theorem length_mixedTexts : mixedTexts.length = 2 := by decide +kernel

def mixedEnglish : CheckedText := mixedTexts.get ⟨0, length_mixedTexts ▸ Nat.two_pos⟩

theorem extract_wellFormed_mixed : mixedEnglish ∈ mixedTexts ∧ mixedEnglish.text = "a \n\nb\n\nc".toList ∧
    mixedEnglish.pageBreaks = [7] ∧ mixedEnglish.WellFormed :=
  ⟨List.get_mem _ _, by decide +kernel, by decide +kernel, extract_wellFormed (List.get_mem _ _)⟩

end Proofreader
