import Proofreader.Proofs.Collections
import Proofreader.Proofs.Extraction.Cue
import Proofreader.Proofs.SourceMap.Projection

/-! No prose is lost, doubled or run together. Each entry of a text is matched with the place of the stream
that it was taken from. Between the places of two consecutive entries stands a pause exactly if a separator
was written between them; the flags of a draft remember the pauses since the last place. -/

namespace Proofreader

namespace Cue

def Pauses : Cue → Prop
  | .prose _ => False
  | .pause _ => True

def TurnsPage : Cue → Prop
  | .prose _ => False
  | .pause page => page = true

theorem pauses_of_turnsPage (c : Cue) (h : c.TurnsPage) : c.Pauses := by
  cases c with
  | prose p => exact h
  | pause page => trivial

end Cue

/-- Two consecutive entries with their places: they adjoin unless something between the places parts them, and
the later one begins a page if something there turns the page. -/
def Link {α : Type} (xs : List α) (parts turns : α → Prop) (breaks : List Nat) (x y : Nat × Entry) : Prop :=
  (x.2.stop = y.2.start ↔ ¬ Between xs parts x.1 y.1) ∧ (y.2.start ∈ breaks ↔ Between xs turns x.1 y.1)

/-- A draft that heard `cues` and took its entries at `places`. -/
structure Heard (cues : List Cue) (places : List Nat) (d : Draft) : Prop where
  sound : d.Sound
  below : ∀ i ∈ places, i < cues.length
  increasing : places.Pairwise (· < ·)
  taken : List.Forall₂ (fun i p => cues[i]? = some (.prose p)) places d.pieces.toList
  prose : ∀ i p, cues[i]? = some (.prose p) → Text.isBlankRun p.text = false → i ∈ places
  linked : (places.zip d.map.entries.toList).IsChain (Link cues Cue.Pauses Cue.TurnsPage d.pageBreaks.toList)
  empty : places = [] → d.map.length = 0
  first : ∀ p ∈ d.pieces.toList.head?, Text.isBlankRun p.text = false
  last : ∀ x ∈ (places.zip d.map.entries.toList).getLast?, x.2.stop = d.map.length ∧
    (d.pendingGap = true ↔ Between cues Cue.Pauses x.1 cues.length) ∧
    (d.pendingPage = true ↔ Between cues Cue.TurnsPage x.1 cues.length)

namespace Heard

variable {cues : List Cue} {places : List Nat} {d : Draft}

theorem start (profile : Profile) : Heard [] [] (.start profile) where
  sound := Draft.sound_start profile
  below := by simp
  increasing := .nil
  taken := .nil
  prose := by simp
  linked := .nil
  empty _ := rfl
  first := by simp [Draft.start]
  last := by simp

theorem length_eq (h : Heard cues places d) : places.length = d.map.entries.toList.length :=
  h.taken.length_eq.trans h.sound.renders.length_eq.symm

theorem zip_snoc (h : Heard cues places d) (i : Nat) (f : Entry) :
    (places ++ [i]).zip (d.map.entries.toList ++ [f]) = places.zip d.map.entries.toList ++ [(i, f)] := by
  rw [List.zip_append h.length_eq]
  rfl

theorem exists_last (h : Heard cues places d) (hp : places ≠ []) :
    ∃ x, x ∈ (places.zip d.map.entries.toList).getLast? ∧ x.1 < cues.length ∧ 0 < d.map.length := by
  have hlen : (places.zip d.map.entries.toList).length = places.length := by
    rw [List.length_zip, ← h.length_eq, Nat.min_self]
  have hne : places.zip d.map.entries.toList ≠ [] := by
    rw [← List.length_pos_iff, hlen]
    exact List.length_pos_iff.2 hp
  obtain ⟨hi, he⟩ := List.of_mem_zip (List.getLast_mem hne)
  have hb := h.sound.tiled.entry_bounds he
  exact ⟨_, List.getLast_mem_getLast? hne, h.below _ hi, by omega⟩

/-- Where no separator is due, none was asked for since the last place. -/
theorem quiet (h : Heard cues places d) (hp : places ≠ []) (hd : d.due = false) :
    d.pendingGap = false ∧ d.pendingPage = false := by
  obtain ⟨x, hx, -, hpos⟩ := h.exists_last hp
  obtain ⟨-, hgap, hpage⟩ := h.last x hx
  have hg : d.pendingGap = false := by simpa [Draft.due, hpos] using hd
  refine ⟨hg, ?_⟩
  cases hpg : d.pendingPage with
  | false => rfl
  | true =>
    have hb := (hpage.1 hpg).imp Cue.pauses_of_turnsPage
    rw [← hgap, hg] at hb
    cases hb

/-- Links between earlier places hold on when the list and the page breaks grow. -/
theorem linked_snoc (h : Heard cues places d) (c : Cue) {m : List Nat} (hm : ∀ b ∈ m, d.map.length < b) :
    (places.zip d.map.entries.toList).IsChain
      (Link (cues ++ [c]) Cue.Pauses Cue.TurnsPage (d.pageBreaks.toList ++ m)) := by
  refine h.linked.imp_of_mem_imp fun x y _ hy hl => ?_
  obtain ⟨hi, he⟩ := List.of_mem_zip hy
  have hle := Nat.le_of_lt (h.below _ hi)
  have hb := h.sound.tiled.entry_bounds he
  have hnew : y.2.start ∉ m := fun hmem => by
    have := hm _ hmem
    omega
  refine ⟨?_, ?_⟩
  · rw [between_append_left [c] hle]
    exact hl.1
  · rw [between_append_left [c] hle, List.mem_append, or_iff_left hnew]
    exact hl.2

/-- What was heard stays heard. -/
theorem taken_snoc (h : Heard cues places d) (c : Cue) :
    List.Forall₂ (fun i p => (cues ++ [c])[i]? = some (.prose p)) places d.pieces.toList := by
  have hb := (List.forall₂_and_left _ _).2 ⟨h.below, h.taken⟩
  refine hb.imp fun i p ⟨hlt, hi⟩ => ?_
  rw [List.getElem?_append_left hlt]
  exact hi

/-- A cue that adds no entry. -/
theorem pass (h : Heard cues places d) {e : Draft} (hsound : e.Sound) (hmap : e.map = d.map)
    (hpieces : e.pieces = d.pieces) (hbreaks : e.pageBreaks = d.pageBreaks) {c : Cue}
    (hc : ∀ p, c = .prose p → Text.isBlankRun p.text = true)
    (hgap : places ≠ [] → (e.pendingGap = true ↔ d.pendingGap = true ∨ c.Pauses))
    (hpage : places ≠ [] → (e.pendingPage = true ↔ d.pendingPage = true ∨ c.TurnsPage)) :
    Heard (cues ++ [c]) places e where
  sound := hsound
  below i hi := by
    have := h.below i hi
    rw [List.length_append]
    omega
  increasing := h.increasing
  taken := hpieces ▸ h.taken_snoc c
  prose := by
    intro i p hi hb
    by_cases hlt : i < cues.length
    · rw [List.getElem?_append_left hlt] at hi
      exact h.prose i p hi hb
    · rw [List.getElem?_append_right (by omega), List.getElem?_singleton] at hi
      split at hi
      · rw [hc p (Option.some.inj hi)] at hb
        cases hb
      · cases hi
  linked := by
    rw [hmap, hbreaks]
    simpa using h.linked_snoc c (m := []) (by simp)
  empty hp := hmap ▸ h.empty hp
  first := hpieces ▸ h.first
  last := by
    rw [hmap]
    intro x hx
    have hi := (List.of_mem_zip (List.mem_of_getLast? hx)).1
    have hne : places ≠ [] := List.ne_nil_of_mem hi
    obtain ⟨hstop, hg, hp⟩ := h.last x hx
    rw [List.length_append, List.length_singleton, between_snoc c (h.below _ hi),
      between_snoc c (h.below _ hi), ← hg, ← hp]
    exact ⟨hstop, hgap hne, hpage hne⟩

/-- Prose that adds an entry. -/
theorem take (h : Heard cues places d) {e : Draft} {f : Entry} {p : Piece} {m : List Nat} (hsound : e.Sound)
    (hentries : e.map.entries.toList = d.map.entries.toList ++ [f]) (hpieces : e.pieces.toList = d.pieces.toList ++ [p])
    (hbreaks : e.pageBreaks.toList = d.pageBreaks.toList ++ m) (hmore : ∀ b ∈ m, d.map.length < b)
    (hstop : f.stop = e.map.length) (hgap : e.pendingGap = false) (hpage : e.pendingPage = false)
    (hfirst : places = [] → Text.isBlankRun p.text = false)
    (hstart : places ≠ [] → (d.map.length = f.start ↔ d.pendingGap = false))
    (hturn : places ≠ [] → (f.start ∈ e.pageBreaks.toList ↔ d.pendingPage = true)) :
    Heard (cues ++ [.prose p]) (places ++ [cues.length]) e where
  sound := hsound
  below := by
    intro i hi
    rw [List.length_append, List.length_singleton]
    rcases List.mem_append.1 hi with hi | hi
    · have := h.below i hi
      omega
    · rw [List.mem_singleton] at hi
      omega
  increasing := by
    rw [List.pairwise_append]
    refine ⟨h.increasing, List.pairwise_singleton _ _, fun i hi j hj => ?_⟩
    rw [List.mem_singleton] at hj
    exact hj ▸ h.below i hi
  taken := by
    rw [hpieces]
    exact List.rel_append (h.taken_snoc _) (.cons (by simp) .nil)
  prose := by
    intro i q hi hb
    by_cases hlt : i < cues.length
    · rw [List.getElem?_append_left hlt] at hi
      exact List.mem_append_left _ (h.prose i q hi hb)
    · have := (List.getElem?_eq_some_iff.1 hi).1
      rw [List.length_append, List.length_singleton] at this
      have heq : i = cues.length := by omega
      exact heq ▸ List.mem_append_right _ (List.mem_singleton_self _)
  linked := by
    rw [hentries, h.zip_snoc, isChain_snoc, hbreaks]
    refine ⟨h.linked_snoc _ hmore, fun x hx => ?_⟩
    have hi := (List.of_mem_zip (List.mem_of_getLast? hx)).1
    have hne : places ≠ [] := List.ne_nil_of_mem hi
    obtain ⟨hlast, hg, hp⟩ := h.last x hx
    rw [Link, hlast, between_append_left _ (Nat.le_refl _), between_append_left _ (Nat.le_refl _), ← hg, ← hp, ← hbreaks]
    exact ⟨by simpa using hstart hne, hturn hne⟩
  empty := by simp
  first := by
    rw [hpieces]
    intro q hq
    by_cases hne : d.pieces.toList = []
    · rw [hne, List.nil_append, List.head?_cons, Option.mem_some_iff] at hq
      have hplaces : places = [] := List.forall₂_nil_right_iff.1 (hne ▸ h.taken)
      exact hq ▸ hfirst hplaces
    · rw [List.head?_append_of_ne_nil _ hne] at hq
      exact h.first q hq
  last := by
    rw [hentries, h.zip_snoc]
    intro x hx
    rw [List.getLast?_append, List.getLast?_singleton, Option.some_or, Option.mem_some_iff] at hx
    subst hx
    rw [List.length_append, List.length_singleton, hgap, hpage]
    refine ⟨hstop, ?_, ?_⟩ <;> simp [not_between_succ]

/-- Page breaks lie below the end of the text. -/
theorem break_lt (h : Heard cues places d) {b : Nat} (hb : b ∈ d.pageBreaks.toList) : b < d.map.length := by
  obtain ⟨g, hg, rfl⟩ := h.sound.breaksFollow b hb
  exact (h.sound.inner g hg).2

theorem take_adjoining (h : Heard cues places d) (hd : d.due = false) {p : Piece} (hp : p.text ≠ [])
    (hblank : Text.isBlankRun p.text = true → d.takesBlank = true) :
    Heard (cues ++ [.prose p]) (places ++ [cues.length]) (d.settled.addPiece p) := by
  refine h.take (m := []) (h.sound.settled.addPiece hp) (Draft.addPiece_entries _ p) (Draft.addPiece_pieces _ p)
    (List.append_nil _).symm (by simp) rfl rfl rfl (fun he => ?_) (fun hne => ?_) (fun hne => ?_)
  · cases hb : Text.isBlankRun p.text with
    | false => rfl
    | true => simpa [Draft.takesBlank, h.empty he] using hblank hb
  · simp [(h.quiet hne hd).1]
  · rw [(h.quiet hne hd).2]
    refine ⟨fun hb => absurd (h.break_lt hb) (Nat.lt_irrefl _), fun hf => by cases hf⟩

theorem take_parted (h : Heard cues places d) (hd : d.due = true) {p : Piece} (hp : p.text ≠ [])
    (hblank : Text.isBlankRun p.text = false) :
    Heard (cues ++ [.prose p]) (places ++ [cues.length]) (d.writeGap.settled.addPiece p) := by
  have hgap : d.pendingGap = true := by
    simp only [Draft.due, Bool.and_eq_true] at hd
    exact hd.1
  refine h.take (h.sound.addPiece_writeGap (Draft.length_pos_of_due hd) hp) (Draft.addPiece_entries _ p)
    (Draft.addPiece_pieces _ p) (Draft.writeGap_pageBreaks d) ?_ rfl rfl rfl (fun _ => hblank) (fun _ => ?_)
    (fun _ => ?_)
  · intro b hb
    split at hb
    · rw [List.mem_singleton] at hb
      omega
    · simp at hb
  · simp [hgap]
  · have hold : d.map.length + 2 ∉ d.pageBreaks.toList := fun hb => by
      have := h.break_lt hb
      omega
    rw [Draft.addPiece_pageBreaks, Draft.settled_pageBreaks, Draft.writeGap_pageBreaks, List.mem_append]
    simp only [Draft.settled_map, Draft.writeGap_length, hold, false_or]
    cases d.pendingPage <;> simp

/-- Each cue adds its place exactly if it adds an entry. -/
theorem heed (h : Heard cues places d) (c : Cue) (hc : ∀ p, c = .prose p → p.text ≠ []) :
    Heard (cues ++ [c]) (places ++ if d.pieces.size < (d.heed c).pieces.size then [cues.length] else []) (d.heed c) := by
  cases c with
  | pause page =>
    have hsize : ¬ d.pieces.size < (d.heed (.pause page)).pieces.size := Nat.lt_irrefl _
    rw [if_neg hsize, List.append_nil]
    refine h.pass (h.sound.separate page) rfl rfl rfl (by simp) (fun _ => ?_) (fun _ => ?_)
    · simp [Draft.separate, Cue.Pauses]
    · simp [Draft.separate, Cue.TurnsPage]
  | prose p =>
    change Heard _ (places ++ if d.pieces.size < (d.append p).pieces.size then [cues.length] else []) (d.append p)
    rcases d.append_cases p with ⟨-, hb, he⟩ | ⟨hd, hb, -, he⟩ | ⟨hd, hb, he⟩ | ⟨hd, hb, he⟩
    · rw [he, if_neg (Nat.lt_irrefl _), List.append_nil]
      refine h.pass h.sound rfl rfl rfl (fun q hq => ?_) (fun _ => ?_) (fun _ => ?_)
      · cases hq
        exact hb
      · simp [Cue.Pauses]
      · simp [Cue.TurnsPage]
    · rw [he, Draft.settled_pieces, if_neg (Nat.lt_irrefl _), List.append_nil]
      refine h.pass h.sound.settled rfl rfl rfl (fun q hq => ?_) (fun hne => ?_) (fun hne => ?_)
      · cases hq
        exact hb
      · simp [Draft.settled, Cue.Pauses, (h.quiet hne hd).1]
      · simp [Draft.settled, Cue.TurnsPage, (h.quiet hne hd).2]
    · rw [he, if_pos (by simp [Draft.addPiece])]
      exact h.take_adjoining hd (hc p rfl) hb
    · rw [he, if_pos (by simp [Draft.addPiece])]
      exact h.take_parted hd (hc p rfl) hb

end Heard

namespace Draft

theorem append_withProfile (d : Draft) (profile : Profile) (p : Piece) :
    { d with profile := profile }.append p = { d.append p with profile := profile } := by
  have hdue : { d with profile := profile }.due = d.due := rfl
  have htakes : { d with profile := profile }.takesBlank = d.takesBlank := rfl
  rw [append_eq, append_eq, hdue]
  cases d.due <;> cases Text.isBlankRun p.text <;> cases ht : d.takesBlank <;> simp [htakes, ht] <;> rfl

theorem hear_withProfile (d : Draft) (profile : Profile) (cues : List Cue) :
    { d with profile := profile }.hear cues = { d.hear cues with profile := profile } := by
  induction cues generalizing d with
  | nil => rfl
  | cons c t ih =>
    cases c with
    | prose p =>
      change ({ d with profile := profile }.append p).hear t = _
      rw [append_withProfile, ih]
      rfl
    | pause page => exact ih (d.separate page)

end Draft

namespace Extracting

/-- How many entries the text for `key` has. -/
def held (s : Extracting) (key : Language) : Nat := (s.drafts.lookup key).elim 0 (·.pieces.size)

/-- The places of a stream at which the text for `key` takes an entry. -/
def places (r : Resolver) (key : Language) (ss : List Segment) : List Nat :=
  (List.range ss.length).filter fun i => (run r (ss.take i)).held key < (run r (ss.take (i + 1))).held key

variable {r : Resolver}

/-- A single draft makes of a stream what the stream leaves for the language; there is none without prose in it. -/
theorem draftOf_cases (profile : Profile) (ss : List Segment) :
    ((run r ss).drafts.lookup profile.language = none ∧
      ∃ gap page, draftOf r profile ss = { Draft.start profile with pendingGap := gap, pendingPage := page }) ∨
    ∃ d gap, (run r ss).drafts.lookup profile.language = some d ∧
      draftOf r profile ss = { d.interrupted gap with profile := profile } := by
  have tracks := run_tracks r ss
  cases hl : (run r ss).drafts.lookup profile.language with
  | none =>
    have hnew : ∀ p, .piece p ∈ ss → r.key p ≠ profile.language := by
      intro p hp hkey
      obtain ⟨x, hx, hxk⟩ := List.mem_map.1 ((tracks.keys _).2 ⟨p, hp, hkey⟩)
      exact absurd (List.lookup_eq_none_iff.1 hl x hx) (by simp [hxk])
    exact Or.inl ⟨rfl, Draft.hear_pauses (exists_pause_of_cue hnew) (.start profile)⟩
  | some d =>
    have hheard := tracks.draft _ d (mem_of_lookup hl)
    have hstart : Draft.start profile = { Draft.start d.profile with profile := profile } := rfl
    refine Or.inr ⟨d, (run r ss).last.any (· ≠ profile.language), rfl, ?_⟩
    rw [draftOf, hstart, Draft.hear_withProfile, hheard]

theorem held_run (profile : Profile) (ss : List Segment) :
    (run r ss).held profile.language = (draftOf r profile ss).pieces.size := by
  rw [held]
  rcases draftOf_cases profile ss with ⟨hnone, gap, page, he⟩ | ⟨d, gap, hd, he⟩
  · rw [hnone, he]
    rfl
  · rw [hd, he]
    rfl

theorem places_snoc (key : Language) (ss : List Segment) (x : Segment) : places r key (ss ++ [x]) =
    places r key ss ++ if (run r ss).held key < (run r (ss ++ [x])).held key then [ss.length] else [] := by
  have hold : ∀ i ∈ List.range ss.length,
      (decide ((run r ((ss ++ [x]).take i)).held key < (run r ((ss ++ [x]).take (i + 1))).held key)) =
        decide ((run r (ss.take i)).held key < (run r (ss.take (i + 1))).held key) := by
    intro i hi
    rw [List.mem_range] at hi
    rw [List.take_append_of_le_length (by omega), List.take_append_of_le_length (by omega)]
  rw [places, List.length_append, List.length_singleton, List.range_succ, List.filter_append,
    List.filter_congr hold, List.filter_singleton]
  simp only [places, List.take_left, Bool.cond_decide]
  rw [List.take_of_length_le (by simp)]

/-- The text of a language hears its cues and takes its entries at the places where it grows. -/
theorem heard_places (profile : Profile) {ss : List Segment} (hs : ∀ p, .piece p ∈ ss → p.text ≠ []) :
    Heard (ss.map (Segment.cue r profile.language)) (places r profile.language ss) (draftOf r profile ss) := by
  induction ss using List.reverseRecOn with
  | nil => exact Heard.start profile
  | append_singleton ss x ih =>
    have hx : ∀ p, Segment.cue r profile.language x = .prose p → p.text ≠ [] := by
      intro p hp
      obtain ⟨rfl, -⟩ := Segment.cue_eq_prose.1 hp
      exact hs p (by simp)
    have hstep := (ih fun p hp => hs p (by simp [hp])).heed _ hx
    rw [places_snoc, held_run, held_run]
    simp only [draftOf, List.map_append, List.map_singleton, Draft.hear_snoc, List.length_map] at hstep ⊢
    exact hstep

end Extracting

namespace Segment

/-- Parts the entries around it in the text for `key`. -/
def Parts (r : Resolver) (key : Language) : Segment → Prop
  | .piece p => r.key p ≠ key
  | .separator _ _ => True

def TurnsPage : Segment → Prop
  | .piece _ => False
  | .separator _ page => page = true

/-- The prose of a segment in the language `key`. -/
def prose? (r : Resolver) (key : Language) : Segment → Option Piece
  | .piece p => if r.key p = key ∧ Text.isBlankRun p.text = false then some p else none
  | .separator _ _ => none

variable {r : Resolver} {key : Language}

theorem cue_pauses (x : Segment) : (x.cue r key).Pauses ↔ x.Parts r key := by
  cases x with
  | separator l page => exact Iff.rfl
  | piece p =>
    by_cases h : r.key p = key
    · rw [cue_own h]
      exact ⟨False.elim, fun hp => hp h⟩
    · rw [cue_other h]
      exact ⟨fun _ => h, fun _ => trivial⟩

theorem cue_turnsPage (x : Segment) : (x.cue r key).TurnsPage ↔ x.TurnsPage := by
  cases x with
  | separator l page => exact Iff.rfl
  | piece p =>
    by_cases h : r.key p = key
    · rw [cue_own h]
      exact Iff.rfl
    · rw [cue_other h]
      exact ⟨nofun, False.elim⟩

theorem getElem?_cue {ss : List Segment} {i : Nat} {p : Piece} :
    (ss.map (cue r key))[i]? = some (.prose p) ↔ ss[i]? = some (.piece p) ∧ r.key p = key := by
  rw [List.getElem?_map, Option.map_eq_some_iff]
  constructor
  · rintro ⟨x, hx, hp⟩
    obtain ⟨rfl, hk⟩ := cue_eq_prose.1 hp
    exact ⟨hx, hk⟩
  · rintro ⟨hx, hk⟩
    exact ⟨_, hx, cue_own hk⟩

end Segment

/-- How a text follows its stream. -/
structure CheckedText.Keeps (r : Resolver) (ss : List Segment) (t : CheckedText) : Prop where
  prose : t.pieces.filter (fun p => !Text.isBlankRun p.text) = ss.filterMap (Segment.prose? r t.key)
  renders : List.Forall₂ (Entry.Renders t.text) t.map.entries.toList t.pieces
  taken : List.Forall₂ (fun i p => ss[i]? = some (.piece p) ∧ r.key p = t.key)
    (Extracting.places r t.key ss) t.pieces
  inOrder : (Extracting.places r t.key ss).Pairwise (· < ·)
  complete : ∀ i p, ss[i]? = some (.piece p) → r.key p = t.key → Text.isBlankRun p.text = false →
    i ∈ Extracting.places r t.key ss
  linked : ((Extracting.places r t.key ss).zip t.map.entries.toList).IsChain
    (Link ss (Segment.Parts r t.key) Segment.TurnsPage t.pageBreaks)

/-- The prose that a draft takes is the prose that it hears. -/
theorem Draft.prose_append (d : Draft) (p : Piece) :
    (d.append p).pieces.toList.filter (fun q => !Text.isBlankRun q.text) =
      d.pieces.toList.filter (fun q => !Text.isBlankRun q.text) ++ [p].filter fun q => !Text.isBlankRun q.text := by
  rcases d.append_cases p with ⟨-, hb, he⟩ | ⟨-, hb, -, he⟩ | ⟨-, -, he⟩ | ⟨-, -, he⟩
  · simp [he, hb]
  · simp [he, hb]
  · rw [he, addPiece_pieces, List.filter_append]
    rfl
  · rw [he, addPiece_pieces, List.filter_append]
    rfl

theorem Draft.prose_hear (d : Draft) (r : Resolver) (key : Language) (ss : List Segment) :
    (d.hear (ss.map (Segment.cue r key))).pieces.toList.filter (fun p => !Text.isBlankRun p.text) =
      d.pieces.toList.filter (fun p => !Text.isBlankRun p.text) ++ ss.filterMap (Segment.prose? r key) := by
  induction ss generalizing d with
  | nil => simp [hear]
  | cons x t ih =>
    change ((d.heed (x.cue r key)).hear _).pieces.toList.filter _ = _
    rw [ih, List.filterMap_cons]
    cases x with
    | separator l page => rfl
    | piece p =>
      by_cases hk : r.key p = key
      · rw [Segment.cue_own hk]
        change (d.append p).pieces.toList.filter _ ++ _ = _
        rw [prose_append]
        cases hb : Text.isBlankRun p.text <;> simp [Segment.prose?, hk, hb]
      · rw [Segment.cue_other hk]
        simp [Segment.prose?, hk, heed, separate]

theorem Draft.hear_profile (d : Draft) (cues : List Cue) : (d.hear cues).profile = d.profile := by
  induction cues generalizing d with
  | nil => rfl
  | cons c t ih =>
    refine (ih (d.heed c)).trans ?_
    cases c with
    | prose p => exact d.append_profile p
    | pause page => rfl

/-- What a single draft keeps of its stream. -/
theorem keeps_draftOf {r : Resolver} {ss : List Segment} (profile : Profile) (hs : ∀ p, .piece p ∈ ss → p.text ≠ []) :
    (draftOf r profile ss).finish.Keeps r ss := by
  have heard := Extracting.heard_places (r := r) profile hs
  have hkey : (draftOf r profile ss).finish.key = profile.language :=
    congrArg Profile.language (Draft.hear_profile _ _)
  refine ⟨?_, heard.sound.renders, ?_, ?_, ?_, ?_⟩
  · rw [hkey]
    exact (Draft.start profile).prose_hear r profile.language ss
  · rw [hkey]
    exact heard.taken.imp fun i p h => Segment.getElem?_cue.1 h
  · rw [hkey]
    exact heard.increasing
  · rw [hkey]
    exact fun i p hi hk hb => heard.prose i p (Segment.getElem?_cue.2 ⟨hi, hk⟩) hb
  · rw [hkey]
    refine heard.linked.imp fun x y h => ?_
    rw [Link, between_map, between_map] at h
    simp only [Segment.cue_pauses, Segment.cue_turnsPage] at h
    exact h

variable {table : Table} {r : Resolver} {language : Language} {root : Node}

theorem nodup_keys : ((extract table r language root).texts.map (·.key)).Nodup := by
  have tracks := Extracting.run_tracks r (root.segments table language)
  have hkeys : (extract table r language root).texts.map (·.key) =
      ((Extracting.run r (root.segments table language)).drafts.filter fun x => 0 < x.2.map.length).map Prod.fst := by
    simp only [extract, Extracting.finish, List.map_map]
    exact List.map_congr_left fun x hx => tracks.profile x.1 x.2 (List.mem_of_mem_filter hx)
  rw [hkeys]
  exact (List.filter_sublist.map Prod.fst).nodup tracks.nodup

/-- A language has a text exactly if it has prose: a text begins with prose, and prose is never dropped. -/
theorem mem_keys {key : Language} : key ∈ (extract table r language root).texts.map (·.key) ↔
    ∃ p, .piece p ∈ root.segments table language ∧ r.key p = key ∧ Text.isBlankRun p.text = false := by
  have tracks := Extracting.run_tracks r (root.segments table language)
  have hs : ∀ p, .piece p ∈ root.segments table language → p.text ≠ [] := text_of_mem_segments
  constructor
  · intro h
    obtain ⟨t, ht, rfl⟩ := List.mem_map.1 h
    have hpos := (eq_finish_of_mem_texts ht).2
    have heard := Extracting.heard_places (r := r) t.profile hs
    obtain ⟨p, rest, hpieces⟩ : ∃ p rest, (draftOf r t.profile (root.segments table language)).pieces.toList = p :: rest := by
      refine List.exists_cons_of_ne_nil fun hnil => ?_
      have hplaces := List.forall₂_nil_right_iff.1 (hnil ▸ heard.taken)
      rw [heard.empty hplaces] at hpos
      exact Nat.lt_irrefl 0 hpos
    obtain ⟨i, -, hi, -, -⟩ := List.forall₂_cons_right_iff.1 (hpieces ▸ heard.taken)
    obtain ⟨hmem, hkey⟩ := Segment.getElem?_cue.1 hi
    exact ⟨p, List.mem_of_getElem? hmem, hkey, heard.first p (by rw [hpieces]; rfl)⟩
  · rintro ⟨p, hp, hkey, hb⟩
    obtain ⟨⟨k, d⟩, hd, rfl⟩ := List.mem_map.1 ((tracks.keys key).2 ⟨p, hp, hkey⟩)
    have hprofile : d.profile.language = k := tracks.profile k d hd
    obtain ⟨gap, hdraft⟩ := tracks.draftOf hd
    obtain ⟨i, hi⟩ := List.mem_iff_getElem?.1 hp
    have heard := Extracting.heard_places (r := r) d.profile hs
    have hplace := heard.prose i p (Segment.getElem?_cue.2 ⟨hi, hkey.trans hprofile.symm⟩) hb
    obtain ⟨-, -, -, hpos⟩ := heard.exists_last (List.ne_nil_of_mem hplace)
    rw [hdraft] at hpos
    exact List.mem_map.2 ⟨d.finish, mem_texts.2 ⟨k, d, hd, hpos, rfl⟩, hprofile⟩

theorem keeps_of_mem_texts {t : CheckedText} (h : t ∈ (extract table r language root).texts) :
    t.Keeps r (root.segments table language) := by
  rw [(eq_finish_of_mem_texts h).1]
  exact keeps_draftOf t.profile text_of_mem_segments

/-- Each language with prose in the stream has one text, which keeps all of that prose. -/
theorem extract_keepsProse (table : Table) (r : Resolver) (language : Language) (root : Node) :
    ((extract table r language root).texts.map (·.key)).Nodup ∧
    (∀ key, key ∈ (extract table r language root).texts.map (·.key) ↔
      ∃ p, .piece p ∈ root.segments table language ∧ r.key p = key ∧ Text.isBlankRun p.text = false) ∧
    ∀ t ∈ (extract table r language root).texts, t.Keeps r (root.segments table language) :=
  ⟨nodup_keys, fun _ => mem_keys, fun _ ht => keeps_of_mem_texts ht⟩

def mixedStream : List Segment := mixedPages.segments (.checking 1) defaultLanguage

/-- German at place 2 and the separators at places 5 and 6 part the English of the sample. -/
theorem extract_keepsProse_mixed : Extracting.places mixedResolver mixedEnglish.key mixedStream = [0, 1, 4, 7] ∧
    mixedEnglish.map.gaps.toList = [⟨2, 4⟩, ⟨5, 7⟩] ∧ mixedEnglish.Keeps mixedResolver mixedStream :=
  ⟨by decide +kernel, by decide +kernel, (extract_keepsProse _ _ _ _).2.2 mixedEnglish (List.get_mem _ _)⟩

end Proofreader

/-! ### Where entries come from

Each has the place of a node of the tree, and as many characters as that
place if it is exact. -/

namespace Proofreader

theorem exists_of_mem_zip {α β γ : Type} {R : α → γ → Prop} {S : β → γ → Prop} {as : List α} {bs : List β} {cs : List γ}
    (h : List.Forall₂ R as cs) (k : List.Forall₂ S bs cs) {x : α × β} (hx : x ∈ as.zip bs) : ∃ c, R x.1 c ∧ S x.2 c := by
  induction h generalizing bs with
  | nil => simp at hx
  | cons hr _ ih =>
    cases k with
    | cons hs k =>
      rw [List.zip_cons_cons, List.mem_cons] at hx
      rcases hx with rfl | hx
      · exact ⟨_, hr, hs⟩
      · exact ih k hx

namespace CheckedText

variable {r : Resolver} {ss : List Segment} {t : CheckedText}

namespace Keeps

theorem exists_piece (k : t.Keeps r ss) {x : Nat × Entry}
    (hx : x ∈ (Extracting.places r t.key ss).zip t.map.entries.toList) :
    ∃ p, ss[x.1]? = some (.piece p) ∧ r.key p = t.key ∧ x.2.Renders t.text p := by
  obtain ⟨p, ⟨hp, hkey⟩, hr⟩ := exists_of_mem_zip k.taken k.renders hx
  exact ⟨p, hp, hkey, hr⟩

theorem length_places (k : t.Keeps r ss) : (Extracting.places r t.key ss).length = t.map.entries.toList.length :=
  k.taken.length_eq.trans k.renders.length_eq.symm

theorem map_snd_zip (k : t.Keeps r ss) :
    ((Extracting.places r t.key ss).zip t.map.entries.toList).map Prod.snd = t.map.entries.toList :=
  List.map_snd_zip (Nat.le_of_eq k.length_places.symm)

theorem map_fst_zip (k : t.Keeps r ss) :
    ((Extracting.places r t.key ss).zip t.map.entries.toList).map Prod.fst = Extracting.places r t.key ss :=
  List.map_fst_zip (Nat.le_of_eq k.length_places)

theorem exists_piece_of_entry (k : t.Keeps r ss) {e : Entry} (he : e ∈ t.map.entries.toList) :
    ∃ p, .piece p ∈ ss ∧ e.Renders t.text p := by
  rw [← k.map_snd_zip] at he
  obtain ⟨x, hx, rfl⟩ := List.mem_map.1 he
  obtain ⟨p, hp, -, hr⟩ := k.exists_piece hx
  exact ⟨p, List.mem_of_getElem? hp, hr⟩

end Keeps

theorem WellFormed.map_tiled (w : t.WellFormed) : t.map.Tiled := by
  rw [SourceMap.Tiled, w.length]
  exact w.tiled

end CheckedText

variable {table : Table} {r : Resolver} {language : Language} {root : Node} {t : CheckedText} {e : Entry}

theorem exists_node_of_entry (ht : t ∈ (extract table r language root).texts) (he : e ∈ t.map.entries.toList) :
    ∃ p m, m ∈ root.preorder ∧ e.Renders t.text p ∧ p.From m := by
  obtain ⟨p, hp, hrenders⟩ := (keeps_of_mem_texts ht).exists_piece_of_entry he
  obtain ⟨m, hm, hfrom⟩ := Node.exists_from hp
  exact ⟨p, m, hm, hrenders, hfrom⟩

/-- Entries are placed if nodes are. -/
theorem placed_of_mem_texts (hvalid : ∀ n ∈ root.preorder, n.location.Valid)
    (ht : t ∈ (extract table r language root).texts) (he : e ∈ t.map.entries.toList) : e.Placed := by
  obtain ⟨p, m, hm, hrenders, hfrom⟩ := exists_node_of_entry ht he
  have hlocation : e.location = m.location := hrenders.location.trans hfrom.location
  have hv := hvalid m hm
  refine ⟨hlocation ▸ hv, fun hexact => ?_⟩
  obtain ⟨-, -, hlength⟩ := hfrom.exact (hrenders.exact ▸ hexact)
  have hstop := ((wellFormed_of_mem_texts ht).tiled.entry_bounds he).2.2
  have hcut := Text.length_extract t.text (a := e.start) hstop
  rw [hrenders.text, hlength, Location.length] at hcut
  rw [Location.Valid] at hv
  rw [hlocation]
  omega

end Proofreader
