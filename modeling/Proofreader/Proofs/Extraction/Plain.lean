import Proofreader.Proofs.Extraction.Cue
import Proofreader.Proofs.Extraction.Tags
import Proofreader.Proofs.Markup.Plain

/-! Plain prose is extracted verbatim: one text, in which words stand as in the source, one space for the whitespace between
two of them, and a separator between paragraphs. -/

namespace Proofreader

open Markup

/-- The piece that a run becomes. -/
def Markup.Run.piece (file : FileId) (language : Language) (r : Markup.Run) : Piece :=
  ⟨if r.isWord then r.text else [' '], r.location file, language, r.isWord || r.text = [' '], false⟩

/-- What a run becomes in the text. -/
def Markup.Run.shown (r : Markup.Run) : Text := if r.isWord then r.text else [' ']

/-- The stream of paragraphs. -/
def stream (file : FileId) (language : Language) (ps : List (List Markup.Run)) : List Segment :=
  ps.flatMap fun p => p.map (fun r => .piece (r.piece file language)) ++ [.separator language false]

section Stream

variable {file : FileId} {language : Language} {level : Int} {start : Nat} {r : Markup.Run} {p : List Markup.Run} {ps : List (List Markup.Run)}

theorem segments_node (file : FileId) (language : Language) (level : Int) (hr : r.text ≠ []) :
    (r.node file).segments (.checking level) language = [.piece (r.piece file language)] := by
  cases hword : r.isWord with
  | true =>
    rw [Markup.Run.node, if_pos hword, Node.segments, Markup.Run.piece, hword]
    simp [Table.checking, Rule.identity, Rule.paginates, Kind.isLeaf, Kind.isBlock, Node.ownPiece, Scope.within, Scope.unset, hr,
      Markup.Run.location, Location.length]
  | false =>
    have hone : r.text = [' '] → 1 = r.text.length := fun h => by rw [h]; rfl
    rw [Markup.Run.node, if_neg (by simp [hword]), Node.segments, Markup.Run.piece, hword]
    simpa [Table.checking, Rule.identity, Rule.paginates, Kind.isLeaf, Kind.isBlock, Node.ownPiece, Scope.within, Scope.unset,
      Markup.Run.location, Location.length] using hone

theorem segments_paragraph {n : Node} (h : IsParagraph file p n) (language : Language) (level : Int)
    (hp : ∀ r ∈ p, r.text ≠ []) : n.segments (.checking level) language =
      p.map (fun r => .piece (r.piece file language)) ++ [.separator language false] := by
  have hinside : Node.segmentsOf (.checking level) language (p.map (Markup.Run.node file)) =
      p.map fun r => .piece (r.piece file language) := by
    rw [Node.segmentsOf_eq, List.flatMap_map, List.map_eq_flatMap]
    exact List.flatMap_congr fun r hr => segments_node file language level (hp r hr)
  have hlanguage : n.scope.within language = language := by
    rw [h.scope]
    rfl
  rw [Node.segments_eq, h.kind]
  simp only [Table.checking, Rule.identity, Node.opening, Node.inside, Node.ending, Rule.paginates, h.kind, hlanguage, h.children]
  exact congrArg (· ++ [Segment.separator language false]) hinside

/-- A document of paragraphs becomes their stream. -/
theorem segments_plain {nodes : List Node} (h : List.Forall₂ (IsParagraph file) ps nodes) (hps : ∀ p ∈ ps, ∀ r ∈ p, r.text ≠ [])
    (length : Nat) (language : Language) (level : Int) :
    (⟨.document, ⟨file, 0, length⟩, [], .unset, 0, false, nodes⟩ : Node).segments (.checking level) language =
      stream file language ps := by
  have hnodes : Node.segmentsOf (.checking level) language nodes = stream file language ps := by
    rw [Node.segmentsOf_eq]
    induction h with
    | nil => rfl
    | cons hn _ ih =>
      obtain ⟨hp, hps⟩ := List.forall_mem_cons.1 hps
      rw [List.flatMap_cons, stream, List.flatMap_cons, segments_paragraph hn language level hp, ih hps]
      rfl
  rw [Node.segments]
  simp only [Table.checking, Rule.identity, Rule.paginates, Kind.isBlock, Kind.isLeaf]
  exact (List.append_nil _).trans hnodes

end Stream

section Shown

/-- Parts with something before each but the first. -/
theorem intercalate_cons (sep x : Text) (xs : List Text) :
    sep.intercalate (x :: xs) = x ++ xs.flatMap (sep ++ ·) := by
  induction xs generalizing x with
  | nil => simp
  | cons y xs ih => rw [List.intercalate_cons_cons, ih, List.flatMap_cons, List.append_assoc, List.append_assoc]

/-- Behind a word, whitespace and the next word by turns. -/
theorem shown_rest {start : Nat} : ∀ {q : List Markup.Run}, Runs start q → (∀ g ∈ q.head?, g.isWord = false) →
    (∀ w ∈ q.getLast?, w.isWord = true) → q.flatMap Markup.Run.shown = ((q.filter Markup.Run.isWord).map Markup.Run.text).flatMap ([' '] ++ ·)
  | [], _, _, _ => rfl
  | [g], _, hhead, hlast => by
    have hgap := hhead g rfl
    rw [hlast g rfl] at hgap
    cases hgap
  | g :: w :: q, hruns, hhead, hlast => by
    have hg := hhead g rfl
    have hw : w.isWord = true := by simpa [hg] using hruns.next w rfl
    have hrest := shown_rest hruns.tail.tail (fun h hh => by simpa [hw] using hruns.tail.next h hh) fun v hv => by
      cases q with
      | nil => cases hv
      | cons h q => exact hlast v hv
    have hshown : g.shown = [' '] ∧ w.shown = w.text := ⟨if_neg (by simp [hg]), if_pos hw⟩
    rw [List.flatMap_cons, List.flatMap_cons, hrest, hshown.1, hshown.2, List.filter_cons_of_neg (by simp [hg]),
      List.filter_cons_of_pos hw, List.map_cons, List.flatMap_cons, List.append_assoc]

/-- A paragraph is its words with single spaces between. -/
theorem shown_paragraph {p : List Markup.Run} (h : IsProse p) :
    p.flatMap Markup.Run.shown = [' '].intercalate ((p.filter Markup.Run.isWord).map Markup.Run.text) := by
  obtain ⟨⟨start, hruns⟩, ⟨w, q, rfl, hw⟩, hlast⟩ := h
  have hrest := shown_rest hruns.tail (fun g hg => by simpa [hw] using hruns.next g hg) fun v hv => by
    cases q with
    | nil => cases hv
    | cons g q => exact hlast v hv
  have hshown : w.shown = w.text := if_pos hw
  rw [List.filter_cons_of_pos hw, List.map_cons, intercalate_cons, List.flatMap_cons, hrest, hshown]

end Shown

section Draft

namespace Draft

variable {d : Draft} {file : FileId} {language : Language} {start : Nat} {r : Markup.Run} {p : List Markup.Run} {ps : List (List Markup.Run)}

/-- What is written of a paragraph at once. -/
structure Wrote (d e : Draft) (text : Text) (pieces : List Piece) : Prop where
  text : e.text.toList = d.text.toList ++ text
  pieces : e.pieces.toList = d.pieces.toList ++ pieces
  length : 0 < e.map.length
  gap : e.pendingGap = false

/-- A word is always taken, behind a separator that is due. -/
theorem append_word (d : Draft) {q : Piece} (hq : Text.isBlankRun q.text = false) (hne : q.text ≠ []) :
    d.Wrote (d.append q) ((if d.due then separatorText else []) ++ q.text) [q] := by
  have hlength := List.length_pos_iff.2 hne
  rcases d.append_cases q with ⟨-, hblank, -⟩ | ⟨-, hblank, -, -⟩ | ⟨hdue, -, he⟩ | ⟨hdue, -, he⟩
  · rw [hq] at hblank
    cases hblank
  · rw [hq] at hblank
    cases hblank
  · rw [he, hdue]
    exact ⟨addPiece_text _ _, addPiece_pieces _ _, Nat.lt_of_lt_of_le hlength (Nat.le_add_left _ _), rfl⟩
  · rw [he, hdue]
    refine ⟨?_, addPiece_pieces _ _, Nat.lt_of_lt_of_le hlength (Nat.le_add_left _ _), rfl⟩
    rw [addPiece_text, if_pos rfl, ← List.append_assoc]
    exact congrArg (· ++ q.text) d.writeGap_text

theorem Wrote.trans {e f : Draft} {x y : Text} {ps qs : List Piece} (h : d.Wrote e x ps) (k : e.Wrote f y qs) :
    d.Wrote f (x ++ y) (ps ++ qs) where
  text := by rw [k.text, h.text, List.append_assoc]
  pieces := by rw [k.pieces, h.pieces, List.append_assoc]
  length := k.length
  gap := k.gap

theorem Wrote.due {e : Draft} {x : Text} {ps : List Piece} (h : d.Wrote e x ps) : e.due = false := by
  rw [Draft.due, h.gap]
  rfl

/-- A text that ends in no blank takes one. -/
theorem Wrote.takesBlank {e : Draft} {x : Text} {ps : List Piece} (h : d.Wrote e x ps) (hx : x ≠ [])
    (hlast : ∀ c ∈ x.getLast?, isBlank c = false) : e.takesBlank = true := by
  have hback : e.text.back? = x.getLast? := by
    rw [← Array.getLast?_toList, h.text, List.getLast?_append_of_ne_nil _ hx]
  rw [Draft.takesBlank, hback, decide_eq_true h.length]
  cases hc : x.getLast? with
  | none => rfl
  | some c => simp [hlast c hc]

/-- Whitespace between words is written as one space. -/
theorem append_space (hdue : d.due = false) (htakes : d.takesBlank = true) {q : Piece} (hne : q.text ≠ []) :
    d.Wrote (d.append q) q.text [q] := by
  have hlength := List.length_pos_iff.2 hne
  rcases d.append_cases q with ⟨hyes, -, -⟩ | ⟨-, -, hno, -⟩ | ⟨-, -, he⟩ | ⟨hyes, -, -⟩
  · rw [hdue] at hyes
    cases hyes
  · rw [htakes] at hno
    cases hno
  · rw [he]
    exact ⟨addPiece_text _ _, addPiece_pieces _ _, Nat.lt_of_lt_of_le hlength (Nat.le_add_left _ _), rfl⟩
  · rw [hdue] at hyes
    cases hyes

/-- Words without blanks. -/
def Unblank (p : List Markup.Run) : Prop := ∀ r ∈ p, r.text ≠ [] ∧ (r.isWord = true → ∀ c ∈ r.text, isBlank c = false)

theorem not_isBlankRun (hr : r.isWord = true) (hne : r.text ≠ []) (hblank : ∀ c ∈ r.text, isBlank c = false) (file : FileId)
    (language : Language) : Text.isBlankRun (r.piece file language).text = false := by
  have htext : (r.piece file language).text = r.text := if_pos hr
  obtain ⟨c, u, hc⟩ := List.exists_cons_of_ne_nil hne
  rw [htext, Text.isBlankRun, hc]
  simp [hblank c (by rw [hc]; exact List.mem_cons_self)]

theorem hear_word (hr : r.isWord = true) (hne : r.text ≠ []) (hblank : ∀ c ∈ r.text, isBlank c = false) (d : Draft)
    (file : FileId) (language : Language) : d.Wrote (d.append (r.piece file language))
      ((if d.due then separatorText else []) ++ r.shown) [r.piece file language] ∧
      (d.append (r.piece file language)).takesBlank = true := by
  have htext : (r.piece file language).text = r.text := if_pos hr
  have hshown : r.shown = r.text := if_pos hr
  have hwrote := d.append_word (not_isBlankRun hr hne hblank file language) (htext ▸ hne)
  rw [htext, ← hshown] at hwrote
  refine ⟨hwrote, hwrote.takesBlank (by simp [hshown, hne]) fun c hc => ?_⟩
  rw [List.getLast?_append_of_ne_nil _ (hshown ▸ hne), hshown] at hc
  exact hblank c (List.mem_of_getLast? hc)

/-- The runs behind the first word of a paragraph are written as they are shown. -/
theorem Wrote.hear_runs {e : Draft} {x : Text} {qs : List Piece} (h : d.Wrote e x qs) (hruns : Runs start p) (hp : Unblank p)
    (htakes : ∀ q ∈ p.head?, q.isWord = false → e.takesBlank = true) (file : FileId) (language : Language) :
    d.Wrote (e.hear (p.map fun r => .prose (r.piece file language))) (x ++ p.flatMap Markup.Run.shown)
      (qs ++ p.map (Markup.Run.piece file language)) := by
  induction p generalizing start e x qs with
  | nil => simpa [hear] using h
  | cons r p ih =>
    obtain ⟨⟨hne, hblank⟩, hp⟩ := List.forall_mem_cons.1 hp
    have hnext : d.Wrote (e.append (r.piece file language)) (x ++ r.shown) (qs ++ [r.piece file language]) ∧
        (r.isWord = true → (e.append (r.piece file language)).takesBlank = true) := by
      cases hr : r.isWord with
      | true =>
        obtain ⟨hwrote, htakes⟩ := hear_word hr hne (hblank hr) e file language
        rw [h.due] at hwrote
        exact ⟨h.trans hwrote, fun _ => htakes⟩
      | false =>
        have htext : (r.piece file language).text = r.shown := rfl
        have hshown : r.shown = [' '] := if_neg (by simp [hr])
        have hwrote := append_space h.due (htakes r rfl hr) (q := r.piece file language) (by simp [htext, hshown])
        exact ⟨h.trans hwrote, fun hword => absurd hword Bool.false_ne_true⟩
    have hrest := ih hnext.1 hruns.tail hp fun q hq hgap => hnext.2 (by simpa [hgap] using hruns.next q hq)
    rw [List.append_assoc, List.append_assoc] at hrest
    exact hrest

/-- A paragraph is written behind a separator that is due. -/
theorem hear_paragraph (hprose : IsProse p) (hp : Unblank p) (d : Draft) (file : FileId) (language : Language) :
    d.Wrote (d.hear (p.map fun r => .prose (r.piece file language)))
      ((if d.due then separatorText else []) ++ p.flatMap Markup.Run.shown) (p.map (Markup.Run.piece file language)) := by
  obtain ⟨⟨start, hruns⟩, ⟨w, q, rfl, hw⟩, -⟩ := hprose
  obtain ⟨⟨hne, hblank⟩, hq⟩ := List.forall_mem_cons.1 hp
  obtain ⟨hwrote, htakes⟩ := hear_word hw hne (hblank hw) d file language
  have hrest := hwrote.hear_runs hruns.tail hq (fun _ _ _ => htakes) file language
  rw [List.append_assoc] at hrest
  exact hrest

/-- The cues that a stream of paragraphs has for their language. -/
def cuesOf (file : FileId) (language : Language) (ps : List (List Markup.Run)) : List Cue :=
  ps.flatMap fun p => p.map (fun q => .prose (q.piece file language)) ++ [.pause false]

theorem cues_stream (r : Resolver) (file : FileId) (language : Language) (ps : List (List Markup.Run)) :
    (stream file language ps).map (Segment.cue r (r.profile language).language) = cuesOf file language ps := by
  unfold stream cuesOf
  rw [List.map_flatMap]
  refine List.flatMap_congr fun p _ => ?_
  rw [List.map_append, List.map_map]
  refine congrArg (· ++ [Cue.pause false]) (List.map_congr_left fun q _ => ?_)
  exact Segment.cue_own rfl

theorem hear_cuesOf_cons (d : Draft) (file : FileId) (language : Language) (p : List Markup.Run) (ps : List (List Markup.Run)) :
    d.hear (cuesOf file language (p :: ps)) =
      ((d.hear (p.map fun q => .prose (q.piece file language))).separate false).hear (cuesOf file language ps) := by
  rw [cuesOf, List.flatMap_cons, hear_append, hear_append]
  rfl

theorem Wrote.due_separate {e : Draft} {x : Text} {qs : List Piece} (h : d.Wrote e x qs) : (e.separate false).due = true := by
  simp [Draft.due, separate, h.length]

/-- Paragraphs behind the first are written with a separator before each. -/
theorem hear_stream (hps : ∀ p ∈ ps, IsProse p ∧ Unblank p) {d : Draft} (hdue : d.due = true) (file : FileId)
    (language : Language) : ((d.hear (cuesOf file language ps)).text.toList =
      d.text.toList ++ ps.flatMap fun p => separatorText ++ p.flatMap Markup.Run.shown) ∧
      (d.hear (cuesOf file language ps)).pieces.toList = d.pieces.toList ++ ps.flatten.map (Markup.Run.piece file language) := by
  induction ps generalizing d with
  | nil => simp [hear, cuesOf]
  | cons p ps ih =>
    obtain ⟨⟨hprose, hunblank⟩, hps⟩ := List.forall_mem_cons.1 hps
    have hwrote := hear_paragraph hprose hunblank d file language
    rw [hdue, if_pos rfl] at hwrote
    obtain ⟨htext, hpieces⟩ := ih hps hwrote.due_separate
    rw [hear_cuesOf_cons, htext, hpieces]
    refine ⟨?_, ?_⟩
    · rw [List.flatMap_cons, ← List.append_assoc]
      exact congrArg (· ++ _) hwrote.text
    · rw [List.flatten_cons, List.map_append, ← List.append_assoc]
      exact congrArg (· ++ _) hwrote.pieces

/-- The paragraphs of a text, with separators between them. -/
theorem hear_start (hps : ∀ p ∈ ps, IsProse p ∧ Unblank p) (profile : Profile) (file : FileId) (language : Language) :
    (((Draft.start profile).hear (cuesOf file language ps)).text.toList = separatorText.intercalate (ps.map (·.flatMap Markup.Run.shown))) ∧
      ((Draft.start profile).hear (cuesOf file language ps)).pieces.toList = ps.flatten.map (Markup.Run.piece file language) := by
  cases ps with
  | nil => exact ⟨rfl, rfl⟩
  | cons p ps =>
    obtain ⟨⟨hprose, hunblank⟩, hps⟩ := List.forall_mem_cons.1 hps
    have hwrote := hear_paragraph hprose hunblank (Draft.start profile) file language
    obtain ⟨htext, hpieces⟩ := hear_stream hps hwrote.due_separate file language
    rw [hear_cuesOf_cons, htext, hpieces]
    refine ⟨?_, ?_⟩
    · rw [List.map_cons, intercalate_cons, List.flatMap_map]
      exact congrArg (· ++ _) hwrote.text
    · rw [List.flatten_cons, List.map_append]
      exact congrArg (· ++ _) hwrote.pieces

end Draft

end Draft

section Extract

variable {source : Text} {p : List Markup.Run} {c : Char}

theorem mem_of_mem_runs {q : Markup.Run} (hq : q ∈ runs source) (hc : c ∈ q.text) : c ∈ source := by
  rw [← flatten_runs source]
  exact List.mem_flatten.2 ⟨q.text, List.mem_map_of_mem hq, hc⟩

theorem isBlank_of_isSpace (h : isSpace c = true) : isBlank c = true := by
  simp only [isSpace, Bool.or_eq_true, decide_eq_true_eq] at h
  rcases h with ((rfl | rfl) | rfl) | rfl <;> decide

/-- Words of a plain text have no blanks. -/
theorem unblank_of_plain (h : Plain source) (hp : p ∈ paragraphs source) : IsProse p ∧ Draft.Unblank p := by
  obtain ⟨hprose, hsubset⟩ := (paragraphsOf_spec (runs_runs source)).1 p hp
  refine ⟨hprose, fun q hq => ?_⟩
  obtain ⟨hne, hword⟩ := (runs_runs source).of_mem (hsubset hq)
  refine ⟨hne, fun hw c hc => ?_⟩
  by_contra hblank
  have hspace := h.spaces c (mem_of_mem_runs (hsubset hq) hc) (by simpa using hblank)
  rw [hword hw c hc] at hspace
  cases hspace

/-- A plain text has no paragraph exactly if it is blank. -/
theorem paragraphs_eq_nil (h : Plain source) : paragraphs source = [] ↔ ∀ c ∈ source, isBlank c = true := by
  rw [paragraphs, (paragraphsOf_spec (runs_runs source)).2]
  constructor
  · intro hgaps c hc
    rw [← flatten_runs source] at hc
    obtain ⟨text, htext, hc⟩ := List.mem_flatten.1 hc
    obtain ⟨q, hq, rfl⟩ := List.mem_map.1 htext
    exact isBlank_of_isSpace (Runs.isSpace_of_gap (hgaps q hq) c hc)
  · intro hblank q hq
    refine List.any_eq_false.2 fun c hc => ?_
    simpa using h.spaces c (mem_of_mem_runs hq hc) (hblank c (mem_of_mem_runs hq hc))

variable {r : Resolver} {language : Language} {root : Node} {table : Table}

/-- Prose in one language makes one text. -/
theorem exists_text (hlanguage : ∀ q, .piece q ∈ root.segments table language → q.language = language)
    (hprose : ∃ q, .piece q ∈ root.segments table language ∧ Text.isBlankRun q.text = false) :
    ∃ t, (extract table r language root).texts = [t] ∧ t.profile = r.profile language ∧
      t = (draftOf r (r.profile language) (root.segments table language)).finish ∧ t.WellFormed := by
  have hkeys : ∀ t ∈ (extract table r language root).texts, t.profile = r.profile language := by
    intro t ht
    obtain ⟨q, hq, hprofile⟩ := exists_profile_of_mem_texts ht
    rw [hprofile, hlanguage q hq]
  obtain ⟨q, hq, hblank⟩ := hprose
  have hkey := mem_keys.2 ⟨q, hq, (rfl : r.key q = _), hblank⟩
  have hnodup : ((extract table r language root).texts.map (·.key)).Nodup := nodup_keys
  cases htexts : (extract table r language root).texts with
  | nil =>
    rw [htexts] at hkey
    cases hkey
  | cons t ts =>
    cases ts with
    | cons u us =>
      have ht := hkeys t (by simp [htexts])
      have hu := hkeys u (by simp [htexts])
      rw [htexts] at hnodup
      simp [CheckedText.key, ht, hu] at hnodup
    | nil =>
      have ht : t ∈ (extract table r language root).texts := by simp [htexts]
      have hprofile := hkeys t ht
      exact ⟨t, rfl, hprofile, hprofile ▸ (eq_finish_of_mem_texts ht).1, wellFormed_of_mem_texts ht⟩

/-- What is read of a plain main file and extracted for a check is one text, or none if the file is blank: its words with
single spaces between, and separators between paragraphs. Each word has an exact entry at its own place, and each space one
at the whitespace that it stands for. -/
theorem extract_plain (lib : Library) (main : FileId) (hl : lib.load main = some source) (hplain : Plain source)
    (level : Int) (r : Resolver) (language : Language) : ∃ root, (lib.read main).document = some root ∧
      (lib.read main).warnings = [] ∧
      ((∀ c ∈ source, isBlank c = true) → (extract (.checking level) r language root).texts = []) ∧
      ((∃ c ∈ source, isBlank c = false) → ∃ t, (extract (.checking level) r language root).texts = [t] ∧
        t.profile = r.profile language ∧ t.WellFormed ∧
        t.text = separatorText.intercalate ((paragraphs source).map fun p =>
          [' '].intercalate ((p.filter Markup.Run.isWord).map Markup.Run.text)) ∧
        List.Forall₂ (Entry.Renders t.text) t.map.entries.toList ((paragraphs source).flatten.map (Markup.Run.piece main language)) ∧
        ∀ q ∈ (paragraphs source).flatten, source.extract q.start (q.start + q.text.length) = q.text) := by
  obtain ⟨nodes, hnodes, hdocument, hwarnings⟩ := lib.read_plain hl hplain
  have hps : ∀ p ∈ paragraphs source, IsProse p ∧ Draft.Unblank p := fun p hp => unblank_of_plain hplain hp
  have hsegments := segments_plain hnodes (fun p hp q hq => ((hps p hp).2 q hq).1) source.length language level
  refine ⟨_, hdocument, hwarnings, fun hblank => ?_, fun hprose => ?_⟩
  · rw [extract, hsegments, (paragraphs_eq_nil hplain).2 hblank]
    rfl
  · have hlanguage : ∀ q, .piece q ∈ stream main language (paragraphs source) → q.language = language := by
      intro q hq
      simp only [stream, List.mem_flatMap, List.mem_append, List.mem_map, List.mem_singleton, Segment.piece.injEq, reduceCtorEq,
        or_false] at hq
      obtain ⟨p, -, w, -, rfl⟩ := hq
      rfl
    have hword : ∃ q, .piece q ∈ stream main language (paragraphs source) ∧ Text.isBlankRun q.text = false := by
      obtain ⟨c, hc, hblank⟩ := hprose
      have hsome : paragraphs source ≠ [] := fun hnil => by
        rw [(paragraphs_eq_nil hplain).1 hnil c hc] at hblank
        cases hblank
      obtain ⟨p, ps, hcons⟩ := List.exists_cons_of_ne_nil hsome
      obtain ⟨⟨-, ⟨w, q, rfl, hw⟩, -⟩, hunblank⟩ := hps p (by rw [hcons]; exact List.mem_cons_self)
      obtain ⟨hne, hblank⟩ := hunblank w List.mem_cons_self
      refine ⟨w.piece main language, ?_, Draft.not_isBlankRun hw hne (hblank hw) main language⟩
      rw [hcons]
      simp [stream]
    rw [← hsegments] at hlanguage hword
    obtain ⟨t, htexts, hprofile, ht, hformed⟩ := exists_text (r := r) hlanguage hword
    obtain ⟨htext, hpieces⟩ := Draft.hear_start hps (r.profile language) main language
    rw [hsegments, draftOf, Draft.cues_stream] at ht
    refine ⟨t, htexts, hprofile, hformed, ?_, ?_, fun q hq => ?_⟩
    · rw [ht]
      refine htext.trans (congrArg _ (List.map_congr_left fun p hp => ?_))
      exact shown_paragraph (hps p hp).1
    · have hrenders := hformed.renders
      rw [ht] at hrenders ⊢
      exact hpieces ▸ hrenders
    · obtain ⟨p, hp, hq⟩ := List.mem_flatten.1 hq
      exact extract_run (((paragraphsOf_spec (runs_runs source)).1 p hp).2 hq)

/-- Two paragraphs with brackets, tabs and line ends, and whitespace around them. -/
def letterSource : Text := " One  two [x.\r\n\n\nThree\tfour\n five \n".toList

def letter : Library where
  files := [("a", letterSource)]
  resolve := fun _ path => String.ofList path

theorem plain_letterSource : Plain letterSource := by decide +kernel

theorem extract_plain_letter : letter.load "a" = some letterSource ∧ Plain letterSource ∧ (∃ c ∈ letterSource, isBlank c = false) ∧
    ∃ root t, (letter.read "a").document = some root ∧
      (extract (.checking 1) mixedResolver defaultLanguage root).texts = [t] ∧
      t.text = "One two [x.\n\nThree four five".toList ∧
      List.Forall₂ (Entry.Renders t.text) t.map.entries.toList
        ((paragraphs letterSource).flatten.map (Markup.Run.piece "a" defaultLanguage)) ∧
      ((paragraphs letterSource).flatten.map (Markup.Run.piece "a" defaultLanguage)).map (fun q => (q.location.start, q.location.stop)) =
        [(1, 4), (4, 6), (6, 9), (9, 10), (10, 13), (17, 22), (22, 23), (23, 27), (27, 29), (29, 33)] := by
  have hload : letter.load "a" = some letterSource := by decide +kernel
  obtain ⟨root, hroot, -, -, hprose⟩ := extract_plain letter "a" hload plain_letterSource 1 mixedResolver defaultLanguage
  have hword : ∃ c ∈ letterSource, isBlank c = false := ⟨'O', by decide +kernel, by decide +kernel⟩
  obtain ⟨t, htexts, -, -, htext, hrenders, -⟩ := hprose hword
  refine ⟨hload, plain_letterSource, hword, root, t, hroot, htexts, htext.trans ?_, hrenders, ?_⟩
  · decide +kernel
  · decide +kernel

end Extract

end Proofreader
