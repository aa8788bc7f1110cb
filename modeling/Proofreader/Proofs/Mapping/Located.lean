import Proofreader.Proofs.Extraction.Prose
import Proofreader.Proofs.Mapping.Answers
import Proofreader.Proofs.Project.View

/-! Whatever a checker answers, the texts of a document are mapped without a failure, and every diagnostic stands in
a file the document was read from, inside the text that the run has for it. -/

namespace Proofreader

/-- The location lies in the text that the view has for a file of the document. -/
structure Snapshot.Holds (view : Snapshot) (l : Location) : Prop where
  file : l.file ∈ view.files
  valid : l.Valid
  stop : ∃ text, view.texts.lookup l.file = some (some text) ∧ l.stop ≤ text.length

/-- The chunks in which a text is sent. -/
def Chunker.chunks (c : Chunker) (t : CheckedText) : List Chunk :=
  c.split t.text (t.pageBreaks.map fun (b : Nat) => (b : Int))

/-- The cuts of a text that were forced. -/
def Chunker.forced (c : Chunker) (t : CheckedText) : List Int := (hardSplits (c.chunks t)).map fun (b : Nat) => (b : Int)

/-- One answer for each chunk, as findings in the whole text. -/
def Chunker.gather (c : Chunker) (t : CheckedText) (answers : List (List Finding)) : List Finding :=
  ((c.chunks t).zip answers).flatMap fun (chunk, fs) => chunk.translate fs

theorem Chunker.typed_of_mem_gather {c : Chunker} {t : CheckedText} {answers : List (List Finding)}
    (h : ∀ fs ∈ answers, ∀ f ∈ fs, f.Typed) {f : Finding} (hf : f ∈ c.gather t answers) : f.Typed := by
  obtain ⟨⟨chunk, fs⟩, hfs, hf⟩ := List.mem_flatMap.1 hf
  exact Chunk.typed_of_mem_translate (h fs (List.of_mem_zip hfs).2) hf

section Compiled

variable {p : Project} {disk : Disk} {root : Node} {warnings : List Warning} {view : Snapshot}
variable {table : Table} {r : Resolver} {language : Language} {t : CheckedText}

/-- The view keeps the text that each node of the document was read from, for a file of the document. -/
def Snapshot.Covers (view : Snapshot) (root : Node) : Prop :=
  ∀ n ∈ root.preorder, ∃ text, view.texts.lookup n.location.file = some (some text) ∧ n.location.file ∈ view.files ∧
    Markup.ReadFrom n.location.file text n ∧ n.location.stop ≤ text.length

namespace Snapshot.Covers

theorem valid (h : view.Covers root) : ∀ n ∈ root.preorder, n.location.Valid := by
  intro n hn
  obtain ⟨text, -, -, hread, -⟩ := h n hn
  exact hread.valid

/-- The view holds the places of all entries. -/
theorem holds_entry (h : view.Covers root) (ht : t ∈ (extract table r language root).texts) {e : Entry}
    (he : e ∈ t.map.entries.toList) : view.Holds e.location := by
  obtain ⟨piece, m, hm, hrenders, hfrom⟩ := exists_node_of_entry ht he
  obtain ⟨text, htext, hfile, hread, hstop⟩ := h m hm
  rw [hrenders.location, hfrom.location]
  exact ⟨hfile, hread.valid, text, htext, hstop⟩

/-- What is shown for a finding lies in the sources of what it overlaps, which the view holds. -/
theorem holds_of_shows (h : view.Covers root) (ht : t ∈ (extract table r language root).texts) {f : Finding}
    {d : Diagnostic} (hd : Mapper.Shows t f d) :
    view.Holds d.location ∧ d.location.Inside ((t.map.overlapping f.offset f.stop).map (·.location)) := by
  have tiled := (wellFormed_of_mem_texts ht).map_tiled
  have placed := fun e he => placed_of_mem_texts h.valid ht (e := e) he
  obtain ⟨-, ls, hls, hl⟩ := hd
  have inside := tiled.inside_of_project placed hls hl
  refine ⟨?_, inside⟩
  obtain ⟨k, hk, hkf, -, hstop⟩ := inside.ends
  obtain ⟨e, he, rfl⟩ := List.mem_map.1 hk
  obtain ⟨hfile, -, text, htext, hle⟩ := h.holds_entry ht (tiled.lt_stop_of_mem_overlapping he).1
  rw [hkf] at hfile htext
  exact ⟨hfile, inside.valid, text, htext, Nat.le_trans hstop hle⟩

end Snapshot.Covers

theorem Project.covers (hp : p.Reachable) (h : p.snapshot.compile disk = (some root, warnings, view)) : view.Covers root :=
  fun _ hn => Project.exists_readFrom hp h hn

/-- Findings with any spans are mapped, and what is shown for them lies in the sources of what they overlap. -/
theorem Project.exists_map (hp : p.Reachable) (h : p.snapshot.compile disk = (some root, warnings, view))
    (ht : t ∈ (extract table r language root).texts) (m : Mapper) (splits : List Int) {fs : List Finding}
    (htyped : ∀ f ∈ fs, f.Typed) : ∃ ds, m.map t splits fs = .ok ds ∧ ∀ d ∈ ds, view.Holds d.location ∧
      ∃ f ∈ fs, Mapper.Shows t f d ∧ d.location.Inside ((t.map.overlapping f.offset f.stop).map (·.location)) := by
  obtain ⟨ds, hds, hshown⟩ := m.exists_map t splits htyped
  refine ⟨ds, hds, fun d hd => ?_⟩
  obtain ⟨f, hf, hshows⟩ := hshown d hd
  obtain ⟨hholds, inside⟩ := (Project.covers hp h).holds_of_shows ht hshows
  exact ⟨hholds, f, hf, hshows, inside⟩

/-- Whatever a checker answers for the chunks of a text, no location is refused, the mapping does not fail and every
diagnostic stands in the text of a file of the document, inside the sources of what its finding overlaps. -/
theorem Project.exists_map_answers (hp : p.Reachable) (h : p.snapshot.compile disk = (some root, warnings, view))
    (ht : t ∈ (extract table r language root).texts) (c : Chunker) (m : Mapper) {answers : List (List Finding)}
    (htyped : ∀ fs ∈ answers, ∀ f ∈ fs, f.Typed) :
    (∀ a b : Int, t.map.checkedProject a b = .ok (t.map.project a b)) ∧
    ∃ ds, m.map t (c.forced t) (c.gather t answers) = .ok ds ∧ ∀ d ∈ ds, view.Holds d.location ∧
      ∃ f ∈ c.gather t answers, Mapper.Shows t f d ∧ d.location.Inside ((t.map.overlapping f.offset f.stop).map (·.location)) :=
  ⟨(wellFormed_of_mem_texts ht).map_tiled.checkedProject_eq
    fun _ he => placed_of_mem_texts (Project.covers hp h).valid ht he,
    Project.exists_map hp h ht m (c.forced t) fun _ hf => Chunker.typed_of_mem_gather htyped hf⟩

end Compiled

def sharedProject : Project := .create ⟨"/home/me", "/home/me"⟩ "main" none

/-- A main file and one that it includes after its only paragraph. -/
def sharedDisk : Disk :=
  (Disk.empty.write "/home/me/main" ("One.\n\n#include \"part\"".toList.map Char.toNat)).write "/home/me/part"
    ("Two _parts_.".toList.map Char.toNat)

theorem isSome_shared : (sharedProject.snapshot.compile sharedDisk).1.isSome = true := by decide +kernel

def sharedRoot : Node := (sharedProject.snapshot.compile sharedDisk).1.get isSome_shared

def sharedTexts : List CheckedText := (extract (.checking 1) mixedResolver defaultLanguage sharedRoot).texts

theorem length_sharedTexts : sharedTexts.length = 1 := by decide +kernel

def sharedText : CheckedText := sharedTexts.get ⟨0, length_sharedTexts ▸ Nat.one_pos⟩

def sharedView : Snapshot := (sharedProject.snapshot.compile sharedDisk).2.2

def sharedWarnings : List Warning := (sharedProject.snapshot.compile sharedDisk).2.1

theorem compile_shared : sharedProject.snapshot.compile sharedDisk = (some sharedRoot, sharedWarnings, sharedView) :=
  Prod.ext (Option.some_get isSome_shared).symm (Prod.eta _).symm

def spelled (offset length : Int) : Finding := ⟨offset, length, .str "R", .str "M", [.str "X"], .str "TYPOS", .str ""⟩

theorem typed_spelled (offset length : Int) : (spelled offset length).Typed :=
  ⟨⟨_, rfl⟩, ⟨_, rfl⟩, by simp [spelled, Json.IsText], ⟨_, rfl⟩, ⟨_, rfl⟩⟩

/-- Findings of no length, before the chunk and across a separator, then of negative length and behind the text. -/
def sharedAnswers : List (List Finding) :=
  [[spelled 2 0, spelled (-2) 4, spelled 3 9], [spelled 1 (-3), spelled 5 90]]

theorem reachable_shared : sharedProject.Reachable := .create _ _ _

theorem mem_sharedTexts : sharedText ∈ (extract (.checking 1) mixedResolver defaultLanguage sharedRoot).texts :=
  List.get_mem sharedTexts _

theorem typed_shared : ∀ fs ∈ sharedAnswers, ∀ f ∈ fs, f.Typed := by simp [sharedAnswers, typed_spelled]

def sharedChunker : Chunker := ⟨10, 0, none, by decide⟩

theorem exists_map_answers_shared : sharedText.text = "One.\n\nTwo parts.".toList ∧
    (∀ a b : Int, sharedText.map.checkedProject a b = .ok (sharedText.map.project a b)) ∧
    ∃ ds, (Mapper.ofTokens [] true).map sharedText (sharedChunker.forced sharedText)
        (sharedChunker.gather sharedText sharedAnswers) = .ok ds ∧
      ∀ d ∈ ds, sharedView.Holds d.location ∧ ∃ f ∈ sharedChunker.gather sharedText sharedAnswers,
        Mapper.Shows sharedText f d ∧ d.location.Inside ((sharedText.map.overlapping f.offset f.stop).map (·.location)) :=
  ⟨by decide +kernel, Project.exists_map_answers reachable_shared compile_shared mem_sharedTexts _ _ typed_shared⟩

end Proofreader
