import Proofreader.Proofs.Collections
import Proofreader.Proofs.Markup.Included
import Proofreader.Proofs.Project.Reads
import Proofreader.Proofs.Session.History

/-! What a run sees of a project through one view, while an editor and the disk go on. Whatever comes first and however
often a file is looked at, it has one text: the one in its editor when the view was taken or else the one that was first
read from disk. -/

namespace Proofreader

/-- A project and a disk that change, and a view that was taken of the project. -/
structure Viewing where
  project : Project
  disk : Disk
  view : Snapshot

/-- What the view answers. -/
inductive Look where
  | text (file : FileId) (got : Option Text)
  | source (file : FileId) (got : Option Source)
  | target (base : FileId) (path : Text) (got : Except Mishap FileId)
  | document (root : Option Node) (warnings : List Warning) (files : List FileId)

/-- The file whose text is looked at. -/
def Look.file? : Look → Option FileId
  | text file _ => some file
  | source file _ => some file
  | target _ _ _ => none
  | document _ _ _ => none

namespace Viewing

/-- One step of an editor, of the disk or of the run, with what the view answers and the disk at that time. -/
inductive Step (v : Viewing) : List (Disk × Look) → Viewing → Prop
  | edit {q : Project} : v.project.Edited q → Step v [] { v with project := q }
  | move (main : String) (root : Option String) : Step v [] { v with project := v.project.move main root }
  | write (name : String) (octets : List Nat) : Step v [] { v with disk := v.disk.write name octets }
  | delete (name : String) : Step v [] { v with disk := v.disk.delete name }
  | load (file : FileId) : Step v [(v.disk, .text file (v.view.load v.disk file).1)]
      { v with view := (v.view.load v.disk file).2 }
  | source (file : FileId) : Step v [(v.disk, .source file (v.view.source v.disk file).1)]
      { v with view := (v.view.source v.disk file).2 }
  | resolve (base : FileId) (path : Text) : Step v [(v.disk, .target base path (v.view.resolveInclude base path))] v
  /-- Compiling looks at one file after the other, with any steps in between, and ends when no more is needed. -/
  | compile {root : Option Node} {warnings : List Warning} {view : Snapshot} : v.view.next? v.disk = none →
      v.view.compile v.disk = (root, warnings, view) → Step v [(v.disk, .document root warnings view.files)]
        { v with view := view }

/-- Steps after a view was taken of the project, with all that the view has answered. -/
inductive Run (p : Project) : List (Disk × Look) → Viewing → Prop
  | start (disk : Disk) : Run p [] ⟨p, disk, p.snapshot⟩
  | step {log looks : List (Disk × Look)} {v v' : Viewing} : Run p log v → Step v looks v' → Run p (log ++ looks) v'

/-- The text of a file for one view: that of its editor when the view was taken, else what was on disk when the file
was first looked at. -/
def textOf (p : Project) (log : List (Disk × Look)) (file : FileId) : Option (Option Text) :=
  match p.shadows.lookup file with
  | some shadow => some shadow.text?
  | none => (log.find? fun look => look.2.file? = some file).map fun look => p.snapshot.onDisk look.1 file

/-- These texts. -/
def library (p : Project) (log : List (Disk × Look)) : Markup.Library where
  files := (p.shadows.map Prod.fst ++ log.filterMap fun look => look.2.file?).filterMap fun file =>
    (textOf p log file).join.map fun text => (file, text)
  resolve base path := (p.snapshot.resolveInclude base path).toOption.getD base

/-- The files that these texts make up a document of, main file first. -/
def files (p : Project) (log : List (Disk × Look)) : List FileId :=
  (((library p log).read p.main).asked.filter fun file => ((library p log).load file).isSome).eraseDups

/-- All files that the document is read from have been looked at. -/
def Settled (p : Project) (log : List (Disk × Look)) : Prop :=
  ∀ f ∈ ((library p log).read p.main).asked, ∃ text, textOf p log f = some text

/-- The answer is about the one text of each file. -/
def Fits (p : Project) (log : List (Disk × Look)) : Look → Prop
  | .text file got => textOf p log file = some got
  | .source file got => ∃ text, textOf p log file = some text ∧ got = text.map (.ofText file)
  | .target base path got => got = p.snapshot.resolveInclude base path
  | .document root warnings files => Settled p log ∧ ((library p log).read p.main).document = root ∧
      ((library p log).read p.main).warnings = warnings ∧ files = Viewing.files p log

variable {p : Project} {log more : List (Disk × Look)} {v v' : Viewing} {file : FileId} {text : Option Text}

section Texts

/-- A file keeps its text. -/
theorem textOf_append (h : textOf p log file = some text) (more : List (Disk × Look)) :
    textOf p (log ++ more) file = some text := by
  unfold textOf at h ⊢
  split
  · next shadow hshadow =>
    rw [hshadow] at h
    exact h
  · next hshadow =>
    rw [hshadow] at h
    obtain ⟨look, hlook, htext⟩ := Option.map_eq_some_iff.1 h
    rw [List.find?_append, hlook]
    exact congrArg some htext

theorem load_library (p : Project) (log : List (Disk × Look)) (file : FileId) :
    (library p log).load file = (textOf p log file).join := by
  refine lookup_eq (fun text hmem => ?_) fun text htext => ?_
  · obtain ⟨f, -, hf⟩ := List.mem_filterMap.1 hmem
    obtain ⟨t, ht, he⟩ := Option.map_eq_some_iff.1 hf
    cases he
    exact ht
  · refine ⟨text, List.mem_filterMap.2 ⟨file, ?_, by rw [htext]; rfl⟩⟩
    rw [List.mem_append]
    cases hshadow : p.shadows.lookup file with
    | some shadow => exact Or.inl (List.mem_map_of_mem (mem_of_lookup hshadow))
    | none =>
      unfold textOf at htext
      rw [hshadow] at htext
      obtain ⟨_, hsome, -⟩ := Option.join_eq_some_iff.1 htext |> fun h => Option.map_eq_some_iff.1 h
      exact Or.inr (List.mem_filterMap.2 ⟨_, List.mem_of_find?_eq_some hsome, by simpa using List.find?_some hsome⟩)

/-- Once it is settled, a document stays the same. -/
theorem Settled.read_append (h : Settled p log) (more : List (Disk × Look)) :
    (library p (log ++ more)).read p.main = (library p log).read p.main := by
  have hload : ∀ f ∈ ((library p log).read p.main).asked,
      (library p log).load f = (library p (log ++ more)).load f := fun f hf => by
    obtain ⟨text, htext⟩ := h f hf
    rw [load_library, load_library, htext, textOf_append htext]
  have hresolve : (library p log).resolve = (library p (log ++ more)).resolve := rfl
  exact (Markup.Library.read_eq hresolve hload).symm

theorem Settled.append (h : Settled p log) (more : List (Disk × Look)) :
    Settled p (log ++ more) ∧ files p (log ++ more) = files p log := by
  refine ⟨fun f hf => ?_, ?_⟩
  · rw [h.read_append] at hf
    obtain ⟨text, htext⟩ := h f hf
    exact ⟨text, textOf_append htext more⟩
  · unfold files
    rw [h.read_append]
    refine congrArg List.eraseDups (List.filter_congr fun f hf => ?_)
    obtain ⟨text, htext⟩ := h f hf
    rw [load_library, load_library, htext, textOf_append htext]

theorem Fits.append {look : Look} (h : Fits p log look) (more : List (Disk × Look)) : Fits p (log ++ more) look := by
  cases look with
  | text file got => exact textOf_append h more
  | source file got =>
    obtain ⟨text, htext, hgot⟩ := h
    exact ⟨text, textOf_append htext more, hgot⟩
  | target base path got => exact h
  | document root warnings files =>
    obtain ⟨hsettled, hroot, hwarnings, hfiles⟩ := h
    obtain ⟨hstill, hsame⟩ := hsettled.append more
    refine ⟨hstill, ?_, ?_, hfiles.trans hsame.symm⟩
    · rw [hsettled.read_append]
      exact hroot
    · rw [hsettled.read_append]
      exact hwarnings

end Texts

/-- The text of a file that is looked at, unless it is known already, is the one on disk. -/
theorem textOf_look (p : Project) (log : List (Disk × Look)) (disk : Disk) {look : Look} (hlook : look.file? = some file)
    (g : FileId) : textOf p (log ++ [(disk, look)]) g =
      (textOf p log g).or (if g = file then some (p.snapshot.onDisk disk file) else none) := by
  unfold textOf
  cases p.shadows.lookup g with
  | some shadow => rfl
  | none =>
    dsimp only
    rw [List.find?_append]
    cases log.find? fun look => look.2.file? = some g with
    | some look => rfl
    | none =>
      by_cases hg : g = file
      · subst hg
        simp [hlook]
      · have hne : ¬ file = g := fun he => hg he.symm
        simp [hlook, hg, hne]

theorem textOf_other (p : Project) (log : List (Disk × Look)) (disk : Disk) {look : Look} (hlook : look.file? = none)
    (g : FileId) : textOf p (log ++ [(disk, look)]) g = textOf p log g := by
  unfold textOf
  cases p.shadows.lookup g with
  | some shadow => rfl
  | none => simp [List.find?_append, hlook]

/-- Sources are those of the texts that the view knows. -/
theorem Session.lookup_readSources {view : Snapshot} {disk : Disk} {names : List FileId} {text : Text} (hfile : file ∈ names)
    (h : view.texts.lookup file = some (some text)) :
    (Session.readSources disk names view).lookup file = some (.ofText file text) := by
  induction names generalizing view with
  | nil => cases hfile
  | cons f r ih =>
    have hstill : (view.source disk f).2.texts.lookup file = some (some text) := Snapshot.lookup_load_of_some h disk f
    have hself : file = f → (view.source disk f).1 = some (.ofText file text) := by
      rintro rfl
      have hload := view.lookup_load_fst disk file
      rw [Snapshot.lookup_load_of_some h] at hload
      change (view.load disk file).1.map _ = _
      rw [← Option.some.inj hload]
      rfl
    unfold Session.readSources
    rcases hsource : view.source disk f with ⟨_ | source, next⟩
    · rw [hsource] at hstill hself
      refine ih ?_ hstill
      rcases List.mem_cons.1 hfile with he | hr
      · cases hself he
      · exact hr
    · rw [hsource] at hstill hself
      rw [List.lookup_cons]
      by_cases he : file = f
      · subst he
        rw [beq_self_eq_true]
        exact hself rfl
      · have hbeq : (file == f) = false := by simpa using he
        rw [hbeq]
        exact ih ((List.mem_cons.1 hfile).resolve_left he) hstill

/-- The view has looked at what the log says, and the files of its documents are those of their texts. -/
structure Keeps (p : Project) (log : List (Disk × Look)) (view : Snapshot) : Prop where
  same : view = { p.snapshot with texts := view.texts, files := view.files }
  sound : view.Sound
  texts : ∀ file, view.texts.lookup file = textOf p log file
  files : view.files = [] ∨ Settled p log ∧ view.files = Viewing.files p log

namespace Keeps

variable {view : Snapshot} {disk : Disk}

theorem start (hp : p.Reachable) : Keeps p [] p.snapshot where
  same := rfl
  sound := by
    refine ⟨hp.sound.main, ?_⟩
    simp only [Project.snapshot, List.map_map]
    exact hp.sound.shadows
  texts file := by
    unfold textOf Project.snapshot
    dsimp only
    rw [lookup_mapSnd]
    cases p.shadows.lookup file with
    | some shadow => rfl
    | none => rfl
  files := Or.inl rfl

theorem load (h : Keeps p log view) (disk : Disk) (look : Look) (hlook : look.file? = some file) :
    Keeps p (log ++ [(disk, look)]) (view.load disk file).2 where
  same := by
    rw [Snapshot.load_snd, h.same]
  sound := h.sound.load disk file
  texts g := by
    have hdisk : view.onDisk disk file = p.snapshot.onDisk disk file := by
      rw [h.same]
      rfl
    rw [Snapshot.lookup_load, textOf_look p log disk hlook, h.texts, hdisk]
  files := by
    have hfiles : (view.load disk file).2.files = view.files := by rw [Snapshot.load_snd]
    rw [hfiles]
    refine h.files.imp_right fun ⟨hsettled, heq⟩ => ?_
    obtain ⟨hstill, hsame⟩ := hsettled.append [(disk, look)]
    exact ⟨hstill, heq.trans hsame.symm⟩

/-- A step that looks at no text leaves what is known. -/
theorem other (h : Keeps p log view) (disk : Disk) {look : Look} (hlook : look.file? = none) :
    Keeps p (log ++ [(disk, look)]) view where
  same := h.same
  sound := h.sound
  texts g := (h.texts g).trans (textOf_other p log disk hlook g).symm
  files := h.files.imp_right fun ⟨hsettled, heq⟩ => by
    obtain ⟨hstill, hsame⟩ := hsettled.append [(disk, look)]
    exact ⟨hstill, heq.trans hsame.symm⟩

/-- A file that the document is read from has the text that the view knows. -/
theorem load_eq (h : Keeps p log view) (hnext : view.next? disk = none) :
    ∀ f ∈ ((view.library disk).read view.main).asked, (view.library disk).load f = (library p log).load f ∧
      ∃ text, textOf p log f = some text := by
  intro f hf
  obtain ⟨text, htext⟩ := Snapshot.next?_eq_none.1 hnext f hf
  have hnormal := Snapshot.isNormal_of_leads h.sound.main (Markup.Library.leads_of_mem_read f hf)
  have hknown := (h.texts f).symm.trans htext
  refine ⟨?_, text, hknown⟩
  rw [Snapshot.load_library h.sound.keys hnormal, load_library, Snapshot.peek, htext, hknown]
  rfl

/-- What is read is the document of the texts that the view has looked at. -/
theorem read_eq (h : Keeps p log view) (hnext : view.next? disk = none) :
    (view.library disk).read view.main = (library p log).read p.main := by
  have hresolve : (view.library disk).resolve = (library p log).resolve := by
    rw [h.same]
    rfl
  have hmain : view.main = p.main := congrArg Snapshot.main h.same
  rw [← hmain]
  exact Markup.Library.read_eq hresolve fun f hf => (h.load_eq hnext f hf).1

theorem settled (h : Keeps p log view) (hnext : view.next? disk = none) : Settled p log := by
  intro f hf
  rw [← h.read_eq hnext] at hf
  exact (h.load_eq hnext f hf).2

theorem compile (h : Keeps p log view) (hnext : view.next? disk = none) :
    view.compile disk = (((library p log).read p.main).document, ((library p log).read p.main).warnings,
      { view with files := Viewing.files p log }) := by
  have hknown := Snapshot.next?_eq_none.1 hnext
  have hread : (((view.library disk).read view.main).asked.filter fun f => (view.peek disk f).isSome) =
      ((library p log).read p.main).asked.filter fun f => ((library p log).load f).isSome := by
    rw [← h.read_eq hnext]
    refine List.filter_congr fun f hf => ?_
    obtain ⟨text, htext⟩ := hknown f hf
    rw [load_library, ← h.texts, Snapshot.peek, htext]
    rfl
  have hfiles : (view.files ++ ((view.library disk).read view.main).asked.filter fun f =>
      (view.peek disk f).isSome).eraseDups = Viewing.files p log := by
    rw [hread]
    rcases h.files with hnone | ⟨-, hfiles⟩
    · rw [hnone]
      rfl
    · rw [hfiles]
      exact eraseDups_eraseDups_append _
  rw [Snapshot.compile_eq, Snapshot.loadAll_of_known hknown, hfiles, h.read_eq hnext]

end Keeps

/-- What the view answers is about the one text of each file. -/
theorem keeps_step {looks : List (Disk × Look)} (h : Keeps p log v.view) (hstep : Step v looks v') :
    Keeps p (log ++ looks) v'.view ∧ ∀ look ∈ looks, Fits p (log ++ looks) look.2 := by
  cases hstep with
  | edit | move | write | delete =>
    rw [List.append_nil]
    exact ⟨h, List.forall_mem_nil _⟩
  | load file =>
    have hload := h.load v.disk (Look.text file (v.view.load v.disk file).1) rfl
    refine ⟨hload, List.forall_mem_singleton.2 ?_⟩
    exact (hload.texts file).symm.trans (v.view.lookup_load_fst v.disk file)
  | source file =>
    have hload := h.load v.disk (Look.source file (v.view.source v.disk file).1) rfl
    refine ⟨hload, List.forall_mem_singleton.2 ⟨(v.view.load v.disk file).1, ?_, rfl⟩⟩
    exact (hload.texts file).symm.trans (v.view.lookup_load_fst v.disk file)
  | resolve base path =>
    refine ⟨h.other v.disk rfl, List.forall_mem_singleton.2 ?_⟩
    rw [h.same]
    rfl
  | compile hnext hcompile =>
    have hsettled := h.settled hnext
    rw [h.compile hnext] at hcompile
    cases hcompile
    have hdone : Keeps p log { v.view with files := files p log } :=
      ⟨by rw [h.same], ⟨h.sound.main, h.sound.keys⟩, h.texts, Or.inr ⟨hsettled, rfl⟩⟩
    refine ⟨hdone.other v.disk rfl, List.forall_mem_singleton.2 ?_⟩
    have hfits : Fits p log (.document _ _ _) := ⟨hsettled, rfl, rfl, rfl⟩
    exact hfits.append _

theorem Run.keeps (hp : p.Reachable) (h : Run p log v) : Keeps p log v.view ∧ ∀ look ∈ log, Fits p log look.2 := by
  induction h with
  | start disk => exact ⟨.start hp, List.forall_mem_nil _⟩
  | step _ hstep ih =>
    obtain ⟨hkeeps, hfits⟩ := ih
    obtain ⟨hkeeps, hlooks⟩ := keeps_step hkeeps hstep
    refine ⟨hkeeps, fun look hlook => ?_⟩
    rcases List.mem_append.1 hlook with hlook | hlook
    · exact (hfits look hlook).append _
    · exact hlooks look hlook

/-- A document of the one text that each of its files has. -/
structure OfTexts (p : Project) (log : List (Disk × Look)) (root : Node) (files : List FileId) : Prop where
  first : files.head? = some p.main
  /-- Exactly the main file and the files that an include names are files of the document, if they have a text. -/
  included : ∀ f, f ∈ files ↔ (∃ text, textOf p log f = some (some text)) ∧
    (f = p.main ∨ ∃ n ∈ root.preorder, (library p log).Cites n f)
  nodes : ∀ n ∈ root.preorder, n.location.file ∈ files ∧ ∃ text, textOf p log n.location.file = some (some text) ∧
    Markup.ReadFrom n.location.file text n ∧ n.location.stop ≤ text.length
  shown : ∀ (table : Table) (r : Resolver) (language : Language), ∀ t ∈ (extract table r language root).texts,
    ∀ (f : Finding) (d : Diagnostic), Mapper.Shows t f d → d.location.file ∈ files ∧ d.location.Valid ∧
      ∃ text, textOf p log d.location.file = some (some text) ∧ d.location.stop ≤ text.length

theorem mem_files_iff (hsettled : Settled p log) (f : FileId) : f ∈ files p log ↔
    (∃ text, textOf p log f = some (some text)) ∧ f ∈ ((library p log).read p.main).asked := by
  unfold files
  rw [List.mem_eraseDups, List.mem_filter, and_comm, load_library]
  refine and_congr_left fun hf => ?_
  obtain ⟨text, htext⟩ := hsettled f hf
  rw [htext, Option.join_some, Option.isSome_iff_exists]
  simp

theorem Keeps.ofTexts {view : Snapshot} (h : Keeps p log view) (hsettled : Settled p log) {root : Node}
    (hroot : ((library p log).read p.main).document = some root) : OfTexts p log root (Viewing.files p log) := by
  obtain ⟨source, hlaid⟩ := Markup.Library.laidOut_read _ _ hroot
  have hnodes : ∀ n ∈ root.preorder, n.location.file ∈ Viewing.files p log ∧ ∃ text,
      textOf p log n.location.file = some (some text) ∧ Markup.ReadFrom n.location.file text n ∧
        n.location.stop ≤ text.length := by
    intro n hn
    obtain ⟨f, text, -, hload, hasked, hread, hstop⟩ := hlaid.exists_readFrom hn
    have hfile := hread.file
    subst hfile
    rw [load_library, Option.join_eq_some_iff] at hload
    exact ⟨(mem_files_iff hsettled _).2 ⟨⟨text, hload⟩, hasked⟩, text, hload, hread, hstop⟩
  have hcovers : Snapshot.Covers { view with files := Viewing.files p log } root := fun n hn => by
    obtain ⟨hfile, text, htext, hread, hstop⟩ := hnodes n hn
    exact ⟨text, (h.texts _).trans htext, hfile, hread, hstop⟩
  refine ⟨?_, fun f => ?_, hnodes, fun table r language t ht f d hd => ?_⟩
  · obtain ⟨more, hasked⟩ : [p.main] <+: ((library p log).read p.main).asked :=
      Markup.Library.asked_readFile List.not_mem_nil
    have hmain : ((library p log).load p.main).isSome = true := by rw [hlaid.loaded]; rfl
    unfold Viewing.files
    rw [← hasked, List.singleton_append, List.filter_cons, if_pos hmain, List.eraseDups_cons, List.head?_cons]
  · rw [mem_files_iff hsettled, Markup.Library.mem_asked_iff hroot]
  · obtain ⟨⟨hfile, hvalid, text, htext, hstop⟩, -⟩ := hcovers.holds_of_shows ht hd
    exact ⟨hfile, hvalid, text, (h.texts _).symm.trans htext, hstop⟩

/-- Whatever an editor and the disk do after a view of a project is taken, each file has one text in all that the view
answers. Its documents are read from these texts, all that is shown for them stands in them, and a report gets these
texts. Which file a document is read from next does not depend on the disk, and compiling in one go is looking at one
file after the other. -/
theorem Run.one_text (hp : p.Reachable) (h : Run p log v) :
    (∀ look ∈ log, Fits p log look.2) ∧
    (∀ disk root warnings files, (disk, .document root warnings files) ∈ log → files.Nodup ∧
      match root with
      | some root => OfTexts p log root files
      | none => files = []) ∧
    (∀ disk names file text, file ∈ names → textOf p log file = some (some text) →
      (Session.readSources disk names v.view).lookup file = some (.ofText file text)) ∧
    (∀ disk disk', v.view.next? disk = v.view.next? disk') ∧
    ∀ disk, ∃ view, Snapshot.Reads disk v.view view ∧ view.next? disk = none ∧
      view.compile disk = v.view.compile disk := by
  obtain ⟨hkeeps, hfits⟩ := h.keeps hp
  refine ⟨hfits, fun disk root warnings files hlook => ?_, fun disk names file text hfile htext => ?_,
    hkeeps.sound.next?_eq, hkeeps.sound.exists_reads⟩
  · obtain ⟨hsettled, hroot, -, rfl⟩ := hfits _ hlook
    refine ⟨nodup_eraseDups _, ?_⟩
    cases root with
    | some root => exact hkeeps.ofTexts hsettled hroot
    | none =>
      have hmain := Markup.Library.load_of_document_eq_none hroot
      dsimp only
      unfold files
      rw [Markup.Library.read_of_missing hmain]
      simp [hmain]
  · exact Session.lookup_readSources hfile ((hkeeps.texts file).trans htext)

/-- A project whose main file is open in an editor, with another text than the one on disk. -/
def opened : Project :=
  { sharedProject with shadows :=
      [("/home/me/main", .text (.ofText "/home/me/main" "Zero.\n\n#include \"part\"".toList))] }

theorem reachable_opened : opened.Reachable := by
  have hopened : sharedProject.openFile "main" (.str "Zero.\n\n#include \"part\"") = .ok opened := by cbv
  exact reachable_shared.openFile hopened

/-- The view after a look at the included file. -/
def openedView : Snapshot := (opened.snapshot.load sharedDisk "/home/me/part").2

def openedDisk : Disk := sharedDisk.delete "/home/me/part"

theorem isSome_opened : (openedView.compile openedDisk).1.isSome = true := by decide +kernel

def openedRoot : Node := (openedView.compile openedDisk).1.get isSome_opened

theorem compile_opened : ∃ warnings view, openedView.compile openedDisk = (some openedRoot, warnings, view) ∧
    view.files = ["/home/me/main", "/home/me/part"] := by
  have hfiles : (openedView.compile openedDisk).2.2.files = ["/home/me/main", "/home/me/part"] := by decide +kernel
  exact ⟨_, _, Prod.ext (Option.some_get isSome_opened).symm (Prod.eta _).symm, hfiles⟩

/-- A file is deleted when it has been looked at, and the editor closes one, before the document is compiled. -/
theorem run_later {p q : Project} {disk : Disk} {file : FileId} (hedited : p.Edited q)
    (hnext : (p.snapshot.load disk file).2.next? (disk.delete file) = none) {root : Option Node} {warnings : List Warning}
    {view : Snapshot} (hcompile : (p.snapshot.load disk file).2.compile (disk.delete file) = (root, warnings, view)) :
    Run p [(disk, .text file (p.snapshot.load disk file).1), (disk.delete file, .document root warnings view.files)]
      ⟨q, disk.delete file, view⟩ := by
  have hstart : Run p [] ⟨p, disk, p.snapshot⟩ := .start disk
  have hloaded := hstart.step (.load file)
  have hdeleted := hloaded.step (.delete file)
  have hclosed := hdeleted.step (.edit hedited)
  exact hclosed.step (.compile hnext hcompile)

theorem one_text_opened : opened.Reachable ∧ ∃ log view, Run opened log ⟨sharedProject, openedDisk, view⟩ ∧
    textOf opened log "/home/me/main" = some (some "Zero.\n\n#include \"part\"".toList) ∧
    textOf opened log "/home/me/part" = some (some "Two _parts_.".toList) ∧
    OfTexts opened log openedRoot ["/home/me/main", "/home/me/part"] ∧
    (Session.readSources openedDisk ["/home/me/part"] view).lookup "/home/me/part" =
      some (.ofText "/home/me/part" "Two _parts_.".toList) := by
  have hclosed : opened.closeFile "main" = .ok sharedProject := by cbv
  have hnext : openedView.next? openedDisk = none := by decide +kernel
  obtain ⟨warnings, view, hcompile, hfiles⟩ := compile_opened
  have hrun := run_later (.closeFile hclosed) hnext hcompile
  obtain ⟨hfits, hdocuments, hsources, -, -⟩ := hrun.one_text reachable_opened
  have hmain : ∀ log, textOf opened log "/home/me/main" = some (some "Zero.\n\n#include \"part\"".toList) := fun _ => rfl
  have hread : (opened.snapshot.load sharedDisk "/home/me/part").1 = some "Two _parts_.".toList := by decide +kernel
  have hpart := hfits _ List.mem_cons_self
  rw [hread] at hrun hpart hdocuments hsources
  have hdocument := (hdocuments _ _ _ _ (List.mem_cons_of_mem _ List.mem_cons_self)).2
  rw [hfiles] at hrun hpart hdocument hsources
  exact ⟨reachable_opened, _, view, hrun, hmain _, hpart, hdocument, hsources _ _ _ _ List.mem_cons_self hpart⟩

end Viewing

end Proofreader
