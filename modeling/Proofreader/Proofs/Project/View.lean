import Proofreader.Project.Snapshot
import Proofreader.Proofs.Collections
import Proofreader.Proofs.Markup.Asked
import Proofreader.Proofs.Path

/-! The view of a run. Files go by absolute normal names, so what a document is read from is what the view finds
under these names on disk or in an editor, and what it keeps once the document has been read. -/

namespace Proofreader

/-- The projects that opening, closing and changing files and moving the main file lead to. -/
inductive Project.Reachable : Project → Prop
  | create (at_ : Surroundings) (main : String) (root : Option String) : Reachable (.create at_ main root)
  | move {p : Project} (main : String) (root : Option String) : Reachable p → Reachable (p.move main root)
  | openFile {p q : Project} {path : String} {text : Json} : Reachable p → p.openFile path text = .ok q → Reachable q
  | closeFile {p q : Project} {path : String} : Reachable p → p.closeFile path = .ok q → Reachable q
  | change {p : Project} (disk : Disk) (path : String) (changes : Json) : Reachable p →
      Reachable (p.change disk path changes).1

structure Project.Sound (p : Project) : Prop where
  main : Path.IsNormal p.main.toList
  shadows : (p.shadows.map Prod.fst).Nodup

theorem Path.isNormal_ofList_resolve (working p : Text) : IsNormal (String.ofList (resolve working p)).toList := by
  rw [String.toList_ofList]
  exact isNormal_resolve working p

theorem isNormal_fileIdFor {at_ : Surroundings} {path : String} {file : FileId} (h : fileIdFor at_ path = .ok file) :
    Path.IsNormal file.toList := by
  unfold fileIdFor at h
  split at h
  · cases h
    exact Path.isNormal_ofList_resolve _ _
  · cases h

theorem Project.Reachable.sound {p : Project} (h : p.Reachable) : p.Sound := by
  induction h with
  | create at_ main root => exact ⟨Path.isNormal_ofList_resolve _ _, .nil⟩
  | move main root _ ih => exact ⟨Path.isNormal_ofList_resolve _ _, ih.shadows⟩
  | @openFile p q path text _ he ih =>
    unfold Project.openFile at he
    cases hfile : p.idFor path with
    | error m => rw [hfile] at he; cases he
    | ok file =>
      rw [hfile] at he
      dsimp only [bind, Except.bind] at he
      split at he
      · cases he
        exact ⟨ih.main, nodup_putMember ih.shadows _ _⟩
      · cases he
  | @closeFile p q path _ he ih =>
    unfold Project.closeFile at he
    cases hfile : p.idFor path with
    | error m => rw [hfile] at he; cases he
    | ok file =>
      rw [hfile] at he
      cases he
      exact ⟨ih.main, (List.filter_sublist.map Prod.fst).nodup ih.shadows⟩
  | @change p disk path changes _ ih =>
    unfold Project.change
    split
    · exact ih
    · exact ⟨ih.main, nodup_putMember ih.shadows _ _⟩

namespace Snapshot

variable {s : Snapshot} {disk : Disk} {file g : FileId}

/-- What is known of a file stays known. -/
theorem lookup_load_of_some {text : Option Text} (h : s.texts.lookup g = some text) (disk : Disk) (file : FileId) :
    (s.load disk file).2.texts.lookup g = some text := by
  unfold load
  split
  · exact h
  · rw [List.lookup_append, h]
    rfl

theorem lookup_load_self (s : Snapshot) (disk : Disk) (file : FileId) :
    (s.load disk file).2.texts.lookup file = some (s.peek disk file) := by
  unfold load peek
  split
  · next text h => rw [h]; rfl
  · next h => simp [List.lookup_append, h]

theorem lookup_load_fst (s : Snapshot) (disk : Disk) (file : FileId) :
    (s.load disk file).2.texts.lookup file = some (s.load disk file).1 := by
  rw [lookup_load_self]
  unfold load peek
  split
  · next text h => rw [h]; rfl
  · next h => rw [h]; rfl

/-- A file that is unknown is known as what stands on disk. -/
theorem lookup_load (s : Snapshot) (disk : Disk) (file g : FileId) : (s.load disk file).2.texts.lookup g =
    (s.texts.lookup g).or (if g = file then some (s.onDisk disk file) else none) := by
  unfold load
  split
  · next text h =>
    split
    · next hg => rw [hg, h]; rfl
    · rw [Option.or_none]
  · rw [List.lookup_append, List.lookup_cons]
    by_cases hg : g = file
    · simp [hg]
    · have hbeq : (g == file) = false := by simpa using hg
      rw [hbeq, if_neg hg]
      rfl

/-- Loading a file changes no view of any file. -/
theorem peek_load (s : Snapshot) (disk : Disk) (file g : FileId) : (s.load disk file).2.peek disk g = s.peek disk g := by
  cases hg : s.texts.lookup g with
  | some text =>
    rw [peek, lookup_load_of_some hg, peek, hg]
    rfl
  | none =>
    unfold load
    split
    · rfl
    · next hf =>
      by_cases hgf : g = file
      · subst hgf
        simp [peek, onDisk, List.lookup_append, hg]
      · have hbeq : (g == file) = false := by simpa using hgf
        simp [peek, onDisk, List.lookup_append, List.lookup_cons, hg, hbeq]

def loadAll (s : Snapshot) (disk : Disk) (files : List FileId) : Snapshot :=
  files.foldl (fun s file => (s.load disk file).2) s

theorem lookup_loadAll_of_some {text : Option Text} (files : List FileId) (h : s.texts.lookup g = some text) :
    (s.loadAll disk files).texts.lookup g = some text := by
  induction files generalizing s with
  | nil => exact h
  | cons file r ih => exact ih (lookup_load_of_some h disk file)

theorem peek_loadAll (files : List FileId) (g : FileId) : (s.loadAll disk files).peek disk g = s.peek disk g := by
  induction files generalizing s with
  | nil => rfl
  | cons file r ih => exact ih.trans (s.peek_load disk file g)

theorem files_loadAll (files : List FileId) : (s.loadAll disk files).files = s.files := by
  induction files generalizing s with
  | nil => rfl
  | cons file r ih =>
    have hload : (s.load disk file).2.files = s.files := by
      unfold load
      split
      · rfl
      · rfl
    exact ih.trans hload

/-- Files that were loaded are known as they were seen before. -/
theorem lookup_loadAll {files : List FileId} (h : g ∈ files) :
    (s.loadAll disk files).texts.lookup g = some (s.peek disk g) := by
  induction files generalizing s with
  | nil => cases h
  | cons file r ih =>
    rcases List.mem_cons.1 h with rfl | h
    · exact lookup_loadAll_of_some r (s.lookup_load_self disk g)
    · exact (ih h).trans (congrArg some (s.peek_load disk file g))

theorem nameOf_of_isNormal (h : Path.IsNormal file.toList) (working : String) : Disk.nameOf working file = file := by
  rw [Disk.nameOf, h.join, h.normalize, String.ofList_toList]

theorem mem_files_of_read? {text : Text} (h : disk.read? file = some text) : ∃ stored, (file, stored) ∈ disk.files := by
  unfold Disk.read? Disk.read at h
  cases hf : disk.find? file with
  | none =>
    rw [hf] at h
    cases h
  | some stored => exact ⟨stored, mem_of_lookup hf⟩

/-- The library of a view has the texts that the view shows. -/
theorem load_library (hkeys : (s.texts.map Prod.fst).Nodup) (h : Path.IsNormal file.toList) :
    (s.library disk).load file = s.peek disk file := by
  have hdisk : s.onDisk disk file = disk.read? file := by rw [onDisk, nameOf_of_isNormal h]
  refine lookup_eq (fun text hmem => ?_) (fun text hpeek => ?_)
  · rcases List.mem_append.1 hmem with hmem | hmem
    · obtain ⟨⟨f, o⟩, hf, ho⟩ := List.mem_filterMap.1 hmem
      obtain ⟨t, rfl, he⟩ := Option.map_eq_some_iff.1 ho
      cases he
      rw [peek, lookup_of_mem hkeys hf]
      rfl
    · obtain ⟨⟨f, stored⟩, hf, ho⟩ := List.mem_filterMap.1 hmem
      obtain ⟨t, ht, he⟩ := Option.map_eq_some_iff.1 ho
      cases he
      have hnone := (List.mem_filter.1 hf).2
      rw [Option.isNone_iff_eq_none] at hnone
      rw [peek, hnone, Option.getD_none, hdisk, ht]
  · cases hl : s.texts.lookup file with
    | some o =>
      rw [peek, hl, Option.getD_some] at hpeek
      subst hpeek
      refine ⟨text, List.mem_append_left _ (List.mem_filterMap.2 ⟨_, mem_of_lookup hl, rfl⟩)⟩
    | none =>
      rw [peek, hl, Option.getD_none, hdisk] at hpeek
      obtain ⟨stored, hstored⟩ := mem_files_of_read? hpeek
      refine ⟨text, List.mem_append_right _ (List.mem_filterMap.2 ⟨(file, stored), ?_, ?_⟩)⟩
      · exact List.mem_filter.2 ⟨hstored, by simp [hl]⟩
      · rw [hpeek]
        rfl

/-- Includes lead from a normal name to normal names only. -/
theorem isNormal_of_leads (hmain : Path.IsNormal s.main.toList) (h : (s.library disk).Leads s.main file) :
    Path.IsNormal file.toList := by
  induction h with
  | main => exact hmain
  | @resolve base path _ ih =>
    change Path.IsNormal ((s.resolveInclude base path).toOption.getD base).toList
    cases hr : s.resolveInclude base path with
    | error m => exact ih
    | ok f => exact isNormal_fileIdFor hr

theorem compile_eq (s : Snapshot) (disk : Disk) : s.compile disk =
    (((s.library disk).read s.main).document, ((s.library disk).read s.main).warnings,
      { s.loadAll disk ((s.library disk).read s.main).asked with
        files := ((s.loadAll disk ((s.library disk).read s.main).asked).files ++
          ((s.library disk).read s.main).asked.filter fun file =>
            ((s.loadAll disk ((s.library disk).read s.main).asked).peek disk file).isSome).eraseDups }) := rfl

/-- Every node of the document stands in a file that the view has read the document from, inside the text that the
view keeps for it. -/
theorem exists_readFrom_of_compile (hmain : Path.IsNormal s.main.toList) (hkeys : (s.texts.map Prod.fst).Nodup)
    {root : Node} {warnings : List Warning} {view : Snapshot} (h : s.compile disk = (some root, warnings, view)) {n : Node}
    (hn : n ∈ root.preorder) : ∃ text, view.texts.lookup n.location.file = some (some text) ∧
      n.location.file ∈ view.files ∧ Markup.ReadFrom n.location.file text n ∧ n.location.stop ≤ text.length := by
  rw [compile_eq, Prod.mk.injEq, Prod.mk.injEq] at h
  obtain ⟨hroot, -, rfl⟩ := h
  obtain ⟨main, laidOut⟩ := Markup.Library.laidOut_read _ _ hroot
  obtain ⟨f, text, hleads, hload, hasked, hread, hstop⟩ := laidOut.exists_readFrom hn
  have hnormal := isNormal_of_leads hmain hleads
  have hpeek : s.peek disk f = some text := (load_library hkeys hnormal).symm.trans hload
  have hfile := hread.file
  subst hfile
  refine ⟨text, ?_, ?_, hread, hstop⟩
  · rw [← hpeek]
    exact lookup_loadAll hasked
  · refine List.mem_eraseDups.2 (List.mem_append_right _ (List.mem_filter.2 ⟨hasked, ?_⟩))
    rw [peek_loadAll, hpeek]
    rfl

end Snapshot

/-- In a reachable project every node of the document stands inside the text that the view of the run keeps. -/
theorem Project.exists_readFrom {p : Project} (hp : p.Reachable) {disk : Disk} {root : Node} {warnings : List Warning}
    {view : Snapshot} (h : p.snapshot.compile disk = (some root, warnings, view)) {n : Node} (hn : n ∈ root.preorder) :
    ∃ text, view.texts.lookup n.location.file = some (some text) ∧ n.location.file ∈ view.files ∧
      Markup.ReadFrom n.location.file text n ∧ n.location.stop ≤ text.length := by
  have hkeys : (p.snapshot.texts.map Prod.fst).Nodup := by
    simp only [Project.snapshot, List.map_map]
    exact hp.sound.shadows
  exact Snapshot.exists_readFrom_of_compile hp.sound.main hkeys h hn

/-- In a reachable project the document is read from files with normal names. -/
theorem Project.isNormal_of_mem_files {p : Project} (hp : p.Reachable) {disk : Disk} {root : Option Node}
    {warnings : List Warning} {view : Snapshot} (h : p.snapshot.compile disk = (root, warnings, view)) {file : FileId}
    (hfile : file ∈ view.files) : Path.IsNormal file.toList := by
  rw [Snapshot.compile_eq, Prod.mk.injEq, Prod.mk.injEq] at h
  obtain ⟨-, -, rfl⟩ := h
  rw [List.mem_eraseDups, Snapshot.files_loadAll, List.mem_append] at hfile
  rcases hfile with hnone | hasked
  · cases hnone
  · have hleads := Markup.Library.leads_of_mem_read file (List.mem_filter.1 hasked).1
    exact Snapshot.isNormal_of_leads hp.sound.main hleads

end Proofreader
