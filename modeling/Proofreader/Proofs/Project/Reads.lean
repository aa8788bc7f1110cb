import Proofreader.Proofs.Markup.UpTo
import Proofreader.Proofs.Project.View

/-! A document is compiled by looking at one file after the other. Which file comes next depends only on what the view
has seen so far, so that it makes no difference whether the files are read in one go or one by one. -/

namespace Proofreader.Snapshot

/-- The first file that the document is read from and that the view has not looked at. -/
def next? (s : Snapshot) (disk : Disk) : Option FileId :=
  ((s.library disk).read s.main).asked.find? fun file => (s.texts.lookup file).isNone

/-- The main file has a normal name and the view has one text for each file. -/
structure Sound (s : Snapshot) : Prop where
  main : Path.IsNormal s.main.toList
  keys : (s.texts.map Prod.fst).Nodup

variable {s : Snapshot} {disk disk' : Disk} {file : FileId}

theorem load_of_known {text : Option Text} (h : s.texts.lookup file = some text) (disk : Disk) :
    s.load disk file = (text, s) := by
  unfold load
  rw [h]

theorem load_of_unknown (h : s.texts.lookup file = none) (disk : Disk) : s.load disk file =
    (s.onDisk disk file, { s with texts := s.texts ++ [(file, s.onDisk disk file)] }) := by
  unfold load
  rw [h]

/-- Looking at a file changes what is known of texts only. -/
theorem load_snd (s : Snapshot) (disk : Disk) (file : FileId) :
    (s.load disk file).2 = { s with texts := (s.load disk file).2.texts } := by
  cases h : s.texts.lookup file with
  | some text => rw [load_of_known h]
  | none => rw [load_of_unknown h]

theorem Sound.load (h : s.Sound) (disk : Disk) (file : FileId) : (s.load disk file).2.Sound := by
  cases hfile : s.texts.lookup file with
  | some text =>
    rw [load_of_known hfile]
    exact h
  | none =>
    rw [load_of_unknown hfile]
    refine ⟨h.main, ?_⟩
    rw [List.map_append]
    refine List.nodup_append.2 ⟨h.keys, (by simp), fun f hf g hg => ?_⟩
    rw [List.mem_singleton.1 hg]
    rintro rfl
    obtain ⟨⟨f, text⟩, hmem, rfl⟩ := List.mem_map.1 hf
    rw [lookup_of_mem h.keys hmem] at hfile
    cases hfile

theorem library_load (s : Snapshot) (disk disk' : Disk) (file : FileId) :
    ((s.load disk file).2.library disk').resolve = (s.library disk').resolve := by
  rw [load_snd]
  rfl

/-- Two disks give libraries that have the same texts for all files that the view has looked at. -/
theorem Sound.agreeOff (h : s.Sound) (disk disk' : Disk) :
    Markup.Library.AgreeOff (fun f => s.texts.lookup f = none) s.main (s.library disk) (s.library disk') := by
  refine ⟨rfl, fun f hleads hknown => ?_⟩
  have hnormal := isNormal_of_leads h.main hleads
  obtain ⟨text, htext⟩ := Option.ne_none_iff_exists'.1 hknown
  rw [load_library h.keys hnormal, load_library h.keys hnormal, peek, peek, htext]
  rfl

/-- Which file comes next does not depend on what is on disk. -/
theorem Sound.next?_eq (h : s.Sound) (disk disk' : Disk) : s.next? disk = s.next? disk' :=
  (h.agreeOff disk disk').find?_asked fun _ hf => Option.isNone_iff_eq_none.2 hf

theorem next?_eq_none : s.next? disk = none ↔
    ∀ f ∈ ((s.library disk).read s.main).asked, ∃ text, s.texts.lookup f = some text := by
  unfold next?
  rw [List.find?_eq_none]
  refine forall₂_congr fun f _ => ?_
  rw [Option.isNone_iff_eq_none, ← ne_eq, Option.ne_none_iff_exists']

/-- Looking at a file first does not change what is read. -/
theorem Sound.read_load (h : s.Sound) (disk : Disk) (file : FileId) :
    ((s.load disk file).2.library disk).read (s.load disk file).2.main = (s.library disk).read s.main := by
  have hmain : (s.load disk file).2.main = s.main := by rw [load_snd]
  rw [hmain]
  refine (Markup.Library.read_eq (s.library_load disk disk file).symm fun f hf => ?_).symm
  have hnormal := isNormal_of_leads h.main (Markup.Library.leads_of_mem_read f hf)
  rw [load_library h.keys hnormal, load_library (h.load disk file).keys hnormal, peek_load]

theorem loadAll_of_known {files : List FileId} (h : ∀ f ∈ files, ∃ text, s.texts.lookup f = some text) :
    s.loadAll disk files = s := by
  induction files with
  | nil => rfl
  | cons f r ih =>
    obtain ⟨text, htext⟩ := h f List.mem_cons_self
    have hload : (s.load disk f).2 = s := by rw [load_of_known htext]
    change (s.load disk f).2.loadAll disk r = s
    rw [hload]
    exact ih fun g hg => h g (List.mem_cons_of_mem _ hg)

theorem loadAll_append (s : Snapshot) (disk : Disk) (files more : List FileId) :
    s.loadAll disk (files ++ more) = (s.loadAll disk files).loadAll disk more :=
  List.foldl_append

/-- Compiling looks at the next file first. -/
theorem Sound.compile_load (h : s.Sound) (hnext : s.next? disk = some file) :
    (s.load disk file).2.compile disk = s.compile disk := by
  obtain ⟨-, before, after, hasked, hbefore⟩ := List.find?_eq_some_iff_append.1 hnext
  have hknown : ∀ f ∈ before, ∃ text, s.texts.lookup f = some text := fun f hf => by
    rw [← Option.ne_none_iff_exists', ne_eq, ← Option.isNone_iff_eq_none]
    simpa using hbefore f hf
  have hload : (s.load disk file).2.loadAll disk (before ++ file :: after) = s.loadAll disk (before ++ file :: after) := by
    have hstill : ∀ f ∈ before, ∃ text, (s.load disk file).2.texts.lookup f = some text := fun f hf => by
      obtain ⟨text, htext⟩ := hknown f hf
      exact ⟨text, lookup_load_of_some htext disk file⟩
    rw [loadAll_append, loadAll_append, loadAll_of_known hstill, loadAll_of_known hknown]
    change ((s.load disk file).2.load disk file).2.loadAll disk after = (s.load disk file).2.loadAll disk after
    rw [load_of_known (s.lookup_load_self disk file)]
  rw [compile_eq, compile_eq, h.read_load, hasked, hload]

/-- The view looks at the next file until there is none, with nothing in between. -/
inductive Reads (disk : Disk) : Snapshot → Snapshot → Prop
  | done {s : Snapshot} : s.next? disk = none → Reads disk s s
  | load {s s' : Snapshot} {file : FileId} : s.next? disk = some file → Reads disk (s.load disk file).2 s' → Reads disk s s'

/-- The files of the document that the view has not looked at. -/
def left (s : Snapshot) (disk : Disk) : List FileId :=
  ((s.library disk).read s.main).asked.filter fun file => (s.texts.lookup file).isNone

/-- A file that is looked at is no longer left. -/
theorem Sound.length_left_lt (h : s.Sound) (hnext : s.next? disk = some file) :
    ((s.load disk file).2.left disk).length < (s.left disk).length := by
  have hfewer : (s.load disk file).2.left disk =
      (s.left disk).filter fun f => ((s.load disk file).2.texts.lookup f).isNone := by
    unfold left
    rw [h.read_load, List.filter_filter]
    refine List.filter_congr fun f _ => ?_
    cases hf : s.texts.lookup f with
    | some text => rw [lookup_load_of_some hf]; rfl
    | none => simp
  have hfile : file ∈ s.left disk :=
    List.mem_filter.2 ⟨List.mem_of_find?_eq_some hnext, by simpa using List.find?_some hnext⟩
  rw [hfewer]
  refine List.length_filter_lt_length_iff_exists.2 ⟨file, hfile, ?_⟩
  rw [lookup_load_self]
  exact Bool.false_ne_true

/-- Compiling comes to what is compiled when every file has been looked at, one after the other. -/
theorem Sound.exists_reads (h : s.Sound) (disk : Disk) :
    ∃ s', Reads disk s s' ∧ s'.next? disk = none ∧ s'.compile disk = s.compile disk := by
  induction hn : (s.left disk).length using Nat.strong_induction_on generalizing s with
  | _ n ih =>
    cases hnext : s.next? disk with
    | none => exact ⟨s, .done hnext, hnext, rfl⟩
    | some file =>
      obtain ⟨s', hreads, hdone, hcompile⟩ := ih _ (hn ▸ h.length_left_lt hnext) (h.load disk file) rfl
      exact ⟨s', .load hnext hreads, hdone, hcompile.trans (h.compile_load hnext)⟩

end Proofreader.Snapshot
