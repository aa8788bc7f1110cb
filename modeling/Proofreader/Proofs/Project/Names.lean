import Proofreader.Proofs.Markup.Library
import Proofreader.Proofs.Project.Reads

/-! One file, one name. A path leads from place to place below the root, part by part. The name of a file is the place
that its path leads to, written as an absolute path, whoever asks: the project for its main file, an editor for the
file it opens, a file for what it includes. -/

namespace Proofreader

namespace Path

/-- The place that one more part of a path leads to. -/
def enter (place : List Text) (part : Text) : List Text :=
  if part = [] ∨ part = ['.'] then place
  else if part = dotdot then place.dropLast
  else place ++ [part]

def walk (place : List Text) (p : Text) : List Text := (parts p).foldl enter place

/-- The place that an absolute path leads to. -/
def place (p : Text) : List Text := walk [] p

/-- The first part asks for the home of someone. -/
def asksForHome (p : Text) : Bool := ! isAbsolute p && (plainParts p).head?.any (·.head? = some '~')

variable {p : Text} {ps stack : List Text}

/-! ### Walking -/

theorem parts_append_slash (p q : Text) : parts (p ++ '/' :: q) = parts p ++ parts q := by
  induction p with
  | nil => exact parts_cons_slash q
  | cons c r ih =>
    obtain ⟨part, rest, he⟩ := List.exists_cons_of_ne_nil (Text.splitWhen_ne_nil (· = '/') r)
    unfold parts at ih ⊢
    rw [List.cons_append, Text.splitWhen, ih, Text.splitWhen, he]
    by_cases hc : c = '/'
    · simp [hc]
    · simp [hc]

theorem walk_nil (place : List Text) : walk place [] = place := rfl

theorem walk_append_slash (place : List Text) (p q : Text) : walk place (p ++ '/' :: q) = walk (walk place p) q := by
  rw [walk, parts_append_slash, List.foldl_append]
  rfl

theorem walk_cons_slash (place : List Text) (p : Text) : walk place ('/' :: p) = walk place p :=
  walk_append_slash place [] p

theorem walk_dropWhile_slash (place : List Text) (p : Text) : walk place (p.dropWhile (· = '/')) = walk place p := by
  induction p with
  | nil => rfl
  | cons c r ih =>
    by_cases hc : c = '/'
    · subst hc
      rw [walk_cons_slash]
      exact ih
    · rw [List.dropWhile_cons_of_neg (by simpa using hc)]

/-- A joined path leads from the place of the first path on. -/
theorem place_join {base : Text} (h : isAbsolute p = false) : place (join base p) = walk (place base) p := by
  unfold join
  rw [h, if_neg Bool.false_ne_true]
  split
  · next hbase =>
    rcases hbase with rfl | hlast
    · rfl
    · obtain ⟨b, rfl⟩ := List.getLast?_eq_some_iff.1 hlast
      rw [List.append_assoc, List.singleton_append, place, place, walk_append_slash, walk_append_slash, walk_nil]
  · exact walk_append_slash [] base p

/-- The stack of a path holds the place that the path has come to. -/
theorem reverse_pushPart (h : ∀ q ∈ stack, Plain q) (part : Text) :
    (pushPart true stack part).reverse = enter stack.reverse part := by
  unfold pushPart enter
  split
  · rfl
  · split
    · split
      · rfl
      · next top below =>
        rw [if_neg (h top List.mem_cons_self).ne_dotdot, List.reverse_cons, List.dropLast_concat]
    · rw [List.reverse_cons]

theorem reverse_foldl_pushPart (hps : ∀ q ∈ ps, '/' ∉ q) (h : ∀ q ∈ stack, Plain q) :
    (ps.foldl (pushPart true) stack).reverse = ps.foldl enter stack.reverse := by
  induction ps generalizing stack with
  | nil => rfl
  | cons part r ih =>
    rw [List.foldl_cons, List.foldl_cons, ← reverse_pushPart h]
    exact ih (fun q hq => hps q (List.mem_cons_of_mem _ hq)) (plain_pushPart h (hps part List.mem_cons_self))

theorem resolve_eq (working p : Text) : resolve working p = '/' :: joinParts (place (join working p)) := by
  rw [resolve, reverse_foldl_pushPart (fun q hq => slash_notMem_of_mem_parts hq) (by simp)]
  rfl

/-! ### Names of places -/

theorem place_joinParts (h : ∀ q ∈ ps, Plain q) : place ('/' :: joinParts ps) = ps := by
  rw [place, walk, ← List.reverse_nil, ← reverse_foldl_pushPart (fun q hq => slash_notMem_of_mem_parts hq) (by simp),
    IsNormal.foldl_parts h]

theorem plain_place (p : Text) : ∀ q ∈ place p, Plain q := by
  intro q hq
  rw [place, walk, ← List.reverse_nil, ← reverse_foldl_pushPart (fun q hq => slash_notMem_of_mem_parts hq) (by simp),
    List.mem_reverse] at hq
  exact plain_foldl_pushPart (fun q hq => slash_notMem_of_mem_parts hq) (by simp) q hq

/-- A normal path is the name of its place. -/
theorem IsNormal.eq_place (h : IsNormal p) : p = '/' :: joinParts (place p) := by
  obtain ⟨ps, hps, rfl⟩ := h
  rw [place_joinParts hps]

theorem IsNormal.place_inj {q : Text} (hp : IsNormal p) (hq : IsNormal q) : place p = place q ↔ p = q := by
  refine ⟨fun h => ?_, congrArg place⟩
  rw [hp.eq_place, hq.eq_place, h]

theorem IsNormal.parent_eq (h : IsNormal p) : parent p = '/' :: joinParts (place p).dropLast := by
  obtain ⟨ps, hps, rfl⟩ := h
  have hplain : plainParts ('/' :: joinParts ps) = ps := plainParts_replicate hps 0
  unfold parent
  rw [IsNormal.rootLength ⟨ps, hps, rfl⟩, hplain, place_joinParts hps]
  rfl

theorem IsNormal.parent (h : IsNormal p) : IsNormal (parent p) :=
  ⟨_, fun q hq => plain_place p q ((place p).dropLast_subset hq), h.parent_eq⟩

theorem IsNormal.place_parent (h : IsNormal p) : place (Path.parent p) = (place p).dropLast := by
  rw [h.parent_eq, place_joinParts fun q hq => plain_place p q ((place p).dropLast_subset hq)]

theorem absolute_join {base : Text} (h : isAbsolute base = true) (p : Text) : isAbsolute (join base p) = true := by
  unfold join
  split
  · assumption
  · obtain ⟨c, r, rfl⟩ := List.exists_cons_of_ne_nil (show base ≠ [] by rintro rfl; cases h)
    split
    · exact h
    · exact h

/-- What resolving starts from may be joined before. -/
theorem resolve_join {working : Text} (h : isAbsolute working = true) (p : Text) :
    resolve working (join working p) = resolve working p := by
  have hjoin : join working (join working p) = join working p := by
    rw [join, if_pos (absolute_join h p)]
  rw [resolve, hjoin, resolve]

/-! ### Homes -/

theorem asksForHome_of_absolute (h : isAbsolute p = true) : asksForHome p = false := by
  rw [asksForHome, h]
  rfl

/-- A path stays what it is unless it asks for a home. -/
theorem expandHome_of_not_asks (h : asksForHome p = false) (home : Text) : expandHome home p = some p := by
  unfold expandHome
  split
  · next name r hroot hplain =>
    cases habsolute : isAbsolute p with
    | true =>
      obtain ⟨n, hn⟩ := rootLength_pos habsolute
      rw [hn] at hroot
      cases hroot
    | false => simp [asksForHome, habsolute, hplain] at h
  · rfl

end Path

/-! ### Names of files -/

section Naming

variable {at_ : Surroundings} {path : String} {file : FileId}

theorem fileIdFor_of_not_asks (h : Path.asksForHome path.toList = false) (at_ : Surroundings) :
    fileIdFor at_ path = .ok (String.ofList (Path.resolve at_.working.toList path.toList)) := by
  rw [fileIdFor, Path.expandHome_of_not_asks h]

theorem fileIdFor_of_isNormal (h : Path.IsNormal file.toList) (at_ : Surroundings) : fileIdFor at_ file = .ok file := by
  rw [fileIdFor_of_not_asks (Path.asksForHome_of_absolute h.absolute), h.resolve, String.ofList_toList]

theorem exists_fileIdFor_iff : (∃ path, fileIdFor at_ path = .ok file) ↔ Path.IsNormal file.toList :=
  ⟨fun ⟨_, h⟩ => isNormal_fileIdFor h, fun h => ⟨file, fileIdFor_of_isNormal h at_⟩⟩

end Naming

namespace Project

variable {at_ : Surroundings} {p q : Project} {path : String} {file : FileId}

/-- The main file of a project is in the working directory, a tilde in its path or not. -/
theorem main_create (h : Path.isAbsolute at_.working.toList = true) (path : String) (root : Option String) :
    (create at_ path root).main = String.ofList (Path.resolve at_.working.toList path.toList) := by
  rw [← Path.resolve_join h]
  rfl

theorem fileIdFor_join (h : Path.isAbsolute at_.working.toList = true) (path : String) (root : Option String) :
    fileIdFor at_ (String.ofList (Path.join at_.working.toList path.toList)) = .ok (create at_ path root).main := by
  have hjoin := Path.absolute_join h path.toList
  rw [fileIdFor_of_not_asks (by rw [String.toList_ofList]; exact Path.asksForHome_of_absolute hjoin), main_create h,
    String.toList_ofList, Path.resolve_join h]

theorem Reachable.isNormal_root (h : p.Reachable) : Path.IsNormal p.root.toList := by
  induction h with
  | create at_ main root => exact Path.isNormal_ofList_resolve _ _
  | move main root _ ih => exact Path.isNormal_ofList_resolve _ _
  | @openFile p q path text _ he ih =>
    obtain ⟨file, -, he⟩ := exists_of_bind he
    split at he
    · cases he
      exact ih
    · cases he
  | @closeFile p q path _ he ih =>
    obtain ⟨file, -, he⟩ := exists_of_bind he
    cases he
    exact ih
  | @change p disk path changes _ ih =>
    unfold Project.change
    split
    · exact ih
    · exact ih

/-- What an editor opens is what every view shows of the file from then on. -/
theorem exists_openFile (h : p.idFor path = .ok file) (text : String) : ∃ q, p.openFile path (.str text) = .ok q ∧
    q.main = p.main ∧ q.root = p.root ∧ q.snapshot.texts.lookup file = some (some text.toList) := by
  refine ⟨{ p with shadows := putMember p.shadows file (.text (.ofText file text.toList)) }, ?_, rfl, rfl, ?_⟩
  · unfold openFile
    rw [h]
    rfl
  · have hlookup := lookup_mapSnd Shadow.text? (putMember p.shadows file (.text (.ofText file text.toList))) file
    rw [lookup_putMember_self] at hlookup
    exact hlookup

end Project

namespace Snapshot

variable {s : Snapshot} {disk : Disk} {base file : FileId}

/-- The place that an include leads to: from the root for a leading slash, else from beside the including file. -/
def includePlace (s : Snapshot) (base : FileId) (path : Text) : List Text :=
  Path.walk (if Path.isAbsolute path then Path.place s.root.toList else (Path.place base.toList).dropLast) path

theorem includePath_eq (s : Snapshot) (base : FileId) (path : Text) : s.includePath base path =
    if Path.isAbsolute path then Path.join s.root.toList (path.dropWhile (· = '/'))
    else Path.join (Path.parent base.toList) path := by
  unfold includePath
  split
  · rfl
  · next hslash =>
    rw [if_neg]
    unfold Path.isAbsolute
    rw [decide_eq_true_eq, List.head?_eq_some_iff]
    rintro ⟨r, rfl⟩
    exact hslash r rfl

theorem isAbsolute_dropWhile (path : Text) : Path.isAbsolute (path.dropWhile (· = '/')) = false := by
  induction path with
  | nil => rfl
  | cons c r ih =>
    by_cases hc : c = '/'
    · rwa [List.dropWhile_cons_of_pos (by simpa using hc)]
    · rw [List.dropWhile_cons_of_neg (by simpa using hc)]
      simpa [Path.isAbsolute] using hc

theorem place_includePath (hbase : Path.IsNormal base.toList) (path : Text) :
    Path.place (s.includePath base path) = s.includePlace base path := by
  rw [includePath_eq, includePlace]
  split
  · rw [Path.place_join (isAbsolute_dropWhile path), Path.walk_dropWhile_slash]
  · next hpath => rw [Path.place_join (by simpa using hpath), hbase.place_parent]

theorem absolute_includePath (hroot : Path.IsNormal s.root.toList) (hbase : Path.IsNormal base.toList) (path : Text) :
    Path.isAbsolute (s.includePath base path) = true := by
  rw [includePath_eq]
  split
  · exact Path.absolute_join hroot.absolute _
  · exact Path.absolute_join hbase.parent.absolute path

/-- An include has the name of the place that it leads to. -/
theorem resolveInclude_eq (hroot : Path.IsNormal s.root.toList) (hbase : Path.IsNormal base.toList) (path : Text) :
    s.resolveInclude base path = .ok (String.ofList ('/' :: Path.joinParts (s.includePlace base path))) := by
  have habsolute := absolute_includePath hroot hbase path
  have hasks := Path.asksForHome_of_absolute habsolute
  rw [← String.toList_ofList (l := s.includePath base path)] at hasks
  rw [resolveInclude, fileIdFor_of_not_asks hasks, String.toList_ofList, Path.resolve_eq, Path.join, if_pos habsolute,
    place_includePath hbase]

/-- An include leads to a file that goes by the name of its place and by no other. -/
theorem exists_resolveInclude (hroot : Path.IsNormal s.root.toList) (hbase : Path.IsNormal base.toList) (path : Text) :
    ∃ file, s.resolveInclude base path = .ok file ∧ Path.IsNormal file.toList ∧
      Path.place file.toList = s.includePlace base path := by
  have hplace := place_includePath hbase path (s := s)
  have hplain : ∀ q ∈ s.includePlace base path, Path.Plain q := fun q hq => Path.plain_place _ q (hplace ▸ hq)
  refine ⟨_, resolveInclude_eq hroot hbase path, ?_⟩
  rw [String.toList_ofList]
  exact ⟨⟨_, hplain, rfl⟩, Path.place_joinParts hplain⟩

theorem resolveInclude_eq_iff (hroot : Path.IsNormal s.root.toList) (hbase : Path.IsNormal base.toList)
    (hfile : Path.IsNormal file.toList) (path : Text) :
    s.resolveInclude base path = .ok file ↔ s.includePlace base path = Path.place file.toList := by
  obtain ⟨f, hf, hnormal, hplace⟩ := exists_resolveInclude hroot hbase path
  rw [hf, ← hplace, hnormal.place_inj hfile, String.toList_inj, Except.ok.injEq]

/-- Includes are told apart by their places only. -/
theorem resolveInclude_eq_resolveInclude {base' : FileId} (hroot : Path.IsNormal s.root.toList)
    (hbase : Path.IsNormal base.toList) (hbase' : Path.IsNormal base'.toList) (path path' : Text) :
    s.resolveInclude base path = s.resolveInclude base' path' ↔
      s.includePlace base path = s.includePlace base' path' := by
  obtain ⟨f, hf, hnormal, hplace⟩ := exists_resolveInclude hroot hbase' path'
  rw [hf, ← hplace, resolveInclude_eq_iff hroot hbase hnormal]

theorem library_resolve (hroot : Path.IsNormal s.root.toList) (hbase : Path.IsNormal base.toList)
    (hfile : Path.IsNormal file.toList) {path : Text} (h : s.includePlace base path = Path.place file.toList) :
    (s.library disk).resolve base path = file := by
  change (s.resolveInclude base path).toOption.getD base = file
  rw [(resolveInclude_eq_iff hroot hbase hfile path).2 h]
  rfl

/-- An include that leads back to a file that is being read is a cycle, whatever way it takes. -/
theorem fetch_of_place {chain : List FileId} (hroot : Path.IsNormal s.root.toList) (hbase : Path.IsNormal base.toList)
    (hfile : Path.IsNormal file.toList) (hmem : file ∈ base :: chain) {path : Text}
    (h : s.includePlace base path = Path.place file.toList) (levels : Nat) (here : Location) (scope : Scope) :
    ((s.library disk).page levels chain base).fetch path here scope =
      ⟨[], [Markup.cycleWarning file (some here)], []⟩ := by
  simp only [Markup.Library.page]
  rw [library_resolve hroot hbase hfile h, Markup.Library.readFile_of_mem hmem]
  rfl

end Snapshot

namespace Project

variable {p : Project} {opened : String} {file : FileId}

/-- A file that an editor opened is found by every include that leads to its place. -/
theorem exists_openFile_included (hp : p.Reachable) (h : p.idFor opened = .ok file) (text : String) :
    ∃ q, p.openFile opened (.str text) = .ok q ∧ ∀ disk base path, Path.IsNormal base.toList →
      p.snapshot.includePlace base path = Path.place file.toList →
        (q.snapshot.library disk).load ((q.snapshot.library disk).resolve base path) = some text.toList := by
  obtain ⟨q, hq, -, hroot, hlookup⟩ := exists_openFile h text
  refine ⟨q, hq, fun disk base path hbase hplace => ?_⟩
  have hreach := hp.openFile hq
  have hnormal := isNormal_fileIdFor h
  have hkeys : (q.snapshot.texts.map Prod.fst).Nodup := by
    simp only [snapshot, List.map_map]
    exact hreach.sound.shadows
  have hplace' : q.snapshot.includePlace base path = Path.place file.toList := by
    have hsame : q.snapshot.root = p.snapshot.root := hroot
    rw [← hplace, Snapshot.includePlace, Snapshot.includePlace, hsame]
  rw [Snapshot.library_resolve hreach.isNormal_root hbase hnormal hplace', Snapshot.load_library hkeys hnormal,
    Snapshot.peek, hlookup]
  rfl

/-- One file has one name. The name that an editor uses for a path is the name of the main file of a project created
for that path, unless the path asks for a home; the main file is in the working directory then, where an editor does
not look. What is included goes by the name of its place, whichever file includes it and however the include is
spelt. So an include that leads back to a file being read is a cycle, and the text of an open file is found by every
include of the file. -/
theorem one_name_per_file (at_ : Surroundings) (hworking : Path.isAbsolute at_.working.toList = true) :
    (∀ path, Path.asksForHome path.toList = false → fileIdFor at_ path = .ok (create at_ path none).main ∧
      ∀ text, ∃ q, (create at_ path none).openFile path (.str text) = .ok q ∧
        ∀ disk, (q.snapshot.load disk q.snapshot.main).1 = some text.toList) ∧
    (∀ path, fileIdFor at_ (String.ofList (Path.join at_.working.toList path.toList)) = .ok (create at_ path none).main) ∧
    (∀ file, (∃ path, fileIdFor at_ path = .ok file) ↔ Path.IsNormal file.toList) ∧
    ∀ p : Project, p.Reachable → p.surroundings = at_ → ∀ base, Path.IsNormal base.toList →
      (∀ path, ∃ file, p.snapshot.resolveInclude base path = .ok file ∧ fileIdFor at_ file = .ok file ∧
        Path.place file.toList = p.snapshot.includePlace base path) ∧
      (∀ path base' path', Path.IsNormal base'.toList →
        (p.snapshot.resolveInclude base path = p.snapshot.resolveInclude base' path' ↔
          p.snapshot.includePlace base path = p.snapshot.includePlace base' path')) ∧
      (∀ disk levels chain path here scope, ∀ file ∈ base :: chain, Path.IsNormal file.toList →
        p.snapshot.includePlace base path = Path.place file.toList →
          ((p.snapshot.library disk).page levels chain base).fetch path here scope =
            ⟨[], [Markup.cycleWarning file (some here)], []⟩) ∧
      ∀ opened file text, fileIdFor at_ opened = .ok file → ∃ q, p.openFile opened (.str text) = .ok q ∧
        ∀ disk path, p.snapshot.includePlace base path = Path.place file.toList →
          (q.snapshot.library disk).load ((q.snapshot.library disk).resolve base path) = some text.toList := by
  refine ⟨fun path hasks => ?_, fun path => fileIdFor_join hworking path none, fun file => exists_fileIdFor_iff,
    fun p hp hat base hbase => ⟨fun path => ?_, fun path base' path' hbase' => ?_, ?_, ?_⟩⟩
  · have hmain : fileIdFor at_ path = .ok (create at_ path none).main := by
      rw [fileIdFor_of_not_asks hasks, main_create hworking]
    refine ⟨hmain, fun text => ?_⟩
    obtain ⟨q, hq, hqmain, -, hlookup⟩ := exists_openFile (p := create at_ path none) hmain text
    refine ⟨q, hq, fun disk => ?_⟩
    have hname : q.snapshot.main = (create at_ path none).main := hqmain
    rw [hname, Snapshot.load_of_known hlookup]
  · obtain ⟨file, hfile, hnormal, hplace⟩ := Snapshot.exists_resolveInclude (s := p.snapshot) hp.isNormal_root hbase path
    exact ⟨file, hfile, fileIdFor_of_isNormal hnormal at_, hplace⟩
  · exact Snapshot.resolveInclude_eq_resolveInclude (s := p.snapshot) hp.isNormal_root hbase hbase' path path'
  · intro disk levels chain path here scope file hmem hnormal hplace
    exact Snapshot.fetch_of_place (s := p.snapshot) hp.isNormal_root hbase hnormal hmem hplace levels here scope
  · intro opened file text hfile
    subst hat
    obtain ⟨q, hq, hload⟩ := exists_openFile_included hp hfile text
    exact ⟨q, hq, fun disk path => hload disk base path hbase⟩

/-- Two spellings of the main file, one from beside it and one from the root, in the file that is included. -/
theorem one_name_per_file_spellings :
    fileIdFor ⟨"/work", "/home/writer"⟩ "./parts//../main.typ" =
      .ok (create ⟨"/work", "/home/writer"⟩ "./parts//../main.typ" none).main ∧
    (create ⟨"/work", "/home/writer"⟩ "main.typ" none).snapshot.resolveInclude "/work/parts/a.typ" "../main.typ".toList =
      (create ⟨"/work", "/home/writer"⟩ "main.typ" none).snapshot.resolveInclude "/work/main.typ" "//~/../main.typ".toList := by
  have hnames := one_name_per_file ⟨"/work", "/home/writer"⟩ (by decide)
  have hnormal : ∀ file, (∃ path, fileIdFor ⟨"/work", "/home/writer"⟩ path = .ok file) → Path.IsNormal file.toList :=
    fun file => (hnames.2.2.1 file).1
  have hincludes := hnames.2.2.2 _ (.create ⟨"/work", "/home/writer"⟩ "main.typ" none) rfl "/work/parts/a.typ"
    (hnormal _ ⟨"/work/parts/a.typ", rfl⟩)
  refine ⟨(hnames.1 "./parts//../main.typ" (by decide)).1, ?_⟩
  exact (hincludes.2.1 _ "/work/main.typ" _ (hnormal _ ⟨"/work/main.typ", rfl⟩)).2 (by decide)

/-- An editor finds the home of the writer in a path, the project does not. -/
theorem main_ne_fileIdFor_home :
    fileIdFor ⟨"/work", "/home/writer"⟩ "~/x.typ" = .ok "/home/writer/x.typ" ∧
    (create ⟨"/work", "/home/writer"⟩ "~/x.typ" none).main = "/work/~/x.typ" ∧
    ∀ text, ∃ q, (create ⟨"/work", "/home/writer"⟩ "~/x.typ" none).openFile "~/x.typ" (.str text) = .ok q ∧
      (q.snapshot.load .empty q.main).1 = none :=
  ⟨rfl, rfl, fun _ => ⟨_, rfl, rfl⟩⟩

end Project

end Proofreader
