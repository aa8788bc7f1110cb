import Mathlib.Data.List.Perm.Basic
import Proofreader.Proofs.Collections
import Proofreader.Proofs.Session.Check
import Proofreader.Proofs.Session.Course
import Proofreader.Proofs.Session.Memory

/-! What the answers of a service come to, whatever a session remembers: the findings in each text, the results of the
languages, and the diagnostics by file. -/

namespace Proofreader

/-- The result but for how often the service was asked. -/
def LanguageResult.uncounted (r : LanguageResult) : LanguageResult := { r with calls := 0 }

theorem flatMap_uncounted (languages : List (String × LanguageResult)) :
    (languages.map fun l => (l.1, l.2.uncounted)).flatMap (·.2.diagnostics) = languages.flatMap (·.2.diagnostics) :=
  List.flatMap_map ..

namespace Pipeline

/-- The findings in a text, as the service gives them chunk by chunk. -/
def findings (q : Pipeline) (answer : CacheKey → List Finding) (t : CheckedText) : List Finding :=
  (q.chunker.chunks t).flatMap fun chunk => chunk.translate (answer (t.profile.cacheKey chunk.text))

def shown (q : Pipeline) (answer : CacheKey → List Finding) (t : CheckedText) : List Diagnostic :=
  (q.mapper.map t (q.chunker.forced t) (q.findings answer t)).toOption.getD []

def verdict (q : Pipeline) (answer : CacheKey → List Finding) (t : CheckedText) : LanguageResult :=
  ⟨t.profile, q.shown answer t, (q.chunker.chunks t).length, 0, none, false⟩

/-- The languages of a document by their tags. -/
def verdicts (q : Pipeline) (answer : CacheKey → List Finding) (root : Node) : List (String × LanguageResult) :=
  ofMembers (((q.extract root).texts.filter (·.profile.resolved)).map fun t => (t.profile.tag, q.verdict answer t))

variable {σ β : Type} {provider : Provider σ β Selection} {answer : CacheKey → List Finding} {last : Cache}
variable {c : Checking σ β} {w : σ} {q : Pipeline} {t : CheckedText}

theorem typed_of_mem_findings (hanswer : ∀ key, ∀ f ∈ answer key, f.Typed) {f : Finding} (hf : f ∈ q.findings answer t) :
    f.Typed := by
  obtain ⟨chunk, -, hf⟩ := List.mem_flatMap.1 hf
  exact Chunk.typed_of_mem_translate (hanswer _) hf

/-- The findings of typed answers are mapped, into the files of the document. -/
theorem map_findings {p : Project} {disk : Disk} {root : Node} {warnings : List Warning} {view : Snapshot}
    (hp : p.Reachable) (h : p.snapshot.compile disk = (some root, warnings, view)) (ht : t ∈ (q.extract root).texts)
    (hanswer : ∀ key, ∀ f ∈ answer key, f.Typed) :
    q.mapper.map t (q.chunker.forced t) (q.findings answer t) = .ok (q.shown answer t) ∧
      ∀ d ∈ q.shown answer t, d.location.file ∈ view.files ∧ d.rule.IsText := by
  obtain ⟨ds, hds, hshown⟩ := Project.exists_map hp h ht q.mapper (q.chunker.forced t)
    fun f hf => typed_of_mem_findings hanswer (q := q) (t := t) hf
  rw [shown, hds]
  refine ⟨rfl, fun d hd => ?_⟩
  obtain ⟨hholds, f, hf, ⟨hrule, -⟩, -⟩ := hshown d hd
  exact ⟨hholds.file, hrule ▸ (typed_of_mem_findings hanswer hf).rule⟩

theorem shown_of_mem_verdicts {root : Node} {d : Diagnostic}
    (hd : d ∈ (q.verdicts answer root).flatMap (·.2.diagnostics)) :
    ∃ t ∈ (q.extract root).texts, d ∈ q.shown answer t := by
  obtain ⟨l, hl, hd⟩ := List.mem_flatMap.1 hd
  obtain ⟨t, ht, rfl⟩ := List.mem_map.1 (mem_of_mem_ofMembers hl)
  exact ⟨t, List.mem_of_mem_filter ht, hd⟩

theorem exists_checkText (hc : c.Sound provider answer w) (hp : provider.Answers answer) (hlast : last.Exact answer)
    (hmap : q.mapper.map t (q.chunker.forced t) (q.findings answer t) = .ok (q.shown answer t)) :
    ∃ n c', Session.checkText q provider last t c = ({ q.verdict answer t with calls := n }, none, c') ∧
      c'.Sound provider answer w := by
  have hreset : Checking.Sound provider answer w { c with calls := 0 } := ⟨hc.exact, hc.once⟩
  obtain ⟨c', hchunks, hc'⟩ := hreset.exists_checkChunks hp hlast t.profile (q.chunker.chunks t)
  refine ⟨c'.calls, c', ?_, hc'⟩
  rw [findings] at hmap
  rw [Session.checkText_eq hchunks]
  unfold judge
  dsimp only
  rw [hmap]
  rfl

/-- All texts come to their verdicts; none of them has a problem. -/
theorem exists_checkTexts {texts : List CheckedText} (hc : c.Sound provider answer w) (hp : provider.Answers answer)
    (hlast : last.Exact answer)
    (hmap : ∀ t ∈ texts, q.mapper.map t (q.chunker.forced t) (q.findings answer t) = .ok (q.shown answer t)) :
    ∃ (results : List (CheckedText × LanguageResult)) (c' : Checking σ β),
      Session.checkTexts q provider last texts c = (results.map fun x => (x.1, x.2, none), c') ∧
      results.map (fun x => (x.1, x.2.uncounted)) = texts.map (fun t => (t, q.verdict answer t)) ∧
      c'.Sound provider answer w := by
  induction texts generalizing c with
  | nil => exact ⟨[], c, rfl, rfl, hc⟩
  | cons t r ih =>
    obtain ⟨n, mid, htext, hmid⟩ := exists_checkText hc hp hlast (hmap t List.mem_cons_self)
    obtain ⟨results, c', hrest, hverdicts, hc'⟩ := ih hmid fun u hu => hmap u (List.mem_cons_of_mem _ hu)
    refine ⟨(t, { q.verdict answer t with calls := n }) :: results, c', ?_, ?_, hc'⟩
    · rw [Session.checkTexts, htext]
      dsimp only
      rw [hrest]
      rfl
    · rw [List.map_cons, hverdicts]
      rfl

/-- The results of all texts by their tags. -/
theorem verdicts_eq {root : Node} {results : List (CheckedText × LanguageResult)}
    (h : results.map (fun x => (x.1, x.2.uncounted)) =
      ((q.extract root).texts.filter (·.profile.resolved)).map fun t => (t, q.verdict answer t)) :
    (ofMembers (results.map fun x => (x.1.profile.tag, x.2))).map (fun l => (l.1, l.2.uncounted)) =
      q.verdicts answer root := by
  have htags := congrArg (List.map fun x : CheckedText × LanguageResult => (x.1.profile.tag, x.2)) h
  rw [List.map_map, List.map_map] at htags
  rw [map_ofMembers, List.map_map]
  exact congrArg ofMembers htags

end Pipeline

namespace Session

variable {β : Type}

/-- Without problems all results are reported and kept. -/
theorem conclude_eq (s : Session β) (report : Report) (results : List (CheckedText × LanguageResult)) :
    s.conclude report (results.map fun x => (x.1, x.2, none)) =
      ({ report with
          status := .idle
          errors := []
          languages := ofMembers (results.map fun x => (x.1.profile.tag, x.2)) },
        { s with previous := results.map fun x => (x.1.key, x.2.diagnostics) }) := by
  have hproblems : results.filterMap (fun _ => (none : Option (String × Problem))) = [] :=
    List.filterMap_eq_nil_iff.2 fun _ _ => rfl
  unfold conclude
  simp only [List.filterMap_map, List.map_map, Function.comp_def, settle, Option.map_none, hproblems]
  rfl

/-- The diagnostics that stand in one file. -/
def row (ds : List Diagnostic) (file : FileId) : FileId × List Diagnostic :=
  (file, (ds.filter (·.location.file = file)).mergeSort Diagnostic.le)

variable {files : List FileId} {ds : List Diagnostic}

theorem byFile_eq (hrules : ∀ d ∈ ds, d.rule.IsText) :
    byFile files ds = .ok ((files ++ ds.map (·.location.file)).eraseDups.map (row ds)) := by
  refine mapM_eq fun file _ => ?_
  rw [Diagnostic.sorted_eq fun d hd => hrules d (List.mem_filter.1 hd).1]
  rfl

/-- Further files only add rows without diagnostics. -/
theorem exists_byFile_append (hrules : ∀ d ∈ ds, d.rule.IsText) (hfiles : ∀ d ∈ ds, d.location.file ∈ files)
    (more : List FileId) : ∃ rows clean, byFile files ds = .ok rows ∧ byFile (files ++ more) ds = .ok (rows ++ clean) ∧
      ∀ x ∈ clean, x.2 = [] := by
  have hnone : (ds.map (·.location.file)).removeAll files = [] := by
    rw [List.removeAll, List.filter_eq_nil_iff]
    intro file hfile
    obtain ⟨d, hd, rfl⟩ := List.mem_map.1 hfile
    simpa using hfiles d hd
  refine ⟨_, ((more ++ ds.map (·.location.file)).removeAll files).eraseDups.map (row ds), byFile_eq hrules, ?_, ?_⟩
  · rw [byFile_eq hrules, List.append_assoc, List.eraseDups_append, List.map_append, List.eraseDups_append, hnone]
    simp
  · intro x hx
    obtain ⟨file, hfile, rfl⟩ := List.mem_map.1 hx
    have hout : file ∉ files := by
      have := (List.mem_filter.1 (List.mem_eraseDups.1 hfile)).2
      simpa using this
    have hempty : ds.filter (·.location.file = file) = [] := by
      rw [List.filter_eq_nil_iff]
      intro d hd he
      exact hout (of_decide_eq_true he ▸ hfiles d hd)
    rw [row, hempty, List.mergeSort_nil]

end Session

end Proofreader

/-! ### Diagnostics by file

Every file has one row, which holds what stands in the file, and a file that
was shown with diagnostics before has a row too. -/

namespace Proofreader

/-- What is listed for a file; nothing where the file has no row. -/
def Report.listed (r : Report) (file : FileId) : List Diagnostic := (r.diagnostics.lookup file).getD []

/-- The diagnostics of all languages stand by file, each of them once and under its own file. -/
structure Report.ByFile (r : Report) : Prop where
  nodup : (r.diagnostics.map Prod.fst).Nodup
  own : ∀ x ∈ r.diagnostics, ∀ d ∈ x.2, d.location.file = x.1
  perm : (r.diagnostics.flatMap (·.2)).Perm (r.languages.flatMap (·.2.diagnostics))

namespace Session

variable {β : Type} {s s' : Session β} {disk : Disk} {draw : Draw} {r : Report} {files : List FileId}
variable {ds : List Diagnostic} {rows : List (FileId × List Diagnostic)} {file : FileId}

theorem eq_of_byFile (h : byFile files ds = .ok rows) :
    rows = (files ++ ds.map (·.location.file)).eraseDups.map (row ds) := by
  refine eq_map_of_mapM h fun file x hx => ?_
  cases hsorted : Diagnostic.sorted (ds.filter (·.location.file = file)) with
  | error m =>
    rw [hsorted] at hx
    cases hx
  | ok es =>
    rw [hsorted] at hx
    cases hx
    rw [Diagnostic.eq_of_sorted hsorted, row]

/-- All diagnostics stand in some row, each of them once. -/
theorem perm_of_byFile (h : byFile files ds = .ok rows) : (rows.flatMap (·.2)).Perm ds := by
  rw [eq_of_byFile h, List.flatMap_map]
  have hsorted := List.Perm.flatMap_left (files ++ ds.map (·.location.file)).eraseDups fun file _ =>
    List.mergeSort_perm (ds.filter (·.location.file = file)) Diagnostic.le
  refine hsorted.trans (flatMap_filter_perm (fun d : Diagnostic => d.location.file) (nodup_eraseDups _) fun d hd => ?_)
  exact List.mem_eraseDups.2 (List.mem_append_right _ (List.mem_map.2 ⟨d, hd, rfl⟩))

/-- The files that a finished report has rows for. -/
def filesOf (s : Session β) (draw : Draw) (r : Report) : List FileId :=
  (draw.snapshot.files ++ s.published ++ (r.languages.flatMap (·.2.diagnostics)).map (·.location.file)).eraseDups

theorem rows_of_finish (h : s.finish disk draw = .ok (r, s')) :
    r.diagnostics = (s.filesOf draw r).map (row (r.languages.flatMap (·.2.diagnostics))) := by
  obtain ⟨rows, hrows, rfl, -⟩ := finish_ok h
  exact eq_of_byFile hrows

theorem files_of_finish (h : s.finish disk draw = .ok (r, s')) : r.diagnostics.map Prod.fst = s.filesOf draw r := by
  rw [rows_of_finish h, List.map_map]
  exact List.map_id _

theorem byFile_of_finish (h : s.finish disk draw = .ok (r, s')) : r.ByFile := by
  have hnodup : (s.filesOf draw r).Nodup := nodup_eraseDups _
  refine ⟨files_of_finish h ▸ hnodup, fun x hx d hd => ?_, ?_⟩
  · rw [rows_of_finish h] at hx
    obtain ⟨file, -, rfl⟩ := List.mem_map.1 hx
    have hfile := (List.mem_filter.1 (List.mem_mergeSort.1 hd)).2
    exact of_decide_eq_true hfile
  · obtain ⟨rows, hrows, rfl, -⟩ := finish_ok h
    exact perm_of_byFile hrows

/-- A file that was shown with diagnostics before has a row. -/
theorem isSome_of_published (h : s.finish disk draw = .ok (r, s')) (hfile : file ∈ s.published) :
    (r.diagnostics.lookup file).isSome = true := by
  have hmem : file ∈ r.diagnostics.map Prod.fst := by
    rw [files_of_finish h]
    exact List.mem_eraseDups.2 (List.mem_append_left _ (List.mem_append_right _ hfile))
  obtain ⟨x, hx, rfl⟩ := List.mem_map.1 hmem
  rw [lookup_of_mem (byFile_of_finish h).nodup hx]
  rfl

/-- A run keeps in mind which files its report shows with diagnostics. -/
theorem mem_published_of_finish (h : s.finish disk draw = .ok (r, s')) : file ∈ s'.published ↔ r.listed file ≠ [] := by
  have hnodup := (byFile_of_finish h).nodup
  obtain ⟨rows, -, rfl, rfl⟩ := finish_ok h
  dsimp only at hnodup ⊢
  unfold Report.listed
  dsimp only
  constructor
  · intro hfile
    obtain ⟨x, hx, rfl⟩ := List.mem_map.1 hfile
    obtain ⟨hx, hne⟩ := List.mem_filter.1 hx
    rw [lookup_of_mem hnodup hx, Option.getD_some]
    simpa using hne
  · intro hne
    cases hl : rows.lookup file with
    | none =>
      rw [hl] at hne
      exact absurd rfl hne
    | some ds =>
      rw [hl, Option.getD_some] at hne
      refine List.mem_map.2 ⟨(file, ds), List.mem_filter.2 ⟨mem_of_lookup hl, ?_⟩, rfl⟩
      simpa using hne

end Session

end Proofreader
