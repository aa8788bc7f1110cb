import Proofreader.Proofs.Presentation.Client
import Proofreader.Proofs.Session.Typed
import Proofreader.Proofs.Session.Verdict

/-! No diagnostics stay behind in an editor. What is shown for a file was listed by the last report that lists the
file, and as long as it is not empty the session knows that it was shown. So the run that finds nothing more in the
file lists it once more, and the message on it clears it. There is no such message if the run does not have the text of
the file, as it was deleted or cannot be read: then the editor keeps what it shows. -/

namespace Proofreader

/-- The last report that has a row for the file. -/
def lastListing (log : List (Except Fault Report)) (file : FileId) : Option Report :=
  log.reverse.findSome? fun out => out.toOption.filter fun r => (r.diagnostics.lookup file).isSome

/-- The last report that lists the file does not have its text. -/
def Unread (log : List (Except Fault Report)) (file : FileId) : Prop :=
  ∃ r, lastListing log file = some r ∧ r.sources.lookup file = none

namespace Session

variable {σ β : Type} {provider : Provider σ β Selection} {log : List (Except Fault Report)} {s s' mid : Session β}
variable {disk : Disk} {w v : σ} {view : Snapshot} {r r' : Report} {next : Cache} {file : FileId} {e : Fault}

theorem lastListing_error (log : List (Except Fault Report)) (e : Fault) (file : FileId) :
    lastListing (log ++ [.error e]) file = lastListing log file := by
  unfold lastListing
  rw [List.reverse_append]
  rfl

theorem lastListing_of_listed (log : List (Except Fault Report)) {ds : List Diagnostic}
    (h : r.diagnostics.lookup file = some ds) : lastListing (log ++ [.ok r]) file = some r := by
  unfold lastListing
  rw [List.reverse_append]
  simp [Except.toOption, Option.filter, h]

theorem lastListing_of_unlisted (log : List (Except Fault Report)) (h : r.diagnostics.lookup file = none) :
    lastListing (log ++ [.ok r]) file = lastListing log file := by
  unfold lastListing
  rw [List.reverse_append]
  simp [Except.toOption, Option.filter, h]

theorem follow_snoc (log : List (Except Fault Report)) (out : Except Fault Report) :
    Editor.follow (log ++ [out]) = (Editor.follow log).hear out := by
  unfold Editor.follow
  rw [List.foldl_append]
  rfl

/-- Everything that is remembered stands in files with normal names. -/
structure Filed (s : Session β) : Prop where
  previous : s.Shown fun d => Path.IsNormal d.location.file.toList
  published : ∀ file ∈ s.published, Path.IsNormal file.toList

theorem Filed.applyPending (hs : s.Filed) (h : s.begun.applyPending provider w = (.ok (), mid, v)) : mid.Filed := by
  obtain ⟨hprevious, hpublished⟩ := applyPending_keeps h
  refine ⟨?_, ?_⟩
  · unfold Shown
    rw [hprevious]
    exact hs.previous
  · rw [hpublished]
    exact hs.published

/-- What a run finds stands in files of the document, and these have normal names. -/
theorem Filed.drawn (hs : s.Filed) (hr : s.Regular) (h : Drawn provider disk s w view r s' next v) :
    (∀ d ∈ r.languages.flatMap (·.2.diagnostics), Path.IsNormal d.location.file.toList) ∧ s'.Filed := by
  obtain ⟨hreport, hprevious⟩ := h.shown hs.previous fun root _ view _ _ results _ hcompile hresults x hx d hd => by
    have htexts : ∀ t ∈ s.checkedTexts root, t ∈ (s.pipeline.extract root).texts := fun _ ht => (List.mem_filter.1 ht).1
    have hholds := holds_of_checkTexts hr.project hcompile htexts hresults x hx d hd
    exact Project.isNormal_of_mem_files hr.project hcompile hholds.file
  refine ⟨hreport, hprevious, ?_⟩
  rw [h.unmoved.2.2]
  exact hs.published

/-- All files that a finished report lists have normal names. -/
theorem Filed.finish (hs : s.Filed) (hr : s.Regular) (h : Drawn provider disk s w view r s' next v)
    (hfinish : s'.finish disk ⟨r, view⟩ = .ok (r', mid)) :
    (∀ x ∈ r'.diagnostics, Path.IsNormal x.1.toList) ∧ mid.Filed := by
  obtain ⟨hreport, hs'⟩ := hs.drawn hr h
  have hlanguages : r'.languages = r.languages := by
    obtain ⟨-, -, rfl, -⟩ := finish_ok hfinish
    rfl
  have hrows : ∀ x ∈ r'.diagnostics, Path.IsNormal x.1.toList := by
    intro x hx
    have hfile : x.1 ∈ r'.diagnostics.map Prod.fst := List.mem_map.2 ⟨x, hx, rfl⟩
    rw [files_of_finish hfinish, filesOf, List.mem_eraseDups, List.mem_append, List.mem_append, hlanguages] at hfile
    rcases hfile with (hview | hpublished) | hfound
    · obtain ⟨root, warnings, hcompile⟩ := h.exists_compile
      exact Project.isNormal_of_mem_files hr.project hcompile hview
    · exact hs'.published _ hpublished
    · obtain ⟨d, hd, he⟩ := List.mem_map.1 hfound
      exact he ▸ hreport d hd
  obtain ⟨rows, -, rfl, rfl⟩ := finish_ok hfinish
  refine ⟨hrows, hs'.previous, fun file hfile => ?_⟩
  obtain ⟨x, hx, rfl⟩ := List.mem_map.1 hfile
  exact hrows x (List.mem_filter.1 hx).1

/-- A run has published what it lists with diagnostics; all that was published before is listed by its report. -/
structure Turns (s s' : Session β) (r : Report) : Prop where
  byFile : r.ByFile
  normal : ∀ x ∈ r.diagnostics, Path.IsNormal x.1.toList
  before : ∀ file ∈ s.published, (r.diagnostics.lookup file).isSome = true
  after : ∀ file, file ∈ s'.published ↔ r.listed file ≠ []

theorem Course.turns (hs : s.Filed) (hr : s.Regular) (h : Course provider disk s w (.ok r) s' v) :
    s.Turns s' r := by
  cases h with
  | @reported mid drawn _ _ _ view draft _ _ hpending hdrawn hfinish =>
    have hpublished : drawn.published = s.published := hdrawn.unmoved.2.2.trans (applyPending_keeps hpending).2
    have hafter : ∀ file, file ∈ _ ↔ r.listed file ≠ [] := fun _ => mem_published_of_finish hfinish
    refine ⟨byFile_of_finish hfinish, ?_, fun file hfile => ?_, hafter⟩
    · exact ((hs.applyPending hpending).finish (hr.applyPending hpending) hdrawn hfinish).1
    · rw [← hpublished] at hfile
      exact isSome_of_published hfinish hfile

theorem published_of_raised (h : Course provider disk s w (.error e) s' v) : s'.published = s.published := by
  cases h with
  | unsettled h =>
    rw [applyPending_error h]
    rfl
  | unserved h _ =>
    have hmid := (applyPending_keeps h).2
    exact hmid
  | unsorted h hdrawn _ => exact hdrawn.unmoved.2.2.trans (applyPending_keeps h).2

theorem Filed.course {out : Except Fault Report} (hs : s.Filed) (hr : s.Regular)
    (h : Course provider disk s w out s' v) : s'.Filed := by
  cases h with
  | unsettled h =>
    rw [applyPending_error h]
    exact ⟨hs.previous, hs.published⟩
  | unserved h _ =>
    have hmid := hs.applyPending h
    exact ⟨hmid.previous, hmid.published⟩
  | unsorted h hdrawn _ =>
    have hdrawn' := ((hs.applyPending h).drawn (hr.applyPending h) hdrawn).2
    exact ⟨hdrawn'.previous, hdrawn'.published⟩
  | reported h hdrawn hfinish =>
    have hfinish' := ((hs.applyPending h).finish (hr.applyPending h) hdrawn hfinish).2
    exact ⟨hfinish'.previous, hfinish'.published⟩

theorem History.filed (h : History provider log s) : s.Filed := by
  induction h with
  | create _ hs =>
    obtain ⟨q, -, rfl⟩ := create_ok hs
    exact ⟨List.forall_mem_nil _, List.forall_mem_nil _⟩
  | edit _ _ ih => exact ⟨ih.previous, ih.published⟩
  | update settings _ ih => exact ⟨ih.previous, ih.published⟩
  | run disk w h ih => exact ih.course h.regular (run_course provider disk _ w)
  | close w _ ih => exact ⟨ih.previous, ih.published⟩

/-- The session knows of every file that an editor shows diagnostics for, unless the file could not be read when it was
listed last. -/
def Tracks (s : Session β) (log : List (Except Fault Report)) : Prop :=
  ∀ file, Path.IsNormal file.toList → Editor.follow log (Editor.uriOf file) ≠ [] → file ∈ s.published ∨ Unread log file

theorem Tracks.raised (h : s.Tracks log) (hpublished : s'.published = s.published) (e : Fault) :
    s'.Tracks (log ++ [.error e]) := by
  intro file hfile hshown
  rw [follow_snoc] at hshown
  unfold Unread
  rw [hpublished, lastListing_error]
  exact h file hfile hshown

theorem Tracks.report (h : s.Tracks log) (hturns : s.Turns s' r) : s'.Tracks (log ++ [.ok r]) := by
  intro file hfile hshown
  rw [follow_snoc, Editor.hear_uriOf hturns.byFile.nodup hturns.normal hfile] at hshown
  cases hrow : r.diagnostics.lookup file with
  | none =>
    -- The editor is told nothing about the file, and the session has not published it.
    rw [hrow] at hshown
    obtain hpublished | ⟨r', hlast, hunread⟩ := h file hfile hshown
    · have hlisted := hturns.before file hpublished
      rw [hrow] at hlisted
      cases hlisted
    · exact Or.inr ⟨r', (lastListing_of_unlisted log hrow).trans hlast, hunread⟩
  | some ds =>
    have hlast := lastListing_of_listed log hrow
    cases hsource : r.sources.lookup file with
    | none => exact Or.inr ⟨r, hlast, hsource⟩
    | some source =>
      rw [hrow, hsource] at hshown
      refine Or.inl ((hturns.after file).2 ?_)
      rw [Report.listed, hrow, Option.getD_some]
      intro hds
      rw [hds] at hshown
      exact hshown rfl

theorem History.tracks (h : History provider log s) : s.Tracks log := by
  induction h with
  | create _ _ => exact fun _ _ hshown => (hshown rfl).elim
  | edit _ _ ih => exact ih
  | update settings _ ih => exact ih
  | @run log s disk w h ih =>
    have hcourse := run_course provider disk s w
    generalize (s.run provider disk w).1 = out at hcourse ⊢
    cases out with
    | error e => exact ih.raised (published_of_raised hcourse) e
    | ok r => exact ih.report (hcourse.turns h.filed h.regular)
  | close w _ ih => exact ih

theorem History.turns (h : History provider log s) (hrun : s.run provider disk w = (.ok r, s', v)) : s.Turns s' r := by
  have hcourse := run_course provider disk s w
  rw [hrun] at hcourse
  exact hcourse.turns h.filed h.regular

/-- On a file that is listed without its text the editor is told nothing. -/
theorem Turns.follow_unread (h : s.Turns s' r) (hfile : Path.IsNormal file.toList) (hunread : Unread (log ++ [.ok r]) file) :
    Editor.follow (log ++ [.ok r]) (Editor.uriOf file) = Editor.follow log (Editor.uriOf file) := by
  rw [follow_snoc, Editor.hear_uriOf h.byFile.nodup h.normal hfile]
  cases hrow : r.diagnostics.lookup file with
  | none => rfl
  | some ds =>
    obtain ⟨r', hlast, hsource⟩ := hunread
    rw [lastListing_of_listed log hrow, Option.some.injEq] at hlast
    rw [← hlast] at hsource
    rw [hsource]

/-- After any history of a session, the report of a run can be published whole, and its diagnostics stand by file, each
of them once. For every file in which it lists nothing the editor is left with nothing if the last report that lists
the file has its text, and otherwise with what it showed before. -/
theorem run_clears (h : History provider log s) (hrun : s.run provider disk w = (.ok r, s', v)) :
    (∃ messages, Editor.notifications r = .ok messages) ∧ r.ByFile ∧
      ∀ file uri, Path.IsNormal file.toList → Uri.ofPath file.toList = .ok uri → r.listed file = [] →
        (¬ Unread (log ++ [.ok r]) file → Editor.follow (log ++ [.ok r]) (String.ofList uri) = []) ∧
        (Unread (log ++ [.ok r]) file →
          Editor.follow (log ++ [.ok r]) (String.ofList uri) = Editor.follow log (String.ofList uri)) := by
  have hturns := h.turns hrun
  refine ⟨⟨_, Editor.notifications_eq hturns.normal⟩, hturns.byFile, ?_⟩
  intro file uri hfile huri hempty
  rw [Editor.ofPath_eq hfile, Except.ok.injEq] at huri
  rw [← huri, String.ofList_toList]
  refine ⟨fun hread => ?_, hturns.follow_unread hfile⟩
  by_contra hshown
  obtain hpublished | hunread := (h.tracks.report hturns) file hfile hshown
  · exact (hturns.after file).1 hpublished hempty
  · exact hread hunread

end Session

/-- A service that finds a fault behind the first paragraph. -/
def pointing : Provider Unit Unit Selection where
  create _ _ w := (.ok (), w)
  check _ _ _ w := (.ok [spelled 6 2], (), w)
  close _ w := w

def partFile : FileId := "/home/me/part"

def shownRun : Except Fault Report × Session Unit × Unit := wideSession.run pointing sharedDisk ()

def unlinkedDisk : Disk := sharedDisk.write "/home/me/main" ("One.".toList.map Char.toNat)

theorem isNormal_partFile : Path.IsNormal partFile.toList := by
  have hresolve : Path.resolve [] partFile.toList = partFile.toList := by decide +kernel
  rw [← hresolve]
  exact Path.isNormal_resolve _ _

theorem history_shown : Session.History pointing ([] ++ [shownRun.1]) shownRun.2.1 := by
  unfold shownRun
  exact (history_wide pointing).run sharedDisk ()

/-- How much a run lists for the included file, and whether it has the text. -/
def partOf (r : Report) : Option Nat × Bool :=
  ((r.diagnostics.lookup partFile).map List.length, (r.sources.lookup partFile).isSome)

theorem partOf_shown : shownRun.1.toOption.map partOf = some (some 1, true) := by decide +kernel

theorem partOf_unlinked : (shownRun.2.1.run pointing unlinkedDisk ()).1.toOption.map partOf = some (some 0, true) := by
  decide +kernel

theorem partOf_deleted : (shownRun.2.1.run pointing (sharedDisk.delete partFile) ()).1.toOption.map partOf =
    some (some 0, false) := by decide +kernel

theorem of_partOf {r : Report} {n : Nat} {read : Bool} (h : partOf r = (some n, read)) :
    ∃ ds, r.diagnostics.lookup partFile = some ds ∧ ds.length = n ∧ (r.sources.lookup partFile).isSome = read := by
  unfold partOf at h
  rw [Prod.mk.injEq] at h
  obtain ⟨ds, hds, hn⟩ := Option.map_eq_some_iff.1 h.1
  exact ⟨ds, hds, hn, h.2⟩

theorem listed_of_partOf {r : Report} {read : Bool} (h : partOf r = (some 0, read)) : r.listed partFile = [] := by
  obtain ⟨ds, hds, hn, -⟩ := of_partOf h
  rw [Report.listed, hds, Option.getD_some]
  exact List.eq_nil_of_length_eq_zero hn

/-- The first run shows a diagnostic in the included file. -/
theorem length_follow_shown {r : Report} (h : shownRun.1 = .ok r) :
    (Editor.follow [.ok r] (Editor.uriOf partFile)).length = 1 := by
  have hpart := partOf_shown
  rw [h] at hpart
  obtain ⟨ds, hds, hn, hread⟩ := of_partOf (Option.some.inj hpart)
  obtain ⟨source, hsource⟩ := Option.isSome_iff_exists.1 hread
  rcases hrun : shownRun with ⟨out, s', v⟩
  rw [hrun] at h
  dsimp only at h
  subst h
  unfold shownRun at hrun
  have hturns := (history_wide pointing).turns hrun
  change (Editor.View.hear (fun _ => []) (.ok r) (Editor.uriOf partFile)).length = 1
  rw [Editor.hear_uriOf hturns.byFile.nodup hturns.normal isNormal_partFile, hds, hsource]
  dsimp only
  rw [List.length_map, hn]

/-- Once the main file does not include it any more, the included file is cleared. -/
theorem Session.run_clears_unlinked : ∃ r₁ r s' v, shownRun.1 = .ok r₁ ∧
    (Editor.follow [.ok r₁] (Editor.uriOf partFile)).length = 1 ∧
    shownRun.2.1.run pointing unlinkedDisk () = (.ok r, s', v) ∧ r.listed partFile = [] ∧
    ¬ Unread [.ok r₁, .ok r] partFile ∧ Editor.follow [.ok r₁, .ok r] (Editor.uriOf partFile) = [] := by
  obtain ⟨r₁, hshown, -⟩ := eq_ok_of_toOption_map partOf_shown
  obtain ⟨r, hunlinked, hpart⟩ := eq_ok_of_toOption_map partOf_unlinked
  rcases hrun : shownRun.2.1.run pointing unlinkedDisk () with ⟨out, s', v⟩
  rw [hrun] at hunlinked
  dsimp only at hunlinked
  subst hunlinked
  have hhistory := history_shown
  rw [hshown] at hhistory
  obtain ⟨ds, hds, -, hread⟩ := of_partOf hpart
  have hknown : ¬ Unread ([] ++ [.ok r₁] ++ [.ok r]) partFile := by
    rintro ⟨r', hlast, hunread⟩
    rw [Session.lastListing_of_listed _ hds, Option.some.injEq] at hlast
    rw [hlast, hunread] at hread
    cases hread
  obtain ⟨hclears, -⟩ := (Session.run_clears hhistory hrun).2.2 partFile _ isNormal_partFile
    (Editor.ofPath_eq isNormal_partFile) (listed_of_partOf hpart)
  have hcleared := hclears hknown
  rw [String.ofList_toList] at hcleared
  exact ⟨r₁, r, s', v, hshown, length_follow_shown hshown, rfl, listed_of_partOf hpart, hknown, hcleared⟩

/-- Once it is deleted, the included file is listed without diagnostics and is not cleared. -/
theorem Session.follow_deleted : ∃ r₁ r s' v, shownRun.1 = .ok r₁ ∧
    shownRun.2.1.run pointing (sharedDisk.delete partFile) () = (.ok r, s', v) ∧ r.listed partFile = [] ∧
    (Editor.follow [.ok r₁, .ok r] (Editor.uriOf partFile)).length = 1 := by
  obtain ⟨r₁, hshown, -⟩ := eq_ok_of_toOption_map partOf_shown
  obtain ⟨r, hdeleted, hpart⟩ := eq_ok_of_toOption_map partOf_deleted
  rcases hrun : shownRun.2.1.run pointing (sharedDisk.delete partFile) () with ⟨out, s', v⟩
  rw [hrun] at hdeleted
  dsimp only at hdeleted
  subst hdeleted
  have hturns := history_shown.turns hrun
  obtain ⟨ds, hds, -, hread⟩ := of_partOf hpart
  refine ⟨r₁, r, s', v, hshown, rfl, listed_of_partOf hpart, ?_⟩
  change (Editor.View.hear (Editor.follow [.ok r₁]) (.ok r) (Editor.uriOf partFile)).length = 1
  rw [Editor.hear_uriOf hturns.byFile.nodup hturns.normal isNormal_partFile, hds]
  rw [Option.isSome_eq_false_iff, Option.isNone_iff_eq_none] at hread
  rw [hread]
  exact length_follow_shown hshown

end Proofreader
