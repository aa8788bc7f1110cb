import Mathlib.Data.List.Basic
import Proofreader.Presentation.Editor
import Proofreader.Project.Basic
import Proofreader.Proofs.Collections
import Proofreader.Proofs.Document.Changes

/-! An editor and the text that is held for it. The editor reports every edit by the line and the units of the text
as it is just then, several edits in one notification or in many, and the text held follows it. A quick fix of a
diagnostic goes the same way: it puts its value in place of what the diagnostic is about. -/

namespace Proofreader

/-- What an author does to a text. -/
inductive Edit where
  | whole (text : Text)
  | range (start stop : Nat) (text : Text)

namespace Edit

def Fits (t : Text) : Edit → Prop
  | whole _ => True
  | range start stop _ => start ≤ stop ∧ stop ≤ t.length

def apply (t : Text) : Edit → Text
  | whole text => text
  | range start stop text => t.take start ++ text ++ t.drop stop

/-- The change that an editor reports for an edit of `t`. -/
def report (file : FileId) (t : Text) : Edit → Json
  | whole text => .obj [("text", .str (String.ofList text))]
  | range start stop text =>
    .obj [("range", Editor.range (.ofText file t) start stop), ("text", .str (String.ofList text))]

/-- Every edit fits the text that those before it leave. -/
def FitAll : Text → List Edit → Prop
  | _, [] => True
  | t, e :: r => e.Fits t ∧ FitAll (e.apply t) r

def applyAll (t : Text) (edits : List Edit) : Text := edits.foldl apply t

/-- The changes of one notification: each is expressed in the text that those before it leave. -/
def reportAll (file : FileId) : Text → List Edit → List Json
  | _, [] => []
  | t, e :: r => e.report file t :: reportAll file (e.apply t) r

end Edit

section Reading

variable (file : FileId) {t : Text} {a b : Nat}

theorem exists_position (h : a ≤ t.length) :
    ∃ line units, (Editor.position (.ofText file t) a).Places line units ∧ t.Denotes line units a := by
  obtain ⟨earlier, before, after, later, hline⟩ := Text.exists_onLine h
  refine ⟨earlier.count '\n', Text.units before, ?_, hline.denotes⟩
  rw [Editor.position, hline.unitPosition_eq, length_laterLines]
  exact ⟨⟨.int (earlier.count '\n'), by simp [Json.get?], rfl⟩,
    ⟨.int (Text.units before), by simp [Json.get?, List.lookup_cons], rfl⟩⟩

/-- What a new text for a range makes of the text that is held. -/
theorem Shadow.change_range (hab : a ≤ b) (hb : b ≤ t.length) (new : String) :
    (Shadow.text (.ofText file t)).change file
        (.obj [("range", Editor.range (.ofText file t) a b), ("text", .str new)]) =
      (.text (.ofText file (t.take a ++ new.toList ++ t.drop b)), none) := by
  obtain ⟨line, units, hplace, hdenotes⟩ := exists_position file (Nat.le_trans hab hb)
  obtain ⟨line', units', hplace', hdenotes'⟩ := exists_position file hb
  have hreports : Json.Reports (.obj [("range", Editor.range (.ofText file t) a b), ("text", .str new)])
      (.range ⟨line, units⟩ ⟨line', units'⟩ new.toList) := by
    have hspan : List.lookup "range" [("range", Editor.range (.ofText file t) a b), ("text", .str new)] =
        some (Editor.range (.ofText file t) a b) := by simp
    refine .range hspan ?_ ?_ hplace hplace' (by simp [List.lookup_cons])
    · simp [Editor.range, Json.get?]
    · simp [Editor.range, Json.get?, List.lookup_cons]
  have hrevises : Change.Revises (.range ⟨line, units⟩ ⟨line', units'⟩ new.toList) t (t.take a ++ new.toList ++ t.drop b) := by
    have hmax : Change.Revises (.range ⟨line, units⟩ ⟨line', units'⟩ new.toList) t
        (t.take a ++ new.toList ++ t.drop (max a b)) := .range hdenotes hdenotes'
    rw [Nat.max_eq_right hab] at hmax
    exact hmax
  exact change_reports file hreports hrevises

theorem Shadow.change_report {e : Edit} (h : e.Fits t) :
    (Shadow.text (.ofText file t)).change file (e.report file t) = (.text (.ofText file (e.apply t)), none) := by
  cases e with
  | whole text => simp [Edit.report, Edit.apply, change, ofJson, List.lookup_cons]
  | range start stop text => simpa [Edit.report, Edit.apply] using Shadow.change_range file h.1 h.2 (String.ofList text)

theorem Shadow.changeAll_reportAll {edits : List Edit} (h : Edit.FitAll t edits) :
    (Shadow.text (.ofText file t)).changeAll file (Edit.reportAll file t edits) =
      (.text (.ofText file (Edit.applyAll t edits)), none) := by
  induction edits generalizing t with
  | nil => rfl
  | cons e r ih =>
    rw [Edit.reportAll, changeAll, Shadow.change_report file h.1]
    exact ih h.2

end Reading

namespace Project

variable {p : Project} {path : String} {file : FileId} {t : Text}

/-- The text that the next change of a file is expressed in: that of its editor or, for a file that is not open, that
on disk. -/
def held (p : Project) (disk : Disk) (file : FileId) : Shadow :=
  (p.shadows.lookup file).getD (.text (.ofText file ((disk.read? file).getD [])))

/-- A notification about a text that is held is understood in full. -/
theorem change_reportAll {disk : Disk} {edits : List Edit} (hfile : p.idFor path = .ok file)
    (hheld : p.held disk file = .text (.ofText file t)) (h : Edit.FitAll t edits) :
    p.change disk path (.arr (Edit.reportAll file t edits)) =
      ({ p with shadows := putMember p.shadows file (.text (.ofText file (Edit.applyAll t edits))) }, none) := by
  have hall := Shadow.changeAll_reportAll file h
  rw [← hheld] at hall
  unfold held at hall
  unfold change
  simp only [hfile, Json.iterate, hall]

/-- Whatever places an editor names, its changes are made: the ends of a range are the offsets that its places denote, all
else stays, and each change is made in the text that the ones before it leave. -/
theorem change_revises {disk : Disk} {changes : List Json} {cs : List Change} (hfile : p.idFor path = .ok file)
    (hheld : p.held disk file = .text (.ofText file t)) (hchanges : List.Forall₂ Json.Reports changes cs) :
    ∃ t', Change.ReviseAll cs t t' ∧ (∀ t'', Change.ReviseAll cs t t'' → t'' = t') ∧
      p.change disk path (.arr changes) =
        ({ p with shadows := putMember p.shadows file (.text (.ofText file t')) }, none) := by
  obtain ⟨t', hrevise⟩ := exists_reviseAll hchanges t
  refine ⟨t', hrevise, fun t'' h => h.unique hrevise, ?_⟩
  have hall := Shadow.changeAll_reports file hchanges hrevise
  rw [← hheld] at hall
  unfold held at hall
  unfold change
  simp only [hfile, Json.iterate, hall]

theorem openFile_ok {text : Json} {q : Project} (h : p.openFile path text = .ok q) : ∃ file shadow,
    p.idFor path = .ok file ∧ Shadow.ofJson file text = (shadow, none) ∧
      q = { p with shadows := putMember p.shadows file shadow } := by
  unfold openFile at h
  cases hfile : p.idFor path with
  | error m => rw [hfile] at h; cases h
  | ok file =>
    rw [hfile] at h
    dsimp only [bind, Except.bind] at h
    split at h
    · next shadow hshadow => exact ⟨file, shadow, rfl, hshadow, (Except.ok.inj h).symm⟩
    · cases h

theorem closeFile_ok {q : Project} (h : p.closeFile path = .ok q) : ∃ file, p.idFor path = .ok file ∧
    q = { p with shadows := p.shadows.filter (·.1 ≠ file) } := by
  unfold closeFile at h
  cases hfile : p.idFor path with
  | error m => rw [hfile] at h; cases h
  | ok file =>
    rw [hfile] at h
    exact ⟨file, rfl, (Except.ok.inj h).symm⟩

/-- A project and the text in the editor of one of its files, from when the file is opened or first changed. Each
notification reports edits of the text; whatever is done to other files comes between. -/
inductive Editing (path : String) (file : FileId) : Project → Text → Prop
  | opened {p q : Project} {t : Text} : p.idFor path = .ok file →
      p.openFile path (.str (String.ofList t)) = .ok q → Editing path file q t
  | adopted {p : Project} {disk : Disk} {t : Text} {edits : List Edit} : p.idFor path = .ok file →
      p.shadows.lookup file = none → disk.read? file = some t → Edit.FitAll t edits →
      Editing path file (p.change disk path (.arr (Edit.reportAll file t edits))).1 (Edit.applyAll t edits)
  | notified {p : Project} {t : Text} (disk : Disk) {edits : List Edit} : Editing path file p t → Edit.FitAll t edits →
      Editing path file (p.change disk path (.arr (Edit.reportAll file t edits))).1 (Edit.applyAll t edits)
  | moved {p : Project} {t : Text} (main : String) (root : Option String) : Editing path file p t →
      Editing path file (p.move main root) t
  | openedOther {p q : Project} {t : Text} {other : String} {text : Json} : Editing path file p t →
      p.idFor other ≠ .ok file → p.openFile other text = .ok q → Editing path file q t
  | closedOther {p q : Project} {t : Text} {other : String} : Editing path file p t →
      p.idFor other ≠ .ok file → p.closeFile other = .ok q → Editing path file q t
  | changedOther {p : Project} {t : Text} (disk : Disk) {other : String} (changes : Json) : Editing path file p t →
      p.idFor other ≠ .ok file → Editing path file (p.change disk other changes).1 t

/-- The text in the editor is the one that is held. -/
structure InSync (path : String) (file : FileId) (p : Project) (t : Text) : Prop where
  id : p.idFor path = .ok file
  shadow : p.shadows.lookup file = some (.text (.ofText file t))

theorem InSync.notified (h : p.InSync path file t) (disk : Disk) {edits : List Edit} (hfit : Edit.FitAll t edits) :
    p.change disk path (.arr (Edit.reportAll file t edits)) =
      ({ p with shadows := putMember p.shadows file (.text (.ofText file (Edit.applyAll t edits))) }, none) :=
  change_reportAll h.id (by rw [held, h.shadow]; rfl) hfit

theorem Editing.inSync (h : Editing path file p t) : p.InSync path file t := by
  induction h with
  | @opened p q t hfile hq =>
    obtain ⟨f, shadow, hf, hshadow, rfl⟩ := openFile_ok hq
    obtain rfl : file = f := Except.ok.inj (hfile.symm.trans hf)
    obtain rfl : Shadow.text (.ofText file t) = shadow := by simpa [Shadow.ofJson] using hshadow
    exact ⟨hfile, lookup_putMember_self _ _ _⟩
  | adopted hfile hnone hread hfit =>
    rw [change_reportAll hfile (by rw [held, hnone, hread]; rfl) hfit]
    exact ⟨hfile, lookup_putMember_self _ _ _⟩
  | notified disk _ hfit ih =>
    rw [ih.notified disk hfit]
    exact ⟨ih.id, lookup_putMember_self _ _ _⟩
  | moved main root _ ih => exact ⟨ih.id, ih.shadow⟩
  | openedOther _ hother hq ih =>
    obtain ⟨f, shadow, hf, -, rfl⟩ := openFile_ok hq
    have hne : file ≠ f := by rintro rfl; exact hother hf
    exact ⟨ih.id, (lookup_putMember_of_ne _ hne _).trans ih.shadow⟩
  | closedOther _ hother hq ih =>
    obtain ⟨f, hf, rfl⟩ := closeFile_ok hq
    have hne : file ≠ f := by rintro rfl; exact hother hf
    exact ⟨ih.id, (lookup_filter_ne _ hne).trans ih.shadow⟩
  | @changedOther p t disk other changes _ hother ih =>
    unfold change
    cases hf : p.idFor other with
    | error m => exact ih
    | ok f =>
      have hne : file ≠ f := by rintro rfl; exact hother hf
      exact ⟨ih.id, (lookup_putMember_of_ne _ hne _).trans ih.shadow⟩

end Project

/-- Every suggestion of a diagnostic becomes one quick fix. -/
theorem Editor.quickFixes_diagnostic (uri : String) (s : Source) (d : Diagnostic) :
    quickFixes uri (diagnostic s d) = .ok (d.replacements.zipIdx.map fun (value, i) =>
      quickFix uri (diagnostic s d) (range s d.location.start d.location.stop) value (i = 0)) := by
  have hsource : (diagnostic s d).member? "source" = .ok (some (.str sourceName)) := by
    simp [diagnostic, Json.member?, List.lookup_cons]
  have hdata : (diagnostic s d).member? "data" = .ok (some (.arr d.replacements)) := by
    simp [diagnostic, Json.member?, List.lookup_cons]
  have hrange : (diagnostic s d).get? "range" = some (range s d.location.start d.location.stop) := by
    simp [diagnostic, Json.get?]
  simp only [quickFixes, hsource, hdata, bind, Except.bind, Option.getD_some]
  rw [if_neg (by simp)]
  split
  · next hempty =>
    have hnil : d.replacements = [] := List.isEmpty_iff.1 hempty
    rw [hnil]
    rfl
  · exact mapM_eq fun x _ => by rw [hrange]; rfl

/-- What a client reports when it has followed a quick fix: a new text for each range of the file that the fix names. -/
def Editor.changesOf (uri : String) (fix : Json) : List Json :=
  (((fix.field "edit").field "changes").field uri).items.map fun e =>
    .obj [("range", e.field "range"), ("text", e.field "newText")]

/-- The text that is held for a file is the one in its editor after every notification. A quick fix of a diagnostic that
is published for this text touches no other file, and puts its value in place of what the diagnostic is about. -/
theorem Project.Editing.shadow_eq {p : Project} {path : String} {file : FileId} {t : Text} (h : p.Editing path file t) :
    p.shadow path = .ok (some (.text (.ofText file t))) ∧
    (∀ (disk : Disk) (edits : List Edit), Edit.FitAll t edits →
      p.change disk path (.arr (Edit.reportAll file t edits)) =
        ({ p with shadows := putMember p.shadows file (.text (.ofText file (Edit.applyAll t edits))) }, none)) ∧
    ∀ (uri : String) (d : Diagnostic), d.location.start ≤ d.location.stop → d.location.stop ≤ t.length →
      ∃ fixes, Editor.quickFixes uri (Editor.diagnostic (.ofText file t) d) = .ok fixes ∧
        fixes.length = d.replacements.length ∧
        ∀ (i : Nat) (value : String), d.replacements[i]? = some (.str value) → ∃ fix, fixes[i]? = some fix ∧
          ((fix.field "edit").field "changes").entries.map Prod.fst = [uri] ∧
          ∀ disk : Disk, p.change disk path (.arr (Editor.changesOf uri fix)) =
            ({ p with shadows := putMember p.shadows file (.text (.ofText file
              (t.take d.location.start ++ value.toList ++ t.drop d.location.stop))) }, none) := by
  have hsync := h.inSync
  refine ⟨?_, fun disk edits hfit => hsync.notified disk hfit, fun uri d hstart hstop => ?_⟩
  · rw [shadow, hsync.id]
    exact congrArg Except.ok hsync.shadow
  · refine ⟨_, Editor.quickFixes_diagnostic uri _ d, by simp, fun i value hi => ?_⟩
    refine ⟨Editor.quickFix uri (Editor.diagnostic (.ofText file t) d)
      (Editor.range (.ofText file t) d.location.start d.location.stop) (.str value) (i = 0), by simp [hi], ?_, fun disk => ?_⟩
    · simp [Editor.quickFix, Json.field, Json.get?, Json.entries, List.lookup_cons]
    · have hedit : Edit.FitAll t [.range d.location.start d.location.stop value.toList] := ⟨⟨hstart, hstop⟩, trivial⟩
      have hchanges : Editor.changesOf uri (Editor.quickFix uri (Editor.diagnostic (.ofText file t) d)
          (Editor.range (.ofText file t) d.location.start d.location.stop) (.str value) (i = 0)) =
            Edit.reportAll file t [.range d.location.start d.location.stop value.toList] := by
        simp [Editor.changesOf, Editor.quickFix, Edit.reportAll, Edit.report, Json.field, Json.get?, Json.items, List.lookup_cons]
      rw [hchanges]
      exact hsync.notified disk hedit

namespace Project

/-- A project whose main file is `/a`, with nothing open. -/
def unopened : Project := ⟨⟨"/", "/"⟩, "/a", "/", []⟩

/-- A range from inside a character to behind the end of its line, and one from behind the text back to its beginning. -/
def overshooting : List Json :=
  [.obj [("range", .obj [("start", .obj [("line", .int 0), ("character", .int 1)]),
      ("end", .obj [("line", .int 0), ("character", .int 99)])]), ("text", .str "x")],
    .obj [("range", .obj [("start", .obj [("line", .int 9), ("character", .int 4)]),
      ("end", .obj [("line", .int 0), ("character", .int 0)])]), ("text", .str "!")]]

/-- A project that holds a text with such a character. -/
def holding : Project := { unopened with shadows := [("/a", .text (.ofText "/a" ['😀', 'a', '\n', 'b']))] }

theorem change_revises_overshooting : holding.idFor "/a" = .ok "/a" ∧
    holding.held .empty "/a" = .text (.ofText "/a" ['😀', 'a', '\n', 'b']) ∧
    holding.change .empty "/a" (.arr overshooting) =
      ({ holding with shadows := [("/a", .text (.ofText "/a" ['😀', 'x', '\n', 'b', '!']))] }, none) := by
  have hfile : holding.idFor "/a" = .ok "/a" := by cbv
  have hreports : List.Forall₂ Json.Reports overshooting
      [.range ⟨(0 : Nat), (1 : Nat)⟩ ⟨(0 : Nat), (99 : Nat)⟩ ['x'],
        .range ⟨(9 : Nat), (4 : Nat)⟩ ⟨(0 : Nat), (0 : Nat)⟩ ['!']] := by
    refine .cons (@Json.Reports.range _ _ _ _ "x" _ _ _ _ rfl rfl rfl ⟨⟨_, rfl, rfl⟩, ⟨_, rfl, rfl⟩⟩
        ⟨⟨_, rfl, rfl⟩, ⟨_, rfl, rfl⟩⟩ rfl)
      (.cons (@Json.Reports.range _ _ _ _ "!" _ _ _ _ rfl rfl rfl ⟨⟨_, rfl, rfl⟩, ⟨_, rfl, rfl⟩⟩
        ⟨⟨_, rfl, rfl⟩, ⟨_, rfl, rfl⟩⟩ rfl) .nil)
  have hone : Text.OnLine ['😀', 'a', '\n', 'b'] 1 [] ['😀'] ['a'] ['\n', 'b'] :=
    ⟨rfl, rfl, Or.inl rfl, by decide, Or.inr ⟨_, rfl⟩⟩
  have htwo : Text.OnLine ['😀', 'a', '\n', 'b'] 2 [] ['😀', 'a'] [] ['\n', 'b'] :=
    ⟨rfl, rfl, Or.inl rfl, by decide, Or.inr ⟨_, rfl⟩⟩
  have hzero : Text.OnLine ['😀', 'x', '\n', 'b'] 0 [] [] ['😀', 'x'] ['\n', 'b'] :=
    ⟨rfl, rfl, Or.inl rfl, by decide, Or.inr ⟨_, rfl⟩⟩
  have hfirst : Text.Denotes ['😀', 'a', '\n', 'b'] 0 (1 : Nat) 1 := .on hone rfl (Text.isLeast_coverUnits ['😀', 'a'] 1)
  have hsecond : Text.Denotes ['😀', 'a', '\n', 'b'] 0 (99 : Nat) 2 := .on htwo rfl (Text.isLeast_coverUnits ['😀', 'a'] 99)
  have hbehind : Text.Denotes ['😀', 'x', '\n', 'b'] 9 (4 : Nat) 4 := .behind (by decide)
  have hback : Text.Denotes ['😀', 'x', '\n', 'b'] 0 (0 : Nat) 0 := .on hzero rfl (Text.isLeast_coverUnits ['😀', 'x'] 0)
  obtain ⟨t', -, hunique, hchange⟩ := @change_revises holding "/a" "/a" _ .empty _ _ hfile rfl hreports
  rw [← hunique _ (.cons (.range hfirst hsecond) (.cons (.range hbehind hback) .nil))] at hchange
  exact ⟨hfile, rfl, hchange⟩

/-- Characters of two units, an empty line that goes in the middle of a notification, and an end without a newline. -/
theorem editing_astral : ∃ p : Project, p.Editing "/a" "/a" ['😀', 'x', '\n', 'b', '\n'] := by
  have hfile : unopened.idFor "/a" = .ok "/a" := by cbv
  obtain ⟨q, hq⟩ : ∃ q, unopened.openFile "/a" (.str (String.ofList ['😀', 'a', '\n', '\n', 'b'])) = .ok q := by
    rw [openFile, hfile]
    exact ⟨_, rfl⟩
  have hjoin : Edit.FitAll ['😀', 'a', '\n', '\n', 'b'] [.range 1 3 ['x', '😀'], .range 5 5 ['\n']] :=
    ⟨⟨by decide, by decide⟩, ⟨by decide, by decide⟩, trivial⟩
  have hcut : Edit.FitAll ['😀', 'x', '😀', '\n', 'b', '\n'] [.range 2 3 []] := ⟨⟨by decide, by decide⟩, trivial⟩
  exact ⟨_, ((Editing.opened hfile hq).notified .empty hjoin).notified .empty hcut⟩

/-- A diagnostic on the `x` behind the first character. -/
def missed : Diagnostic := ⟨⟨"/a", 1, 2⟩, .str "R", .str "M", [.str "y"], .information, "en-US"⟩

theorem shadow_eq_astral : ∃ p : Project, p.Editing "/a" "/a" ['😀', 'x', '\n', 'b', '\n'] ∧
    p.shadow "/a" = .ok (some (.text (.ofText "/a" ['😀', 'x', '\n', 'b', '\n']))) ∧
    ∃ fixes, Editor.quickFixes "file:///a" (Editor.diagnostic (.ofText "/a" ['😀', 'x', '\n', 'b', '\n']) missed) = .ok fixes ∧
      ∃ fix ∈ fixes, (p.change .empty "/a" (.arr (Editor.changesOf "file:///a" fix))).1.shadows.lookup "/a" =
        some (.text (.ofText "/a" ['😀', 'y', '\n', 'b', '\n'])) := by
  obtain ⟨p, hp⟩ := editing_astral
  obtain ⟨hshadow, -, hfixes⟩ := hp.shadow_eq
  obtain ⟨fixes, hok, -, hfix⟩ := hfixes "file:///a" missed (by decide) (by decide)
  obtain ⟨fix, hmem, -, hchange⟩ := hfix 0 "y" rfl
  refine ⟨p, hp, hshadow, fixes, hok, fix, List.mem_of_getElem? hmem, ?_⟩
  rw [hchange]
  exact lookup_putMember_self _ _ _

end Project

end Proofreader
