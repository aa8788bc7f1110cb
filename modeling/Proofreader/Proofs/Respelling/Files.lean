import Proofreader.Proofs.Respelling.Across

/-! Documents before and after. In the file of the slice the readings differ in the run that shows the slice, in files that
include it they differ there, and elsewhere not at all. -/

namespace Proofreader.Markup

namespace Library

variable {lib : Library}

/-- Reading does not ask again for a file that is being read. -/
theorem notMem_of_mem_asked {levels : Nat} {chain : List FileId} {file : FileId} {at? : Option Location} {scope : Scope} :
    ∀ f ∈ (lib.readFile levels chain file at? scope).asked, f ∉ chain := by
  induction levels generalizing chain file at? scope with
  | zero =>
    unfold readFile
    split
    · exact List.forall_mem_nil _
    · next hc => exact List.forall_mem_singleton.2 (by simpa using hc)
  | succ levels ih =>
    by_cases hc : file ∈ chain
    · unfold readFile
      rw [if_pos (List.contains_iff_mem.2 hc)]
      exact List.forall_mem_nil _
    · cases hl : lib.load file with
      | some text =>
        rw [readFile_eq hc hl]
        have hpage : (lib.page levels chain file).Asks (· ∉ chain) := fun path here scope f hf hmem =>
          ih f hf (List.mem_cons_of_mem _ hmem)
        exact List.forall_mem_cons.2 ⟨hc, asks_parse hpage text scope⟩
      | none =>
        unfold readFile
        rw [if_neg (mt List.contains_iff_mem.1 hc), hl]
        exact List.forall_mem_singleton.2 hc

end Library

namespace Respelling

variable {x : Respelling} {lib lib' : Library} {chain : List FileId} {page page' : Page} {text text' : Text}

/-- The library after the slice has been respelled in its file. -/
structure Respells (x : Respelling) (lib lib' : Library) : Prop where
  resolve : lib'.resolve = lib.resolve
  length : lib'.files.length = lib.files.length
  loaded : lib.load x.file = some (x.before ++ x.oldTail)
  loaded' : lib'.load x.file = some (x.before ++ x.newTail)
  others : ∀ f ≠ x.file, lib'.load f = lib.load f

/-- Where both readings of a page begin they are abreast. -/
theorem abreast_start (scope : Scope)
    (hown : page.file = x.file → text = x.before ++ x.oldTail ∧ text' = x.before ++ x.newTail)
    (hother : page.file ≠ x.file → text' = text) :
    x.Abreast page.file (Cursor.start text scope) (Cursor.start text' scope) := by
  refine ⟨rfl, rfl, ?_⟩
  by_cases hfile : page.file = x.file
  · obtain ⟨rfl, rfl⟩ := hown hfile
    exact Or.inl ⟨x.before, hfile, rfl, rfl, rfl, rfl, rfl, rfl⟩
  · refine Or.inr ⟨fun he => absurd he hfile, hother hfile, ?_, rfl, rfl⟩
    rw [oldIn, newIn, if_neg hfile, if_neg hfile]
    rfl

section Outcome

variable {s : Cursor} {r r' : List Node × Cursor}

/-- What the file of the slice contributes: the run, unless part of the slice is not shown. -/
theorem Meets.differs_own (h : x.Neutral) (hfile : page.file = x.file) (hm : x.Meets page.file s r r') :
    x.Differs 1 r.1 r'.1 := by
  have hlt := Abreast.start_lt_stop h
  cases hm with
  | fails hfails =>
    cases hfails with
    | @lost i _ hi hj _ _ hidden => exact .misses Nat.one_pos ⟨i, hi, hj, hidden⟩
    | missed hne => exact absurd hfile hne
    | twice hne => exact absurd hfile hne
  | abreast _ hchanges =>
    cases hchanges with
    | same _ _ hblind => exact .misses Nat.one_pos ⟨x.start, Nat.le_refl _, hlt, hblind _ (Nat.le_refl _) hlt⟩
    | edited _ hedited => exact .edited hedited

/-- What another file contributes. -/
theorem Meets.differs_other (hfile : page.file ≠ x.file) (hs : s.asked = []) (hm : x.Meets page.file s r r') :
    x.Differs (r.2.asked.count x.file) r.1 r'.1 := by
  cases hm with
  | fails hfails =>
    cases hfails with
    | lost he => exact absurd he hfile
    | missed _ hlt hmisses => exact .misses (Nat.lt_of_le_of_lt (Nat.zero_le _) hlt) hmisses
    | twice _ htwo => exact .twice (Nat.le_trans (Nat.le_add_left _ _) htwo)
  | abreast _ hchanges =>
    cases hchanges with
    | same hweight hsame hblind =>
      rw [weight_of_ne hfile, weight_of_ne hfile, hs] at hweight
      rw [hweight]
      exact .same hsame hblind
    | edited hweight hedited =>
      rw [weight_of_ne hfile, weight_of_ne hfile, hs] at hweight
      rw [hweight]
      exact .edited hedited

end Outcome

theorem meets_parse (h : x.Neutral) (hp : x.Paired lib chain page page')
    (hown : page.file = x.file → text = x.before ++ x.oldTail ∧ text' = x.before ++ x.newTail)
    (hother : page.file ≠ x.file → text' = text) (scope : Scope) :
    x.Meets page.file (Cursor.start text scope) (parse page text scope) (parse page' text' scope) := by
  refine (beside h hp (fuelFor text) (fuelFor text')).blocks none _ _ nofun (Cursor.at_start text scope)
    (abreast_start scope hown hother) ?_ ?_
  · simp only [Cursor.start, fuelFor]
    omega
  · simp only [Cursor.start, fuelFor]
    omega

/-- A file without a document contributes nothing. -/
theorem differs_missing (h : x.Neutral) (file : FileId) : x.Differs ([file].count x.file) [] [] := by
  by_cases hfile : file = x.file
  · have hmisses : x.Misses [] := ⟨x.start, Nat.le_refl _, Abreast.start_lt_stop h, .nil⟩
    exact .misses (by simp [hfile]) hmisses
  · rw [List.count_singleton, if_neg (by simpa using hfile)]
    exact .same (.refl []) .nil

/-- What reading a file contributes before and after. -/
theorem differs_readFile (h : x.Neutral) (hlib : x.Respells lib lib') (levels : Nat) (chain : List FileId) (file : FileId)
    (at? at?' : Option Location) (scope : Scope) :
    x.Differs ((lib.readFile levels chain file at? scope).asked.count x.file)
      ((lib.readFile levels chain file at? scope).document.elim [] (·.children))
      ((lib'.readFile levels chain file at?' scope).document.elim [] (·.children)) := by
  induction levels generalizing chain file at? at?' scope with
  | zero =>
    unfold Library.readFile
    split
    · exact .same (.refl []) .nil
    · exact differs_missing h file
  | succ levels ih =>
    by_cases hc : file ∈ chain
    · unfold Library.readFile
      rw [if_pos (List.contains_iff_mem.2 hc), if_pos (List.contains_iff_mem.2 hc)]
      exact .same (.refl []) .nil
    · cases hl : lib.load file with
      | none =>
        have hne : file ≠ x.file := by
          rintro rfl
          rw [hlib.loaded] at hl
          cases hl
        have hl' := (hlib.others file hne).trans hl
        unfold Library.readFile
        rw [if_neg (mt List.contains_iff_mem.1 hc), hl, if_neg (mt List.contains_iff_mem.1 hc), hl']
        exact differs_missing h file
      | some text =>
        obtain ⟨text', hl', hown, hother⟩ : ∃ text', lib'.load file = some text' ∧
            (file = x.file → text = x.before ++ x.oldTail ∧ text' = x.before ++ x.newTail) ∧ (file ≠ x.file → text' = text) := by
          by_cases hfile : file = x.file
          · rw [hfile, hlib.loaded, Option.some.injEq] at hl
            exact ⟨_, by rw [hfile, hlib.loaded'], fun _ => ⟨hl.symm, rfl⟩, fun hne => absurd hfile hne⟩
          · exact ⟨text, (hlib.others file hfile).trans hl, fun he => absurd he hfile, fun _ => rfl⟩
        have houtside : (lib.page levels chain file).Asks (· ∉ file :: chain) := fun path here scope => Library.notMem_of_mem_asked
        have hpaired : x.Paired lib chain (lib.page levels chain file) (lib'.page levels chain file) := by
          refine ⟨Library.includes_page Library.laidOut_readFile chain file, rfl, fun path here here' scope => ?_⟩
          have hdiffers : x.Differs (((lib.page levels chain file).fetch path here scope).asked.count x.file)
              ((lib.page levels chain file).fetch path here scope).nodes
              ((lib'.page levels chain file).fetch path here' scope).nodes := by
            simp only [Library.page, hlib.resolve]
            exact ih (file :: chain) (lib.resolve file path) (some here) (some here') scope
          by_cases hfile : (lib.page levels chain file).file = x.file
          · have hcount : ((lib.page levels chain file).fetch path here scope).asked.count x.file = 0 :=
              List.count_eq_zero.2 fun hmem => houtside path here scope _ hmem (List.mem_cons.2 (Or.inl hfile.symm))
            rw [if_pos hfile, ← hcount]
            exact hdiffers
          · rw [if_neg hfile]
            exact hdiffers
        have hmeets := meets_parse h hpaired hown hother scope
        rw [Library.readFile_eq hc hl, Library.readFile_eq hc hl']
        by_cases hfile : file = x.file
        · have hnone : x.file ∉ (parse (lib.page levels chain file) text scope).2.asked := fun hmem =>
            asks_parse houtside text scope _ hmem (hfile ▸ List.mem_cons_self)
          dsimp only [Option.elim_some]
          rw [hfile, List.count_cons_self, List.count_eq_zero.2 (hfile ▸ hnone)]
          exact hfile ▸ hmeets.differs_own h hfile
        · have hcount : (file :: (parse (lib.page levels chain file) text scope).2.asked).count x.file =
              (parse (lib.page levels chain file) text scope).2.asked.count x.file :=
            List.count_cons_of_ne hfile
          dsimp only [Option.elim_some]
          rw [hcount]
          exact hmeets.differs_other hfile rfl

theorem Respells.exists_load (hlib : x.Respells lib lib') {file : FileId} (hl : lib.load file = some text) :
    ∃ text', lib'.load file = some text' := by
  by_cases hfile : file = x.file
  · exact ⟨_, by rw [hfile, hlib.loaded']⟩
  · exact ⟨text, (hlib.others file hfile).trans hl⟩

/-- The document after: where its file is entered once and all of the slice is shown, only the run that shows it
differs. -/
theorem edited_read (h : x.Neutral) (hlib : x.Respells lib lib') {main : FileId} {root : Node}
    (hroot : (lib.read main).document = some root) (honce : (lib.read main).asked.count x.file ≤ 1)
    (hshown : ∀ i, x.start ≤ i → i < x.stop → ¬ x.Hidden i root.children) :
    ∃ root', (lib'.read main).document = some root' ∧ x.Edited [root] [root'] := by
  have hlt := Abreast.start_lt_stop h
  have hdiffers := differs_readFile h hlib lib.files.length [] main none none .unset
  unfold Library.read at hroot honce ⊢
  rw [hlib.length]
  obtain ⟨hc, levels, text, hlevels, hl⟩ := Library.exists_of_document hroot
  obtain ⟨text', hl'⟩ := hlib.exists_load hl
  rw [hlevels, Library.readFile_eq hc hl] at hroot honce hdiffers
  rw [Library.readFile_eq hc hl'] at hdiffers
  rw [hlevels, Library.readFile_eq hc hl']
  obtain rfl := Option.some.inj hroot
  refine ⟨_, rfl, .within ⟨rfl, rfl, rfl, rfl⟩ rfl ?_⟩
  dsimp only [Option.elim_some] at hdiffers hshown honce ⊢
  generalize List.count x.file _ = k at hdiffers honce
  cases hdiffers with
  | same _ hblind => exact absurd (hblind x.start (Nat.le_refl _) hlt) (hshown _ (Nat.le_refl _) hlt)
  | edited hedited => exact hedited
  | misses _ hmisses =>
    obtain ⟨i, hi, hj, hidden⟩ := hmisses
    exact absurd hidden (hshown i hi hj)
  | twice htwo => omega

end Respelling

end Proofreader.Markup
