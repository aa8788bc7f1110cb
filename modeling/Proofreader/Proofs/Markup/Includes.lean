import Mathlib.Data.List.Perm.Subperm
import Proofreader.Proofs.Collections
import Proofreader.Proofs.Markup.Library
import Proofreader.Proofs.Markup.Progress
import Proofreader.Proofs.Markup.Reading

/-! Reading a file with all that it includes comes to an end, enters no file that is being read, and gives every include an
answer: the blocks of the file that it names, or one warning. -/

namespace Proofreader.Markup

/-- What reading comes to where it may not go deeper. -/
structure Exhausted where
  deeper : Deeper
  outcome : Outcome

/-- The document in `file`, read with so much fuel for each text and within so many levels. -/
def Library.readWithin (lib : Library) (last : Exhausted) (fuel : Text → Nat) : (levels : Nat) → (chain : List FileId) →
    FileId → Option Location → Scope → Outcome
  | 0, _, _, _, _ => last.outcome
  | levels + 1, chain, file, at?, scope =>
    if chain.contains file then ⟨none, [cycleWarning file at?], []⟩
    else
      match lib.load file with
      | none => ⟨none, [missingWarning file at?], [file]⟩
      | some text =>
        let fetch := fun path here scope =>
          let got := lib.readWithin last fuel levels (file :: chain) (lib.resolve file path) (some here) scope
          (⟨got.document.elim [] (·.children), got.warnings, got.asked⟩ : Inclusion)
        let (nodes, s) := (readers ⟨file, fetch⟩ last.deeper (fuel text)).blocks none (Cursor.start text scope)
        ⟨some ⟨.document, ⟨file, 0, text.length⟩, [], .unset, 0, false, nodes⟩, s.warnings, file :: s.asked⟩

namespace Library

variable {lib : Library} {chain : List FileId} {file : FileId} {at? : Option Location} {scope : Scope} {text : Text}

/-- Files that include each other while they are read. -/
structure Open (lib : Library) (chain : List FileId) : Prop where
  nodup : chain.Nodup
  loaded : ∀ f ∈ chain, (lib.load f).isSome = true

theorem open_nil (lib : Library) : lib.Open [] := ⟨.nil, nofun⟩

namespace Open

theorem cons (h : lib.Open chain) (hf : file ∉ chain) (hl : lib.load file = some text) : lib.Open (file :: chain) :=
  ⟨List.nodup_cons.2 ⟨hf, h.nodup⟩, List.forall_mem_cons.2 ⟨by rw [hl]; rfl, h.loaded⟩⟩

theorem subperm (h : lib.Open chain) : chain.Subperm (lib.files.map Prod.fst) := by
  refine List.subperm_of_subset h.nodup fun f hf => ?_
  obtain ⟨text, hl⟩ := Option.isSome_iff_exists.1 (h.loaded f hf)
  exact List.mem_map_of_mem (mem_of_lookup hl)

theorem length_le (h : lib.Open chain) : chain.length ≤ lib.files.length := by
  rw [← List.length_map Prod.fst]
  exact h.subperm.length_le

/-- Where no level is left, every file is being read. -/
theorem mem_of_load (h : lib.Open chain) (hfull : lib.files.length ≤ chain.length) (hl : lib.load file = some text) :
    file ∈ chain := by
  have hperm := h.subperm.perm_of_length_le (by rwa [List.length_map])
  exact hperm.mem_iff.2 (List.mem_map_of_mem (mem_of_lookup hl))

end Open

/-- Enough levels and enough fuel are never used up. -/
theorem readWithin_eq (last : Exhausted) {fuel : Text → Nat} (hfuel : ∀ text, fuelFor text ≤ fuel text) {levels levels' : Nat}
    (h : lib.Open chain) (hlevels : lib.files.length < levels + chain.length)
    (hlevels' : lib.files.length ≤ levels' + chain.length) :
    lib.readWithin last fuel levels chain file at? scope = lib.readFile levels' chain file at? scope := by
  induction levels generalizing levels' chain file at? scope with
  | zero =>
    have := h.length_le
    omega
  | succ levels ih =>
    unfold readWithin
    by_cases hc : file ∈ chain
    · rw [if_pos (List.contains_iff_mem.2 hc), readFile_of_mem hc]
    · rw [if_neg (mt List.contains_iff_mem.1 hc)]
      cases hl : lib.load file with
      | none => rw [readFile_of_missing hc (Or.inr hl)]
      | some text =>
        cases levels' with
        | zero => exact absurd (h.mem_of_load (by omega) hl) hc
        | succ levels' =>
          have hpage : (⟨file, fun path here scope =>
              let got := lib.readWithin last fuel levels (file :: chain) (lib.resolve file path) (some here) scope
              (⟨got.document.elim [] (·.children), got.warnings, got.asked⟩ : Inclusion)⟩ : Page) =
                lib.page levels' chain file := by
            have hlt : lib.files.length < levels + (file :: chain).length := by rw [List.length_cons]; omega
            have hle : lib.files.length ≤ levels' + (file :: chain).length := by rw [List.length_cons]; omega
            unfold page
            congr 1
            funext path here scope
            rw [ih (h.cons hc hl) hlt hle]
          have hagree := readers_agree (lib.page levels' chain file) last.deeper (n := 0)
            (Nat.le_trans (le_fuelFor text) (hfuel text)) (Nat.zero_le _)
          rw [readFile_eq hc hl, parse_eq, ← hagree.blocks none (Cursor.start text scope) (Nat.lt_succ_self _)]
          dsimp only
          rw [hpage]

/-- The number of levels does not matter where it is enough. -/
theorem readFile_levels {levels levels' : Nat} (h : lib.Open chain) (hlevels : lib.files.length ≤ levels + chain.length)
    (hlevels' : lib.files.length ≤ levels' + chain.length) :
    lib.readFile levels chain file at? scope = lib.readFile levels' chain file at? scope := by
  have last : Exhausted := ⟨⟨fun _ s => ([], s), fun _ _ s => ([], s)⟩, ⟨none, [], []⟩⟩
  have hmore : lib.files.length < levels + 1 + chain.length := by omega
  rw [← readWithin_eq last (fun text => Nat.le_refl _) h hmore hlevels,
    readWithin_eq last (fun text => Nat.le_refl _) h (by omega) hlevels']

end Library

/-- What stands in `source` at the node is an include, and `target` is the file that it names. -/
structure Library.Names (lib : Library) (file : FileId) (source : Text) (n : Node) (target : FileId) : Prop where
  kind : n.kind = .inclusion
  written : ∃ tabs path, (∀ c ∈ tabs, isTab c = true) ∧ untilQuote? (path ++ ['"']) = some path.length ∧
    source.extract n.location.start n.location.stop = "#include".toList ++ tabs ++ '"' :: (path ++ ['"']) ∧
    target = lib.resolve file path
  file : n.location.file = file

/-- Each include among the nodes of `file`, which the files of `chain` include, and of the files that they include, has its
answer, and these are the warnings that were given for them. -/
inductive Library.Answers (lib : Library) : (chain : List FileId) → (file : FileId) → (source : Text) → List Node →
    List Warning → Prop
  | nil {chain : List FileId} {file : FileId} {source : Text} : Answers lib chain file source [] []
  | own {chain : List FileId} {file : FileId} {source : Text} {n : Node} {r : List Node} {inner later : List Warning} :
      n.kind ≠ .inclusion → n.location.file = file → (n.kind.isLeaf = true → n.children = []) →
      Answers lib chain file source n.children inner → Answers lib chain file source r later →
      Answers lib chain file source (n :: r) (inner ++ later)
  /-- A file that is being read is not entered. -/
  | cycle {chain : List FileId} {file target : FileId} {source : Text} {n : Node} {r : List Node} {later : List Warning} :
      lib.Names file source n target → target ∈ file :: chain → n.children = [] →
      Answers lib chain file source r later →
      Answers lib chain file source (n :: r) (cycleWarning target (some n.location) :: later)
  | missing {chain : List FileId} {file target : FileId} {source : Text} {n : Node} {r : List Node} {later : List Warning} :
      lib.Names file source n target → target ∉ file :: chain → lib.load target = none → n.children = [] →
      Answers lib chain file source r later →
      Answers lib chain file source (n :: r) (missingWarning target (some n.location) :: later)
  /-- Any other file contributes its blocks, and the warnings of its own includes. -/
  | blocks {chain asked : List FileId} {file target : FileId} {source text : Text} {n : Node} {r : List Node}
      {inner later : List Warning} : lib.Names file source n target → target ∉ file :: chain →
      lib.load target = some text →
      lib.readFile lib.files.length (file :: chain) target (some n.location) n.scope =
        ⟨some ⟨.document, ⟨target, 0, text.length⟩, [], .unset, 0, false, n.children⟩, inner, asked⟩ →
      Answers lib (file :: chain) target text n.children inner → Answers lib chain file source r later →
      Answers lib chain file source (n :: r) (inner ++ later)

/-- How a page answers an include. -/
inductive Library.Answer (lib : Library) (chain : List FileId) (file target : FileId) (here : Location) (scope : Scope) :
    Inclusion → Prop
  | cycle {asked : List FileId} : target ∈ file :: chain → Answer lib chain file target here scope
      ⟨[], [cycleWarning target (some here)], asked⟩
  | missing {asked : List FileId} : target ∉ file :: chain → lib.load target = none →
      Answer lib chain file target here scope ⟨[], [missingWarning target (some here)], asked⟩
  | blocks {asked asked' : List FileId} {text : Text} {ns : List Node} {ws : List Warning} : target ∉ file :: chain →
      lib.load target = some text →
      lib.readFile lib.files.length (file :: chain) target (some here) scope =
        ⟨some ⟨.document, ⟨target, 0, text.length⟩, [], .unset, 0, false, ns⟩, ws, asked'⟩ →
      lib.Answers (file :: chain) target text ns ws → Answer lib chain file target here scope ⟨ns, ws, asked⟩

namespace Library.Answers

variable {lib : Library} {chain : List FileId} {file : FileId} {source : Text} {n : Node} {ns ms : List Node}
variable {ws vs : List Warning}

theorem append (h : lib.Answers chain file source ns ws) (k : lib.Answers chain file source ms vs) :
    lib.Answers chain file source (ns ++ ms) (ws ++ vs) := by
  induction ns generalizing ws with
  | nil =>
    cases h
    exact k
  | cons n r ih =>
    cases h with
    | own hn hfile hleaf hc hr => exact List.append_assoc _ _ _ ▸ .own hn hfile hleaf hc (ih hr)
    | cycle hn ht hc hr => exact .cycle hn ht hc (ih hr)
    | missing hn ht hl hc hr => exact .missing hn ht hl hc (ih hr)
    | blocks hn ht hl hread hc hr => exact List.append_assoc _ _ _ ▸ .blocks hn ht hl hread hc (ih hr)

theorem split (h : lib.Answers chain file source (ns ++ ms) ws) : ∃ inner later, ws = inner ++ later ∧
    lib.Answers chain file source ns inner ∧ lib.Answers chain file source ms later := by
  induction ns generalizing ws with
  | nil => exact ⟨[], ws, rfl, .nil, h⟩
  | cons n r ih =>
    cases h with
    | own hn hfile hleaf hc hr =>
      obtain ⟨inner, later, rfl, hr, hm⟩ := ih hr
      exact ⟨_, later, (List.append_assoc _ _ _).symm, .own hn hfile hleaf hc hr, hm⟩
    | cycle hn ht hc hr =>
      obtain ⟨inner, later, rfl, hr, hm⟩ := ih hr
      exact ⟨_ :: inner, later, rfl, .cycle hn ht hc hr, hm⟩
    | missing hn ht hl hc hr =>
      obtain ⟨inner, later, rfl, hr, hm⟩ := ih hr
      exact ⟨_ :: inner, later, rfl, .missing hn ht hl hc hr, hm⟩
    | blocks hn ht hl hread hc hr =>
      obtain ⟨inner, later, rfl, hr, hm⟩ := ih hr
      exact ⟨_, later, (List.append_assoc _ _ _).symm, .blocks hn ht hl hread hc hr, hm⟩

theorem eq_nil_of_spaces (h : lib.Answers chain file source ns ws) (hs : ∀ n ∈ ns, isSpaceNode n = true) : ws = [] := by
  induction ns generalizing ws with
  | nil =>
    cases h
    rfl
  | cons n r ih =>
    have hkind : n.kind = .space := by simpa [isSpaceNode] using hs n List.mem_cons_self
    cases h with
    | own hn hfile hleaf hc hr =>
      rw [hleaf (by rw [hkind]; rfl)] at hc
      cases hc
      exact ih hr fun m hm => hs m (List.mem_cons_of_mem _ hm)
    | cycle hn | missing hn | blocks hn =>
      rw [hn.kind] at hkind
      cases hkind

theorem trimSpaces (h : lib.Answers chain file source ns ws) : lib.Answers chain file source (Markup.trimSpaces ns) ws := by
  obtain ⟨before, after, he, hbefore, hafter⟩ := exists_trimSpaces ns
  rw [he] at h
  obtain ⟨inner, later, rfl, h, ha⟩ := h.split
  obtain ⟨none, inner, rfl, hb, h⟩ := h.split
  rw [hb.eq_nil_of_spaces hbefore, ha.eq_nil_of_spaces hafter, List.append_nil]
  exact h

end Library.Answers

section Page

variable {lib : Library} {chain : List FileId} {page : Page} {source : Text} {s t v : Cursor} {ns : List Node} {path : Text}

/-- The place of an include is that of the call with its string. -/
theorem extract_include (hs : s.At source) (hm : s.mark? = some (.call "include".toList))
    (hv : v = (s.advance 8).skipWhile isTab) (hpath : string? v.rest = some path) (ht : t = v.advance (path.length + 2)) :
    untilQuote? (path ++ ['"']) = some path.length ∧ ∃ tabs, (∀ c ∈ tabs, isTab c = true) ∧
      source.extract s.pos t.pos = "#include".toList ++ tabs ++ '"' :: (path ++ ['"']) := by
  obtain ⟨r, hr⟩ := exists_of_call hm
  have hr : s.rest = "#include".toList ++ r := hr
  have hname : (s.advance 8).rest = r := by simp [Cursor.advance, hr]
  have htabs : v.rest = r.dropWhile isTab := by
    rw [hv, Cursor.rest_skipWhile, hname]
  rw [htabs] at hpath
  unfold string? at hpath
  split at hpath
  · next u hu =>
    obtain ⟨n, hn, rfl⟩ := Option.map_eq_some_iff.1 hpath
    obtain ⟨x, rest, rfl, rfl, hx⟩ := untilQuote?_eq hn
    rw [List.take_left] at ht ⊢
    refine ⟨hx, r.takeWhile isTab, fun c => List.all_eq_true.1 List.all_takeWhile c, ?_⟩
    have hwhole : s.rest = ("#include".toList ++ r.takeWhile isTab ++ '"' :: (x ++ ['"'])) ++ rest := by
      rw [hr]
      conv_lhs => rw [← List.takeWhile_append_dropWhile (p := isTab) (l := r), hu]
      simp
    have hend : t = s.advance ("#include".toList ++ r.takeWhile isTab ++ '"' :: (x ++ ['"'])).length := by
      rw [ht, hv, Cursor.skipWhile, hname, Cursor.advance_advance, Cursor.advance_advance]
      congr 1
      simp
      omega
    rw [← hs.since, hend]
    exact Cursor.since_advance hwhole
  · cases hpath

/-- What is read on a page that answers its includes has their warnings. -/
theorem Read.answers {stop : Option Char} (h : Read page stop s ns t) (hs : s.At source)
    (hp : ∀ path here scope, lib.Answer chain page.file (lib.resolve page.file path) here scope (page.fetch path here scope)) :
    ∃ ws, t.warnings = s.warnings ++ ws ∧ lib.Answers chain page.file source ns ws := by
  induction h with
  | stay => exact ⟨[], (List.append_nil _).symm, .nil⟩
  | seq h k ih ih' =>
    obtain ⟨ws, hws, hns⟩ := ih hs
    obtain ⟨vs, hvs, hms⟩ := ih' (h.reaches.at hs)
    exact ⟨ws ++ vs, by rw [hvs, hws, List.append_assoc], hns.append hms⟩
  | trim _ ih =>
    obtain ⟨ws, hws, hns⟩ := ih hs
    exact ⟨ws, hws, hns.trimSpaces⟩
  | pass h => exact ⟨[], by rw [h.same.2, List.append_nil], .nil⟩
  | leaf _ _ h =>
    exact ⟨[] ++ [], by rw [h.same.2, List.append_nil, List.append_nil], .own h.ne_inclusion rfl (fun _ => rfl) .nil .nil⟩
  | node _ hleaf hkind hfile _ ih =>
    obtain ⟨ws, hws, hns⟩ := ih hs
    refine ⟨ws ++ [], by rw [hws, List.append_nil], .own hkind hfile (fun h => ?_) hns .nil⟩
    rw [hleaf] at h
    cases h
  | @delimited _ s t u c ns _ _ _ hu ih =>
    obtain ⟨ws, hws, hns⟩ := ih ((s.reaches_advance 1).at hs)
    have hkind : ∀ kind, kind = (if c = '*' then Kind.strong else .emph) → kind ≠ .inclusion ∧ kind.isLeaf = false := by
      rintro kind rfl
      split
      · exact ⟨nofun, rfl⟩
      · exact ⟨nofun, rfl⟩
    obtain ⟨hinclusion, hleaf⟩ := hkind _ rfl
    refine ⟨ws ++ [], ?_, .own hinclusion rfl (fun h => absurd (hleaf.symm.trans h) Bool.false_ne_true) hns .nil⟩
    rw [hu, t.warnings_undelimit, hws, List.append_nil]
    rfl
  | @rule _ s v _ hv _ =>
    refine ⟨[], ?_, .nil⟩
    rw [List.append_nil, hv]
    exact Cursor.warnings_arguments _
  | @content _ s t ns _ h _ ih =>
    obtain ⟨ws, hws, hns⟩ := ih (s.reaches_open.at hs)
    exact ⟨ws, by rw [t.warnings_close, hws]; rfl, hns⟩
  | @text _ s v t scope ns _ hv _ _ _ _ ih =>
    have hargs : s.Reaches { v.advance 1 with depth := 0, scope := scope } :=
      ((hv ▸ (s.reaches_advance 5).trans (Cursor.reaches_arguments _)).trans (v.reaches_advance 1)).trans
        (.same rfl rfl rfl List.prefix_rfl)
    obtain ⟨ws, hws, hns⟩ := ih (hargs.at hs)
    refine ⟨ws ++ [], ?_, .own nofun rfl (fun h => by cases h) hns .nil⟩
    rw [t.warnings_close, hws, List.append_nil]
    refine congrArg (· ++ ws) ?_
    rw [hv]
    exact Cursor.warnings_arguments _
  | textless _ hv _ _ =>
    refine ⟨[] ++ [], ?_, .own nofun rfl (fun h => by cases h) .nil .nil⟩
    rw [List.append_nil, List.append_nil, hv]
    exact Cursor.warnings_arguments _
  | @inclusion _ s v t path got hm hv hpath ht hgot =>
    obtain ⟨hquote, tabs, htabs, hextract⟩ := extract_include hs hm hv hpath ht
    have hanswer := hp path ⟨page.file, s.pos, t.pos⟩ s.scope
    rw [← hgot] at hanswer
    have hwarnings : t.warnings = s.warnings := by
      rw [ht, hv]
      rfl
    have hnames : ∀ ns, lib.Names page.file source (branch page .inclusion s t s.scope ns)
        (lib.resolve page.file path) := fun ns => ⟨rfl, ⟨tabs, path, htabs, hquote, hextract, rfl⟩, rfl⟩
    refine ⟨got.warnings, congrArg (· ++ got.warnings) hwarnings, ?_⟩
    cases hanswer with
    | cycle hmem => exact .cycle (hnames []) hmem rfl .nil
    | missing hmem hl => exact .missing (hnames []) hmem hl rfl .nil
    | @blocks asked asked' text ns ws hmem hl hread hns =>
      have hblocks := Library.Answers.blocks (hnames ns) hmem hl hread hns .nil
      rwa [List.append_nil] at hblocks

end Page

namespace Library

variable {lib : Library} {chain : List FileId} {file : FileId} {at? : Option Location} {scope : Scope} {text : Text}

/-- What is read in a file answers its includes. -/
theorem answers_readFile {levels : Nat} (h : lib.Open chain) (hlevels : lib.files.length ≤ levels + chain.length)
    (hc : file ∉ chain) (hl : lib.load file = some text) : ∃ ns ws asked, lib.readFile levels chain file at? scope =
      ⟨some ⟨.document, ⟨file, 0, text.length⟩, [], .unset, 0, false, ns⟩, ws, asked⟩ ∧ lib.Answers chain file text ns ws := by
  induction levels generalizing chain file at? scope text with
  | zero => exact absurd (h.mem_of_load (by omega) hl) hc
  | succ levels ih =>
    have hopen := h.cons hc hl
    have hnext : lib.files.length ≤ levels + (file :: chain).length := by
      rw [List.length_cons]
      omega
    have hp : ∀ path here scope, lib.Answer chain file (lib.resolve file path) here scope
        ((lib.page levels chain file).fetch path here scope) := by
      intro path here scope
      unfold page
      dsimp only
      by_cases hmem : lib.resolve file path ∈ file :: chain
      · rw [readFile_of_mem hmem]
        exact .cycle hmem
      · cases hload : lib.load (lib.resolve file path) with
        | none =>
          rw [readFile_of_missing hmem (Or.inr hload)]
          exact .missing hmem hload
        | some t =>
          have hlevel : lib.files.length ≤ lib.files.length + (file :: chain).length := Nat.le_add_right _ _
          have hsame : lib.readFile levels (file :: chain) (lib.resolve file path) (some here) scope =
              lib.readFile lib.files.length (file :: chain) (lib.resolve file path) (some here) scope :=
            readFile_levels hopen hnext hlevel
          obtain ⟨ns, ws, asked, hread, hns⟩ := ih hopen hnext hmem hload
          rw [hread] at hsame ⊢
          exact .blocks hmem hload hsame.symm hns
    obtain ⟨ws, hws, hns⟩ := (read_parse (lib.page levels chain file) text scope).1.answers (Cursor.at_start text scope) hp
    exact ⟨_, _, _, readFile_eq hc hl, (by rwa [hws] : lib.Answers chain file text _ _)⟩

end Library

/-- Between two places with one file there is no other file. -/
def NeverReturns (files : List FileId) : Prop := ∀ f g, [f, g, f].Sublist files → g = f

theorem NeverReturns.same {f : FileId} {files : List FileId} (h : NeverReturns (f :: files)) : NeverReturns (f :: f :: files) := by
  intro a b hab
  rcases List.sublist_cons_iff.1 hab with hab | ⟨r, he, hr⟩
  · exact h a b hab
  · obtain ⟨rfl, rfl⟩ := List.cons.inj he
    rcases List.sublist_cons_iff.1 hr with hr | ⟨r, he, hr⟩
    · exact h a b (hr.cons_cons a)
    · exact (List.cons.inj he).1

theorem NeverReturns.fresh {f : FileId} {files : List FileId} (h : NeverReturns files) (hf : f ∉ files) :
    NeverReturns (f :: files) := by
  intro a b hab
  rcases List.sublist_cons_iff.1 hab with hab | ⟨r, he, hr⟩
  · exact h a b hab
  · obtain ⟨rfl, rfl⟩ := List.cons.inj he
    exact absurd (hr.subset (List.mem_cons_of_mem _ List.mem_cons_self)) hf

/-- The nodes on a way down a tree. -/
def Descends (path : List Node) : Prop := path.IsChain fun n c => c ∈ n.children

namespace Library

variable {lib : Library} {chain : List FileId} {file : FileId} {source : Text} {n : Node} {ns path : List Node}
variable {ws : List Warning}

/-- A node stands in the file, and its children in the same file or in one that is not being read. -/
theorem Answers.of_mem (h : lib.Answers chain file source ns ws) (hn : n ∈ ns) : n.location.file = file ∧
    (n.children = [] ∨ (∃ inner, lib.Answers chain file source n.children inner) ∨
      ∃ target text inner, target ∉ file :: chain ∧ lib.Answers (file :: chain) target text n.children inner) := by
  obtain ⟨before, after, rfl⟩ := List.append_of_mem hn
  obtain ⟨-, later, -, -, h⟩ := h.split
  cases h with
  | own _ hfile _ hc _ => exact ⟨hfile, Or.inr (Or.inl ⟨_, hc⟩)⟩
  | cycle hnames _ hc => exact ⟨hnames.file, Or.inl hc⟩
  | missing hnames _ _ hc => exact ⟨hnames.file, Or.inl hc⟩
  | blocks hnames hmem _ _ hc => exact ⟨hnames.file, Or.inr (Or.inr ⟨_, _, _, hmem, hc⟩)⟩

/-- On its way down, reading leaves a file for good, and never goes to one that is being read. -/
theorem Answers.neverReturns (h : lib.Answers chain file source ns ws) (hfile : file ∉ chain) (hn : n ∈ ns)
    (hpath : Descends (n :: path)) : NeverReturns (file :: path.map (·.location.file)) ∧
      ∀ m ∈ n :: path, m.location.file ∉ chain := by
  induction path generalizing n ns chain file source ws with
  | nil =>
    refine ⟨fun f g hfg => absurd hfg.length_le (by simp), fun m hm => ?_⟩
    rw [List.mem_singleton.1 hm, (h.of_mem hn).1]
    exact hfile
  | cons c path ih =>
    obtain ⟨hc, hpath⟩ := List.isChain_cons_cons.1 hpath
    obtain ⟨hnfile, hchildren⟩ := h.of_mem hn
    have hnchain : n.location.file ∉ chain := hnfile ▸ hfile
    rcases hchildren with hnil | ⟨inner, hinner⟩ | ⟨target, text, inner, hfresh, hinner⟩
    · rw [hnil] at hc
      cases hc
    · obtain ⟨hreturns, hnone⟩ := ih hinner hfile hc hpath
      rw [List.map_cons, (hinner.of_mem hc).1]
      exact ⟨hreturns.same, List.forall_mem_cons.2 ⟨hnchain, hnone⟩⟩
    · obtain ⟨hreturns, hnone⟩ := ih hinner hfresh hc hpath
      have hout : file ∉ (c :: path).map (·.location.file) := by
        rintro hmem
        obtain ⟨m, hm, he⟩ := List.mem_map.1 hmem
        exact hnone m hm (he ▸ List.mem_cons_self)
      rw [List.map_cons, (hinner.of_mem hc).1] at hout ⊢
      refine ⟨hreturns.fresh hout, List.forall_mem_cons.2 ⟨hnchain, fun m hm hmem => ?_⟩⟩
      exact hnone m hm (List.mem_cons_of_mem _ hmem)

/-- Reading needs no more fuel and levels than it has, whatever it would come to without. It gives no document only where
the main file is missing. On no way down the tree is a file entered again that was left, and every include has its
answer: the blocks of the file that it names, or one warning, of a cycle for a file that is being read, and else of a
missing file. -/
theorem read_answers (lib : Library) (main : FileId) :
    (∀ last fuel levels, (∀ text, fuelFor text ≤ fuel text) → lib.files.length < levels →
      lib.readWithin last fuel levels [] main none .unset = lib.read main) ∧
    (∀ s : Cursor, (s.skipContent s.rest.length).rest.head? ≠ some '[') ∧
    match lib.load main with
    | none => lib.read main = ⟨none, [missingWarning main none], [main]⟩
    | some source => ∃ root, (lib.read main).document = some root ∧ root.location = ⟨main, 0, source.length⟩ ∧
        (∀ path, Descends (root :: path) → NeverReturns ((root :: path).map (·.location.file))) ∧
        lib.Answers [] main source root.children (lib.read main).warnings := by
  refine ⟨fun last fuel levels hfuel hlevels => ?_, fun s => s.head?_skipContent (Nat.le_refl _), ?_⟩
  · exact readWithin_eq last hfuel (open_nil lib) hlevels (Nat.le_refl _)
  · have hc : main ∉ [] := List.not_mem_nil
    cases hl : lib.load main with
    | none => exact readFile_of_missing hc (Or.inr hl)
    | some source =>
      obtain ⟨ns, ws, asked, hread, hns⟩ : ∃ ns ws asked, lib.read main =
          ⟨some ⟨.document, ⟨main, 0, source.length⟩, [], .unset, 0, false, ns⟩, ws, asked⟩ ∧
            lib.Answers [] main source ns ws :=
        answers_readFile (open_nil lib) (Nat.le_refl _) hc hl
      rw [hread]
      refine ⟨_, rfl, rfl, fun path hpath => ?_, hns⟩
      cases path with
      | nil => exact fun f g hfg => absurd hfg.length_le (by simp)
      | cons n path =>
        obtain ⟨hmem, hpath⟩ := List.isChain_cons_cons.1 hpath
        obtain ⟨hreturns, -⟩ := hns.neverReturns hc hmem hpath
        rw [List.map_cons, List.map_cons, (hns.of_mem hmem).1]
        exact hreturns.same

/-- A file that includes another one, itself and one that is missing, between brackets and stars that nothing closes. -/
def tangled : Library where
  files := [("a", "#include \"b\" [*$ #include \"a\"\n\n#include \"none\"".toList), ("b", "_B #include \"a\"".toList)]
  resolve := fun _ path => String.ofList path

/-- Readers that stand still, and no document. -/
def still : Exhausted := ⟨⟨fun _ s => ([], s), fun _ _ s => ([], s)⟩, ⟨none, [], []⟩⟩

theorem load_tangled : tangled.load "a" = some "#include \"b\" [*$ #include \"a\"\n\n#include \"none\"".toList := by
  decide +kernel

theorem read_answers_tangled : ((tangled.read "a").warnings.map fun w => (w.kind, w.location)) =
      [(.includeCycle, some ⟨"b", 3, 15⟩), (.includeCycle, some ⟨"a", 17, 29⟩), (.missingInclude, some ⟨"a", 31, 46⟩)] ∧
    (∀ text, fuelFor text ≤ fuelFor text) ∧ tangled.files.length < 3 ∧
    tangled.readWithin still fuelFor 3 [] "a" none .unset = tangled.read "a" ∧
    ∃ root, (tangled.read "a").document = some root ∧
      (∀ path, Descends (root :: path) → NeverReturns ((root :: path).map (·.location.file))) ∧
      tangled.Answers [] "a" "#include \"b\" [*$ #include \"a\"\n\n#include \"none\"".toList root.children
        (tangled.read "a").warnings := by
  obtain ⟨hends, -, hanswers⟩ := tangled.read_answers "a"
  rw [load_tangled] at hanswers
  obtain ⟨root, hroot, -, hpath, hwarnings⟩ := hanswers
  have hfuel : ∀ text, fuelFor text ≤ fuelFor text := fun text => Nat.le_refl _
  exact ⟨by decide +kernel, hfuel, by decide, hends still fuelFor 3 hfuel (by decide), root, hroot, hpath, hwarnings⟩

end Library

end Proofreader.Markup
