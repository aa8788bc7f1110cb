import Proofreader.Proofs.Extraction.Filled
import Proofreader.Proofs.Mapping.Narrowing
import Proofreader.Proofs.Session.Fresh

/-! Settings that allow more words or disable more rules show less: what a first run shows under them is what it shows
without the addition, but for findings on the added words and of the added rules. -/

namespace Proofreader

/-! ### Additions to lists by key -/

/-- The lists with more in the one under `key`, or with one more list where the key is new. -/
def extendList (key : String) (more : List String) : List (String × List String) → List (String × List String)
  | [] => [(key, more)]
  | (k, xs) :: r => if k = key then (k, xs ++ more) :: r else (k, xs) :: extendList key more r

/-- The key stands there, or none that is the same in lower case does. -/
def Addable (key : String) (lists : List (String × List String)) : Prop :=
  key ∈ lists.map Prod.fst ∨ ∀ k ∈ lists.map Prod.fst, lowerCase k ≠ lowerCase key

namespace Settings

def allow (s : Settings) (key : String) (words : List String) : Settings :=
  { s with dictionary := extendList key words s.dictionary }

def disable (s : Settings) (key : String) (rules : List String) : Settings :=
  { s with disabledChecks := extendList key rules s.disabledChecks }

end Settings

variable {key : String} {more : List String} {lists : List (String × List String)}

/-- Of members that are put one after the other the last one under a key counts. -/
theorem lookup_ofMembers {β : Type} (l : List (String × β)) (k : String) : (ofMembers l).lookup k = l.reverse.lookup k := by
  induction l using List.reverseRecOn with
  | nil => rfl
  | append_singleton l x ih =>
    have hput : ofMembers (l ++ [x]) = putMember (ofMembers l) x.1 x.2 := by
      rw [ofMembers, List.foldl_append]
      rfl
    rw [hput, List.reverse_append, List.reverse_singleton, List.singleton_append, List.lookup_cons]
    by_cases hk : k = x.1
    · rw [hk, lookup_putMember_self, beq_self_eq_true]
    · rw [lookup_putMember_of_ne _ hk, ih, beq_eq_false_iff_ne.2 hk]

theorem extendList_of_notMem (h : key ∉ lists.map Prod.fst) : extendList key more lists = lists ++ [(key, more)] := by
  induction lists with
  | nil => rfl
  | cons x r ih =>
    rw [List.map_cons, List.mem_cons, not_or] at h
    rw [extendList, if_neg fun he => h.1 he.symm, ih h.2, List.cons_append]

theorem exists_extendList (h : key ∈ lists.map Prod.fst) (more : List String) :
    ∃ before xs after, lists = before ++ (key, xs) :: after ∧
      extendList key more lists = before ++ (key, xs ++ more) :: after := by
  induction lists with
  | nil => cases h
  | cons x r ih =>
    obtain ⟨k, xs⟩ := x
    by_cases hk : k = key
    · subst hk
      exact ⟨[], xs, r, rfl, if_pos rfl⟩
    · obtain ⟨before, ys, after, hr, hextended⟩ := ih (by simpa [Ne.symm hk] using h)
      refine ⟨(k, xs) :: before, ys, after, by rw [hr, List.cons_append], ?_⟩
      rw [extendList, if_neg hk, hextended, List.cons_append]

namespace Resolver

theorem lookup_byLowerKey (lists : List (String × List String)) (k : String) :
    (byLowerKey lists).lookup k = (lists.map fun x => (lowerCase x.1, x.2)).reverse.lookup k := lookup_ofMembers _ k

/-- What is listed under a key stays or, if it is the key of the addition, grows by it. -/
theorem lookup_extendList (h : Addable key lists) (more : List String) (k : String) :
    ((byLowerKey (extendList key more lists)).lookup k).getD [] = ((byLowerKey lists).lookup k).getD [] ∨
      (k = lowerCase key ∧
        ((byLowerKey (extendList key more lists)).lookup k).getD [] = ((byLowerKey lists).lookup k).getD [] ++ more) := by
  rw [lookup_byLowerKey, lookup_byLowerKey]
  by_cases hmem : key ∈ lists.map Prod.fst
  · obtain ⟨before, xs, after, rfl, hextended⟩ := exists_extendList hmem more
    rw [hextended]
    simp only [List.map_append, List.map_cons, List.reverse_append, List.reverse_cons, List.append_assoc,
      List.lookup_append, List.singleton_append, List.lookup_cons]
    -- a later key that is the same in lower case counts before and after
    cases (after.map fun x => (lowerCase x.1, x.2)).reverse.lookup k with
    | some ys => exact Or.inl rfl
    | none =>
      by_cases hk : k = lowerCase key
      · rw [hk, beq_self_eq_true]
        exact Or.inr ⟨rfl, rfl⟩
      · rw [beq_eq_false_iff_ne.2 hk]
        exact Or.inl rfl
  · have hnew := h.resolve_left hmem
    rw [extendList_of_notMem hmem, List.map_append, List.reverse_append]
    simp only [List.map_cons, List.map_nil, List.reverse_singleton, List.singleton_append, List.lookup_cons]
    by_cases hk : k = lowerCase key
    · have hnone : (lists.map fun x => (lowerCase x.1, x.2)).reverse.lookup k = none := by
        refine List.lookup_eq_none_iff.2 fun x hx => ?_
        obtain ⟨y, hy, rfl⟩ := List.mem_map.1 (List.mem_reverse.1 hx)
        rw [hk]
        exact bne_iff_ne.2 (hnew y.1 (List.mem_map_of_mem hy)).symm
      rw [hnone, hk, beq_self_eq_true]
      exact Or.inr ⟨rfl, rfl⟩
    · rw [beq_eq_false_iff_ne.2 hk]
      exact Or.inl rfl

theorem mem_lookup_extendList (h : Addable key lists) (more : List String) (k : String) {x : String}
    (hx : x ∈ ((byLowerKey lists).lookup k).getD []) :
    x ∈ ((byLowerKey (extendList key more lists)).lookup k).getD [] := by
  rcases lookup_extendList h more k with hsame | ⟨-, hmore⟩
  · rwa [hsame]
  · rw [hmore]
    exact List.mem_append_left _ hx

theorem of_mem_lookup_extendList (h : Addable key lists) (k : String) {x : String}
    (hx : x ∈ ((byLowerKey (extendList key more lists)).lookup k).getD []) :
    x ∈ ((byLowerKey lists).lookup k).getD [] ∨ (k = lowerCase key ∧ x ∈ more) := by
  rcases lookup_extendList h more k with hsame | ⟨hkey, hmore⟩
  · exact Or.inl (hsame ▸ hx)
  · rw [hmore, List.mem_append] at hx
    exact hx.imp_right fun hnew => ⟨hkey, hnew⟩

/-- The second resolver knows the same languages, and has all that the first one lists for them. -/
structure Extends (r r' : Resolver) : Prop extends Alike r r' where
  dictionary : ∀ k, ∀ x ∈ (r.dictionary.lookup k).getD [], x ∈ (r'.dictionary.lookup k).getD []
  disabled : ∀ k, ∀ x ∈ (r.disabled.lookup k).getD [], x ∈ (r'.disabled.lookup k).getD []

theorem Extends.within {r r' : Resolver} (h : r.Extends r') {p : Profile} (hp : p.resolved = true) (hfill : r.fill p = p) :
    p.Within (r'.fill p) where
  tag := r'.fill_tag p
  dictionary := by
    intro x hx
    rw [← hfill, fill_of_resolved r hp] at hx
    rw [fill_of_resolved r' hp]
    obtain ⟨k, hk, hx⟩ := mem_listed.1 hx
    exact mem_listed.2 ⟨k, hk, h.dictionary k x hx⟩
  disabled := by
    intro x hx
    rw [← hfill, fill_of_resolved r hp] at hx
    rw [fill_of_resolved r' hp]
    obtain ⟨k, hk, hx⟩ := mem_listed.1 hx
    exact mem_listed.2 ⟨k, hk, h.disabled k x hx⟩

end Resolver

/-! ### What is shown -/

/-- The answers of a service that goes by the tag and the text, whatever rules are disabled. -/
def answersOf (found : String → Text → List Finding) (key : CacheKey) : List Finding := found key.tag key.text

namespace Pipeline

/-- Both check in the same way, the second one with more allowed words and disabled rules. -/
structure Extends (q q' : Pipeline) : Prop where
  table : q'.table = q.table
  chunker : q'.chunker = q.chunker
  mapper : q'.mapper = q.mapper
  resolver : q.resolver.Extends q'.resolver

variable {q q' : Pipeline} {found : String → Text → List Finding} {root : Node} {t : CheckedText}

/-- A diagnostic of a finding that is silenced by what another resolver lists. -/
def Drops (q : Pipeline) (r : Resolver) (found : String → Text → List Finding) (root : Node) (d : Diagnostic) : Prop :=
  ∃ t ∈ (q.extract root).texts, ∃ f ∈ q.findings (answersOf found) t, Mapper.Shows t f d ∧
    t.profile.resolved = true ∧ q.resolver.fill t.profile = t.profile ∧ q.mapper.Silenced t (r.fill t.profile) f

theorem findings_under (h : q.Extends q') (found : String → Text → List Finding) {p : Profile} (hp : p.tag = t.profile.tag) :
    q'.findings (answersOf found) (t.under p) = q.findings (answersOf found) t := by
  unfold findings
  rw [h.chunker]
  change ((q.chunker.chunks t).flatMap fun chunk => chunk.translate (found p.tag chunk.text)) = _
  rw [hp]
  rfl

/-- A text shows under the second pipeline what it shows under the first one, but for what is silenced. -/
theorem shown_loses (h : q.Extends q') (htyped : ∀ tag text, ∀ f ∈ found tag text, f.Typed)
    (ht : t ∈ (q.extract root).texts) (hresolved : t.profile.resolved = true) :
    Loses (q.Drops q'.resolver found root) (q.shown (answersOf found) t)
      (q'.shown (answersOf found) (t.filledBy q'.resolver)) := by
  have hfill : q.resolver.fill t.profile = t.profile := by
    obtain ⟨p, -, hp⟩ := exists_profile_of_mem_texts ht
    rw [hp]
    exact (Resolver.profile_eq_fill ⟨rfl, rfl⟩ p.language).symm
  have hfs : ∀ f ∈ q.findings (answersOf found) t, f.Typed := fun f hf => typed_of_mem_findings (fun key => htyped _ _) hf
  obtain ⟨ds, es, hds, hes, hloses⟩ :=
    Mapper.map_under (m := q.mapper) (q.chunker.forced t) (h.resolver.within hresolved hfill) hfs
  have hshown : q.shown (answersOf found) t = ds := by
    rw [shown, hds]
    rfl
  have hshown' : q'.shown (answersOf found) (t.filledBy q'.resolver) = es := by
    change (q'.mapper.map (t.under (q'.resolver.fill t.profile)) (q'.chunker.forced t)
      (q'.findings (answersOf found) (t.under (q'.resolver.fill t.profile)))).toOption.getD [] = es
    rw [findings_under h found (q'.resolver.fill_tag _), h.mapper, h.chunker, hes]
    rfl
  rw [hshown, hshown']
  refine hloses.imp fun d hd => ?_
  obtain ⟨f, hf, hshows, hsilenced⟩ := hd
  exact ⟨t, ht, f, hf, hshows, hresolved, hfill, hsilenced⟩

/-- All diagnostics of a document, language by language. -/
theorem flatMap_verdicts (hr : q.resolver.Plain) (answer : CacheKey → List Finding) (root : Node) :
    (q.verdicts answer root).flatMap (·.2.diagnostics) =
      ((q.extract root).texts.filter (·.profile.resolved)).flatMap (q.shown answer) := by
  have hnodup : ((((q.extract root).texts.filter (·.profile.resolved)).map fun t =>
      (t.profile.tag, q.verdict answer t)).map Prod.fst).Nodup := by
    rw [List.map_map]
    exact nodup_tags hr
  rw [verdicts, ofMembers_of_nodup hnodup, List.flatMap_map]
  rfl

theorem verdicts_lose (h : q.Extends q') (hr : q.resolver.Plain) (hr' : q'.resolver.Plain)
    (htyped : ∀ tag text, ∀ f ∈ found tag text, f.Typed) (root : Node) :
    Loses (q.Drops q'.resolver found root) ((q.verdicts (answersOf found) root).flatMap (·.2.diagnostics))
      ((q'.verdicts (answersOf found) root).flatMap (·.2.diagnostics)) := by
  have htexts : (q'.extract root).texts = (q.extract root).texts.map (·.filledBy q'.resolver) := by
    rw [extract, h.table]
    exact texts_filledBy h.resolver.toAlike q.table defaultLanguage root
  have hfilter : ((q'.extract root).texts.filter (·.profile.resolved)).flatMap (q'.shown (answersOf found)) =
      ((q.extract root).texts.filter (·.profile.resolved)).flatMap fun t =>
        q'.shown (answersOf found) (t.filledBy q'.resolver) := by
    rw [htexts, List.filter_map, List.flatMap_map]
    refine congrArg (List.flatMap _) (List.filter_congr fun t _ => ?_)
    exact q'.resolver.fill_resolved t.profile
  rw [flatMap_verdicts hr, flatMap_verdicts hr', hfilter]
  refine .flatMap fun t ht => ?_
  obtain ⟨ht, hresolved⟩ := List.mem_filter.1 ht
  exact shown_loses h htyped ht hresolved

end Pipeline

/-- All that a report lists, file by file. -/
def Report.shown (r : Report) : List Diagnostic := r.diagnostics.flatMap (·.2)

namespace Session

variable {σ β : Type} {provider : Provider σ β Selection} {p : Project} {settings : Settings} {disk : Disk}
variable {q q' : Pipeline} {r r' : Report} {found : String → Text → List Finding}

/-- What the first run of a session on a project gives. -/
def runAnew (provider : Provider σ β Selection) (p : Project) (settings : Settings) (disk : Disk) (w : σ) :
    Except Fault Report := do
  (← create p settings).run provider disk w |>.1

theorem exists_runAnew {answer : CacheKey → List Finding} (hp : p.Reachable) (hserves : provider.Serves settings)
    (hanswers : provider.Answers answer) (htyped : ∀ key, ∀ f ∈ answer key, f.Typed) (disk : Disk) (w : σ) :
    ∃ r q, runAnew provider p settings disk w = .ok r ∧ Pipeline.ofSettings settings = .ok q ∧
      Tells answer disk p q [] r := by
  obtain ⟨s, hcreate, hsound, hupcoming, hpublished⟩ := exists_create (β := β) answer hp hserves
  obtain ⟨r, s', w', q, hrun, -, hq, htells, -⟩ := hsound.exists_run hanswers htyped disk w
  rw [hupcoming] at hq htells
  rw [hpublished] at htells
  refine ⟨r, q, ?_, hq, htells⟩
  unfold runAnew
  rw [hcreate]
  exact congrArg Prod.fst hrun

/-- What is listed are the verdicts on the languages of the document, if there is one. -/
theorem Tells.shown_perm {answer : CacheKey → List Finding} (h : Tells answer disk p q [] r) : r.shown.Perm
    ((p.snapshot.compile disk).1.elim [] fun root => (q.verdicts answer root).flatMap (·.2.diagnostics)) := by
  have hlisted : r.shown.Perm (r.languages.flatMap (·.2.diagnostics)) := perm_of_byFile h.diagnostics
  have hlanguages : r.languages.map (fun l => (l.1, l.2.uncounted)) =
      (p.snapshot.compile disk).1.elim [] fun root => q.verdicts answer root := by
    have houtline := congrArg (·.2.1) h.outline
    unfold Pipeline.outline at houtline
    rcases hcompile : p.snapshot.compile disk with ⟨root, warnings, view⟩
    rw [hcompile] at houtline
    cases root with
    | none => exact houtline
    | some root => exact houtline
  rw [← flatMap_uncounted, hlanguages] at hlisted
  cases hroot : (p.snapshot.compile disk).1 with
  | none =>
    rw [hroot] at hlisted
    exact hlisted
  | some root =>
    rw [hroot] at hlisted
    exact hlisted

/-- A run under a pipeline that drops more lists less. -/
theorem Tells.loses (h : Tells (answersOf found) disk p q [] r) (h' : Tells (answersOf found) disk p q' [] r')
    (hext : q.Extends q') (hr : q.resolver.Plain) (hr' : q'.resolver.Plain)
    (htyped : ∀ tag text, ∀ f ∈ found tag text, f.Typed) :
    Loses (fun d => ∃ root, (p.snapshot.compile disk).1 = some root ∧ q.Drops q'.resolver found root d) r.shown r'.shown := by
  have hperm := h.shown_perm
  have hperm' := h'.shown_perm
  cases hroot : (p.snapshot.compile disk).1 with
  | none =>
    rw [hroot] at hperm hperm'
    exact (Loses.refl _ []).of_perm hperm.symm hperm'
  | some root =>
    rw [hroot] at hperm hperm'
    have hloses := Pipeline.verdicts_lose hext hr hr' htyped root
    exact (hloses.imp fun d hd => ⟨root, rfl, hd⟩).of_perm hperm.symm hperm'

end Session

/-! ### Added words and rules -/

namespace Pipeline

variable {settings : Settings} {q : Pipeline} {r : Resolver} {found : String → Text → List Finding} {root : Node}
variable {key : String} {more : List String} {d : Diagnostic}

/-- Other lists give the same pipeline with another resolver. -/
theorem ofSettings_lists (h : ofSettings settings = .ok q) (dictionary disabled : List (String × List String)) :
    ofSettings { settings with dictionary := dictionary, disabledChecks := disabled } =
      .ok { q with
        settings := { settings with dictionary := dictionary, disabledChecks := disabled }
        resolver := .ofSettings settings.languages dictionary disabled supportedCodes } := by
  have hselection : Settings.selection { settings with dictionary := dictionary, disabledChecks := disabled } =
      settings.selection := rfl
  unfold ofSettings at h ⊢
  dsimp only at h ⊢
  rw [hselection]
  split at h
  all_goals
    obtain ⟨selection, hselected, h⟩ := exists_of_bind h
    obtain ⟨table, htable, h⟩ := exists_of_bind h
    obtain ⟨chunker, hchunker, h⟩ := exists_of_bind h
    cases h
  · cases hselected
    rw [htable, hchunker]
    rfl
  · cases hselected
    rw [htable, hchunker]
    rfl
  · cases hselected

/-- Shown for a misspelling of one of `words`, in a language that the key names. -/
def Spells (q : Pipeline) (found : String → Text → List Finding) (root : Node) (key : String) (words : List String)
    (d : Diagnostic) : Prop :=
  ∃ t ∈ (q.extract root).texts, ∃ f ∈ q.findings (answersOf found) t, Mapper.Shows t f d ∧
    lowerCase key ∈ t.profile.keys ∧ f.isSpelling = .ok true ∧
    ∃ word ∈ words, q.mapper.Matches word (t.text.slice f.offset f.stop)

/-- Shown for a finding of one of `rules`, in a language that the key names. -/
def Breaks (q : Pipeline) (found : String → Text → List Finding) (root : Node) (key : String) (rules : List String)
    (d : Diagnostic) : Prop :=
  ∃ t ∈ (q.extract root).texts, ∃ f ∈ q.findings (answersOf found) t, Mapper.Shows t f d ∧
    lowerCase key ∈ t.profile.keys ∧ ∃ rule ∈ rules, f.rule = .str rule

/-- Where only words are added, only misspellings of them are dropped. -/
theorem spells_of_drops (hdisabled : r.disabled = q.resolver.disabled)
    (hdictionary : ∀ k, ∀ x ∈ (r.dictionary.lookup k).getD [],
      x ∈ (q.resolver.dictionary.lookup k).getD [] ∨ (k = lowerCase key ∧ x ∈ more))
    (h : q.Drops r found root d) : q.Spells found root key more d := by
  obtain ⟨t, ht, f, hf, hshows, hresolved, hfill, hsilenced⟩ := h
  rw [Resolver.fill_of_resolved _ hresolved] at hfill
  unfold Mapper.Silenced at hsilenced
  rw [Resolver.fill_of_resolved _ hresolved, hdisabled] at hsilenced
  dsimp only at hsilenced
  rcases hsilenced with ⟨hspelling, hallows, hnot⟩ | ⟨hnow, hbefore⟩
  · obtain ⟨word, hword, hmatches⟩ := Mapper.allows_iff.1 hallows
    obtain ⟨k, hk, hword⟩ := Resolver.mem_listed.1 hword
    rcases hdictionary k word hword with hold | ⟨rfl, hnew⟩
    · have hallowed : q.mapper.allows t.profile (t.text.slice f.offset f.stop) = true := by
        rw [← hfill]
        exact Mapper.allows_iff.2 ⟨word, Resolver.mem_listed.2 ⟨k, hk, hold⟩, hmatches⟩
      rw [hnot] at hallowed
      cases hallowed
    · exact ⟨t, ht, f, hf, hshows, hk, hspelling, word, hnew, hmatches⟩
  · rw [← hfill] at hbefore
    dsimp only [Profile.keys] at hbefore hnow
    rw [hnow] at hbefore
    cases hbefore

/-- Where only rules are added, only findings of them are dropped. -/
theorem breaks_of_drops (hdictionary : r.dictionary = q.resolver.dictionary)
    (hdisabled : ∀ k, ∀ x ∈ (r.disabled.lookup k).getD [],
      x ∈ (q.resolver.disabled.lookup k).getD [] ∨ (k = lowerCase key ∧ x ∈ more))
    (htyped : ∀ tag text, ∀ f ∈ found tag text, f.Typed) (h : q.Drops r found root d) :
    q.Breaks found root key more d := by
  obtain ⟨t, ht, f, hf, hshows, hresolved, hfill, hsilenced⟩ := h
  rw [Resolver.fill_of_resolved _ hresolved] at hfill
  unfold Mapper.Silenced at hsilenced
  rw [Resolver.fill_of_resolved _ hresolved, hdictionary] at hsilenced
  rcases hsilenced with ⟨-, hallows, hnot⟩ | ⟨hnow, hbefore⟩
  · have hallowed : q.mapper.allows t.profile (t.text.slice f.offset f.stop) = true := by
      rw [← hfill]
      exact Mapper.allows_iff.2 (Mapper.allows_iff.1 hallows)
    rw [hnot] at hallowed
    cases hallowed
  · obtain ⟨rule, hrule⟩ := (typed_of_mem_findings (fun key => htyped _ _) hf).rule
    rw [hrule, Json.isAmong_str, Except.ok.injEq] at hnow hbefore
    obtain ⟨k, hk, hlisted⟩ := Resolver.mem_listed.1 (List.contains_iff_mem.1 hnow)
    rcases hdisabled k rule hlisted with hold | ⟨rfl, hnew⟩
    · have hmem : rule ∈ t.profile.disabled := by
        rw [← hfill]
        exact Resolver.mem_listed.2 ⟨k, hk, hold⟩
      rw [List.contains_iff_mem.2 hmem] at hbefore
      cases hbefore
    · exact ⟨t, ht, f, hf, hshows, hk, rule, hnew, hrule⟩

end Pipeline

namespace Session

variable {σ β : Type} {provider : Provider σ β Selection} {p : Project} {settings : Settings} {disk : Disk} {q : Pipeline}
variable {found : String → Text → List Finding} {r : Report}

/-- A run under lists that have more lists less. -/
theorem runAnew_drops (hp : p.Reachable) (hserves : provider.Serves settings)
    (hanswers : provider.Answers (answersOf found)) (htyped : ∀ tag text, ∀ f ∈ found tag text, f.Typed)
    (hq : Pipeline.ofSettings settings = .ok q) (htells : Tells (answersOf found) disk p q [] r)
    {dictionary disabled : List (String × List String)} {resolver : Resolver}
    (hresolver : resolver = .ofSettings settings.languages dictionary disabled supportedCodes)
    (hext : q.resolver.Extends resolver) (w : σ) :
    ∃ r', runAnew provider p { settings with dictionary := dictionary, disabledChecks := disabled } disk w = .ok r' ∧
      Loses (fun d => ∃ root, (p.snapshot.compile disk).1 = some root ∧ q.Drops resolver found root d)
        r.shown r'.shown := by
  have hq' := Pipeline.ofSettings_lists hq dictionary disabled
  have hserves' : provider.Serves { settings with dictionary := dictionary, disabledChecks := disabled } := by
    obtain ⟨q₀, selection, hq₀, hselection, hcreate⟩ := hserves
    rw [hq] at hq₀
    cases hq₀
    exact ⟨_, selection, hq', hselection, hcreate⟩
  obtain ⟨r', q₁, hrun, hq₁, htells'⟩ := exists_runAnew hp hserves' hanswers (fun key => htyped _ _) disk w
  rw [hq'] at hq₁
  cases hq₁
  rw [← hresolver] at htells'
  have hplain : q.resolver.Plain := (Pipeline.of_ofSettings hq).2 ▸ Resolver.plain_ofSettings _ _ _
  have hplain' : resolver.Plain := hresolver ▸ Resolver.plain_ofSettings _ _ _
  exact ⟨r', hrun, htells.loses htells' ⟨rfl, rfl, rfl, hext⟩ hplain hplain' htyped⟩

/-- Words that are added under a key that stands in the dictionary, or under a key that is none of the dictionary's in any
case, add no diagnostic, and take away only such as are shown for misspellings of these words in a language that the key
names. Rules that are added to the disabled ones in such a way add no diagnostic, and take away only such as are shown for
these rules in a language that the key names. -/
theorem runAnew_loses (hp : p.Reachable) (hserves : provider.Serves settings)
    (hanswers : provider.Answers (answersOf found)) (htyped : ∀ tag text, ∀ f ∈ found tag text, f.Typed)
    (key : String) (more : List String) (disk : Disk) (w w' : σ) :
    ∃ q r, Pipeline.ofSettings settings = .ok q ∧ runAnew provider p settings disk w = .ok r ∧
      (Addable key settings.dictionary → ∃ r', runAnew provider p (settings.allow key more) disk w' = .ok r' ∧
        Loses (fun d => ∃ root, (p.snapshot.compile disk).1 = some root ∧ q.Spells found root key more d)
          r.shown r'.shown) ∧
      (Addable key settings.disabledChecks → ∃ r', runAnew provider p (settings.disable key more) disk w' = .ok r' ∧
        Loses (fun d => ∃ root, (p.snapshot.compile disk).1 = some root ∧ q.Breaks found root key more d)
          r.shown r'.shown) := by
  obtain ⟨r, q, hrun, hq, htells⟩ := exists_runAnew hp hserves hanswers (fun key => htyped _ _) disk w
  have hresolver := (Pipeline.of_ofSettings hq).2
  refine ⟨q, r, hq, hrun, fun hadd => ?_, fun hadd => ?_⟩
  · have hext : q.resolver.Extends (.ofSettings settings.languages (extendList key more settings.dictionary)
        settings.disabledChecks supportedCodes) := by
      rw [hresolver]
      exact ⟨⟨rfl, rfl⟩, fun k _ => Resolver.mem_lookup_extendList hadd more k, fun _ _ hx => hx⟩
    obtain ⟨r', hrun', hloses⟩ := runAnew_drops hp hserves hanswers htyped hq htells rfl hext w'
    refine ⟨r', hrun', hloses.imp fun d ⟨root, hroot, hdrops⟩ => ⟨root, hroot, ?_⟩⟩
    refine Pipeline.spells_of_drops (by rw [hresolver]; rfl) (fun k x hx => ?_) hdrops
    rw [hresolver]
    exact Resolver.of_mem_lookup_extendList hadd k hx
  · have hext : q.resolver.Extends (.ofSettings settings.languages settings.dictionary
        (extendList key more settings.disabledChecks) supportedCodes) := by
      rw [hresolver]
      exact ⟨⟨rfl, rfl⟩, fun _ _ hx => hx, fun k _ => Resolver.mem_lookup_extendList hadd more k⟩
    obtain ⟨r', hrun', hloses⟩ := runAnew_drops hp hserves hanswers htyped hq htells rfl hext w'
    refine ⟨r', hrun', hloses.imp fun d ⟨root, hroot, hdrops⟩ => ⟨root, hroot, ?_⟩⟩
    refine Pipeline.breaks_of_drops (by rw [hresolver]; rfl) (fun k x hx => ?_) htyped hdrops
    rw [hresolver]
    exact Resolver.of_mem_lookup_extendList hadd k hx

end Session

/-- One word, in a document of its own. -/
def lonelyDisk : Disk := Disk.empty.write "/home/me/main" ("Teh".toList.map Char.toNat)

def spellingSettings (dictionary : List (String × List String)) : Settings :=
  { bundledSettings 20 with dictionary := dictionary }

/-- Where a first run on the word shows anything, with a service that finds fault with everything. -/
def lonelyPlaces (settings : Settings) : Option (List Location) :=
  (Session.runAnew echo sharedProject settings lonelyDisk []).toOption.map fun r => r.shown.map (·.location)

theorem lonelyPlaces_fresh : lonelyPlaces (spellingSettings [("EN", [])]) = some [⟨"/home/me/main", 0, 3⟩] := by
  decide +kernel

theorem lonelyPlaces_allowed : lonelyPlaces (spellingSettings [("EN", ["Teh"])]) = some [] := by decide +kernel

theorem exists_of_lonelyPlaces {settings : Settings} {places : List Location} (h : lonelyPlaces settings = some places) :
    ∃ r, Session.runAnew echo sharedProject settings lonelyDisk [] = .ok r ∧ r.shown.map (·.location) = places :=
  eq_ok_of_toOption_map h

theorem Session.runAnew_loses_word : Addable "EN" (spellingSettings [("EN", [])]).dictionary ∧
    ∃ (q : Pipeline) (r r' : Report), runAnew echo sharedProject (spellingSettings [("EN", [])]) lonelyDisk [] = .ok r ∧
      runAnew echo sharedProject ((spellingSettings [("EN", [])]).allow "EN" ["Teh"]) lonelyDisk [] = .ok r' ∧
      r.shown.map (·.location) = [⟨"/home/me/main", 0, 3⟩] ∧ r'.shown = [] ∧
      ∀ d ∈ r.shown, ∃ root, (sharedProject.snapshot.compile lonelyDisk).1 = some root ∧
        q.Spells (fun _ text => [spelled 0 text.length]) root "EN" ["Teh"] d := by
  have hadd : Addable "EN" (spellingSettings [("EN", [])]).dictionary := Or.inl (by decide)
  have hserves : echo.Serves (spellingSettings [("EN", [])]) := ⟨_, _, rfl, rfl, fun w => ⟨(), w, rfl⟩⟩
  have hanswers : echo.Answers (answersOf fun _ text => [spelled 0 text.length]) := answers_echo
  obtain ⟨q, r, -, hrun, hwords, -⟩ :=
    runAnew_loses reachable_shared hserves hanswers (by simp [typed_spelled]) "EN" ["Teh"] lonelyDisk [] []
  obtain ⟨r', hrun', gone, hperm, hgone⟩ := hwords hadd
  obtain ⟨r₁, hrun₁, hplaces⟩ := exists_of_lonelyPlaces lonelyPlaces_fresh
  obtain ⟨r₂, hrun₂, hnone⟩ := exists_of_lonelyPlaces lonelyPlaces_allowed
  obtain rfl : r = r₁ := Except.ok.inj (hrun.symm.trans hrun₁)
  obtain rfl : r' = r₂ := Except.ok.inj (hrun'.symm.trans hrun₂)
  have hempty : r'.shown = [] := List.map_eq_nil_iff.1 hnone
  rw [hempty, List.nil_append] at hperm
  exact ⟨hadd, q, r, r', hrun, hrun', hplaces, hempty, fun d hd => hgone d (hperm.mem_iff.2 hd)⟩

/-- Words under a key that is another one's in another case take the place of the words there. -/
theorem Session.runAnew_gains : ∃ r r',
    runAnew echo sharedProject (spellingSettings [("EN", ["Teh"])]) lonelyDisk [] = .ok r ∧
      runAnew echo sharedProject ((spellingSettings [("EN", ["Teh"])]).allow "en" ["foo"]) lonelyDisk [] = .ok r' ∧
      r.shown = [] ∧ r'.shown.map (·.location) = [⟨"/home/me/main", 0, 3⟩] ∧ ∀ P, ¬ Loses P r.shown r'.shown := by
  have hreplaced : lonelyPlaces ((spellingSettings [("EN", ["Teh"])]).allow "en" ["foo"]) =
      some [⟨"/home/me/main", 0, 3⟩] := by decide +kernel
  obtain ⟨r, hrun, hnone⟩ := exists_of_lonelyPlaces lonelyPlaces_allowed
  obtain ⟨r', hrun', hplaces⟩ := exists_of_lonelyPlaces hreplaced
  have hempty : r.shown = [] := List.map_eq_nil_iff.1 hnone
  refine ⟨r, r', hrun, hrun', hempty, hplaces, fun P ⟨gone, hperm, _⟩ => ?_⟩
  rw [hempty] at hperm
  have hshown : r'.shown = [] := (List.append_eq_nil_iff.1 hperm.eq_nil).1
  rw [hshown] at hplaces
  cases hplaces

end Proofreader
