import Proofreader.Proofs.Collections
import Proofreader.Proofs.Extraction.Prose

/-! The words that are allowed and the rules that are disabled decide about findings only: with other lists the same
texts are checked, under profiles that hold what the other lists have for them. -/

namespace Proofreader

theorem mem_insertSorted {s t : String} {l : List String} : t ∈ insertSorted s l ↔ t = s ∨ t ∈ l := by
  induction l with
  | nil => exact List.mem_cons
  | cons x r ih =>
    unfold insertSorted
    split
    · next hx =>
      subst hx
      simp
    · split
      · exact List.mem_cons
      · rw [List.mem_cons, ih, List.mem_cons]
        tauto

theorem mem_sortedSet {t : String} {l : List String} : t ∈ sortedSet l ↔ t ∈ l := by
  induction l with
  | nil => exact Iff.rfl
  | cons s r ih =>
    rw [List.mem_cons, ← ih]
    exact mem_insertSorted

/-- The keys under which lists are looked up for a profile: its code, and its tag in lower case. -/
def Profile.keys (p : Profile) : List String :=
  p.code :: ((p.region.filter (· ≠ "")).map fun region => lowerCase (p.code ++ "-" ++ region)).toList

namespace Resolver

variable {r r' : Resolver}

theorem mem_listed {lists : List (String × List String)} {keys : List String} {x : String} :
    x ∈ listed lists keys ↔ ∃ key ∈ keys, x ∈ (lists.lookup key).getD [] := by
  unfold listed
  rw [mem_sortedSet, List.mem_flatMap]

/-- A profile with the lists of a resolver. -/
def fill (r : Resolver) (p : Profile) : Profile :=
  if p.resolved then { p with dictionary := listed r.dictionary p.keys, disabled := listed r.disabled p.keys } else p

@[simp] theorem fill_language (r : Resolver) (p : Profile) : (r.fill p).language = p.language := by
  unfold fill
  split <;> rfl

@[simp] theorem fill_resolved (r : Resolver) (p : Profile) : (r.fill p).resolved = p.resolved := by
  unfold fill
  split <;> rfl

@[simp] theorem fill_tag (r : Resolver) (p : Profile) : (r.fill p).tag = p.tag := congrArg Language.tag (fill_language r p)

theorem fill_of_resolved (r : Resolver) {p : Profile} (hp : p.resolved = true) :
    r.fill p = { p with dictionary := listed r.dictionary p.keys, disabled := listed r.disabled p.keys } := if_pos hp

/-- Both resolvers know the same languages. -/
structure Alike (r r' : Resolver) : Prop where
  preferences : r'.preferences = r.preferences
  supported : r'.supported = r.supported

/-- A profile holds what is listed under its keys. -/
theorem profile_eq_fill (h : r.Alike r') (l : Language) : r'.profile l = r'.fill (r.profile l) := by
  have hregion : ∀ code, r'.regionFor code = r.regionFor code := fun code => by rw [regionFor, regionFor, h.preferences]
  unfold profile
  dsimp only
  rw [h.supported, hregion]
  split
  · rfl
  · rfl

end Resolver

/-! ### Texts -/

def CheckedText.filledBy (r : Resolver) (t : CheckedText) : CheckedText := { t with profile := r.fill t.profile }

def Draft.filledBy (r : Resolver) (d : Draft) : Draft := { d with profile := r.fill d.profile }

namespace Extracting

variable {r r' : Resolver}

def filledBy (r : Resolver) (s : Extracting) : Extracting :=
  { s with drafts := s.drafts.map fun x => (x.1, x.2.filledBy r) }

theorem update_filledBy (r : Resolver) (profile : Profile) {f : Draft → Draft}
    (hf : ∀ d, f (d.filledBy r) = (f d).filledBy r) (ds : List (Language × Draft)) :
    update (r.fill profile) f (ds.map fun x => (x.1, x.2.filledBy r)) =
      (update profile f ds).map fun x => (x.1, x.2.filledBy r) := by
  induction ds with
  | nil =>
    simp only [List.map_nil, update, List.map_cons, Resolver.fill_language]
    rw [← hf]
    rfl
  | cons x rest ih =>
    simp only [List.map_cons, update, Resolver.fill_language]
    split
    · rw [hf]
      rfl
    · rw [ih]
      rfl

/-- A draft with a piece at its end, after a gap if the language returns. -/
def place (gap : Bool) (p : Piece) (d : Draft) : Draft := (if gap then { d with pendingGap := true } else d).append p

theorem place_filledBy (r : Resolver) (gap : Bool) (p : Piece) (d : Draft) :
    place gap p (d.filledBy r) = (place gap p d).filledBy r := by
  have happend : ∀ d : Draft, (d.filledBy r).append p = (d.append p).filledBy r := by
    intro d
    unfold Draft.filledBy
    rw [Draft.append_withProfile, Draft.append_profile]
  cases gap with
  | false => exact happend d
  | true => exact happend { d with pendingGap := true }

theorem step_filledBy (h : r.Alike r') (s : Extracting) (x : Segment) :
    step r' (s.filledBy r') x = (step r s x).filledBy r' := by
  cases x with
  | separator l page =>
    simp only [step, filledBy, List.map_map]
    rfl
  | piece p =>
    have hunresolved : (s.filledBy r').unresolved = s.unresolved := rfl
    have hwarn : ∀ due : Bool, (if due then (s.filledBy r').warn p else s.filledBy r') =
        (if due then s.warn p else s).filledBy r' := by
      intro due
      cases due <;> rfl
    simp only [step, Resolver.profile_eq_fill h, Resolver.fill_language, Resolver.fill_resolved, hunresolved, hwarn]
    generalize (if !(r.profile p.language).resolved && !s.unresolved.contains p.language.code then s.warn p else s) = s'
    have hdrafts := update_filledBy r' (r.profile p.language)
      (place_filledBy r' (s'.last.any (· ≠ (r.profile p.language).language)) p) s'.drafts
    exact congrArg (fun ds => Extracting.mk ds (some (r.profile p.language).language) (s'.pieces.push p) s'.warnings
      s'.unresolved) hdrafts

end Extracting

/-- With other lists the same texts are checked. -/
theorem texts_filledBy {r r' : Resolver} (h : r.Alike r') (table : Table) (language : Language) (root : Node) :
    (extract table r' language root).texts = (extract table r language root).texts.map (·.filledBy r') := by
  have hrun : ∀ ss s, List.foldl (Extracting.step r') (Extracting.filledBy r' s) ss =
      (List.foldl (Extracting.step r) s ss).filledBy r' := by
    intro ss
    induction ss with
    | nil => exact fun s => rfl
    | cons x rest ih =>
      intro s
      rw [List.foldl_cons, List.foldl_cons, Extracting.step_filledBy h, ih]
  have hstart : Extracting.start = Extracting.start.filledBy r' := rfl
  unfold extract
  rw [hstart, hrun]
  simp only [Extracting.finish, Extracting.filledBy, List.filter_map, List.map_map]
  rfl

end Proofreader
