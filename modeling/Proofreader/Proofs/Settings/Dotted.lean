import Mathlib.Data.List.TakeWhile
import Mathlib.Tactic.Common
import Proofreader.Proofs.Collections
import Proofreader.Proofs.Text.Basic
import Proofreader.Settings.Basic

/-! Settings under dotted names. What is set is read back as it was converted, and nothing else changes; a refused value
changes nothing at all. There is one exception: behind the first dot, a name is one word where it is set and a path
where it is read, so a value under a name with more dots is kept, but not found. -/

namespace Proofreader

namespace Key

variable {k : Key} {name : String}

theorem ofName?_name (k : Key) : ofName? k.name = some k := by cases k <;> decide

theorem eq_name_of_ofName? (h : ofName? name = some k) : name = k.name := by
  have := List.find?_some h
  simp only [decide_eq_true_eq] at this
  exact this.symm

/-- The names are in lower case already. -/
theorem plainName_name (k : Key) : plainName k.name = k.name := by cases k <;> decide +kernel

theorem dot_notMem_name (k : Key) : '.' ∉ k.name.toList := by cases k <;> decide

end Key

/-! ### Names with dots -/

section Splitting

variable {a b : String}

theorem not_dot_of_notMem {t : Text} (h : '.' ∉ t) : ∀ c ∈ t, (!decide (c = '.')) = true := by
  intro c hc
  simp only [Bool.not_eq_true', decide_eq_false_iff_not]
  rintro rfl
  exact h hc

theorem splitAtFirst_of_notMem (h : '.' ∉ a.toList) : splitAtFirst '.' a = (a, none) := by
  unfold splitAtFirst Text.splitFirst
  dsimp only
  rw [List.takeWhile_eq_self_iff.2 (not_dot_of_notMem h), List.dropWhile_eq_nil_iff.2 (not_dot_of_notMem h),
    String.ofList_toList]
  rfl

theorem splitAtFirst_append (h : '.' ∉ a.toList) (b : String) : splitAtFirst '.' (a ++ "." ++ b) = (a, some b) := by
  have hsplit : (a ++ "." ++ b).toList = a.toList ++ '.' :: b.toList := by simp
  unfold splitAtFirst Text.splitFirst
  dsimp only
  rw [hsplit, List.takeWhile_append_of_pos (not_dot_of_notMem h), List.dropWhile_append_of_pos (not_dot_of_notMem h),
    List.takeWhile_cons_of_neg (by simp), List.dropWhile_cons_of_neg (by simp), List.append_nil, String.ofList_toList]
  simp

/-- A name is split at its first dot, if it has one. -/
theorem splitAtFirst_cases (s : String) : splitAtFirst '.' s = (s, none) ∨
    ∃ a b, s = a ++ "." ++ b ∧ splitAtFirst '.' s = (a, some b) := by
  by_cases h : '.' ∈ s.toList
  · obtain ⟨a, b, hs, ha⟩ := List.eq_append_cons_of_mem h
    have hname : s = String.ofList a ++ "." ++ String.ofList b := by
      apply String.toList_injective
      simp [hs]
    have hnone : '.' ∉ (String.ofList a).toList := by rwa [String.toList_ofList]
    refine .inr ⟨_, _, hname, ?_⟩
    rw [hname, splitAtFirst_append hnone]
  · exact .inl (splitAtFirst_of_notMem h)

end Splitting

namespace Settings

variable {s t : Settings} {k j : Key} {v w : Json} {name sub : String} {members : List (String × Json)} {e : Fault}

/-! ### Converting a value -/

/-- What becomes of a value that is read for a setting. -/
def converted (k : Key) (v : Json) : Except Fault Json :=
  match k with
  | .dictionary | .disabledChecks =>
    ((readWordLists v).map fun l => .obj (l.map fun (code, xs) => (code, words xs))).mapError .mishap
  | .languages => ((readList v).map words).mapError .mishap
  | .bundled | .spellcheck | .caseSensitive => .ok (.bool v.toTruth)
  | .jarLocation | .host | .root | .main => .ok (optional .str v.toText?)
  | .port | .boundaryWindow => ((readOptionalInteger v).map (optional .int)).mapError .mishap
  | .chunkSize | .lookback | .paginateLevel | .maxRetries | .launchAttempts => (v.toInteger.map .int).mapError .mishap
  | .onChange => (Duration.ofJson v).map (optional .float)
  | .rules => ((readRules v).map fun l => .obj (l.map fun (kind, rule) => (kind, .str rule))).mapError .mishap
  | .requestTimeout | .startupTimeout => (v.toFloat.map .float).mapError .mishap
  | .logLevel => .ok (.str (upperCase v.plain))
  | .logFormat => .ok (.str (lowerCase v.plain))

theorem map_mapError {α : Type} (got : Except Mishap α) (store : α → Settings) (f : Settings → Json) :
    ((got.mapError Fault.mishap).map store).map f = (got.map fun x => f (store x)).mapError Fault.mishap := by
  cases got <;> rfl

/-- A setting that takes a value has it as it was converted. -/
theorem map_value_take (s : Settings) (k : Key) (v : Json) : (s.take k v).map (fun t => t.value k) = converted k v := by
  cases k with
  | dictionary | disabledChecks | languages | port | chunkSize | lookback | boundaryWindow | rules | paginateLevel
  | maxRetries | launchAttempts | requestTimeout | startupTimeout => exact map_mapError _ _ _
  | onChange =>
    simp only [take, converted]
    cases Duration.ofJson v <;> rfl
  | bundled | jarLocation | host | root | main | spellcheck | caseSensitive | logLevel | logFormat => rfl

theorem converted_of_take (h : s.take k v = .ok t) : converted k v = .ok (t.value k) := by
  rw [← map_value_take s, h]
  rfl

theorem exists_of_map_mapError {α : Type} {got : Except Mishap α} {store : α → Settings}
    (h : (got.mapError Fault.mishap).map store = .ok t) : ∃ x, t = store x := by
  cases got with
  | error m => cases h
  | ok x =>
    cases h
    exact ⟨x, rfl⟩

/-- All other settings stay as they are. -/
theorem value_take_of_ne (h : s.take k v = .ok t) (hj : j ≠ k) : t.value j = s.value j := by
  cases k with
  | dictionary | disabledChecks | languages | port | chunkSize | lookback | boundaryWindow | rules | paginateLevel
  | maxRetries | launchAttempts | requestTimeout | startupTimeout =>
    obtain ⟨x, rfl⟩ := exists_of_map_mapError h
    cases j <;> first | rfl | exact absurd rfl hj
  | onChange =>
    simp only [take] at h
    cases hx : Duration.ofJson v with
    | error e =>
      rw [hx] at h
      cases h
    | ok x =>
      rw [hx] at h
      cases h
      cases j <;> first | rfl | exact absurd rfl hj
  | bundled | jarLocation | host | root | main | spellcheck | caseSensitive | logLevel | logFormat =>
    cases h
    cases j <;> first | rfl | exact absurd rfl hj

/-! ### Objects of words and of rules -/

theorem readList_words (xs : List String) : readList (words xs) = .ok xs := by
  have hplain : (xs.map Json.str).map Json.plain = xs := by
    rw [List.map_map]
    exact List.map_id'' (fun _ => rfl) xs
  simp only [readList, words, Json.iterate, Except.map, hplain]

def readMember (m : String × Json) : Except Mishap (String × List String) := (readList m.2).map fun xs => (m.1, xs)

theorem readWordLists_obj (members : List (String × Json)) : readWordLists (.obj members) = members.mapM readMember := rfl

theorem mapM_words (l : List (String × List String)) : (l.map fun m => (m.1, words m.2)).mapM readMember = .ok l := by
  induction l with
  | nil => rfl
  | cons m r ih =>
    rw [List.map_cons, List.mapM_cons, ih, readMember, readList_words]
    rfl

/-- The lists that were there are read as they are, so one more list is all that is read anew. -/
theorem readWordLists_putMember (l : List (String × List String)) (sub : String) (v : Json) :
    readWordLists (.obj (putMember (l.map fun m => (m.1, words m.2)) sub v)) =
      (readList v).map fun xs => putMember l sub xs := by
  rw [readWordLists_obj]
  induction l with
  | nil =>
    rw [List.map_nil, putMember, List.mapM_cons, List.mapM_nil, readMember]
    cases readList v <;> rfl
  | cons m r ih =>
    simp only [List.map_cons, putMember]
    split
    · next hkey =>
      rw [List.mapM_cons, mapM_words, readMember]
      cases readList v <;> rfl
    · rw [List.mapM_cons, ih, readMember, readList_words]
      cases readList v <;> rfl

theorem readRules_putMember (l : List (String × String)) (sub : String) (v : Json) :
    readRules (.obj (putMember (l.map fun m => (m.1, .str m.2)) sub v)) = .ok (putMember l sub v.plain) := by
  have hplain : (l.map fun m => (m.1, Json.str m.2)).map (fun m => (m.1, m.2.plain)) = l := by
    rw [List.map_map]
    exact List.map_id'' (fun _ => rfl) l
  have hput := map_putMember Json.plain (l.map fun m => (m.1, Json.str m.2)) sub v
  rw [hplain] at hput
  exact congrArg Except.ok hput

/-- Three settings are objects. -/
theorem eq_of_value_obj (h : s.value k = .obj members) :
    k = .dictionary ∧ members = s.dictionary.map (fun m => (m.1, words m.2)) ∨
    k = .disabledChecks ∧ members = s.disabledChecks.map (fun m => (m.1, words m.2)) ∨
    k = .rules ∧ members = s.rules.map fun m => (m.1, .str m.2) := by
  cases k with
  | dictionary => exact .inl ⟨rfl, (Json.obj.inj h).symm⟩
  | disabledChecks => exact .inr (.inl ⟨rfl, (Json.obj.inj h).symm⟩)
  | rules => exact .inr (.inr ⟨rfl, (Json.obj.inj h).symm⟩)
  | languages | bundled | chunkSize | lookback | spellcheck | paginateLevel | caseSensitive | maxRetries | launchAttempts
  | requestTimeout | startupTimeout | logLevel | logFormat => cases h
  | jarLocation | host | port | boundaryWindow | onChange | root | main =>
    unfold value optional Option.elim at h
    dsimp only at h
    split at h <;> cases h

/-- In these objects there are no objects. -/
theorem get?_of_mem_value (h : s.value k = .obj members) {m : String × Json} (hm : m ∈ members) (name : String) :
    m.2.get? name = none := by
  rcases eq_of_value_obj h with ⟨-, rfl⟩ | ⟨-, rfl⟩ | ⟨-, rfl⟩
  all_goals
    obtain ⟨x, -, rfl⟩ := List.mem_map.1 hm
    rfl

/-- A member that is put into such an object is converted as it would be alone, and the others stay. -/
theorem exists_converted (hk : s.value k = .obj members) (h : s.take k (.obj (putMember members sub v)) = .ok t) :
    ∃ w, converted k (.obj [(sub, v)]) = .ok (.obj [(sub, w)]) ∧ t.value k = .obj (putMember members sub w) := by
  have hwords : ∀ l : List (String × List String), members = l.map (fun m => (m.1, words m.2)) →
      ((readWordLists (.obj (putMember members sub v))).map fun l => Json.obj (l.map fun m => (m.1, words m.2))).mapError
        Fault.mishap = .ok (t.value k) →
      ∃ w, ((readWordLists (.obj [(sub, v)])).map fun l => Json.obj (l.map fun m => (m.1, words m.2))).mapError
        Fault.mishap = .ok (.obj [(sub, w)]) ∧ t.value k = .obj (putMember members sub w) := by
    rintro l rfl hread
    have halone := readWordLists_putMember [] sub v
    rw [List.map_nil, putMember] at halone
    rw [readWordLists_putMember] at hread
    rw [halone]
    cases hv : readList v with
    | error m =>
      rw [hv] at hread
      cases hread
    | ok xs =>
      rw [hv] at hread
      have hvalue : Json.obj ((putMember l sub xs).map fun m => (m.1, words m.2)) = t.value k := Except.ok.inj hread
      exact ⟨words xs, rfl, by rw [← hvalue, map_putMember]⟩
  have hconverted := converted_of_take h
  rcases eq_of_value_obj hk with ⟨rfl, hmembers⟩ | ⟨rfl, hmembers⟩ | ⟨rfl, hmembers⟩
  · exact hwords _ hmembers hconverted
  · exact hwords _ hmembers hconverted
  · subst hmembers
    refine ⟨.str v.plain, rfl, ?_⟩
    unfold converted at hconverted
    dsimp only at hconverted
    rw [readRules_putMember] at hconverted
    have hvalue : Json.obj ((putMember s.rules sub v.plain).map fun m => (m.1, .str m.2)) = t.value .rules :=
      Except.ok.inj hconverted
    rw [← hvalue, map_putMember]

/-! ### Setting -/

theorem apply_name (s : Settings) (k : Key) (v : Json) : s.apply [(k.name, v)] =
    match s.put k v with
    | .ok t => ⟨t, [], none⟩
    | .error e => ⟨s, [], some e⟩ := by
  cases hput : s.put k v with
  | ok t => simp only [apply, Key.plainName_name, Key.ofName?_name, hput]
  | error e => simp only [apply, Key.plainName_name, Key.ofName?_name, hput]

theorem take_of_put (h : s.put k v = .ok t) : s.take k v = .ok t := by
  unfold put at h
  cases hv : s.take k v with
  | error e =>
    rw [hv] at h
    cases h
  | ok t' =>
    rw [hv] at h
    exact congrArg Except.ok (Except.ok.inj h)

theorem apply_name_cases (s : Settings) (k : Key) (v : Json) : (∃ e, s.apply [(k.name, v)] = ⟨s, [], some e⟩) ∨
    ∃ t, s.take k v = .ok t ∧ s.apply [(k.name, v)] = ⟨t, [], none⟩ := by
  rw [apply_name]
  cases hput : s.put k v with
  | error e => exact .inl ⟨e, rfl⟩
  | ok t => exact .inr ⟨t, take_of_put hput, rfl⟩

/-- A value is refused and nothing changes; or it is put in place of a setting, or into the object that a setting is. -/
theorem set_cases (s : Settings) (name : String) (v : Json) :
    (∃ e, s.set name v = ⟨s, [], some e⟩) ∨
    (∃ k t, (name = k.name ∨ name = k.name ++ ".") ∧ s.take k v = .ok t ∧ s.set name v = ⟨t, [], none⟩) ∨
    ∃ k sub members t, name = k.name ++ "." ++ sub ∧ sub ≠ "" ∧ s.value k = .obj members ∧
      s.take k (.obj (putMember members sub v)) = .ok t ∧ s.set name v = ⟨t, [], none⟩ := by
  rcases splitAtFirst_cases name with hsplit | ⟨head, sub, hname, hsplit⟩
  · cases hkey : Key.ofName? name with
    | none => exact .inl ⟨unknownKey name, by simp only [set, hsplit, hkey]⟩
    | some k =>
      obtain rfl := Key.eq_name_of_ofName? hkey
      have hset : s.set k.name v = s.apply [(k.name, v)] := by simp only [set, hsplit, hkey]
      rw [hset]
      exact (apply_name_cases s k v).imp_right fun ⟨t, h⟩ => .inl ⟨k, t, .inl rfl, h⟩
  · cases hkey : Key.ofName? head with
    | none => exact .inl ⟨unknownKey head, by simp only [set, hsplit, hkey]⟩
    | some k =>
      obtain rfl := Key.eq_name_of_ofName? hkey
      by_cases hsub : sub = ""
      · subst hsub
        have hset : s.set name v = s.apply [(k.name, v)] := by simp only [set, hsplit, hkey]
        rw [hset]
        exact (apply_name_cases s k v).imp_right fun ⟨t, h⟩ => .inl ⟨k, t, .inr (by simpa using hname), h⟩
      · by_cases hobj : ∃ members, s.value k = .obj members
        · obtain ⟨members, hobj⟩ := hobj
          have hset : s.set name v = s.apply [(k.name, .obj (putMember members sub v))] := by
            simp only [set, hsplit, hkey, hobj]
          rw [hset]
          exact (apply_name_cases s k _).imp_right fun ⟨t, h⟩ => .inr ⟨k, sub, members, t, hname, hsub, hobj, h⟩
        · refine .inl ⟨noSubKeys k.name, ?_⟩
          simp only [set, hsplit, hkey]
          split
          · next members hmembers => exact absurd ⟨members, hmembers⟩ hobj
          · rfl

/-! ### Reading back -/

theorem get?_name (s : Settings) (k : Key) : s.get? k.name = some (s.value k) := by
  simp only [get?, splitAtFirst_of_notMem k.dot_notMem_name, Key.ofName?_name]
  rfl

theorem get?_trailing (s : Settings) (k : Key) : s.get? (k.name ++ ".") = some (s.value k) := by
  have hsplit := splitAtFirst_append k.dot_notMem_name ""
  rw [String.append_empty] at hsplit
  simp only [get?, hsplit, Key.ofName?_name]
  rfl

/-- The value at the end of a path of names. -/
def follow (v : Json) (sub : String) : Option Json :=
  ((Text.splitWhen (· = '.') sub.toList).map String.ofList).foldlM (fun (v : Json) part => v.get? part) v

theorem get?_sub (hsub : sub ≠ "") (s : Settings) (k : Key) :
    s.get? (k.name ++ "." ++ sub) = follow (s.value k) sub := by
  simp only [get?, splitAtFirst_append k.dot_notMem_name, Key.ofName?_name, Option.bind_some]
  rfl

/-- A path of more than one name leads nowhere, for there are no objects in an object of words or of rules. -/
theorem get?_member (hsub : sub ≠ "") (hk : s.value k = .obj members) :
    s.get? (k.name ++ "." ++ sub) = if '.' ∈ sub.toList then none else members.lookup sub := by
  rw [get?_sub hsub, hk, follow]
  split
  · next hdot =>
    obtain ⟨a, b, hab, ha⟩ := List.eq_append_cons_of_mem hdot
    have hplain : ∀ c ∈ a, decide (c = '.') = false := by
      intro c hc
      rw [decide_eq_false_iff_not]
      rintro rfl
      exact ha hc
    obtain ⟨part, parts, hparts⟩ := List.exists_cons_of_ne_nil (Text.splitWhen_ne_nil (fun c => decide (c = '.')) b)
    rw [hab, Text.splitWhen_append hplain (by simp), hparts, List.map_cons, List.map_cons, List.foldlM_cons]
    cases hfirst : Json.get? (String.ofList a) (.obj members) with
    | none => rfl
    | some x =>
      have hx : x.get? (String.ofList part) = none :=
        get?_of_mem_value hk (mem_of_lookup hfirst) (String.ofList part)
      rw [Option.bind_eq_bind, Option.bind_some, List.foldlM_cons, hx]
      rfl
  · next hdot =>
    have hplain : ∀ c ∈ sub.toList, decide (c = '.') = false := by
      intro c hc
      rw [decide_eq_false_iff_not]
      rintro rfl
      exact hdot hc
    rw [Text.splitWhen_of_forall_not hplain, List.map_singleton, String.ofList_toList, List.foldlM_cons]
    exact bind_pure _

theorem get?_congr (h : t.value k = s.value k) (sub : String) :
    t.get? k.name = s.get? k.name ∧ t.get? (k.name ++ "." ++ sub) = s.get? (k.name ++ "." ++ sub) := by
  refine ⟨by rw [get?_name, get?_name, h], ?_⟩
  by_cases hsub : sub = ""
  · rw [hsub, String.append_empty, get?_trailing, get?_trailing, h]
  · rw [get?_sub hsub, get?_sub hsub, h]

/-- What is set is read back as it was converted: a whole setting, or one member of a setting that is an object, which is
converted as it would be alone. All other settings are read as before, and so are all other members. But a member with
a dot in its name is not found under it. If a value is refused, nothing changes. -/
theorem set_get (s : Settings) (name : String) (v : Json) :
    ((s.set name v).fault = none → ∃ k : Key,
      (∀ j ≠ k, ∀ sub, (s.set name v).settings.get? j.name = s.get? j.name ∧
        (s.set name v).settings.get? (j.name ++ "." ++ sub) = s.get? (j.name ++ "." ++ sub)) ∧
      ((name = k.name ∨ name = k.name ++ ".") ∧
          (∃ w, converted k v = .ok w ∧ (s.set name v).settings.get? name = some w) ∨
        ∃ sub, sub ≠ "" ∧ name = k.name ++ "." ++ sub ∧
          (∃ w, converted k (.obj [(sub, v)]) = .ok (.obj [(sub, w)]) ∧
            ((s.set name v).settings.value k).get? sub = some w ∧
            (s.set name v).settings.get? name = if '.' ∈ sub.toList then none else some w) ∧
          ∀ other ≠ sub, other ≠ "" →
            (s.set name v).settings.get? (k.name ++ "." ++ other) = s.get? (k.name ++ "." ++ other))) ∧
    ∀ e, (s.set name v).fault = some e → (s.set name v).settings = s := by
  rcases set_cases s name v with ⟨e, hset⟩ | ⟨k, t, hname, htake, hset⟩ | ⟨k, sub, members, t, hname, hsub, hk, htake, hset⟩
  · rw [hset]
    exact ⟨by simp, fun _ _ => rfl⟩
  · rw [hset]
    refine ⟨fun _ => ⟨k, fun j hj sub => get?_congr (value_take_of_ne htake hj) sub, .inl ⟨hname, _, converted_of_take htake, ?_⟩⟩,
      by simp⟩
    rcases hname with rfl | rfl
    · exact get?_name t k
    · exact get?_trailing t k
  · rw [hset]
    obtain ⟨w, hw, hvalue⟩ := exists_converted hk htake
    have hself : (putMember members sub w).lookup sub = some w := lookup_putMember_self members sub w
    refine ⟨fun _ => ⟨k, fun j hj sub => get?_congr (value_take_of_ne htake hj) sub,
      .inr ⟨sub, hsub, hname, ⟨w, hw, ?_, ?_⟩, fun other hother hne => ?_⟩⟩, by simp⟩
    · rw [hvalue]
      exact hself
    · rw [hname, get?_member hsub hvalue, hself]
    · rw [get?_member hne hvalue, get?_member hne hk, lookup_putMember_of_ne members hother]

/-- Words for one more language. -/
theorem set_get_words : (standard.set "dictionary.de" (.str "Typst, Markup")).fault = none ∧
    (standard.set "dictionary.de" (.str "Typst, Markup")).settings.get? "dictionary.de" = some (words ["Typst", "Markup"]) := by
  have haccepted : (standard.set "dictionary.de" (.str "Typst, Markup")).fault = none := rfl
  have hsplit : splitAtFirst '.' "dictionary.de" = ("dictionary", some "de") := rfl
  refine ⟨haccepted, ?_⟩
  obtain ⟨k, -, ⟨hname, -⟩ | ⟨sub, -, hname, ⟨w, hw, -, hget⟩, -⟩⟩ := (set_get standard _ _).1 haccepted
  · have hfirst := splitAtFirst_append k.dot_notMem_name ""
    rw [String.append_empty] at hfirst
    rcases hname with hname | hname
    · rw [hname, splitAtFirst_of_notMem k.dot_notMem_name] at hsplit
      simp at hsplit
    · rw [hname, hfirst] at hsplit
      simp at hsplit
  · rw [hname, splitAtFirst_append k.dot_notMem_name] at hsplit
    obtain ⟨hkey, rfl⟩ : k.name = "dictionary" ∧ sub = "de" := by simpa using hsplit
    obtain rfl : k = .dictionary := by
      have hof := Key.ofName?_name k
      rw [hkey] at hof
      exact (Option.some.inj hof).symm
    have hwords : w = words ["Typst", "Markup"] := by
      have hconverted : converted .dictionary (.obj [("de", .str "Typst, Markup")]) =
          .ok (.obj [("de", words ["Typst", "Markup"])]) := rfl
      rw [hconverted] at hw
      cases hw
      rfl
    rw [hget, hwords]
    rfl

/-- A member with a dot in its name is kept, and not found. -/
theorem get?_set_dots : (standard.set "dictionary.a.b" (.str "x")).fault = none ∧
    (standard.set "dictionary.a.b" (.str "x")).settings.dictionary = [("a.b", ["x"])] ∧
    (standard.set "dictionary.a.b" (.str "x")).settings.get? "dictionary.a.b" = none := ⟨by rfl, by rfl, by rfl⟩

end Settings

end Proofreader
