import Proofreader.Proofs.Extraction.Prose

/-! The tags under which languages are checked. A code holds no hyphen and a region is never an empty text, so a tag
tells the language, and no two checked texts of a document share one. -/

namespace Proofreader

/-- A language whose tag can be taken apart again. -/
structure Language.Plain (l : Language) : Prop where
  code : '-' ∉ l.code.toList
  region : l.region ≠ some ""

theorem eq_of_append_hyphen {a b r s : Text} (ha : '-' ∉ a) (hb : '-' ∉ b) (h : a ++ '-' :: r = b ++ '-' :: s) :
    a = b ∧ r = s := by
  induction a generalizing b with
  | nil =>
    cases b with
    | nil => exact ⟨rfl, (List.cons.inj h).2⟩
    | cons c b =>
      have hc := (List.cons.inj h).1
      exact absurd (hc ▸ List.mem_cons_self) hb
  | cons d a ih =>
    cases b with
    | nil =>
      have hd := (List.cons.inj h).1
      exact absurd (hd ▸ List.mem_cons_self) ha
    | cons c b =>
      obtain ⟨hdc, hrest⟩ := List.cons.inj h
      obtain ⟨hab, hrs⟩ := ih (fun hm => ha (List.mem_cons_of_mem _ hm)) (fun hm => hb (List.mem_cons_of_mem _ hm)) hrest
      exact ⟨by rw [hdc, hab], hrs⟩

namespace Language

variable {l k : Language}

theorem Plain.toList_tag (h : l.Plain) : l.tag.toList = l.code.toList ++
    match l.region with
    | some region => '-' :: region.toList
    | none => [] := by
  unfold tag
  cases hr : l.region with
  | none => simp
  | some region =>
    have hne : region ≠ "" := fun he => h.region (hr.trans (congrArg some he))
    simp [Option.filter, hne]

/-- A tag tells its language. -/
theorem Plain.eq_of_tag (hl : l.Plain) (hk : k.Plain) (h : l.tag = k.tag) : l = k := by
  have hlist := congrArg String.toList h
  rw [hl.toList_tag, hk.toList_tag] at hlist
  obtain ⟨code, region⟩ := l
  obtain ⟨code', region'⟩ := k
  cases region with
  | none =>
    cases region' with
    | none =>
      have hcode : code = code' := by
        rw [List.append_nil, List.append_nil] at hlist
        exact String.toList_injective hlist
      rw [hcode]
    | some s =>
      have hmem : '-' ∈ code.toList := by
        rw [List.append_nil] at hlist
        rw [hlist]
        simp
      exact absurd hmem hl.code
  | some r =>
    cases region' with
    | none =>
      have hmem : '-' ∈ code'.toList := by
        rw [List.append_nil] at hlist
        rw [← hlist]
        simp
      exact absurd hmem hk.code
    | some s =>
      obtain ⟨hcode, hregion⟩ := eq_of_append_hyphen hl.code hk.code hlist
      have hcode' : code = code' := String.toList_injective hcode
      rw [hcode', String.toList_injective hregion]

end Language

theorem upperChar_ne_nil (c : Char) : upperChar c ≠ [] := by
  have hexpansions : ∀ x ∈ upperTable.expansions, x.2 ≠ [] := by decide
  unfold upperChar
  split
  · exact List.cons_ne_nil _ _
  · unfold CaseTable.apply
    split
    · next cs hcs =>
      obtain ⟨before, after, he, -⟩ := List.lookup_eq_some_iff.1 hcs
      have hne := hexpansions (c.toNat, cs) (by rw [he]; simp)
      simpa using hne
    · split
      · split
        · exact List.cons_ne_nil _ _
        · exact List.cons_ne_nil _ _
      · exact List.cons_ne_nil _ _

theorem upperCase_ne_empty {s : String} (h : s ≠ "") : upperCase s ≠ "" := by
  intro he
  have hupper : Text.upper s.toList = [] := by
    have := congrArg String.toList he
    simpa [upperCase] using this
  cases hs : s.toList with
  | nil => exact h (String.toList_injective hs)
  | cons c r =>
    rw [hs, Text.upper, List.flatMap_cons, List.append_eq_nil_iff] at hupper
    exact upperChar_ne_nil c hupper.1

namespace Resolver

/-- Every profile that can be checked has a tag of its own. -/
structure Plain (r : Resolver) : Prop where
  supported : ∀ code ∈ r.supported, '-' ∉ code.toList
  preferences : ∀ l ∈ r.preferences, l.region ≠ some ""

theorem plain_ofSettings (preferences : List String) (dictionary disabled : List (String × List String)) :
    (ofSettings preferences dictionary disabled supportedCodes).Plain where
  supported := by
    have hcodes : ∀ code ∈ supportedCodes.map lowerCase, '-' ∉ code.toList := by decide +kernel
    exact hcodes
  preferences := by
    intro l hl
    obtain ⟨tag, -, rfl⟩ := List.mem_map.1 hl
    simp only [Language.ofTag, nonEmpty?]
    split <;> simp_all

variable {r : Resolver}

theorem Plain.profile (h : r.Plain) {l : Language} (hl : (r.profile l).resolved = true) : (r.profile l).language.Plain := by
  unfold Resolver.profile at hl ⊢
  dsimp only at hl ⊢
  split at hl
  · next hcode =>
    rw [if_pos hcode]
    refine ⟨h.supported _ (List.contains_iff_mem.1 hcode), ?_⟩
    dsimp only [Profile.language]
    split
    · next region hregion =>
      obtain ⟨-, hne⟩ := Option.filter_eq_some_iff.1 hregion
      intro he
      exact upperCase_ne_empty (by simpa using hne) (Option.some.inj he)
    · intro he
      obtain ⟨k, hk, hregion⟩ := Option.bind_eq_some_iff.1 he
      exact h.preferences k (List.mem_of_find?_eq_some hk) hregion
  · cases hl

/-- Everything else about a language that can be checked follows from its code and its region. -/
theorem exists_profile (r : Resolver) : ∃ build : Language → Profile, ∀ l, (r.profile l).resolved = true →
    r.profile l = build (r.profile l).language := by
  refine ⟨fun l => ⟨l.code, l.region,
    listed r.dictionary (l.code :: ((l.region.filter (· ≠ "")).map fun g => lowerCase (l.code ++ "-" ++ g)).toList),
    listed r.disabled (l.code :: ((l.region.filter (· ≠ "")).map fun g => lowerCase (l.code ++ "-" ++ g)).toList), true⟩,
    fun l hl => ?_⟩
  unfold Resolver.profile at hl ⊢
  dsimp only at hl ⊢
  split at hl
  · next hcode =>
    rw [if_pos hcode]
    rfl
  · cases hl

theorem profile_eq_of_language {l k : Language} (hl : (r.profile l).resolved = true) (hk : (r.profile k).resolved = true)
    (h : (r.profile l).language = (r.profile k).language) : r.profile l = r.profile k := by
  obtain ⟨build, hbuild⟩ := r.exists_profile
  calc r.profile l = build (r.profile l).language := hbuild l hl
    _ = build (r.profile k).language := by rw [h]
    _ = r.profile k := (hbuild k hk).symm

end Resolver

variable {table : Table} {r : Resolver} {language : Language} {root : Node} {t : CheckedText}

theorem Extracting.exists_profile (r : Resolver) (ss : List Segment) {key : Language} {d : Draft}
    (h : (key, d) ∈ (Extracting.run r ss).drafts) : ∃ p, .piece p ∈ ss ∧ d.profile = r.profile p.language := by
  induction ss using List.reverseRecOn generalizing key d with
  | nil => cases h
  | append_singleton ss x ih =>
    have hearlier : ∀ {d : Draft}, (∃ p, .piece p ∈ ss ∧ d.profile = r.profile p.language) →
        ∃ p, .piece p ∈ ss ++ [x] ∧ d.profile = r.profile p.language := fun ⟨p, hp, he⟩ => ⟨p, List.mem_append_left _ hp, he⟩
    rw [Extracting.run, List.foldl_append, List.foldl_cons, List.foldl_nil] at h
    change (key, d) ∈ ((Extracting.run r ss).step r x).drafts at h
    cases x with
    | separator l page =>
      simp only [Extracting.step, List.mem_map, Prod.mk.injEq, Prod.exists] at h
      obtain ⟨k, e, he, rfl, rfl⟩ := h
      exact hearlier (ih (d := e) he)
    | piece p =>
      rw [Extracting.step_piece_drafts] at h
      rcases Extracting.mem_update (Extracting.run_tracks r ss).nodup h with ⟨-, hm⟩ | ⟨-, e, hm, rfl⟩ | ⟨-, -, rfl⟩
      · exact hearlier (ih hm)
      · rw [Draft.append_profile]
        exact hearlier (ih (d := e) hm)
      · rw [Draft.append_profile]
        exact ⟨p, by simp, rfl⟩

/-- The profile of a text is that of a piece. -/
theorem exists_profile_of_mem_texts (h : t ∈ (extract table r language root).texts) :
    ∃ p, .piece p ∈ root.segments table language ∧ t.profile = r.profile p.language := by
  obtain ⟨key, d, hd, -, rfl⟩ := mem_texts.1 h
  exact Extracting.exists_profile r _ hd

/-- The texts that are checked have tags of their own. -/
theorem nodup_tags (hr : r.Plain) :
    (((extract table r language root).texts.filter (·.profile.resolved)).map (·.profile.tag)).Nodup := by
  have hkeys : (extract table r language root).texts.Pairwise (·.key ≠ ·.key) := List.pairwise_map.1 nodup_keys
  refine List.pairwise_map.2 ((hkeys.filter _).imp_of_mem fun {t u} ht hu hne htag => hne ?_)
  have hplain : ∀ t ∈ (extract table r language root).texts.filter (·.profile.resolved), t.profile.language.Plain := by
    intro t ht
    obtain ⟨ht, hresolved⟩ := List.mem_filter.1 ht
    obtain ⟨p, -, hp⟩ := exists_profile_of_mem_texts ht
    rw [hp] at hresolved ⊢
    exact hr.profile hresolved
  exact (hplain t ht).eq_of_tag (hplain u hu) htag

/-- Texts that are checked under one tag are checked alike, in whatever documents they stand. -/
theorem profile_eq_of_tag (hr : r.Plain) {root' : Node} {u : CheckedText}
    (ht : t ∈ (extract table r language root).texts.filter (·.profile.resolved))
    (hu : u ∈ (extract table r language root').texts.filter (·.profile.resolved)) (h : t.profile.tag = u.profile.tag) :
    t.profile = u.profile := by
  obtain ⟨ht, hresolved⟩ := List.mem_filter.1 ht
  obtain ⟨hu, hresolved'⟩ := List.mem_filter.1 hu
  obtain ⟨p, -, hp⟩ := exists_profile_of_mem_texts ht
  obtain ⟨q, -, hq⟩ := exists_profile_of_mem_texts hu
  rw [hp] at hresolved h ⊢
  rw [hq] at hresolved' h ⊢
  exact Resolver.profile_eq_of_language hresolved hresolved' ((hr.profile hresolved).eq_of_tag (hr.profile hresolved') h)

end Proofreader
