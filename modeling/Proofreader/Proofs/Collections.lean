import Mathlib.Data.List.Basic
import Mathlib.Data.List.Chain
import Mathlib.Tactic.Common
import Proofreader.Json.Value

/-! Lists as they grow, tables of pairs, and traversals that can fail. -/

namespace Proofreader

/-! ### Lists

What stands between two places of a list, as the list grows at either end. -/

section Lists

/-- Something strictly between the places `i` and `j` satisfies `P`. -/
def Between {α : Type} (xs : List α) (P : α → Prop) (i j : Nat) : Prop :=
  ∃ m x, i < m ∧ m < j ∧ xs[m]? = some x ∧ P x

variable {α β : Type} {xs : List α} {P : α → Prop} {i j : Nat}

theorem between_append_left (ys : List α) (h : j ≤ xs.length) : Between (xs ++ ys) P i j ↔ Between xs P i j := by
  constructor
  · rintro ⟨m, y, him, hmj, hy, hp⟩
    rw [List.getElem?_append_left (by omega)] at hy
    exact ⟨m, y, him, hmj, hy, hp⟩
  · rintro ⟨m, y, him, hmj, hy, hp⟩
    refine ⟨m, y, him, hmj, ?_, hp⟩
    rw [List.getElem?_append_left (by omega)]
    exact hy

theorem Between.append_right (xs : List α) {ys : List α} (h : Between ys P i j) :
    Between (xs ++ ys) P (xs.length + i) (xs.length + j) := by
  obtain ⟨m, y, him, hmj, hy, hp⟩ := h
  refine ⟨xs.length + m, y, by omega, by omega, ?_, hp⟩
  rw [List.getElem?_append_right (by omega), Nat.add_sub_cancel_left]
  exact hy

/-- Places further apart have more between them. -/
theorem Between.mono (h : Between xs P i j) {k l : Nat} (hk : k ≤ i) (hl : j ≤ l) : Between xs P k l := by
  obtain ⟨m, y, him, hmj, hy, hp⟩ := h
  exact ⟨m, y, by omega, by omega, hy, hp⟩

theorem between_snoc (x : α) (h : i < xs.length) :
    Between (xs ++ [x]) P i (xs.length + 1) ↔ Between xs P i xs.length ∨ P x := by
  rw [← between_append_left [x] (Nat.le_refl xs.length)]
  constructor
  · rintro ⟨m, y, him, hmj, hy, hp⟩
    by_cases hm : m = xs.length
    · subst hm
      rw [List.getElem?_append_right (Nat.le_refl _), Nat.sub_self, List.getElem?_cons_zero, Option.some.injEq] at hy
      exact Or.inr (hy ▸ hp)
    · exact Or.inl ⟨m, y, him, by omega, hy, hp⟩
  · rintro (⟨m, y, him, hmj, hy, hp⟩ | hp)
    · exact ⟨m, y, him, by omega, hy, hp⟩
    · exact ⟨xs.length, x, h, Nat.lt_succ_self _, by simp, hp⟩

theorem not_between_succ (xs : List α) (P : α → Prop) (i : Nat) : ¬ Between xs P i (i + 1) := by
  rintro ⟨m, x, him, hmj, -⟩
  omega

theorem between_map (f : α → β) {Q : β → Prop} : Between (xs.map f) Q i j ↔ Between xs (fun x => Q (f x)) i j := by
  simp [Between]

theorem Between.imp {Q : α → Prop} (h : ∀ x, P x → Q x) (hb : Between xs P i j) : Between xs Q i j := by
  obtain ⟨m, x, him, hmj, hx, hp⟩ := hb
  exact ⟨m, x, him, hmj, hx, h x hp⟩

theorem Between.split {k : Nat} (h : Between xs P i j) :
    Between xs P i k ∨ (∃ x, xs[k]? = some x ∧ P x) ∨ Between xs P k j := by
  obtain ⟨m, x, him, hmj, hx, hp⟩ := h
  rcases Nat.lt_trichotomy m k with hlt | rfl | hlt
  · exact Or.inl ⟨m, x, him, hlt, hx, hp⟩
  · exact Or.inr (Or.inl ⟨x, hx, hp⟩)
  · exact Or.inr (Or.inr ⟨m, x, hlt, hmj, hx, hp⟩)

theorem isChain_snoc {R : α → α → Prop} {x : α} :
    (xs ++ [x]).IsChain R ↔ xs.IsChain R ∧ ∀ y ∈ xs.getLast?, R y x := by
  rw [List.isChain_append]
  simp

/-- A list that grows at its end is split at its last element or before it. -/
theorem snoc_eq_append_cons {before after : List α} {x y : α} : xs ++ [x] = before ++ y :: after ↔
    before = xs ∧ y = x ∧ after = [] ∨ ∃ r, after = r ++ [x] ∧ xs = before ++ y :: r := by
  constructor
  · intro h
    rcases List.eq_nil_or_concat' after with rfl | ⟨r, z, rfl⟩
    · obtain ⟨rfl, hlast⟩ := List.append_inj' h rfl
      cases hlast
      exact Or.inl ⟨rfl, rfl, rfl⟩
    · rw [← List.cons_append, ← List.append_assoc] at h
      obtain ⟨rfl, hlast⟩ := List.append_inj' h rfl
      cases hlast
      exact Or.inr ⟨r, rfl, rfl⟩
  · rintro (⟨rfl, rfl, rfl⟩ | ⟨r, rfl, rfl⟩)
    · rfl
    · rw [List.append_assoc, List.cons_append]

end Lists

/-! ### Repetitions

What remains stands in the old order, once each. -/

section Repetitions

variable {α : Type} [BEq α]

theorem eraseDups_sublist (l : List α) : l.eraseDups.Sublist l := by
  match l with
  | [] => exact .slnil
  | a :: r =>
    rw [List.eraseDups_cons]
    exact .cons_cons a ((eraseDups_sublist _).trans List.filter_sublist)
termination_by l.length
decreasing_by exact Nat.lt_succ_of_le (List.length_filter_le _ _)

theorem nodup_eraseDups [LawfulBEq α] (l : List α) : l.eraseDups.Nodup := by
  match l with
  | [] => exact .nil
  | a :: r =>
    rw [List.eraseDups_cons, List.nodup_cons]
    refine ⟨fun ha => ?_, nodup_eraseDups _⟩
    have hne := (List.mem_filter.1 (List.mem_eraseDups.1 ha)).2
    simp at hne
termination_by l.length
decreasing_by exact Nat.lt_succ_of_le (List.length_filter_le _ _)

theorem eraseDups_of_nodup [LawfulBEq α] {l : List α} (h : l.Nodup) : l.eraseDups = l := by
  induction l with
  | nil => rfl
  | cons a r ih =>
    obtain ⟨ha, hr⟩ := List.nodup_cons.1 h
    have hothers : (r.filter fun b => !b == a) = r :=
      List.filter_eq_self.2 fun b hb => by simpa using fun he : b = a => ha (he ▸ hb)
    rw [List.eraseDups_cons, hothers, ih hr]

/-- Items that are there already add nothing. -/
theorem eraseDups_eraseDups_append [LawfulBEq α] (l : List α) : (l.eraseDups ++ l).eraseDups = l.eraseDups := by
  have hnone : l.removeAll l.eraseDups = [] :=
    List.filter_eq_nil_iff.2 fun a ha => by simpa using List.mem_eraseDups.2 ha
  rw [List.eraseDups_append, hnone, eraseDups_of_nodup (nodup_eraseDups l), List.eraseDups_nil, List.append_nil]

/-- A sorted list becomes strictly increasing. -/
theorem pairwise_lt_eraseDups {l : List Nat} (h : l.Pairwise (· ≤ ·)) : l.eraseDups.Pairwise (· < ·) :=
  ((h.sublist (eraseDups_sublist l)).and (nodup_eraseDups l)).imp fun ⟨hle, hne⟩ => Nat.lt_of_le_of_ne hle hne

/-- Under different keys every item is found, and once. -/
theorem flatMap_filter_perm {ι κ : Type} [DecidableEq κ] (key : ι → κ) {keys : List κ} {items : List ι}
    (hkeys : keys.Nodup) (h : ∀ x ∈ items, key x ∈ keys) :
    (keys.flatMap fun k => items.filter fun x => decide (key x = k)).Perm items := by
  induction keys generalizing items with
  | nil =>
    have hitems : items = [] := List.eq_nil_iff_forall_not_mem.2 fun x hx => List.not_mem_nil (h x hx)
    rw [hitems]
    exact .nil
  | cons k r ih =>
    obtain ⟨hk, hr⟩ := List.nodup_cons.1 hkeys
    have hothers : (r.flatMap fun j => items.filter fun x => decide (key x = j)).Perm
        (items.filter fun x => !decide (key x = k)) := by
      refine .trans (.of_eq ?_) (ih hr fun x hx => ?_)
      · refine List.flatMap_congr fun j hj => ?_
        rw [List.filter_filter]
        refine List.filter_congr fun x _ => ?_
        by_cases hx : key x = j
        · have hjk : j ≠ k := fun he => hk (he ▸ hj)
          simp [hx, hjk]
        · simp [hx]
      · obtain ⟨hx, hne⟩ := List.mem_filter.1 hx
        exact (List.mem_cons.1 (h x hx)).resolve_left (by simpa using hne)
    exact (hothers.append_left _).trans (List.filter_append_perm _ items)

/-- Groups of items with one key each, for different keys: the keys come back in their order. -/
theorem eraseDups_map_flatMap {ι κ : Type} [BEq κ] [LawfulBEq κ] {key : ι → κ} {group : κ → List ι} {keys : List κ}
    (hkeys : keys.Nodup) (hne : ∀ k ∈ keys, group k ≠ []) (hkey : ∀ k ∈ keys, ∀ x ∈ group k, key x = k) :
    ((keys.flatMap group).map key).eraseDups = keys := by
  induction keys with
  | nil => rfl
  | cons k r ih =>
    obtain ⟨hk, hr⟩ := List.nodup_cons.1 hkeys
    have hrest := ih hr (fun j hj => hne j (List.mem_cons_of_mem _ hj)) (fun j hj => hkey j (List.mem_cons_of_mem _ hj))
    obtain ⟨x, xs, hgroup⟩ := List.exists_cons_of_ne_nil (hne k List.mem_cons_self)
    have hfirst := hkey k List.mem_cons_self
    rw [hgroup] at hfirst
    have hnone : (xs.map key).filter (fun j => !j == k) = [] := by
      refine List.filter_eq_nil_iff.2 fun j hj => ?_
      obtain ⟨y, hy, rfl⟩ := List.mem_map.1 hj
      simp [hfirst y (List.mem_cons_of_mem _ hy)]
    have hothers : ((r.flatMap group).map key).filter (fun j => !j == k) = (r.flatMap group).map key := by
      refine List.filter_eq_self.2 fun j hj => ?_
      obtain ⟨y, hy, rfl⟩ := List.mem_map.1 hj
      obtain ⟨i, hi, hy⟩ := List.mem_flatMap.1 hy
      have hyk : key y ≠ k := by
        rw [hkey i (List.mem_cons_of_mem _ hi) y hy]
        intro he
        exact hk (he ▸ hi)
      simpa using hyk
    rw [List.flatMap_cons, hgroup, List.map_append, List.map_cons, List.cons_append, hfirst x List.mem_cons_self,
      List.eraseDups_cons, List.filter_append, hnone, List.nil_append, hothers, hrest]

/-- The group of a key is found again by the key. -/
theorem filter_flatMap {ι κ : Type} [DecidableEq κ] {key : ι → κ} {group : κ → List ι} {keys : List κ} {k : κ}
    (hkeys : keys.Nodup) (hk : k ∈ keys) (hkey : ∀ k ∈ keys, ∀ x ∈ group k, key x = k) :
    (keys.flatMap group).filter (fun x => key x = k) = group k := by
  induction keys with
  | nil => cases hk
  | cons j r ih =>
    obtain ⟨hj, hr⟩ := List.nodup_cons.1 hkeys
    have hothers : ∀ i ∈ r, ∀ x ∈ group i, key x = i := fun i hi => hkey i (List.mem_cons_of_mem _ hi)
    rw [List.flatMap_cons, List.filter_append]
    rcases List.mem_cons.1 hk with rfl | hk
    · have hall : (group k).filter (fun x => key x = k) = group k :=
        List.filter_eq_self.2 fun x hx => by simpa using hkey k List.mem_cons_self x hx
      have hnone : (r.flatMap group).filter (fun x => key x = k) = [] := by
        refine List.filter_eq_nil_iff.2 fun x hx => ?_
        obtain ⟨i, hi, hx⟩ := List.mem_flatMap.1 hx
        have hik : i ≠ k := fun he => hj (he ▸ hi)
        simpa [hothers i hi x hx] using hik
      rw [hall, hnone, List.append_nil]
    · have hnone : (group j).filter (fun x => key x = k) = [] := by
        refine List.filter_eq_nil_iff.2 fun x hx => ?_
        have hjk : j ≠ k := fun he => hj (he ▸ hk)
        simpa [hkey j List.mem_cons_self x hx] using hjk
      rw [hnone, List.nil_append, ih hr hk hothers]

end Repetitions

/-! ### Tables

Lists of pairs as tables: what a key is looked up as, and the keys and the members after a member is put. -/

section Tables

theorem mem_of_lookup {α β : Type} [BEq α] [LawfulBEq α] {l : List (α × β)} {k : α} {v : β} (h : l.lookup k = some v) : (k, v) ∈ l := by
  obtain ⟨before, after, rfl, -⟩ := List.lookup_eq_some_iff.1 h
  simp

variable {β : Type} {l : List (String × β)} {k : String} {v : β}

theorem lookup_map {α γ κ : Type} [DecidableEq κ] (f : α → κ) (g : α → γ) (l : List α) (key : κ) :
    (l.map fun x => (f x, g x)).lookup key = (l.find? fun x => decide (f x = key)).map g := by
  induction l with
  | nil => rfl
  | cons x r ih =>
    rw [List.map_cons, List.lookup_cons, List.find?_cons, ih]
    by_cases hx : f x = key
    · simp [hx]
    · have hx' : (key == f x) = false := by simpa using fun he : key = f x => hx he.symm
      rw [hx', decide_eq_false hx]

theorem lookup_mapSnd {α : Type} (g : α → β) (l : List (String × α)) (k : String) :
    (l.map fun x => (x.1, g x.2)).lookup k = (l.lookup k).map g := by
  induction l with
  | nil => rfl
  | cons x r ih =>
    rw [List.map_cons, List.lookup_cons, List.lookup_cons, ih]
    cases k == x.1 with
    | true => rfl
    | false => rfl

/-- One key has another value. -/
theorem lookup_overwrite (l : List (String × β)) (k other : String) (v : β) :
    (l.map fun x => if x.1 = k then (k, v) else x).lookup other =
      if other = k then (l.lookup k).map fun _ => v else l.lookup other := by
  induction l with
  | nil => simp
  | cons x r ih =>
    rw [List.map_cons, List.lookup_cons, ih, List.lookup_cons, List.lookup_cons]
    by_cases hx : x.1 = k
    · by_cases ho : other = k
      · simp [hx, ho]
      · have hbeq : (other == k) = false := by simpa using ho
        simp [hx, ho, hbeq]
    · by_cases ho : other = k
      · have hbeq : (k == x.1) = false := by simpa using fun he : k = x.1 => hx he.symm
        simp [hx, ho, hbeq]
      · simp [hx, ho]

theorem any_key (l : List (String × β)) (k : String) : (l.any fun x => decide (x.1 = k)) = (l.lookup k).isSome := by
  induction l with
  | nil => rfl
  | cons x r ih =>
    rw [List.any_cons, List.lookup_cons, ih]
    by_cases hx : x.1 = k
    · simp [hx]
    · have hbeq : (k == x.1) = false := by simpa using fun he : k = x.1 => hx he.symm
      simp [hx, hbeq]

theorem lookup_of_mem (hkeys : (l.map Prod.fst).Nodup) (h : (k, v) ∈ l) : l.lookup k = some v := by
  induction l with
  | nil => cases h
  | cons x r ih =>
    obtain ⟨j, w⟩ := x
    rw [List.map_cons, List.nodup_cons] at hkeys
    rcases List.mem_cons.1 h with he | hr
    · cases he
      exact List.lookup_cons_self
    · have hjk : k ≠ j := by
        rintro rfl
        exact hkeys.1 (List.mem_map.2 ⟨_, hr, rfl⟩)
      have hbeq : (k == j) = false := by simpa using hjk
      rw [List.lookup_cons, hbeq]
      exact ih hkeys.2 hr

/-- A key is looked up as the value that all its members have, if it has any. -/
theorem lookup_eq {o : Option β} (h : ∀ w, (k, w) ∈ l → o = some w) (ho : ∀ w, o = some w → ∃ w', (k, w') ∈ l) :
    l.lookup k = o := by
  cases hl : l.lookup k with
  | some w => exact (h w (mem_of_lookup hl)).symm
  | none =>
    cases o with
    | none => rfl
    | some w =>
      obtain ⟨w', hw⟩ := ho w rfl
      have := List.lookup_eq_none_iff.1 hl _ hw
      simp at this

/-- The order of the members does not matter. -/
theorem lookup_perm {l' : List (String × β)} (hkeys : (l.map Prod.fst).Nodup) (h : l.Perm l') (k : String) :
    l'.lookup k = l.lookup k :=
  lookup_eq (fun _ hw => lookup_of_mem hkeys (h.mem_iff.2 hw)) fun w hw => ⟨w, h.mem_iff.1 (mem_of_lookup hw)⟩

theorem keys_putMember (l : List (String × β)) (k : String) (v : β) : (putMember l k v).map Prod.fst =
    if k ∈ l.map Prod.fst then l.map Prod.fst else l.map Prod.fst ++ [k] := by
  induction l with
  | nil => rfl
  | cons x r ih =>
    obtain ⟨j, w⟩ := x
    by_cases hj : j = k
    · simp [putMember, hj]
    · have hj' : k ≠ j := fun h => hj h.symm
      simp only [putMember, if_neg hj, List.map_cons, ih, List.mem_cons, hj', false_or]
      split <;> simp

/-- A key that is put behind others only if it is not among them. -/
theorem nodup_put {α : Type} [DecidableEq α] {ks : List α} (h : ks.Nodup) (k : α) :
    (if k ∈ ks then ks else ks ++ [k]).Nodup := by
  split
  · exact h
  · next hk =>
    refine List.nodup_append.2 ⟨h, by simp, fun a ha b hb => ?_⟩
    rw [List.mem_singleton] at hb
    rintro rfl
    exact hk (hb ▸ ha)

theorem nodup_putMember (h : (l.map Prod.fst).Nodup) (k : String) (v : β) : ((putMember l k v).map Prod.fst).Nodup := by
  rw [keys_putMember]
  exact nodup_put h k

theorem mem_of_mem_putMember {x : String × β} (h : x ∈ putMember l k v) : x ∈ l ∨ x = (k, v) := by
  induction l with
  | nil => exact Or.inr (List.mem_singleton.1 h)
  | cons y r ih =>
    rw [putMember] at h
    split at h
    · next hk =>
      rw [hk] at h
      exact (List.mem_cons.1 h).symm.imp (List.mem_cons_of_mem _) id
    · rcases List.mem_cons.1 h with rfl | h
      · exact Or.inl List.mem_cons_self
      · exact (ih h).imp (List.mem_cons_of_mem _) id

theorem mem_of_mem_ofMembers {x : String × β} (h : x ∈ ofMembers l) : x ∈ l := by
  have hfold : ∀ (ms : List (String × β)), x ∈ l.foldl (fun ms m => putMember ms m.1 m.2) ms → x ∈ ms ∨ x ∈ l := by
    clear h
    induction l with
    | nil => exact fun _ => Or.inl
    | cons y r ih =>
      intro ms h
      rcases ih _ h with h | h
      · rcases mem_of_mem_putMember h with h | rfl
        · exact Or.inl h
        · exact Or.inr List.mem_cons_self
      · exact Or.inr (List.mem_cons_of_mem _ h)
  exact (hfold [] h).resolve_left List.not_mem_nil

theorem putMember_of_notMem (h : k ∉ l.map Prod.fst) : putMember l k v = l ++ [(k, v)] := by
  induction l with
  | nil => rfl
  | cons x r ih =>
    rw [List.map_cons, List.mem_cons, not_or] at h
    rw [putMember, if_neg fun he => h.1 he.symm, ih h.2, List.cons_append]

/-- Where no key stands twice there is nothing to replace. -/
theorem ofMembers_of_nodup (h : (l.map Prod.fst).Nodup) : ofMembers l = l := by
  have hfold : ∀ ms : List (String × β), ((ms ++ l).map Prod.fst).Nodup →
      l.foldl (fun ms m => putMember ms m.1 m.2) ms = ms ++ l := by
    clear h
    induction l with
    | nil => exact fun ms _ => (List.append_nil ms).symm
    | cons x r ih =>
      intro ms hms
      have hx : x.1 ∉ ms.map Prod.fst := by
        rw [List.map_append, List.map_cons] at hms
        intro hx
        exact (List.nodup_append.1 hms).2.2 _ hx _ List.mem_cons_self rfl
      rw [List.foldl_cons, putMember_of_notMem hx, ih _ (by simpa using hms), List.append_assoc]
      rfl
  exact hfold [] h

theorem lookup_putMember_self (l : List (String × β)) (k : String) (v : β) : (putMember l k v).lookup k = some v := by
  induction l with
  | nil => simp [putMember]
  | cons x r ih =>
    rw [putMember]
    split
    · next hk => rw [hk, List.lookup_cons_self]
    · next hk => rw [List.lookup_cons, beq_eq_false_iff_ne.2 (Ne.symm hk), ih]

theorem lookup_putMember_of_ne (l : List (String × β)) {j : String} (h : j ≠ k) (v : β) :
    (putMember l k v).lookup j = l.lookup j := by
  induction l with
  | nil => simp [putMember, List.lookup_cons, beq_eq_false_iff_ne.2 h]
  | cons x r ih =>
    rw [putMember]
    split
    · next hk => rw [List.lookup_cons, List.lookup_cons, hk, beq_eq_false_iff_ne.2 h]
    · rw [List.lookup_cons, List.lookup_cons, ih]

/-- Taking the members of one key away leaves those of the others. -/
theorem lookup_filter_ne (l : List (String × β)) {j : String} (h : j ≠ k) :
    (l.filter (·.1 ≠ k)).lookup j = l.lookup j := by
  induction l with
  | nil => rfl
  | cons x r ih =>
    by_cases hx : x.1 = k
    · rw [List.filter_cons_of_neg (by simp [hx]), List.lookup_cons, hx, beq_eq_false_iff_ne.2 h, ih]
    · rw [List.filter_cons_of_pos (by simp [hx]), List.lookup_cons, List.lookup_cons, ih]

theorem map_putMember {γ : Type} (f : β → γ) (l : List (String × β)) (k : String) (v : β) :
    (putMember l k v).map (fun m => (m.1, f m.2)) = putMember (l.map fun m => (m.1, f m.2)) k (f v) := by
  induction l with
  | nil => rfl
  | cons y r ih =>
    rw [putMember, List.map_cons, putMember]
    split
    · rfl
    · rw [List.map_cons, ih]

/-- The same values are kept whatever is made of them. -/
theorem map_ofMembers {γ : Type} (f : β → γ) (l : List (String × β)) :
    (ofMembers l).map (fun m => (m.1, f m.2)) = ofMembers (l.map fun m => (m.1, f m.2)) := by
  have hfold : ∀ ms : List (String × β), (l.foldl (fun ms m => putMember ms m.1 m.2) ms).map (fun m => (m.1, f m.2)) =
      (l.map fun m => (m.1, f m.2)).foldl (fun ms m => putMember ms m.1 m.2) (ms.map fun m => (m.1, f m.2)) := by
    induction l with
    | nil => exact fun _ => rfl
    | cons y r ih =>
      intro ms
      rw [List.foldl_cons, ih, map_putMember]
      rfl
  exact hfold []

end Tables

/-! ### Traversals

What can fail has not failed where it gives a result; traversals do not fail where no step does. -/

section Traversals

variable {α β ε : Type} {l : List α}

theorem exists_of_bind {x : Except ε α} {f : α → Except ε β} {b : β} (h : x >>= f = .ok b) :
    ∃ a, x = .ok a ∧ f a = .ok b := by
  cases x with
  | error e => cases h
  | ok a => exact ⟨a, rfl, h⟩

theorem eq_ok_of_toOption_map {o : Except ε α} {f : α → β} {b : β} (h : o.toOption.map f = some b) :
    ∃ a, o = .ok a ∧ f a = b := by
  cases o with
  | error e => cases h
  | ok a =>
    cases h
    exact ⟨a, rfl, rfl⟩

theorem exists_mapM {f : α → Except ε β} (h : ∀ a ∈ l, ∃ b, f a = .ok b) : ∃ bs, l.mapM f = .ok bs := by
  induction l with
  | nil => exact ⟨[], rfl⟩
  | cons a r ih =>
    obtain ⟨b, hb⟩ := h a List.mem_cons_self
    obtain ⟨bs, hbs⟩ := ih fun c hc => h c (List.mem_cons_of_mem _ hc)
    refine ⟨b :: bs, ?_⟩
    rw [List.mapM_cons, hb, hbs]
    rfl

/-- A traversal that gives a result has taken every step. -/
theorem forall₂_of_mapM {f : α → Except ε β} {bs : List β} (h : l.mapM f = .ok bs) :
    List.Forall₂ (fun a b => f a = .ok b) l bs := by
  induction l generalizing bs with
  | nil =>
    cases h
    exact .nil
  | cons a r ih =>
    rw [List.mapM_cons] at h
    obtain ⟨b, hb, h⟩ := exists_of_bind h
    obtain ⟨rest, hrest, h⟩ := exists_of_bind h
    cases h
    exact .cons hb (ih hrest)

theorem exists_of_mem_mapM {f : α → Except ε β} {bs : List β} (h : l.mapM f = .ok bs) {b : β} (hb : b ∈ bs) :
    ∃ a ∈ l, f a = .ok b := by
  have hsteps := forall₂_of_mapM h
  clear h
  induction hsteps with
  | nil => cases hb
  | cons hstep _ ih =>
    rcases List.mem_cons.1 hb with rfl | hb
    · exact ⟨_, List.mem_cons_self, hstep⟩
    · obtain ⟨a, ha, hab⟩ := ih hb
      exact ⟨a, List.mem_cons_of_mem _ ha, hab⟩

/-- Where each step can only give one result, so can all of them. -/
theorem eq_map_of_mapM {f : α → Except ε β} {bs : List β} {g : α → β} (h : l.mapM f = .ok bs)
    (hg : ∀ a b, f a = .ok b → b = g a) : bs = l.map g := by
  have hsteps := forall₂_of_mapM h
  clear h
  induction hsteps with
  | nil => rfl
  | cons hstep _ ih => rw [hg _ _ hstep, ih, List.map_cons]

theorem mapM_eq {f : α → Except ε β} {g : α → β} (h : ∀ a ∈ l, f a = .ok (g a)) : l.mapM f = .ok (l.map g) := by
  induction l with
  | nil => rfl
  | cons a r ih =>
    rw [List.mapM_cons, h a List.mem_cons_self, ih fun c hc => h c (List.mem_cons_of_mem _ hc)]
    rfl

theorem exists_anyM {p : α → Except ε Bool} (h : ∀ a ∈ l, ∃ b, p a = .ok b) : ∃ b, l.anyM p = .ok b := by
  induction l with
  | nil => exact ⟨false, rfl⟩
  | cons a r ih =>
    obtain ⟨b, hb⟩ := h a List.mem_cons_self
    obtain ⟨c, hc⟩ := ih fun c hc => h c (List.mem_cons_of_mem _ hc)
    rw [List.anyM, hb]
    cases b with
    | true => exact ⟨true, rfl⟩
    | false => exact ⟨c, hc⟩

theorem exists_filterAuxM {α ε : Type} {l : List α} {p : α → Except ε Bool} (h : ∀ a ∈ l, ∃ b, p a = .ok b)
    (acc : List α) : ∃ r, l.filterAuxM p acc = .ok r := by
  induction l generalizing acc with
  | nil => exact ⟨acc, rfl⟩
  | cons a r ih =>
    obtain ⟨b, hb⟩ := h a List.mem_cons_self
    obtain ⟨c, hc⟩ := ih (fun c hc => h c (List.mem_cons_of_mem _ hc)) (cond b (a :: acc) acc)
    refine ⟨c, ?_⟩
    rw [List.filterAuxM, hb]
    exact hc

theorem exists_filterM {p : α → Except ε Bool} (h : ∀ a ∈ l, ∃ b, p a = .ok b) : ∃ r, l.filterM p = .ok r := by
  obtain ⟨r, hr⟩ := exists_filterAuxM h []
  refine ⟨r.reverse, ?_⟩
  rw [List.filterM, hr]
  rfl

end Traversals

end Proofreader
