import Proofreader.Presentation.Editor
import Proofreader.Presentation.Uri
import Proofreader.Proofs.Collections
import Proofreader.Proofs.Path
import Proofreader.Proofs.Text.Utf8

/-! What an editor shows after it was told of a report. Files are named by their URIs: a normal path has one, and no other
normal path has the same, for what is quoted can be read back. -/

namespace Proofreader

namespace Uri

variable {b n : Nat} {p q u : Text}

theorem hexValue?_upperHex : ∀ n < 16, hexValue? (upperHex n) = some n := by decide

theorem unquoteOctets_cons {c : Char} (hc : c ≠ '%') (r : Text) : unquoteOctets (c :: r) = c.toNat :: unquoteOctets r := by
  rw [unquoteOctets]
  intro a b r' he
  exact absurd he hc

/-- An octet is read back before anything that follows it. -/
theorem unquoteOctets_quoteOctet (hb : b < 256) (r : Text) :
    unquoteOctets (quoteOctet b ++ r) = b :: unquoteOctets r := by
  unfold quoteOctet
  split
  · next hplain =>
    have hascii : b < 128 := by
      unfold isPlain at hplain
      rw [Bool.and_eq_true, decide_eq_true_eq] at hplain
      exact hplain.1
    have hvalid : b.isValidChar := Or.inl (by omega)
    have hnat : (Char.ofNat b).toNat = b := by
      rw [Char.ofNat, dif_pos hvalid]
      rfl
    have hpercent : Char.ofNat b ≠ '%' := by
      intro he
      rw [he] at hnat
      rw [← hnat] at hplain
      exact absurd hplain (by decide)
    rw [List.singleton_append, unquoteOctets_cons hpercent, hnat]
  · have hvalue : 16 * (b / 16) + b % 16 = b := Nat.div_add_mod b 16
    simp only [List.cons_append, List.nil_append, unquoteOctets, hexValue?_upperHex (b / 16) (by omega),
      hexValue?_upperHex (b % 16) (by omega), hvalue]

theorem unquoteOctets_quotePath (p : Text) : unquoteOctets (quotePath p) = Utf8.encode p := by
  have hoctets : ∀ bs : List Nat, (∀ b ∈ bs, b < 256) → unquoteOctets (bs.flatMap quoteOctet) = bs := by
    intro bs hbs
    induction bs with
    | nil => rfl
    | cons b r ih =>
      rw [List.flatMap_cons, unquoteOctets_quoteOctet (hbs b List.mem_cons_self),
        ih fun c hc => hbs c (List.mem_cons_of_mem _ hc)]
  exact hoctets _ fun _ => Utf8.lt_of_mem_encode

theorem quotePath_injective : Function.Injective quotePath := by
  intro p q h
  apply Utf8.encode_injective
  rw [← unquoteOctets_quotePath, h, unquoteOctets_quotePath]

theorem ofPath_of_isTidy (h : Path.IsTidy p) : ofPath p = .ok ("file://".toList ++ quotePath p) := by
  unfold ofPath
  dsimp only
  rw [h.tidy_eq, if_pos h.absolute]

theorem eq_of_ofPath (hp : Path.IsTidy p) (hq : Path.IsTidy q) (hu : ofPath p = .ok u) (hv : ofPath q = .ok u) :
    p = q := by
  rw [ofPath_of_isTidy hp] at hu
  rw [ofPath_of_isTidy hq, ← hu, Except.ok.injEq, List.append_cancel_left_eq] at hv
  exact (quotePath_injective hv).symm

end Uri

end Proofreader

/-! ### Reports

A message replaces what stands under its URI; so a file whose
text the report has gets what the report lists for it, and every other file keeps what it had. -/

namespace Proofreader.Editor

/-- The diagnostics that an editor shows under each URI. -/
abbrev View := String → List Json

def View.receive (view : View) (message : Json) : View :=
  match message.get? "uri", message.get? "diagnostics" with
  | some (.str uri), some (.arr ds) => fun u => if u = uri then ds else view u
  | _, _ => view

/-- After a run, the messages on its report; a run that raises has none. -/
def View.hear (view : View) : Except Fault Report → View
  | .error _ => view
  | .ok r =>
    match notifications r with
    | .error _ => view
    | .ok messages => messages.foldl View.receive view

/-- What is shown after the runs of `log`, first one first. -/
def follow (log : List (Except Fault Report)) : View := log.foldl View.hear fun _ => []

def uriOf (file : FileId) : String := String.ofList ("file://".toList ++ Uri.quotePath file.toList)

/-- The files that messages are sent for, with their texts. -/
def told (r : Report) : List (FileId × Source × List Diagnostic) :=
  r.sortedFiles.filterMap fun (file, ds) => (r.sources.lookup file).map fun s => (file, s, ds)

def message (x : FileId × Source × List Diagnostic) : Json := publish (uriOf x.1) x.2.1 x.2.2

variable {r : Report} {file : FileId} {files : List (FileId × Source × List Diagnostic)} {view : View}

theorem ofPath_file (h : Path.IsTidy file.toList) : Uri.ofPath file.toList = .ok (uriOf file).toList := by
  unfold uriOf
  rw [String.toList_ofList]
  exact Uri.ofPath_of_isTidy h

theorem ofPath_eq (h : Path.IsNormal file.toList) : Uri.ofPath file.toList = .ok (uriOf file).toList := ofPath_file h.isTidy

theorem uriOf_inj {g : FileId} (hf : Path.IsTidy file.toList) (hg : Path.IsTidy g.toList) (h : uriOf file = uriOf g) :
    file = g := by
  have hu := ofPath_file hg
  rw [← h] at hu
  exact String.toList_injective (Uri.eq_of_ofPath hf hg (ofPath_file hf) hu)

/-- Files with tidy names can be told of. -/
theorem notifications_of_isTidy (h : ∀ x ∈ r.diagnostics, Path.IsTidy x.1.toList) :
    notifications r = .ok ((told r).map message) := by
  refine mapM_eq fun x hx => ?_
  obtain ⟨⟨file, ds⟩, hfile, hx⟩ := List.mem_filterMap.1 hx
  obtain ⟨s, -, rfl⟩ := Option.map_eq_some_iff.1 hx
  have htidy := h _ (List.mem_mergeSort.1 hfile)
  dsimp only at htidy ⊢
  rw [ofPath_file htidy, message, Except.map, String.ofList_toList]

theorem notifications_eq (h : ∀ x ∈ r.diagnostics, Path.IsNormal x.1.toList) :
    notifications r = .ok ((told r).map message) := notifications_of_isTidy fun x hx => (h x hx).isTidy

theorem receive_message (view : View) (x : FileId × Source × List Diagnostic) (u : String) :
    view.receive (message x) u = if u = uriOf x.1 then x.2.2.map (diagnostic x.2.1) else view u := rfl

/-- Of messages on different files, the one on a file decides what is shown for it. -/
theorem foldl_receive (hnormal : ∀ x ∈ files, Path.IsNormal x.1.toList) (hnodup : (files.map Prod.fst).Nodup)
    (hfile : Path.IsNormal file.toList) (view : View) : (files.map message).foldl View.receive view (uriOf file) =
      (files.lookup file).elim (view (uriOf file)) fun (s, ds) => ds.map (diagnostic s) := by
  induction files generalizing view with
  | nil => rfl
  | cons x r ih =>
    rw [List.map_cons, List.nodup_cons] at hnodup
    rw [List.map_cons, List.foldl_cons, ih (fun y hy => hnormal y (List.mem_cons_of_mem _ hy)) hnodup.2, receive_message,
      List.lookup_cons]
    by_cases hx : file = x.1
    · have hnone : r.lookup x.1 = none := by
        rw [List.lookup_eq_none_iff]
        intro y hy
        have hne : x.1 ≠ y.1 := fun he => hnodup.1 (List.mem_map.2 ⟨y, hy, he.symm⟩)
        simpa using hne
      rw [hx, hnone, if_pos rfl, beq_self_eq_true]
      rfl
    · have hx' : (file == x.1) = false := by simpa using hx
      have huri : uriOf file ≠ uriOf x.1 := fun he => hx (uriOf_inj hfile.isTidy (hnormal x List.mem_cons_self).isTidy he)
      rw [hx', if_neg huri]

theorem lookup_told (r : Report) (file : FileId) : (told r).lookup file =
    (r.sortedFiles.lookup file).bind fun ds => (r.sources.lookup file).map fun s => (s, ds) := by
  unfold told
  induction r.sortedFiles with
  | nil => rfl
  | cons x l ih =>
    obtain ⟨g, ds⟩ := x
    rw [List.lookup_cons, List.filterMap_cons]
    dsimp only
    by_cases hg : file = g
    · subst hg
      cases hs : r.sources.lookup file with
      | none =>
        rw [hs] at ih
        simpa using ih
      | some s => simp
    · have hg' : (file == g) = false := by simpa using hg
      cases hs : r.sources.lookup g with
      | none => simpa [hg'] using ih
      | some s => simpa [List.lookup_cons, hg'] using ih

theorem exists_of_mem_told {x : FileId × Source × List Diagnostic} (hx : x ∈ told r) : ∃ y ∈ r.diagnostics, y.1 = x.1 := by
  obtain ⟨y, hy, hx⟩ := List.mem_filterMap.1 hx
  obtain ⟨s, -, rfl⟩ := Option.map_eq_some_iff.1 hx
  exact ⟨y, List.mem_mergeSort.1 hy, rfl⟩

theorem nodup_told (h : (r.diagnostics.map Prod.fst).Nodup) : ((told r).map Prod.fst).Nodup := by
  have hsorted : r.sortedFiles.Perm r.diagnostics := List.mergeSort_perm _ _
  have hkeys := (hsorted.map Prod.fst).nodup_iff.2 h
  rw [List.Nodup, List.pairwise_map] at hkeys ⊢
  refine (List.pairwise_filterMap).2 (hkeys.imp ?_)
  intro x y hne x' hx' y' hy'
  obtain ⟨s, -, rfl⟩ := Option.map_eq_some_iff.1 hx'
  obtain ⟨s', -, rfl⟩ := Option.map_eq_some_iff.1 hy'
  exact hne

/-- Once told of a report, an editor shows for a file what is listed for it if the report has its text, and what it
showed before otherwise. -/
theorem hear_uriOf (hnodup : (r.diagnostics.map Prod.fst).Nodup) (hnormal : ∀ x ∈ r.diagnostics, Path.IsNormal x.1.toList)
    (hfile : Path.IsNormal file.toList) (view : View) : view.hear (.ok r) (uriOf file) =
      match r.diagnostics.lookup file, r.sources.lookup file with
      | some ds, some s => ds.map (diagnostic s)
      | _, _ => view (uriOf file) := by
  have hsorted : r.sortedFiles.Perm r.diagnostics := List.mergeSort_perm _ _
  have htoldNormal : ∀ x ∈ told r, Path.IsNormal x.1.toList := by
    intro x hx
    obtain ⟨y, hy, he⟩ := exists_of_mem_told hx
    exact he ▸ hnormal y hy
  unfold View.hear
  dsimp only
  rw [notifications_eq hnormal]
  dsimp only
  rw [foldl_receive htoldNormal (nodup_told hnodup) hfile, lookup_told, lookup_perm hnodup hsorted.symm]
  cases r.diagnostics.lookup file with
  | none => rfl
  | some ds =>
    cases r.sources.lookup file with
    | none => rfl
    | some s => rfl

end Proofreader.Editor
