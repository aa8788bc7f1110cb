import Mathlib.Data.List.TakeWhile
import Proofreader.Presentation.Editor
import Proofreader.Project.Basic
import Proofreader.Proofs.Path
import Proofreader.Proofs.Presentation.Client
import Proofreader.Proofs.Project.View
import Proofreader.Proofs.Text.Utf8

/-! Files and their URIs. What a path has in its URI holds no character that ends a part of a URI or is taken out of it, so
all of it is found again as the path part, and the octets written there are those of the path. So the URI of a file is
read back as that file. -/

namespace Proofreader

namespace Uri

variable {p q : Text} {c : Char}

/-- The characters of a quoted path are ASCII and have no meaning in a URI. -/
theorem of_mem_quotePath (hc : c ∈ quotePath p) :
    c.toNat < 128 ∧ c ∉ ['#', '?', '\t', '\r', '\n'] := by
  have hall : ∀ b < 256, (quoteOctet b).all (fun c => decide (c.toNat < 128 ∧ c ∉ ['#', '?', '\t', '\r', '\n'])) = true := by
    decide +kernel
  obtain ⟨b, hb, hc⟩ := List.mem_flatMap.1 hc
  exact of_decide_eq_true (List.all_eq_true.1 (hall b (Utf8.lt_of_mem_encode hb)) c hc)

theorem unquoteGo_ascii {t : Text} (h : ∀ c ∈ t, c.toNat < 128) (before : Text) :
    unquote.go before t = unquote.close (t.reverse ++ before) := by
  induction t generalizing before with
  | nil => rfl
  | cons c r ih =>
    rw [unquote.go, if_pos (h c List.mem_cons_self), ih fun d hd => h d (List.mem_cons_of_mem _ hd), List.reverse_cons,
      List.append_assoc]
    rfl

theorem unquote_quotePath (p : Text) : unquote (quotePath p) = p := by
  unfold unquote
  rw [unquoteGo_ascii fun c hc => (of_mem_quotePath hc).1, List.append_nil, unquote.close, List.reverse_reverse,
    unquoteOctets_quotePath, Utf8.decodeLossy_encode]

theorem quotePath_cons_slash (r : Text) : quotePath ('/' :: r) = '/' :: quotePath r := by
  unfold quotePath Utf8.encode
  rw [List.flatMap_cons, List.flatMap_append]
  rfl

theorem splitScheme_file (r : Text) : splitScheme ("file:".toList ++ r) = ("file".toList, r) := by
  have hhead : ("file:".toList ++ r).takeWhile (fun c => decide (c ≠ ':')) = "file".toList := rfl
  have hshort : ("file".toList).length < ("file:".toList ++ r).length := by
    rw [List.length_append]
    exact Nat.lt_of_lt_of_le (by decide) (Nat.le_add_right _ _)
  unfold splitScheme
  dsimp only
  rw [hhead, decide_eq_true hshort]
  rfl

/-- Nothing is taken out of the URI of a path before it is split. -/
theorem clean_quotePath (r : Text) : (("file://".toList ++ quotePath r).dropWhile fun c => c.toNat ≤ 32).filter
    (fun c => c ≠ '\t' && c ≠ '\r' && c ≠ '\n') = "file:".toList ++ ("//".toList ++ quotePath r) := by
  have hstart : ("file://".toList ++ quotePath r).dropWhile (fun c => decide (c.toNat ≤ 32)) =
      "file://".toList ++ quotePath r := rfl
  have hkept : ∀ c ∈ "file://".toList ++ quotePath r, (c ≠ '\t' && c ≠ '\r' && c ≠ '\n') = true := by
    have hfront : ("file://".toList.all fun c => c ≠ '\t' && c ≠ '\r' && c ≠ '\n') = true := by decide
    intro c hc
    rcases List.mem_append.1 hc with hc | hc
    · exact List.all_eq_true.1 hfront c hc
    · have hsafe := (of_mem_quotePath hc).2
      simp_all
  rw [hstart, List.filter_eq_self.2 hkept]
  rfl

theorem splitHost_quotePath (r : Text) :
    splitHost ("//".toList ++ quotePath ('/' :: r)) = ([], quotePath ('/' :: r)) := by
  rw [quotePath_cons_slash]
  rfl

/-- No sign ends the path part early. -/
theorem takeWhile_quotePath (r : Text) : ((quotePath r).takeWhile (· ≠ '#')).takeWhile (· ≠ '?') = quotePath r := by
  have hends : ∀ d ∈ ['#', '?'], ∀ c ∈ quotePath r, decide (c ≠ d) = true := by
    intro d hd c hc
    have hsafe := (of_mem_quotePath hc).2
    rw [decide_eq_true_eq]
    rintro rfl
    exact hsafe (List.mem_of_mem_take (i := 2) hd)
  rw [List.takeWhile_eq_self_iff.2 (hends '#' (by simp)), List.takeWhile_eq_self_iff.2 (hends '?' (by simp))]

/-- The path part of a URI without a host is all that was quoted. -/
theorem toPath_quotePath (r : Text) : toPath ("file://".toList ++ quotePath ('/' :: r)) = .ok ('/' :: r) := by
  unfold toPath
  dsimp only
  rw [clean_quotePath, splitScheme_file]
  dsimp only
  rw [splitHost_quotePath]
  dsimp only
  rw [takeWhile_quotePath, unquote_quotePath]
  rfl

theorem exists_toPath (h : Path.IsTidy p) : ∃ uri, ofPath p = .ok uri ∧ toPath uri = .ok p := by
  obtain ⟨r, rfl⟩ : ∃ r, p = '/' :: r := by
    have habsolute := h.absolute
    rw [Path.isAbsolute, decide_eq_true_eq, List.head?_eq_some_iff] at habsolute
    exact habsolute
  exact ⟨_, ofPath_of_isTidy h, toPath_quotePath r⟩

end Uri

/-- Messages on different files have different URIs. -/
theorem Editor.pairwise_uri {r : Report} (hfiles : (r.diagnostics.map Prod.fst).Nodup)
    (htidy : ∀ x ∈ r.diagnostics, Path.IsTidy x.1.toList) :
    ((told r).map message).Pairwise fun m m' => m.get? "uri" ≠ m'.get? "uri" := by
  have hnodup := nodup_told hfiles
  rw [List.Nodup, List.pairwise_map] at hnodup
  rw [List.pairwise_map]
  refine hnodup.imp_of_mem fun {x y} hx hy hne huri => hne ?_
  obtain ⟨x', hx', hxfile⟩ := exists_of_mem_told hx
  obtain ⟨y', hy', hyfile⟩ := exists_of_mem_told hy
  have heq : uriOf x.1 = uriOf y.1 := Json.str.inj (Option.some.inj huri)
  exact uriOf_inj (hxfile ▸ htidy x' hx') (hyfile ▸ htidy y' hy') heq

/-- A file is read back from its URI, whatever characters its path has. So two files have two URIs, and no two messages of
a report are about one URI. File ids are paths of this kind, and so is what normalising leaves as it is. -/
theorem Uri.toPath_ofPath :
    (∀ p, Path.IsTidy p → ∃ uri, ofPath p = .ok uri ∧ toPath uri = .ok p) ∧
    (∀ p q, Path.IsTidy p → Path.IsTidy q → ofPath p = ofPath q → p = q) ∧
    (∀ r : Report, (r.diagnostics.map Prod.fst).Nodup → (∀ x ∈ r.diagnostics, Path.IsTidy x.1.toList) →
      ∃ messages, Editor.notifications r = .ok messages ∧ messages.Pairwise fun m m' => m.get? "uri" ≠ m'.get? "uri") ∧
    (∀ at_ path file, fileIdFor at_ path = .ok file → Path.IsTidy file.toList) ∧
    ∀ p, Path.isAbsolute p = true → Path.normalize p = p → Path.IsTidy p := by
  refine ⟨fun p => exists_toPath, fun p q hp hq h => ?_, fun r hfiles htidy => ?_, fun at_ path file h => ?_,
    fun p => .of_normalize⟩
  · have hp' := ofPath_of_isTidy hp
    exact eq_of_ofPath hp hq hp' (h ▸ hp')
  · exact ⟨_, Editor.notifications_of_isTidy htidy, Editor.pairwise_uri hfiles htidy⟩
  · exact (isNormal_fileIdFor h).isTidy

/-- A path with signs that mean something in a URI, and one in which a percent sign looks like an escape. -/
theorem Uri.toPath_ofPath_signs : Path.IsTidy "/a b;c?d#e\t/é😀.typ".toList ∧ Path.IsTidy "/a%20b;c?d#e\t/é😀.typ".toList ∧
    (∃ uri, ofPath "/a b;c?d#e\t/é😀.typ".toList = .ok uri ∧ toPath uri = .ok "/a b;c?d#e\t/é😀.typ".toList) ∧
    ofPath "/a b;c?d#e\t/é😀.typ".toList ≠ ofPath "/a%20b;c?d#e\t/é😀.typ".toList := by
  have hblank : Path.IsTidy "/a b;c?d#e\t/é😀.typ".toList := ⟨by decide, by decide⟩
  have hescape : Path.IsTidy "/a%20b;c?d#e\t/é😀.typ".toList := ⟨by decide, by decide⟩
  have hne : "/a b;c?d#e\t/é😀.typ".toList ≠ "/a%20b;c?d#e\t/é😀.typ".toList := by decide
  exact ⟨hblank, hescape, toPath_ofPath.1 _ hblank, fun h => hne (toPath_ofPath.2.1 _ _ hblank hescape h)⟩

end Proofreader
