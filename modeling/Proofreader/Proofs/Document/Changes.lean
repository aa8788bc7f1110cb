import Mathlib.Data.List.Forall2
import Proofreader.Document.Change
import Proofreader.Proofs.Document.Lines

/-! Changes that an editor reports by lines and UTF-16 units. Any line and any number of units denote one offset of the
text, so every such change can be made, and is made in the text that the ones before it leave. -/

namespace Proofreader

namespace Text

/-- The offset that a line and a number of units denote: on that line, the first one that has so many units of the line
before itself, or the end of the line; the end of the text if it has no such line. -/
inductive Denotes (t : Text) (line : Nat) (u : Int) : Nat → Prop
  | on {o : Nat} {earlier before after later : Text} : OnLine t o earlier before after later →
      earlier.count '\n' = line → IsLeast (boundariesFrom (before ++ after) u) before.length → Denotes t line u o
  | behind : t.count '\n' < line → Denotes t line u t.length

variable {t : Text} {line o o' : Nat} {u : Int}

theorem exists_denotes (t : Text) (line : Nat) (u : Int) : ∃ o, t.Denotes line u o := by
  rcases Nat.lt_or_ge (t.count '\n') line with hbehind | hline
  · exact ⟨_, .behind hbehind⟩
  · obtain ⟨earlier, rest, rfl, hearlier, hcount⟩ := exists_lineStart hline
    obtain ⟨body, later, rfl, hbody, hlater⟩ := exists_firstLine rest
    have hcover := coverUnits_le u body
    have hleast : IsLeast (boundariesFrom (body.take (coverUnits u body) ++ body.drop (coverUnits u body)) u)
        (body.take (coverUnits u body)).length := by
      rw [List.take_append_drop, List.length_take, Nat.min_eq_left hcover]
      exact isLeast_coverUnits body u
    refine ⟨_, .on ⟨?_, rfl, hearlier, ?_, hlater⟩ hcount hleast⟩
    · rw [List.take_append_drop]
    · rw [List.take_append_drop]
      exact hbody

theorem OnLine.length_le {earlier before after later : Text} (h : OnLine t o earlier before after later) :
    earlier.length + (before ++ after).length ≤ t.length := by
  rw [h.text]
  simp only [List.length_append]
  omega

/-- An offset is denoted by its own line and the units of that line before it. -/
theorem OnLine.denotes {earlier before after later : Text} (h : OnLine t o earlier before after later) :
    t.Denotes (earlier.count '\n') (units before) o := by
  have hleast := isLeast_coverUnits (before ++ after) (units before)
  rw [coverUnits_append] at hleast
  exact .on h rfl hleast

namespace Denotes

theorem le (h : t.Denotes line u o) : o ≤ t.length := by
  cases h with
  | on hline =>
    have hle := hline.length_le
    have hoffset := hline.offset
    rw [List.length_append] at hle
    omega
  | behind => exact Nat.le_refl _

/-- More units than a text can have denote the end of the line, however many they are. -/
theorem clip (h : t.Denotes line u o) : t.Denotes line (min u (2 * t.length)) o := by
  cases h with
  | on hline hcount hleast =>
    have hle := hline.length_le
    refine .on hline hcount ?_
    rw [boundariesFrom_min (by omega)]
    exact hleast
  | behind hbehind => exact .behind hbehind

/-- The ends of a line. On one without characters there is nothing to count. -/
theorem exists_ends (h : t.Denotes line u o) (file : FileId) : ∃ start stop : Int,
    (Source.ofText file t).offset? line 0 = some start ∧ (Source.ofText file t).offset? line t.length = some stop ∧
      (stop ≤ start → t.Denotes line 0 o) := by
  cases h with
  | @on _ earlier before after later hline hcount hleast =>
    obtain ⟨hstart, hstop⟩ := hline.offset?_eq file
    rw [length_laterLines, hcount] at hstart hstop
    refine ⟨_, _, hstart, hstop, fun hempty => .on hline hcount ?_⟩
    have hnone : before ++ after = [] := List.length_eq_zero_iff.1 (by omega)
    have hbefore : before = [] := (List.append_eq_nil_iff.1 hnone).1
    rw [hnone, hbefore]
    exact isLeast_coverUnits [] 0
  | behind hbehind => exact ⟨_, _, Source.offset?_behind file hbehind 0, Source.offset?_behind file hbehind _, fun _ => .behind hbehind⟩

theorem unitOffset?_eq (h : t.Denotes line u o) (file : FileId) :
    (Source.ofText file t).unitOffset? line u = some (o : Int) := by
  cases h with
  | @on _ earlier before after later hline hcount hleast =>
    rw [← hcount, ← length_laterLines 0, hline.unitOffset?_cover, (isLeast_coverUnits _ u).unique hleast, hline.offset]
  | behind hbehind => exact Source.unitOffset?_behind file hbehind u

/-- There is only one. -/
theorem unique (h : t.Denotes line u o) (h' : t.Denotes line u o') : o = o' := by
  have heq := (h.unitOffset?_eq "").symm.trans (h'.unitOffset?_eq "")
  exact Int.ofNat.inj (Option.some.inj heq)

end Denotes

end Text

/-! ### What an editor sends -/

/-- A value holds a line and a number of UTF-16 units, as whole numbers. -/
structure Json.Places (j : Json) (line units : Nat) : Prop where
  line : ∃ v, j.get? "line" = some v ∧ v.quantity? = some (.whole line)
  units : ∃ v, j.get? "character" = some v ∧ v.quantity? = some (.whole units)

/-- A value reports a change, with whatever else it holds. Without a range the whole text is new, and without a new text
it is empty. -/
inductive Json.Reports : Json → Change → Prop
  | whole {members : List (String × Json)} {new : String} :
      members.lookup "range" = none ∨ members.lookup "range" = some .null →
      (members.lookup "text").getD (.str "") = .str new → Reports (.obj members) (.whole new.toList)
  | range {members : List (String × Json)} {span a b : Json} {new : String} {line units line' units' : Nat} :
      members.lookup "range" = some span → span.get? "start" = some a → span.get? "end" = some b →
      a.Places line units → b.Places line' units' → (members.lookup "text").getD (.str "") = .str new →
      Reports (.obj members) (.range ⟨line, units⟩ ⟨line', units'⟩ new.toList)

/-- What a change makes of a text. A range that ends before it starts is empty. -/
inductive Change.Revises : Change → Text → Text → Prop
  | whole {t new : Text} : Revises (.whole new) t new
  | range {t new : Text} {line units line' units' s e : Nat} : t.Denotes line units s → t.Denotes line' units' e →
      Revises (.range ⟨line, units⟩ ⟨line', units'⟩ new) t (t.take s ++ new ++ t.drop (max s e))

/-- What changes make of a text one after the other. -/
inductive Change.ReviseAll : List Change → Text → Text → Prop
  | nil {t : Text} : ReviseAll [] t t
  | cons {c : Change} {r : List Change} {t t' t'' : Text} : c.Revises t t' → ReviseAll r t' t'' → ReviseAll (c :: r) t t''

namespace Change

variable {t t' t'' : Text} {c : Change} {cs : List Change} {j : Json} {js : List Json} {line units s : Nat}

theorem Revises.unique (h : c.Revises t t') (h' : c.Revises t t'') : t' = t'' := by
  cases h with
  | whole =>
    cases h'
    rfl
  | range hs he =>
    cases h' with
    | range hs' he' => rw [hs.unique hs', he.unique he']

theorem ReviseAll.unique (h : ReviseAll cs t t') (h' : ReviseAll cs t t'') : t' = t'' := by
  induction h with
  | nil =>
    cases h'
    rfl
  | cons hstep _ ih =>
    cases h' with
    | cons hstep' hrest =>
      rw [hstep.unique hstep'] at ih
      exact ih hrest

theorem member_of_get? {v : Json} {key : String} (h : j.get? key = some v) : member j key = .ok v := by
  cases j with
  | obj members =>
    have hlookup : members.lookup key = some v := h
    rw [member, hlookup]
    rfl
  | _ => cases h

/-- A place that is read denotes what was sent, though fewer units may be left of it. -/
theorem exists_place (file : FileId) (hj : j.Places line units) (hs : t.Denotes line units s) :
    ∃ p, place (.ofText file t) j = .ok p ∧ (Source.ofText file t).placeOffset p = .ok s := by
  obtain ⟨⟨lineJson, hline, hlineJson⟩, ⟨unitsJson, hunits, hunitsJson⟩⟩ := hj
  have hread : ∃ n : Int, Change.units (.ofText file t) line unitsJson = .ok n ∧ t.Denotes line n s := by
    obtain ⟨start, stop, hstart, hstop, hempty⟩ := hs.exists_ends file
    have hlength : (Source.ofText file t).length = t.length := rfl
    unfold Change.units
    rw [hlength, hstart, hstop]
    dsimp only
    split
    · next hle => exact ⟨0, rfl, hempty hle⟩
    · rw [hunitsJson]
      exact ⟨_, rfl, hs.clip⟩
  obtain ⟨n, hn, hdenotes⟩ := hread
  refine ⟨⟨line, n⟩, ?_, ?_⟩
  · have hwhole : Change.line (.ofText file t) lineJson = .ok line := by rw [Change.line, hlineJson]
    rw [place, member_of_get? hline, member_of_get? hunits]
    change (Change.line (.ofText file t) lineJson >>= fun l => Change.units (.ofText file t) l unitsJson >>= _) = _
    rw [hwhole]
    change (Change.units (.ofText file t) line unitsJson >>= _) = _
    rw [hn]
    rfl
  · rw [Source.placeOffset, hdenotes.unitOffset?_eq]

/-- A range that is read is one of the text. -/
theorem range?_apply (file : FileId) {span a b : Json} {line' units' e : Nat} (ha : span.get? "start" = some a)
    (hb : span.get? "end" = some b) (hplaceA : a.Places line units) (hplaceB : b.Places line' units')
    (hs : t.Denotes line units s) (he : t.Denotes line' units' e) (new : String) :
    (range? (.ofText file t) span (.str new) >>= (Source.ofText file t).apply) =
      .ok (.ofText file (t.take s ++ new.toList ++ t.drop (max s e))) := by
  obtain ⟨p, hp, hpOffset⟩ := exists_place file hplaceA hs
  obtain ⟨q, hq, hqOffset⟩ := exists_place file hplaceB he
  have hsle := hs.le
  have hele := he.le
  have hmax : max (s : Int) e = (max s e : Nat) := by omega
  have hedit : (Source.ofText file t).edit s (max s e : Nat) new.toList =
      .ok (.ofText file (t.take s ++ new.toList ++ t.drop (max s e))) := by
    rw [Source.edit, if_pos ⟨by omega, by omega, by simp only [Source.length, Source.ofText]; omega⟩]
    rfl
  have hrange : range? (.ofText file t) span (.str new) = .ok (.range p q new.toList) := by
    rw [range?, member_of_get? ha, member_of_get? hb]
    change (place (.ofText file t) a >>= fun start => place (.ofText file t) b >>= fun stop => _) = _
    rw [hp, hq]
    rfl
  rw [hrange]
  change (Source.ofText file t).apply (.range p q new.toList) = _
  simp only [Source.apply, hpOffset, hqOffset, bind, Except.bind, hmax, hedit]
  rfl

end Change

section Reported

variable {t t' : Text} {c : Change} {cs : List Change} {j : Json} {js : List Json}

theorem Json.Reports.exists_revises (h : j.Reports c) (t : Text) : ∃ t', Change.Revises c t t' := by
  cases h with
  | whole => exact ⟨_, .whole⟩
  | @range _ _ _ _ _ line units line' units' =>
    obtain ⟨s, hs⟩ := t.exists_denotes line units
    obtain ⟨e, he⟩ := t.exists_denotes line' units'
    exact ⟨_, .range hs he⟩

/-- Whatever an editor reports, something comes of it. -/
theorem exists_reviseAll (h : List.Forall₂ Json.Reports js cs) (t : Text) : ∃ t', Change.ReviseAll cs t t' := by
  induction h generalizing t with
  | nil => exact ⟨t, .nil⟩
  | cons hj _ ih =>
    obtain ⟨t', hstep⟩ := hj.exists_revises t
    obtain ⟨t'', hrest⟩ := ih t'
    exact ⟨t'', .cons hstep hrest⟩

namespace Shadow

theorem change_reports (file : FileId) (hj : j.Reports c) (h : c.Revises t t') :
    (text (.ofText file t)).change file j = (text (.ofText file t'), none) := by
  cases hj with
  | whole hrange htext =>
    cases h
    simp only [change, htext]
    rcases hrange with hrange | hrange <;> simp only [hrange, ofJson]
  | @range _ span a b new _ _ _ _ hrange ha hb hplaceA hplaceB htext =>
    cases h with
    | range hs he =>
      have happly := Change.range?_apply file ha hb hplaceA hplaceB hs he new
      have hnull : span ≠ .null := by
        rintro rfl
        cases ha
      simp only [change, htext, hrange]
      cases span with
      | null => exact absurd rfl hnull
      | _ => simp only [happly]

/-- Each change is made in the text that the ones before it leave. -/
theorem changeAll_reports (file : FileId) (hjs : List.Forall₂ Json.Reports js cs) (h : Change.ReviseAll cs t t') :
    (text (.ofText file t)).changeAll file js = (text (.ofText file t'), none) := by
  induction hjs generalizing t with
  | nil =>
    cases h
    rfl
  | cons hj _ ih =>
    cases h with
    | cons hstep hrest =>
      rw [changeAll, change_reports file hj hstep]
      exact ih hrest

end Shadow

end Reported

end Proofreader
