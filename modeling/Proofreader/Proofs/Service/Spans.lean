import Proofreader.Proofs.Collections
import Proofreader.Proofs.Service.Interchange
import Proofreader.Proofs.Text.Units
import Proofreader.Service.Reply

/-! A span that a server reports in UTF-16 units becomes the smallest span of characters that covers it: its start is
moved down and its end up to where a character begins, and neither is moved behind the text. Of spans that no text has,
those behind it become empty; those before it need not. -/

namespace Proofreader

open Text (units)

/-- The smallest span of characters around `n` units behind the first `u` units of a text. -/
structure Finding.Covers (f : Finding) (t : Text) (u n : Int) : Prop where
  start : ∃ i, IsGreatest (t.boundariesTo u) i ∧ f.offset = i
  stop : ∃ j, IsLeast (t.boundariesFrom (u + n)) j ∧ f.stop = j

/-- An item reports a span, and its other parts have the shape they should have. -/
structure Json.Spans (item : Json) (u n : Int) : Prop where
  offset : Reply.numberMember item "offset" = .ok u
  length : Reply.numberMember item "length" = .ok n
  rule : ∃ rule category, item.memberOrEmpty "rule" = .ok (.obj rule) ∧
    (Json.obj rule).memberOrEmpty "category" = .ok (.obj category)
  replacements : ∃ values, Reply.replacements item = .ok values

variable {t : Text} {f : Finding} {item answer : Json} {items : List Json} {u n : Int} {i j : Nat}

namespace Text

/-- A boundary is the last one that its own units reach. -/
theorem isGreatest_units (hi : i ≤ t.length) : IsGreatest (t.boundariesTo (units (t.take i))) i := by
  refine ⟨⟨hi, Int.le_refl _⟩, fun k hk => ?_⟩
  by_contra hik
  have hmore := units_take_lt (Nat.lt_of_not_le hik) hk.1
  have hreached := hk.2
  omega

/-- A boundary is the first one that its own units do not go beyond. -/
theorem isLeast_units (hj : j ≤ t.length) : IsLeast (t.boundariesFrom (units (t.take j))) j := by
  refine ⟨⟨hj, fun _ => Int.le_refl _⟩, fun k hk => ?_⟩
  by_contra hkj
  have hless := units_take_lt (Nat.lt_of_not_le hkj) hj
  have hreaching := hk.2 (by omega)
  omega

/-- A span of units that does not end before it begins does not do so in characters. -/
theorem start_le_stop (hi : IsGreatest (t.boundariesTo u) i) (hj : IsLeast (t.boundariesFrom (u + n)) j)
    (hn : 0 ≤ n) : i ≤ j := by
  by_contra hlt
  have hless := units_take_lt (Nat.lt_of_not_le hlt) hi.1.1
  have hreached := hi.1.2
  have hreaching := hj.1.2 (Nat.lt_of_lt_of_le (Nat.lt_of_not_le hlt) hi.1.1)
  omega

end Text

/-- A span between boundaries is covered by itself only. -/
theorem Finding.Covers.eq_of_boundaries (h : f.Covers t u n) (hi : i ≤ t.length) (hj : j ≤ t.length)
    (hu : u = units (t.take i)) (hn : u + n = units (t.take j)) : f.offset = i ∧ f.stop = j := by
  obtain ⟨i', hi', hstart⟩ := h.start
  obtain ⟨j', hj', hstop⟩ := h.stop
  rw [hu] at hi'
  rw [hn] at hj'
  rw [hstart, hstop, hi'.unique (Text.isGreatest_units hi), hj'.unique (Text.isLeast_units hj)]
  exact ⟨rfl, rfl⟩

namespace Reply

/-- An item that reports a span is read, with the span moved to where characters begin. -/
theorem finding_of_spans (h : item.Spans u n) : ∃ f, finding (UnitIndex.ofText t) item = .ok f ∧
    f.offset = (UnitIndex.ofText t).toIndex u false ∧
    f.length = max 0 ((UnitIndex.ofText t).toIndex (u + n) true - (UnitIndex.ofText t).toIndex u false) := by
  obtain ⟨rule, category, hrule, hcategory⟩ := h.rule
  obtain ⟨values, hvalues⟩ := h.replacements
  have hobject : ∃ members, item = .obj members := by
    have hoffset := h.offset
    cases item with
    | obj members => exact ⟨members, rfl⟩
    | _ => cases hoffset
  obtain ⟨members, rfl⟩ := hobject
  refine ⟨⟨(UnitIndex.ofText t).toIndex u false,
    max 0 ((UnitIndex.ofText t).toIndex (u + n) true - (UnitIndex.ofText t).toIndex u false),
    (rule.lookup "id").getD (.str ""), (members.lookup "message").getD (.str ""), values,
    (category.lookup "id").getD (.str ""), (rule.lookup "issueType").getD (.str "")⟩, ?_, rfl, rfl⟩
  simp only [finding, hrule, hcategory, h.offset, h.length, hvalues, namedMember, Json.member?, Except.map, bind,
    Except.bind, pure, Except.pure]

theorem covers_of_spans (h : item.Spans u n) (hf : finding (UnitIndex.ofText t) item = .ok f) (hu : 0 ≤ u)
    (hn : 0 ≤ n) : f.Covers t u n := by
  obtain ⟨f', hf', hoffset, hlength⟩ := finding_of_spans (t := t) h
  obtain rfl : f' = f := Except.ok.inj (hf'.symm.trans hf)
  obtain ⟨i, hi, hstart⟩ :=
    UnitIndex.toIndex_down t (UnitIndex.ofText t).plain of_decide_eq_true hu
  obtain ⟨j, hj, hstop⟩ :=
    UnitIndex.toIndex_up t (UnitIndex.ofText t).plain of_decide_eq_true (Int.add_nonneg hu hn)
  have hle := Text.start_le_stop hi hj hn
  have hstart : (UnitIndex.ofText t).toIndex u false = i := hstart
  have hstop : (UnitIndex.ofText t).toIndex (u + n) true = j := hstop
  rw [hstart] at hoffset hlength
  rw [hstop] at hlength
  refine ⟨⟨i, hi, hoffset⟩, ⟨j, hj, ?_⟩⟩
  rw [Finding.stop, hoffset, hlength]
  omega

/-- An answer whose items report spans is read item by item. Each span that does not begin before the text nor end
before it begins becomes the smallest span of characters around it, and a span between characters becomes itself. What
lies further on in units is not further back in characters, and a text of single units is looked up as any other. -/
theorem findings_cover (hitems : answer.get? "matches" = some (.arr items))
    (hspans : ∀ item ∈ items, ∃ u n, item.Spans u n) :
    (∃ fs, findings answer t = .ok fs ∧
        List.Forall₂ (fun item (f : Finding) => ∀ u n : Int, item.Spans u n → 0 ≤ u → 0 ≤ n → f.Covers t u n ∧
          ∀ i j : Nat, i ≤ t.length → j ≤ t.length → u = units (t.take i) → u + n = units (t.take j) →
            f.offset = i ∧ f.stop = j) items fs) ∧
      (∀ u v up, 0 ≤ u → u ≤ v → (UnitIndex.ofText t).toIndex u up ≤ (UnitIndex.ofText t).toIndex v up) ∧
      (∀ u up, 0 ≤ u → { UnitIndex.ofText t with plain := false }.toIndex u up = (UnitIndex.ofText t).toIndex u up) := by
  refine ⟨?_, fun u v up hu huv => UnitIndex.toIndex_mono t hu huv up, fun u up hu => UnitIndex.toIndex_halving t hu up⟩
  obtain ⟨fs, hfs⟩ := exists_mapM (f := finding (UnitIndex.ofText t)) fun item hitem => by
    obtain ⟨u, n, h⟩ := hspans item hitem
    obtain ⟨f, hf, -⟩ := finding_of_spans (t := t) h
    exact ⟨f, hf⟩
  refine ⟨fs, ?_, (forall₂_of_mapM hfs).imp fun item f hf u n h hu hn => ?_⟩
  · unfold findings
    rw [Json.member?_of_get? hitems]
    exact hfs
  · have hcovers := covers_of_spans h hf hu hn
    exact ⟨hcovers, fun i j hi hj => hcovers.eq_of_boundaries hi hj⟩

/-- An item without length between the two units of an emoji. -/
def splitItem : Json := .obj [("offset", .int 2), ("length", .int 0)]

theorem findings_cover_split : ∃ f, findings (.obj [("matches", .arr [splitItem])]) ['a', '😀', 'b'] = .ok [f] ∧
    f.Covers ['a', '😀', 'b'] 2 0 ∧ f.offset = 1 ∧ f.stop = 2 := by
  have hitem : splitItem.Spans 2 0 := ⟨rfl, rfl, ⟨[], [], rfl, rfl⟩, [], rfl⟩
  have hitems : (Json.obj [("matches", .arr [splitItem])]).get? "matches" = some (.arr [splitItem]) := rfl
  obtain ⟨⟨fs, hfs, hcovers⟩, -, -⟩ := findings_cover (t := ['a', '😀', 'b']) hitems fun item h =>
    ⟨2, 0, List.mem_singleton.1 h ▸ hitem⟩
  obtain - | ⟨hf, - | -⟩ := hcovers
  have hcf := (hf 2 0 hitem (by decide) (by decide)).1
  obtain ⟨i, hi, hstart⟩ := hcf.start
  obtain ⟨j, hj, hstop⟩ := hcf.stop
  have hdown : IsGreatest (Text.boundariesTo ['a', '😀', 'b'] 2) 1 := by
    refine ⟨⟨by decide, by decide⟩, fun k hk => ?_⟩
    by_contra hlt
    have hmore := Text.units_take_le (t := ['a', '😀', 'b']) (show 2 ≤ k by omega)
    have hunits : units (List.take 2 ['a', '😀', 'b']) = 3 := rfl
    have hreached := hk.2
    omega
  have hup : IsLeast (Text.boundariesFrom ['a', '😀', 'b'] (2 + 0)) 2 := by
    refine ⟨⟨by decide, by decide⟩, fun k hk => ?_⟩
    by_contra hlt
    have hless := Text.units_take_le (t := ['a', '😀', 'b']) (show k ≤ 1 by omega)
    have hunits : units (List.take 1 ['a', '😀', 'b']) = 1 := rfl
    have hreaching := hk.2 (Nat.lt_trans (Nat.lt_of_not_le hlt) (by decide))
    omega
  rw [hi.unique hdown] at hstart
  rw [hj.unique hup] at hstop
  exact ⟨_, hfs, hcf, hstart, hstop⟩

/-! ### Spans that no text has -/

/-- Where a finding comes from, whatever else the item holds. -/
theorem exists_units (h : finding (UnitIndex.ofText t) item = .ok f) :
    ∃ u n, numberMember item "offset" = .ok u ∧ numberMember item "length" = .ok n ∧
      f.offset = (UnitIndex.ofText t).toIndex u false ∧
      f.length = max 0 ((UnitIndex.ofText t).toIndex (u + n) true - (UnitIndex.ofText t).toIndex u false) := by
  obtain ⟨rule, -, h⟩ := exists_of_bind h
  obtain ⟨category, -, h⟩ := exists_of_bind h
  obtain ⟨u, hu, h⟩ := exists_of_bind h
  obtain ⟨n, hn, h⟩ := exists_of_bind h
  obtain ⟨id, -, h⟩ := exists_of_bind h
  obtain ⟨message, -, h⟩ := exists_of_bind h
  obtain ⟨values, -, h⟩ := exists_of_bind h
  obtain ⟨group, -, h⟩ := exists_of_bind h
  obtain ⟨issue, -, h⟩ := exists_of_bind h
  cases h
  exact ⟨u, n, hu, hn, rfl, rfl⟩

theorem exists_item {fs : List Finding} (h : findings answer t = .ok fs) (hf : f ∈ fs) :
    ∃ item, finding (UnitIndex.ofText t) item = .ok f := by
  obtain ⟨items?, -, h⟩ := exists_of_bind h
  obtain ⟨items, -, h⟩ := exists_of_bind h
  obtain ⟨item, -, hitem⟩ := exists_of_mem_mapM h hf
  exact ⟨item, hitem⟩

/-- Whatever numbers a server reports, what is looked up lies no further back than the end of the text, and so does the
end of every finding. Nothing lies before the text but the start of a span that is reported to begin there, if some
character is outside of the basic plane; then it lies one character before. -/
theorem findings_inside (answer : Json) (t : Text) :
    (∀ u up, (UnitIndex.ofText t).toIndex u up ≤ t.length ∧ -1 ≤ (UnitIndex.ofText t).toIndex u up ∧
      ((UnitIndex.ofText t).toIndex u up < 0 ↔ u < 0 ∧ up = false ∧ ∃ c ∈ t, 0xFFFF < c.toNat)) ∧
    ∀ fs, findings answer t = .ok fs → ∀ f ∈ fs, 0 ≤ f.length ∧ f.offset + f.length ≤ t.length ∧ -1 ≤ f.offset ∧
      ∃ item u, finding (UnitIndex.ofText t) item = .ok f ∧ numberMember item "offset" = .ok u ∧
        (f.offset < 0 ↔ u < 0 ∧ ∃ c ∈ t, 0xFFFF < c.toNat) := by
  refine ⟨fun u up => ?_, fun fs hfs f hf => ?_⟩
  · obtain ⟨hlow, hhigh, hneg⟩ := UnitIndex.toIndex_bounds t u up
    exact ⟨hhigh, hlow, hneg⟩
  · obtain ⟨item, hitem⟩ := exists_item hfs hf
    obtain ⟨u, n, hu, -, hoffset, hlength⟩ := exists_units hitem
    obtain ⟨hlow, hhigh, hneg⟩ := UnitIndex.toIndex_bounds t u false
    obtain ⟨-, hstop, -⟩ := UnitIndex.toIndex_bounds t (u + n) true
    refine ⟨by omega, by omega, by omega, item, u, hitem, hu, ?_⟩
    rw [hoffset, hneg, eq_self, true_and]

/-- A span that begins before the text and ends behind it. -/
def overhangingItem : Json := .obj [("offset", .int (-2)), ("length", .int 9)]

theorem findings_inside_overhanging : ∃ f, findings (.obj [("matches", .arr [overhangingItem])]) ['a', 'b'] = .ok [f] ∧
    0 ≤ f.offset ∧ f.offset + f.length ≤ 2 := by
  refine ⟨_, rfl, ?_⟩
  obtain ⟨-, hfindings⟩ := findings_inside (.obj [("matches", .arr [overhangingItem])]) ['a', 'b']
  obtain ⟨-, hstop, -, item, u, -, -, hneg⟩ := hfindings _ rfl _ List.mem_cons_self
  refine ⟨?_, hstop⟩
  by_contra hlt
  obtain ⟨-, c, hc, hwide⟩ := hneg.1 (Int.not_le.1 hlt)
  simp at hc
  rcases hc with rfl | rfl <;> simp at hwide

/-- The same span is reported for a text that begins with an emoji: it begins before the text. -/
theorem findings_before_text : ∃ f, findings (.obj [("matches", .arr [overhangingItem])]) ['😀', 'b'] = .ok [f] ∧
    f.offset = -1 ∧ (UnitIndex.ofText ['😀', 'b']).toIndex (-2) false = -1 := by
  have hindex : (UnitIndex.ofText ['😀', 'b']).toIndex (-2) false = -1 := by
    rw [UnitIndex.toIndex_of_neg _ (by decide)]
    rfl
  exact ⟨_, rfl, hindex, hindex⟩

end Reply

end Proofreader
