import Proofreader.Log
import Proofreader.Proofs.Json.Equality
import Proofreader.Proofs.Json.RoundTrip

/-! What a JSON line says. The document of a call holds the fields of the call beside the members of every line, and it is
read back as it was written. What was raised puts a second document around it, in which the first one is a text. -/

namespace Proofreader.Log

open Json

/-! ### Fields beside the members of every line -/

section Members

variable {base fields : List (String × Json)} {k : String} {v : Json}

theorem putAll_cons (base : List (String × Json)) (f : String × Json) (fields : List (String × Json)) :
    putAll base (f :: fields) = putAll (putMember base f.1 f.2) fields := rfl

theorem lookup_putAll_of_notMem (h : k ∉ fields.map Prod.fst) : (putAll base fields).lookup k = base.lookup k := by
  induction fields generalizing base with
  | nil => rfl
  | cons f fields ih =>
    rw [List.map_cons, List.mem_cons, not_or] at h
    rw [putAll_cons, ih h.2, lookup_putMember_of_ne _ h.1]

theorem lookup_putAll_of_mem (hkeys : (fields.map Prod.fst).Nodup) (h : (k, v) ∈ fields) :
    (putAll base fields).lookup k = some v := by
  induction fields generalizing base with
  | nil => cases h
  | cons f fields ih =>
    rw [List.map_cons, List.nodup_cons] at hkeys
    rw [putAll_cons]
    rcases List.mem_cons.1 h with rfl | h
    · rw [lookup_putAll_of_notMem hkeys.1, lookup_putMember_self]
    · exact ih hkeys.2 h

theorem nodup_putAll (h : (base.map Prod.fst).Nodup) : ((putAll base fields).map Prod.fst).Nodup := by
  induction fields generalizing base with
  | nil => exact h
  | cons f fields ih => exact ih (nodup_putMember h f.1 f.2)

theorem mem_of_mem_putAll {m : String × Json} (h : m ∈ putAll base fields) : m ∈ base ∨ m ∈ fields := by
  induction fields generalizing base with
  | nil => exact .inl h
  | cons f fields ih =>
    rcases ih h with h | h
    · exact (mem_of_mem_putMember h).imp id fun h => List.mem_cons.2 (.inl h)
    · exact .inr (List.mem_cons_of_mem f h)

theorem proper_putAll (hbase : Proper (.obj base)) (hfields : Proper (.obj fields)) :
    Proper (.obj (putAll base fields)) := by
  cases hbase with
  | obj hkeys hbase =>
    cases hfields with
    | obj _ hfields => exact .obj (nodup_putAll hkeys) fun m hm => (mem_of_mem_putAll hm).elim (hbase m) (hfields m)

theorem proper_filter (p : String × Json → Bool) (h : Proper (.obj fields)) : Proper (.obj (fields.filter p)) := by
  cases h with
  | obj hkeys h =>
    exact .obj (hkeys.sublist (List.filter_sublist.map Prod.fst)) fun m hm => h m (List.mem_of_mem_filter hm)

end Members

namespace Logger

variable {l : Logger} {e : Entry}

/-! ### The two documents -/

/-- Members that tell of a call. -/
structure Tells (l : Logger) (e : Entry) (members : List (String × Json)) : Prop where
  message : members.lookup "message" = some e.message
  level : members.lookup "level" = some (.str e.level.name)
  logger : members.lookup "logger" = some (.str l.name)
  correlation : members.lookup "correlation_id" = some (.str l.correlation)
  field : ∀ f ∈ e.fields, members.lookup f.1 = some f.2

/-- The names of fields that a call may not have: those of the call and of a record, and what a line says of both. -/
def taken : List String := given ++ reserved ++ ["logger", "correlation_id"]

/-- A call that can be told. -/
structure Tellable (e : Entry) : Prop where
  message : Proper e.message
  fields : Proper (.obj e.fields)
  free : ∀ f ∈ e.fields, f.1 ∉ taken

/-- What a line says of the call stays beside its fields, or some of them. -/
theorem Tellable.lookup_taken (h : Tellable e) {fields : List (String × Json)} (hfields : fields ⊆ e.fields) {k : String}
    (hk : k ∈ taken) (base : List (String × Json)) : (putAll base fields).lookup k = base.lookup k := by
  refine lookup_putAll_of_notMem fun hmem => ?_
  obtain ⟨f, hf, rfl⟩ := List.mem_map.1 hmem
  exact h.free f (hfields hf) hk

theorem Tellable.nodup (h : Tellable e) : (e.fields.map Prod.fst).Nodup := by
  cases h.fields with
  | obj hkeys _ => exact hkeys

theorem Tellable.exists_document (h : Tellable e) (l : Logger) :
    ∃ members, l.document e = .obj members ∧ Proper (.obj members) ∧ Tells l e members := by
  refine ⟨_, rfl, proper_putAll (.obj ?_ ?_) h.fields, ?_⟩
  · exact (by decide : ["timestamp", "level", "logger", "correlation_id", "message"].Nodup)
  · simp only [List.forall_mem_cons]
    exact ⟨.str _, .str _, .str _, .str _, h.message, nofun⟩
  · have htaken {k : String} (hk : k ∈ taken) := h.lookup_taken (List.Subset.refl _) hk
    exact ⟨htaken (by decide) _, htaken (by decide) _, htaken (by decide) _, htaken (by decide) _,
      fun f hf => lookup_putAll_of_mem h.nodup hf⟩

/-- Members around the line of a call, which tell what was raised but not what binds the lines of a run. A field named as
the task of a record is not among them. -/
structure Wraps (l : Logger) (e : Entry) (raised inner : String) (members : List (String × Json)) : Prop where
  message : members.lookup "message" = some (.str inner)
  level : members.lookup "level" = some (.str e.level.name)
  logger : members.lookup "logger" = some (.str l.name)
  correlation : members.lookup "correlation_id" = none
  traceback : "traceback" ∉ e.fields.map Prod.fst → members.lookup "traceback" = some (.str raised)
  field : ∀ f ∈ e.fields, f.1 ≠ "taskName" → members.lookup f.1 = some f.2

theorem Tellable.exists_wrapped (h : Tellable e) (l : Logger) {raised : String} (hraised : e.raised = some raised)
    (inner : String) :
    ∃ members, l.wrapped e inner = .obj members ∧ Proper (.obj members) ∧ Wraps l e raised inner members := by
  have hkept := List.filter_sublist (p := fun f => f.1 ≠ "taskName") (l := e.fields)
  have hnodup := h.nodup.sublist (hkept.map Prod.fst)
  rw [wrapped, hraised]
  refine ⟨_, rfl, proper_putAll (.obj ?_ ?_) (proper_filter _ h.fields), ?_⟩
  · exact (by decide : ["timestamp", "level", "logger", "message", "traceback"].Nodup)
  · rw [Option.elim_some]
    simp only [List.cons_append, List.nil_append, List.forall_mem_cons]
    exact ⟨.str _, .str _, .str _, .str _, .str _, nofun⟩
  · have htaken {k : String} (hk : k ∈ taken) := h.lookup_taken hkept.subset hk
    exact ⟨htaken (by decide) _, htaken (by decide) _, htaken (by decide) _, htaken (by decide) _,
      fun hk => lookup_putAll_of_notMem fun hmem => hk ((hkept.map Prod.fst).subset hmem),
      fun f hf hname => lookup_putAll_of_mem hnodup (List.mem_filter.2 ⟨hf, by simpa using hname⟩)⟩

theorem line_of_raised (hl : l.structured = true) {raised : String} (hraised : e.raised = some raised) :
    l.line e = (l.wrapped e (l.rendered e)).compact := by
  rw [line, if_pos hl, hraised, Option.isNone_some, Bool.and_false, if_neg Bool.false_ne_true]

/-! ### Calls -/

theorem given?_of_free (names : List String) {fields : List (String × Json)} (h : ∀ f ∈ fields, f.1 ∉ names) :
    given? names fields = .ok () := by
  have hnone : names.find? (fun name => fields.any (·.1 = name)) = none := by
    refine List.find?_eq_none.2 fun name hname hany => ?_
    obtain ⟨f, hf, hf'⟩ := List.any_eq_true.1 hany
    exact h f hf (of_decide_eq_true hf' ▸ hname)
  rw [given?, hnone]

/-- A call at a level that is written gives its line. -/
theorem Tellable.write_eq (h : Tellable e) (hlevel : l.threshold ≤ e.level.rank) : l.write e = .ok [l.line e] := by
  have hgiven := given?_of_free given fun f hf hmem => h.free f hf (by simp [taken, hmem])
  have hfree : (e.fields.find? fun f => reserved.contains f.1) = none := by
    refine List.find?_eq_none.2 fun f hf hmem => h.free f hf ?_
    simp [taken, List.contains_iff_mem.1 hmem]
  rw [write, hgiven, hfree]
  change (if e.level.rank < l.threshold then _ else _) = _
  rw [if_neg (Nat.not_lt.2 hlevel)]
  rfl

/-- An error that is described is one line about what is being raised. -/
theorem exception_eq_write {fields : List (String × Json)} (h : ∀ f ∈ fields, f.1 ≠ raisedField) (message : Json)
    (current : Option String) : l.exception message fields current =
      l.write ⟨.error, message, fields, some (current.getD "NoneType: None")⟩ := by
  have hfree := given?_of_free [raisedField] fun f hf hmem => h f hf (List.mem_singleton.1 hmem)
  have hfilter : (((raisedField, Json.bool true) :: fields).filter fun f => f.1 ≠ raisedField) = fields := by
    rw [List.filter_cons_of_neg (by simp), List.filter_eq_self]
    exact fun f hf => decide_eq_true (h f hf)
  rw [exception, hfree]
  change l.error message ((raisedField, .bool true) :: fields) current = _
  rw [error, hfilter, List.lookup_cons_self]
  rfl

/-- A call is one line, which reads as its document if nothing was raised. Else it reads as a document around that one,
whose message is a text that reads as the document of the call. -/
theorem write_decodes (hl : l.structured = true) (h : Tellable e) (hlevel : l.threshold ≤ e.level.rank) :
    ∃ line members, l.write e = .ok [line] ∧ Printable line.toList ∧ Tells l e members ∧
      match e.raised with
      | none => Decodes line.toList (.obj members)
      | some raised => ∃ inner outer, Decodes inner.toList (.obj members) ∧ Decodes line.toList (.obj outer) ∧
          Wraps l e raised inner outer := by
  obtain ⟨members, hdocument, hproper, htells⟩ := h.exists_document l
  have hrendered : l.rendered e = (Json.obj members).compact := by rw [rendered, if_pos hl, hdocument]
  refine ⟨l.line e, members, h.write_eq hlevel, ?_⟩
  cases hraised : e.raised with
  | none =>
    rw [line, if_pos hl, hrendered, hraised]
    have hbrace : (['\x7b'].isPrefixOf (Json.obj members).compact.toList && (none : Option String).isNone) = true := by
      rw [compact, String.toList_append, String.toList_append]
      rfl
    rw [if_pos hbrace]
    exact ⟨hproper.printable_compact, htells, hproper.decodes_compact⟩
  | some raised =>
    obtain ⟨outer, hwrapped, houter, hwraps⟩ := h.exists_wrapped l hraised (Json.obj members).compact
    rw [line_of_raised hl hraised, hrendered, hwrapped]
    exact ⟨houter.printable_compact, htells, _, outer, hproper.decodes_compact, houter.decodes_compact, hwraps⟩

/-- A logger of JSON lines. -/
def jsonLogger : Logger := ⟨"prosecheck", 20, true, "run-1", "2024-05-01T12:00:00Z"⟩

/-- A call whose message looks like a document and is none. -/
def bracedCall : Entry := ⟨.info, .str "\x7b \"Größe\"\n", [("count", .int 2), ("file", .str "main.typ")], none⟩

theorem write_decodes_braced : Tellable bracedCall ∧ ∃ line members, jsonLogger.write bracedCall = .ok [line] ∧
    Printable line.toList ∧ Tells jsonLogger bracedCall members ∧ Decodes line.toList (.obj members) := by
  have h : Tellable bracedCall := by
    refine ⟨.str _, .obj (by decide) ?_, by decide⟩
    simp only [bracedCall, List.forall_mem_cons]
    exact ⟨.int _, .str _, nofun⟩
  exact ⟨h, write_decodes rfl h (by decide)⟩

/-- An error that is described. -/
def brokenCall : Entry := ⟨.error, .str "Broken", [("count", .int 2)], some "RuntimeError: boom"⟩

/-- Its line is a document, but neither the message nor the run in it is that of the call. -/
theorem exception_hides : ∃ line,
    jsonLogger.exception (.str "Broken") [("count", .int 2)] (some "RuntimeError: boom") = .ok [line] ∧
    (∃ members, Decodes line.toList (.obj members)) ∧ ∀ members, Decodes line.toList (.obj members) →
      members.lookup "message" ≠ some (.str "Broken") ∧ members.lookup "correlation_id" = none := by
  have h : Tellable brokenCall := by
    refine ⟨.str _, .obj (by decide) ?_, by decide⟩
    simp only [brokenCall, List.forall_mem_cons]
    exact ⟨.int _, nofun⟩
  obtain ⟨outer, hwrapped, houter, hwraps⟩ := h.exists_wrapped jsonLogger rfl (jsonLogger.rendered brokenCall)
  have hdecodes : Decodes (jsonLogger.line brokenCall).toList (.obj outer) := by
    rw [line_of_raised rfl rfl, hwrapped]
    exact houter.decodes_compact
  refine ⟨_, (exception_eq_write (by decide) _ _).trans (h.write_eq (by decide)), ⟨outer, hdecodes⟩,
    fun members hmembers => ?_⟩
  obtain rfl : outer = members := Json.obj.inj (hdecodes.unique hmembers)
  refine ⟨?_, hwraps.correlation⟩
  rw [hwraps.message]
  decide

end Logger

end Proofreader.Log
