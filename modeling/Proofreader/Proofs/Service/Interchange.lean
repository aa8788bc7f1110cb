import Mathlib.Data.List.Forall2
import Proofreader.Json.Writer
import Proofreader.Proofs.Collections
import Proofreader.Proofs.Json.Equality
import Proofreader.Proofs.Service.Occurrences
import Proofreader.Proofs.Text.Units
import Proofreader.Service.Backend
import Proofreader.Service.Literal

/-! Services are interchangeable. A server counts in UTF-16 units and answers with a JSON text, the bundled tool counts
in characters and answers at once; what a text is found to hold is the same whichever of them is asked. -/

namespace Proofreader

variable {σ τ : Type}

/-- A rule with all of its values. A category or an issue that says nothing is the empty text. -/
structure LiteralRule.Complete (rule : LiteralRule) : Prop where
  replacements : ∀ r ∈ rule.replacements, r ≠ .null
  category : rule.category.isEmpty = true → rule.category = .str ""
  issue : rule.issue.isEmpty = true → rule.issue = .str ""

/-- Where the rules for a tag find something, rule by rule. -/
def literalOccurrences (rules : List LiteralRule) (tag : String) (t : Text) : List (LiteralRule × Nat) :=
  (rules.filter (·.appliesTo tag)).flatMap fun rule => (occurrences rule.find 0 0 t).map fun offset => (rule, offset)

/-- An occurrence as the tool reports it, in characters. -/
def LiteralRule.findingAt (rule : LiteralRule) (offset : Nat) : Finding :=
  ⟨offset, rule.find.length, rule.id, rule.message, rule.replacements, rule.category, rule.issue⟩

/-- An occurrence as a server reports it, in UTF-16 units. There may be more in the item. -/
structure LiteralRule.Reported (rule : LiteralRule) (t : Text) (offset : Nat) (item : Json) : Prop where
  offset : item.get? "offset" = some (.int (Text.units (t.take offset)))
  length : item.get? "length" = some (.int (Text.units rule.find))
  message : item.get? "message" = some rule.message
  replacements : ∃ rs, item.get? "replacements" = some (.arr rs) ∧
    rs.map (·.get? "value") = rule.replacements.map some
  named : ∃ named, item.get? "rule" = some named ∧ named.get? "id" = some rule.id ∧
    named.get? "issueType" = some rule.issue ∧
    ∃ group, named.get? "category" = some group ∧ group.get? "id" = some rule.category

/-- The answer lists what the rules find, in UTF-16 units. -/
def Json.Lists (answer : Json) (rules : List LiteralRule) (tag : String) (t : Text) : Prop :=
  ∃ items, answer.get? "matches" = some (.arr items) ∧
    List.Forall₂ (fun x item => x.1.Reported t x.2 item) (literalOccurrences rules tag t) items

/-- The request by which a client has a text checked under a profile. -/
def Client.requestFor (c : Client τ) (profile : Profile) (t : Text) : Request τ :=
  c.checkRequest t profile.tag (sortedSet profile.disabled)

/-- Whenever the server answers a client that has the text checked, it lists what the rules find. -/
def Network.Lists (net : Network σ τ) (c : Client τ) (rules : List LiteralRule) (profile : Profile) (t : Text) : Prop :=
  ∀ w status body w', net.send (c.requestFor profile t) w = (.answered status body, w') →
    status = 200 ∧ ∃ answer, Json.parse body.toList = .ok answer ∧ answer.Lists rules profile.tag t

/-- Whenever the tool checks the text, it finds what the rules find. -/
def Toolbox.Lists (box : Toolbox σ) (rules : List LiteralRule) (profile : Profile) (t : Text) : Prop :=
  ∀ w fs w', box.check t profile.tag (sortedSet profile.disabled) w = (.ok fs, w') →
    fs = literalFindings rules profile.tag t

def Network.Answers (net : Network σ τ) (c : Client τ) (profile : Profile) (t : Text) : Prop :=
  ∀ w, ∃ status body w', net.send (c.requestFor profile t) w = (.answered status body, w')

def Toolbox.Answers (box : Toolbox σ) (profile : Profile) (t : Text) : Prop :=
  ∀ w, ∃ fs w', box.check t profile.tag (sortedSet profile.disabled) w = (.ok fs, w')

namespace Backend

/-- What stands behind a service reports the occurrences, each kind in its own way of counting. -/
def Lists (g : Ground σ τ) (b : Backend τ) (rules : List LiteralRule) (profile : Profile) (t : Text) : Prop :=
  match b with
  | bundled _ => g.box.Lists rules profile t
  | external server _ => g.host.network.Lists server.client rules profile t
  | remote _ client => g.host.network.Lists client rules profile t

/-- What stands behind a service answers when it is asked to check the text. -/
def Answers (g : Ground σ τ) (b : Backend τ) (profile : Profile) (t : Text) : Prop :=
  match b with
  | bundled _ => g.box.Answers profile t
  | external server _ => g.host.network.Answers server.client profile t
  | remote _ client => g.host.network.Answers client profile t

end Backend

variable {rules : List LiteralRule} {rule : LiteralRule} {t : Text} {tag : String} {profile : Profile} {offset : Nat}
  {item answer : Json}

theorem literalFindings_eq (rules : List LiteralRule) (tag : String) (t : Text) :
    literalFindings rules tag t = (literalOccurrences rules tag t).map fun x => x.1.findingAt x.2 := by
  unfold literalFindings literalOccurrences
  rw [List.map_flatMap]
  refine congrArg (List.flatMap · _) (funext fun rule => ?_)
  rw [List.map_map]
  rfl

theorem occurrences_nil (offset : Nat) (t : Text) : occurrences [] 0 offset t = [] := by
  induction t generalizing offset with
  | nil => rfl
  | cons c r ih => exact ih (offset + 1)

theorem occurs_of_mem_literalOccurrences {x : LiteralRule × Nat} (hx : x ∈ literalOccurrences rules tag t) :
    x.1 ∈ rules ∧ x.1.find <+: t.drop x.2 ∧ x.2 ≤ t.length := by
  obtain ⟨rule, hrule, hx⟩ := List.mem_flatMap.1 hx
  obtain ⟨offset, hoffset, rfl⟩ := List.mem_map.1 hx
  have hfind : rule.find ≠ [] := by
    intro hnil
    rw [hnil, occurrences_nil] at hoffset
    cases hoffset
  have hscans := scans_occurrences hfind t
  have hwithin := (hscans.within offset hoffset).2
  exact ⟨(List.mem_filter.1 hrule).1, hscans.occurs offset hoffset, by omega⟩

/-- The item a server makes of an occurrence reports it, where nothing is added before or after. -/
theorem LiteralRule.reported_item (hbefore : rule.before = 0) (hafter : rule.after = 0) (t : Text) (offset : Nat) :
    rule.Reported t offset (rule.item t offset) where
  offset := by
    change some (Json.int (max 0 ((Text.units (t.take offset) : Int) - rule.before))) = _
    rw [hbefore, Int.sub_zero, Int.max_eq_right (Int.natCast_nonneg _)]
  length := by
    change some (Json.int ((Text.units (t.take offset) : Int) + Text.units rule.find + rule.after -
      max 0 ((Text.units (t.take offset) : Int) - rule.before))) = _
    rw [hbefore, hafter, Int.sub_zero, Int.max_eq_right (Int.natCast_nonneg _), Int.add_zero, Int.add_comm, Int.add_sub_cancel]
  message := rfl
  replacements := by
    refine ⟨_, rfl, ?_⟩
    rw [List.map_map]
    exact List.map_congr_left fun r _ => rfl
  named := ⟨_, rfl, rfl, rfl, _, rfl, rfl⟩

theorem literalAnswer_lists (h : ∀ rule ∈ rules, rule.before = 0 ∧ rule.after = 0) (tag : String) (t : Text) :
    (literalAnswer rules tag t).Lists rules tag t := by
  refine ⟨_, rfl, ?_⟩
  have hitems : (rules.filter (·.appliesTo tag)).flatMap (·.items t) =
      (literalOccurrences rules tag t).map fun x => x.1.item t x.2 := by
    unfold literalOccurrences
    rw [List.map_flatMap]
    refine congrArg (List.flatMap · _) (funext fun rule => ?_)
    rw [List.map_map]
    rfl
  rw [hitems]
  refine List.forall₂_map_right_iff.2 (List.forall₂_same.2 fun x hx => ?_)
  obtain ⟨hbefore, hafter⟩ := h x.1 (occurs_of_mem_literalOccurrences hx).1
  exact x.1.reported_item hbefore hafter t x.2
namespace Json

variable {v w : Json} {key : String}

theorem member?_of_get? (h : v.get? key = some w) : v.member? key = .ok (some w) := by
  cases v with
  | obj members => exact congrArg Except.ok h
  | _ => cases h

theorem memberOrEmpty_of_get? (h : v.get? key = some w) {k : String} {x : Json} (hx : w.get? k = some x) :
    v.memberOrEmpty key = .ok w := by
  have hfull : w.isEmpty = false := by
    cases w with
    | obj members =>
      cases members with
      | nil => cases hx
      | cons m r => rfl
    | _ => cases hx
  unfold memberOrEmpty
  rw [member?_of_get? h]
  exact congrArg Except.ok (if_neg (by rw [hfull]; exact Bool.false_ne_true))

end Json

namespace Reply

theorem namedMember_of_get? {v w : Json} {key : String} (h : v.get? key = some w) : namedMember v key = .ok w := by
  rw [namedMember, Json.member?_of_get? h]
  rfl

theorem numberMember_of_get? {v : Json} {key : String} {i : Int} (h : v.get? key = some (.int i)) :
    numberMember v key = .ok i := by
  rw [numberMember, Json.member?_of_get? h]
  rfl

/-- All proposals have a value, so all of them are kept. -/
theorem replacements_of_get? {rs values : List Json} (h : item.get? "replacements" = some (.arr rs))
    (hvalues : rs.map (·.get? "value") = values.map some) (hnull : ∀ v ∈ values, v ≠ .null) :
    replacements item = .ok values := by
  have hkept : (values.map some).filterMap id = values := by
    rw [List.filterMap_map]
    exact List.filterMap_some
  rw [replacements, Json.member?_of_get? h]
  change (List.mapM _ rs >>= fun kept => Except.ok (kept.filterMap id)) = _
  rw [mapM_eq (g := fun r => r.get? "value") fun r hr => ?_]
  · rw [hvalues]
    exact congrArg Except.ok hkept
  · have hmem : r.get? "value" ∈ values.map some := hvalues ▸ List.mem_map_of_mem hr
    obtain ⟨v, hv, hvalue⟩ := List.mem_map.1 hmem
    rw [Json.member?_of_get? hvalue.symm, ← hvalue]
    cases v with
    | null => exact absurd rfl (hnull _ hv)
    | _ => rfl

/-- An item in units is read as the occurrence in characters, also next to pairs of units. -/
theorem finding_of_reported (h : rule.Reported t offset item) (hrule : rule.Complete) (hfind : rule.find <+: t.drop offset)
    (hoffset : offset ≤ t.length) : finding (UnitIndex.ofText t) item = .ok (rule.findingAt offset) := by
  obtain ⟨rs, hrs, hvalues⟩ := h.replacements
  obtain ⟨named, hnamed, hid, hissue, group, hgroup, hcategory⟩ := h.named
  have hstart : (UnitIndex.ofText t).toIndex (Text.units (t.take offset)) false = offset :=
    UnitIndex.toIndex_units false hoffset
  have hstop : (UnitIndex.ofText t).toIndex (Text.units (t.take offset) + Text.units rule.find) true =
      ((offset + rule.find.length : Nat) : Int) := by
    have hend : offset + rule.find.length ≤ t.length := by
      have := hfind.length_le
      rw [List.length_drop] at this
      omega
    have htake : t.take (offset + rule.find.length) = t.take offset ++ rule.find := by
      rw [List.take_add, ← List.prefix_iff_eq_take.1 hfind]
    have hunits := UnitIndex.toIndex_units true hend
    rwa [htake, Text.units_append, Int.natCast_add] at hunits
  simp only [finding, Json.memberOrEmpty_of_get? hnamed hid, Json.memberOrEmpty_of_get? hgroup hcategory,
    numberMember_of_get? h.offset, numberMember_of_get? h.length, namedMember_of_get? hid, namedMember_of_get? h.message,
    replacements_of_get? hrs hvalues hrule.replacements, namedMember_of_get? hcategory, namedMember_of_get? hissue,
    bind, Except.bind, pure, Except.pure, hstart, hstop, LiteralRule.findingAt, Except.ok.injEq]
  congr 1
  omega

/-- Items on occurrences are read one by one. -/
theorem mapM_finding {xs : List (LiteralRule × Nat)} {items : List Json}
    (h : List.Forall₂ (fun x item => x.1.Reported t x.2 item) xs items)
    (hxs : ∀ x ∈ xs, x.1.Complete ∧ x.1.find <+: t.drop x.2 ∧ x.2 ≤ t.length) :
    items.mapM (finding (UnitIndex.ofText t)) = .ok (xs.map fun x => x.1.findingAt x.2) := by
  induction h with
  | nil => rfl
  | @cons x item xs items hitem _ ih =>
    obtain ⟨hrule, hfind, hoffset⟩ := hxs x List.mem_cons_self
    rw [List.mapM_cons, finding_of_reported hitem hrule hfind hoffset, ih fun y hy => hxs y (List.mem_cons_of_mem _ hy)]
    rfl

/-- An answer in units is read as what the rules find. -/
theorem findings_of_lists (h : answer.Lists rules tag t) (hrules : ∀ rule ∈ rules, rule.Complete) :
    findings answer t = .ok (literalFindings rules tag t) := by
  obtain ⟨items, hitems, hreported⟩ := h
  have hread := mapM_finding hreported fun x hx => by
    obtain ⟨hmem, hoccurs⟩ := occurs_of_mem_literalOccurrences hx
    exact ⟨hrules _ hmem, hoccurs⟩
  rw [← literalFindings_eq] at hread
  unfold findings
  rw [Json.member?_of_get? hitems]
  exact hread

end Reply

variable [Time τ]

/-- A body that a client delivers is one that the server answered with. -/
theorem Client.answered_of_deliver (c : Client τ) {net : Network σ τ} {request : Request τ} {left attempt : Nat}
    {body : String} {w w' : σ} (h : c.deliver net request left attempt w = (.ok body, w')) :
    ∃ v, net.send request v = (.answered 200 body, w') := by
  induction left generalizing attempt w with
  | zero =>
    unfold deliver at h
    split at h
    · next status body' s hsend =>
      split at h
      · next hstatus =>
        cases h
        exact ⟨w, hstatus ▸ hsend⟩
      · cases h
    · cases h
    · cases h
  | succ left ih =>
    unfold deliver at h
    split at h
    · next status body' s hsend =>
      split at h
      · next hstatus =>
        cases h
        exact ⟨w, hstatus ▸ hsend⟩
      · cases h
    · cases h
    · dsimp only at h
      split at h
      · cases h
      · exact ih h
      · exact ih h

theorem Client.check_fst (net : Network σ τ) (c : Client τ) (w : σ) :
    (c.check net t profile.tag (sortedSet profile.disabled) w).1 =
      (c.deliver net (c.requestFor profile t) c.backoff.retries 1 w).1 >>= c.readBody t := rfl

/-- What a client reads off a server that lists what the rules find is what they find. -/
theorem Client.check_of_lists {net : Network σ τ} {c : Client τ} (hnet : net.Lists c rules profile t)
    (hrules : ∀ rule ∈ rules, rule.Complete) (w : σ) :
    (∀ fs, (c.check net t profile.tag (sortedSet profile.disabled) w).1 = .ok fs →
        fs = literalFindings rules profile.tag t) ∧
      (net.Answers c profile t →
        (c.check net t profile.tag (sortedSet profile.disabled) w).1 = .ok (literalFindings rules profile.tag t)) := by
  have hread : ∀ body v v', net.send (c.requestFor profile t) v = (.answered 200 body, v') →
      c.readBody t body = .ok (literalFindings rules profile.tag t) := by
    intro body v v' hsend
    obtain ⟨-, answer, hparse, hlists⟩ := hnet v 200 body v' hsend
    unfold readBody
    rw [hparse]
    dsimp only
    rw [Reply.findings_of_lists hlists hrules]
    rfl
  rw [check_fst]
  refine ⟨fun fs hfs => ?_, fun hanswers => ?_⟩
  · rcases hdeliver : c.deliver net (c.requestFor profile t) c.backoff.retries 1 w with ⟨got, w'⟩
    rw [hdeliver] at hfs
    cases got with
    | error e => cases hfs
    | ok body =>
      obtain ⟨v, hsend⟩ := c.answered_of_deliver hdeliver
      have hfs' : c.readBody t body = .ok fs := hfs
      rw [hread body v w' hsend] at hfs'
      exact (Except.ok.inj hfs').symm
  · obtain ⟨status, body, w', hsend⟩ := hanswers w
    obtain ⟨rfl, -⟩ := hnet w status body w' hsend
    have hdeliver : c.deliver net (c.requestFor profile t) c.backoff.retries 1 w = (.ok body, w') := by
      unfold deliver
      rw [hsend]
      rfl
    rw [hdeliver]
    exact hread body w w' hsend

/-- A complete finding is reported by the tool as it is. -/
theorem Tool.complete_findingAt (hrule : rule.Complete) (offset : Nat) :
    Tool.complete (rule.findingAt offset) = rule.findingAt offset := by
  have hkeep : ∀ v : Json, (v.isEmpty = true → v = .str "") → Tool.orNoText v = v := by
    intro v hv
    unfold Tool.orNoText
    split
    · next hempty => exact (hv hempty).symm
    · rfl
  unfold Tool.complete LiteralRule.findingAt
  dsimp only
  rw [hkeep _ hrule.category, hkeep _ hrule.issue]

theorem Tool.map_complete (hrules : ∀ rule ∈ rules, rule.Complete) :
    (literalFindings rules tag t).map Tool.complete = literalFindings rules tag t := by
  rw [literalFindings_eq, List.map_map]
  refine List.map_congr_left fun x hx => ?_
  exact Tool.complete_findingAt (hrules _ (occurs_of_mem_literalOccurrences hx).1) x.2

/-- What the service makes of a check by the tool is what the tool finds. -/
theorem Tool.check_of_lists {box : Toolbox σ} (hbox : box.Lists rules profile t)
    (hrules : ∀ rule ∈ rules, rule.Complete) (tool : ToolState) (w : σ) :
    (∀ fs, (Tool.check box t profile tool w).1 = .ok fs → fs = literalFindings rules profile.tag t) ∧
      ((Tool.start box tool w).1 = .ok () → box.Answers profile t →
        (Tool.check box t profile tool w).1 = .ok (literalFindings rules profile.tag t)) := by
  have hmap : (literalFindings rules profile.tag t).map Tool.complete = literalFindings rules profile.tag t :=
    Tool.map_complete hrules
  unfold Tool.check
  rcases hstart : Tool.start box tool w with ⟨started, tool', v⟩
  cases started with
  | error e => exact ⟨nofun, nofun⟩
  | ok u =>
    dsimp only
    rcases hcheck : box.check t profile.tag (sortedSet profile.disabled) v with ⟨got, w'⟩
    cases got with
    | error e =>
      refine ⟨nofun, fun _ hanswers => ?_⟩
      obtain ⟨fs, w'', hok⟩ := hanswers v
      rw [hcheck] at hok
      cases hok
    | ok fs =>
      obtain rfl := hbox v fs w' hcheck
      dsimp only
      rw [hmap]
      exact ⟨fun fs hfs => (Except.ok.inj hfs).symm, fun _ _ => rfl⟩

namespace Backend

variable {g : Ground σ τ}

/-- Whatever a service answers is what the rules find; and it does answer once it is ready and its requests get
through. -/
theorem check_of_lists {b : Backend τ} (hlists : b.Lists g rules profile t) (hrules : ∀ rule ∈ rules, rule.Complete)
    (w : σ) :
    (∀ fs, (b.check g t profile w).1 = .ok fs → fs = literalFindings rules profile.tag t) ∧
      ((b.start g w).1 = .ok () → b.Answers g profile t →
        (b.check g t profile w).1 = .ok (literalFindings rules profile.tag t)) := by
  cases b with
  | bundled tool => exact Tool.check_of_lists hlists hrules tool w
  | external server st =>
    unfold check start
    dsimp only
    rcases server.ensureRunning g.host st w with ⟨ready, st', v⟩
    cases ready with
    | error e => exact ⟨fun _ hfs => (nomatch hfs), fun hstart => (nomatch hstart)⟩
    | ok u =>
      obtain ⟨hsafe, hlive⟩ := Client.check_of_lists hlists hrules v
      exact ⟨hsafe, fun _ => hlive⟩
  | remote url client =>
    obtain ⟨hsafe, hlive⟩ := Client.check_of_lists hlists hrules w
    exact ⟨hsafe, fun _ => hlive⟩

/-- Two services for the same rules tell the same of a text, whatever they are and whatever state they are in: what one
of them answers, the other does not contradict, and where both can answer both answer with all that the rules find. -/
theorem check_interchangeable {σ' τ' : Type} [Time τ'] {g' : Ground σ' τ'} {b : Backend τ} {b' : Backend τ'}
    (hrules : ∀ rule ∈ rules, rule.Complete) (hlists : b.Lists g rules profile t) (hlists' : b'.Lists g' rules profile t)
    (w : σ) (w' : σ') :
    (∀ fs fs', (b.check g t profile w).1 = .ok fs → (b'.check g' t profile w').1 = .ok fs' → fs = fs') ∧
      (((b.start g w).1 = .ok () ∧ b.Answers g profile t) → ((b'.start g' w').1 = .ok () ∧ b'.Answers g' profile t) →
        (b.check g t profile w).1 = .ok (literalFindings rules profile.tag t) ∧
          (b'.check g' t profile w').1 = .ok (literalFindings rules profile.tag t)) := by
  obtain ⟨hsafe, hlive⟩ := check_of_lists hlists hrules w
  obtain ⟨hsafe', hlive'⟩ := check_of_lists hlists' hrules w'
  refine ⟨fun fs fs' hfs hfs' => ?_, fun h h' => ⟨hlive h.1 h.2, hlive' h'.1 h'.2⟩⟩
  rw [hsafe fs hfs, hsafe' fs' hfs']

/-- An emoji is one character to the tool and two units to the server. -/
def astralRules : List LiteralRule :=
  [⟨['t', 'e', 'h'], none, .str "TYPO", .str "Typo", [.str "the"], .str "TYPOS", .str "misspelling", 0, 0⟩,
    ⟨['😀'], some "en-US", .str "EMOJI", .str "Emoji", [], .str "", .str "style", 0, 0⟩]

def astralText : Text := ['😀', 't', 'e', 'h']

def american : Profile := ⟨"en", some "US", [], ["WHITESPACE_RULE"], true⟩

/-- A server and a tool that go by the same rules. -/
def astralGround : Ground Unit Quantity where
  host :=
    { launch := fun _ w => (some 0, w)
      isAlive := fun _ w => (true, w)
      terminate := fun _ w => w
      awaitEnd := fun _ w => (true, w)
      kill := fun _ w => w
      now := fun _ => .whole 0
      network :=
        { send := fun request w =>
            let tag := (request.form.lookup "language").getD ""
            let text := (request.form.lookup "text").getD ""
            (.answered 200 (literalAnswer astralRules tag text.toList).compact, w)
          sleep := fun _ w => w
          hangUp := fun w => w } }
  box := ⟨fun _ w => (.ok (), w), fun text tag _ w => (.ok (literalFindings astralRules tag text), w)⟩

def astralClient : Client Quantity := .create "http://127.0.0.1:8081/" (.whole 10) (.ofAttempts 3 (.ok (.whole 1)) (.whole 10))

def astralServer : Server Quantity := ⟨"java", "server.jar", .int 8081, astralClient, 2, .whole 60, 5, astralClient.backoff⟩

theorem parse_astral : Json.parse (literalAnswer astralRules "en-US" astralText).compact.toList =
    .ok (literalAnswer astralRules "en-US" astralText) := by
  have hread : (Json.parse (literalAnswer astralRules "en-US" astralText).compact.toList).toOption.map id =
      some (literalAnswer astralRules "en-US" astralText) := by decide +kernel
  obtain ⟨answer, hparse, rfl⟩ := eq_ok_of_toOption_map hread
  exact hparse

theorem send_astral (w : Unit) : astralGround.host.network.send (astralClient.requestFor american astralText) w =
    (.answered 200 (literalAnswer astralRules "en-US" astralText).compact, w) := by
  have htext : (String.ofList astralText).toList = astralText := String.toList_ofList
  have hform : (astralClient.requestFor american astralText).form =
      [("text", String.ofList astralText), ("language", "en-US"), ("disabledRules", "WHITESPACE_RULE")] := by
    decide +kernel
  unfold astralGround
  dsimp only
  rw [hform]
  change (Reply.answered 200 (literalAnswer astralRules "en-US" (String.ofList astralText).toList).compact, w) = _
  rw [htext]

theorem network_lists_astral : astralGround.host.network.Lists astralClient astralRules american astralText := by
  intro w status body w' hsend
  rw [send_astral] at hsend
  cases hsend
  exact ⟨rfl, _, parse_astral, literalAnswer_lists (by decide) _ _⟩

theorem toolbox_lists_astral : astralGround.box.Lists astralRules american astralText := by
  intro w fs w' hcheck
  cases hcheck
  rfl

theorem check_interchangeable_astral :
    let b : Backend Quantity := .bundled ⟨"en", false⟩
    let e : Backend Quantity := .external astralServer Server.idle
    let r : Backend Quantity := .remote "http://127.0.0.1:8081" astralClient
    (e.check astralGround astralText american ()).1 = (b.check astralGround astralText american ()).1 ∧
      (r.check astralGround astralText american ()).1 = (b.check astralGround astralText american ()).1 ∧
      (b.check astralGround astralText american ()).1 =
        .ok [⟨1, 3, .str "TYPO", .str "Typo", [.str "the"], .str "TYPOS", .str "misspelling"⟩,
          ⟨0, 1, .str "EMOJI", .str "Emoji", [], .str "", .str "style"⟩] := by
  intro b e r
  have hrules : ∀ rule ∈ astralRules, rule.Complete := by
    intro rule hrule
    obtain rfl | rfl : rule = _ ∨ rule = _ := by simpa [astralRules] using hrule
    · exact ⟨by simp, nofun, nofun⟩
    · exact ⟨by simp, fun _ => rfl, nofun⟩
  have hb : (b.start astralGround ()).1 = .ok () ∧ b.Answers astralGround american astralText :=
    ⟨rfl, fun w => ⟨_, _, rfl⟩⟩
  have he : (e.start astralGround ()).1 = .ok () ∧ e.Answers astralGround american astralText :=
    ⟨rfl, fun w => ⟨_, _, _, send_astral w⟩⟩
  have hr : (r.start astralGround ()).1 = .ok () ∧ r.Answers astralGround american astralText :=
    ⟨rfl, fun w => ⟨_, _, _, send_astral w⟩⟩
  have hserver : e.Lists astralGround astralRules american astralText := network_lists_astral
  have hremote : r.Lists astralGround astralRules american astralText := network_lists_astral
  have htool : b.Lists astralGround astralRules american astralText := toolbox_lists_astral
  obtain ⟨heq, hfound⟩ := (check_interchangeable hrules hserver htool () ()).2 he hb
  obtain ⟨heq', -⟩ := (check_interchangeable hrules hremote htool () ()).2 hr hb
  refine ⟨heq.trans hfound.symm, heq'.trans hfound.symm, ?_⟩
  rw [hfound]
  rfl

end Backend

end Proofreader
