import Proofreader.Document.Node
import Proofreader.Fault
import Proofreader.Number.Reading
import Proofreader.Text.Case

/-! What happens to a node when its document is flattened, and how settings write it. Checking hides what is no prose
behind tokens and starts pages at headings; the plain rendering leaves every kind alone. -/

namespace Proofreader

inductive Effect where
  /-- Contributes nothing. -/
  | drop
  /-- Contributes its children and ends no paragraph. -/
  | unwrap
  /-- Becomes a fixed token. -/
  | rewrite
  /-- Begins a page, a heading only up to a level. -/
  | paginateBefore
  | identity
deriving DecidableEq, Inhabited

namespace Effect

def all : List Effect := [drop, unwrap, rewrite, paginateBefore, identity]

def name : Effect → String
  | drop => "drop"
  | unwrap => "unwrap"
  | rewrite => "rewrite"
  | paginateBefore => "paginate-before"
  | identity => "identity"

def ofName? (s : String) : Option Effect := all.find? (·.name = s)

end Effect

/-- An effect with the token and the level that it may need. -/
structure Rule where
  effect : Effect
  token : Text := []
  level : Int := 1
deriving DecidableEq, Inhabited

inductive StyleError where
  | unknownRule (text : String)
  | badLevel (text : String)
  | unknownKind (name : String)
  | missing (kinds : List Kind)

def StyleError.message : StyleError → String
  | unknownRule text => "Unknown style rule: " ++ quoted text
  | badLevel text => "Invalid heading level in rule: " ++ quoted text
  | unknownKind name => "Unknown node kind in rules: " ++ quoted name
  | missing kinds => "Style rules missing for: " ++ joinWith ", " (kinds.map Kind.name)

def StyleError.problem (e : StyleError) : Problem := .configuration e.message (.str "rules") []

namespace Rule

def identity : Rule := { effect := .identity }

def rewrite (token : Text) : Rule := { effect := .rewrite, token := token }

def paginateBefore (level : Int) : Rule := { effect := .paginateBefore, level := level }

def defaultToken : Text := ['X']
def citationToken : Text := ['[', '1', ']']

/-- A rule name without surrounding blanks, in lower case and with hyphens. -/
def normalName (name : Text) : String :=
  String.ofList ((Text.lower (Text.trim name)).map fun c => if c = '_' then '-' else c)

/-- A name, and after a colon the token or the level. -/
def parse (source : String) : Except StyleError Rule :=
  let (name, argument?) := Text.splitFirst (· = ':') (Text.trim source.toList)
  let argument := argument?.getD []
  match Effect.ofName? (normalName name) with
  | none => .error (.unknownRule source)
  | some .rewrite => .ok (rewrite (if argument.isEmpty then defaultToken else argument))
  | some .paginateBefore =>
    if argument.isEmpty then .ok (paginateBefore 1)
    else
      match readInteger? (String.ofList argument) with
      | some level => .ok (paginateBefore level)
      | none => .error (.badLevel source)
  | some effect => .ok { effect := effect }

/-- The token a node is rewritten to. -/
def token? (rule : Rule) : Option Text :=
  if rule.effect = .rewrite ∧ rule.token ≠ [] then some rule.token else none

end Rule

/-- A rule for every node kind. -/
structure Table where
  ruleFor : Kind → Rule

namespace Table

def identity : Table := ⟨fun _ => .identity⟩

def checking (level : Int) : Table where
  ruleFor
    | .mathInline | .rawInline => .rewrite Rule.defaultToken
    | .citation => .rewrite Rule.citationToken
    | .mathBlock | .bibliography | .rawBlock => { effect := .drop }
    | .strong | .emph | .block => { effect := .unwrap }
    | .heading => .paginateBefore level
    | _ => .identity

def set (t : Table) (kind : Kind) (rule : Rule) : Table :=
  ⟨fun k => if k = kind then rule else t.ruleFor k⟩

/-- The rules of settings, later ones over earlier ones. -/
def override (t : Table) : List (String × String) → Except StyleError Table
  | [] => .ok t
  | (name, source) :: r =>
    match Kind.ofName? (String.ofList (Text.lower (Text.trim name.toList))) with
    | none => .error (.unknownKind name)
    | some kind => do
      let rule ← Rule.parse source
      (t.set kind rule).override r

/-- The table for a check, or for the plain rendering, whose rules settings do not change. -/
def resolve (spellcheck : Bool) (overrides : List (String × String)) (level : Int) : Except StyleError Table :=
  if spellcheck then (checking level).override overrides else .ok identity

/-- A table from rules for single kinds, which must name every kind. -/
def ofRules (rules : List (Kind × Rule)) : Except StyleError Table :=
  match Kind.all.filter fun k => (rules.lookup k).isNone with
  | [] => .ok ⟨fun k => (rules.lookup k).getD .identity⟩
  | missing => .error (.missing missing)

def beq (t u : Table) : Bool := Kind.all.all fun k => t.ruleFor k = u.ruleFor k

theorem beq_iff {t u : Table} : t.beq u = true ↔ ∀ k, t.ruleFor k = u.ruleFor k := by
  simp only [beq, List.all_eq_true, decide_eq_true_eq]
  exact ⟨fun h k => h k k.mem_all, fun h k _ => h k⟩

/-- The tokens that nodes are rewritten to. -/
def tokens (t : Table) : List Text := (Kind.all.filterMap fun k => (t.ruleFor k).token?).eraseDups

end Table

end Proofreader
