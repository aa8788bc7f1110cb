import Proofreader.Finding
import Proofreader.Json.Value
import Proofreader.Text.Utf16

/-! A checker that looks for fixed texts. It answers as a tool, in code points, or as a server, in
UTF-16 units, and may widen what a server reports. -/

namespace Proofreader

/-- Where a text occurs, from left to right and without overlap. -/
def occurrences (pattern : Text) : (skip offset : Nat) → Text → List Nat
  | _, _, [] => []
  | skip + 1, offset, _ :: r => occurrences pattern skip (offset + 1) r
  | 0, offset, c :: r =>
    if !pattern.isEmpty && pattern.isPrefixOf (c :: r) then
      offset :: occurrences pattern (pattern.length - 1) (offset + 1) r
    else occurrences pattern 0 (offset + 1) r

structure LiteralRule where
  find : Text
  /-- The only tag the rule is for, if there is one. -/
  language : Option String
  /-- What a finding says; all of it may be left open. -/
  id : Json
  message : Json
  replacements : List Json
  category : Json
  issue : Json
  /-- How many units a server adds before and after. -/
  before : Int
  after : Int

namespace LiteralRule

def appliesTo (rule : LiteralRule) (tag : String) : Bool := rule.language.all (· = tag)

def findings (rule : LiteralRule) (t : Text) : List Finding :=
  (occurrences rule.find 0 0 t).map fun offset : Nat =>
    ⟨offset, rule.find.length, rule.id, rule.message, rule.replacements, rule.category, rule.issue⟩

/-- One item of a server's answer, for an occurrence at a code point offset. -/
def item (rule : LiteralRule) (t : Text) (offset : Nat) : Json :=
  let start : Int := Text.units (t.take offset)
  let stop : Int := start + Text.units rule.find
  let low := max 0 (start - rule.before)
  .obj [("message", rule.message), ("offset", .int low), ("length", .int (stop + rule.after - low)),
    ("replacements", .arr (rule.replacements.map fun r => .obj [("value", r)])),
    ("rule", .obj [("id", rule.id), ("issueType", rule.issue), ("category", .obj [("id", rule.category)])])]

def items (rule : LiteralRule) (t : Text) : List Json := (occurrences rule.find 0 0 t).map (rule.item t)

end LiteralRule

/-- All findings of the rules for a tag, rule by rule. -/
def literalFindings (rules : List LiteralRule) (tag : String) (t : Text) : List Finding :=
  (rules.filter (·.appliesTo tag)).flatMap (·.findings t)

/-- The same as the answer of a server. -/
def literalAnswer (rules : List LiteralRule) (tag : String) (t : Text) : Json :=
  .obj [("matches", .arr ((rules.filter (·.appliesTo tag)).flatMap (·.items t)))]

end Proofreader
