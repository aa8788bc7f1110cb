import Proofreader.Finding
import Proofreader.Json.Access
import Proofreader.Json.Reader
import Proofreader.Text.Utf16

/-! What a checking server is asked and what it answers. It counts offsets in UTF-16 units. -/

namespace Proofreader

inductive Method where
  | get
  | post

structure Request (τ : Type) where
  method : Method
  url : String
  timeout : τ
  form : List (String × String)

inductive FailureKind where
  | timeout
  | connection
  | other
deriving DecidableEq, Inhabited

inductive Reply where
  /-- No answer came. -/
  | failed (kind : FailureKind) (text : String)
  | answered (status : Int) (body : String)

namespace Reply

/-- A member as it is; an empty text where there is none. -/
def namedMember (v : Json) (key : String) : Except Mishap Json := (v.member? key).map (·.getD (.str ""))

def numberMember (v : Json) (key : String) : Except Mishap Int := do
  ((← v.member? key).getD (.int 0)).toInteger

/-- What an item proposes; a proposal without a value is none. -/
def replacements (item : Json) : Except Mishap (List Json) := do
  let items ← ((← item.member? "replacements").getD (.arr [])).iterate
  let values ← items.mapM fun r => do
    match ← r.member? "value" with
    | none | some .null => pure none
    | some v => pure (some v)
  pure (values.filterMap id)

def finding (index : UnitIndex) (item : Json) : Except Mishap Finding := do
  let rule ← item.memberOrEmpty "rule"
  let category ← rule.memberOrEmpty "category"
  let startUnits ← numberMember item "offset"
  let length ← numberMember item "length"
  let start := index.toIndex startUnits false
  let stop := index.toIndex (startUnits + length) true
  let id ← namedMember rule "id"
  let message ← namedMember item "message"
  let values ← replacements item
  let group ← namedMember category "id"
  let issue ← namedMember rule "issueType"
  pure ⟨start, max 0 (stop - start), id, message, values, group, issue⟩

/-- The findings that an answer lists for a text. -/
def findings (answer : Json) (text : Text) : Except Mishap (List Finding) := do
  let index := UnitIndex.ofText text
  let items ← ((← answer.member? "matches").getD (.arr [])).iterate
  items.mapM (finding index)

end Reply

end Proofreader
