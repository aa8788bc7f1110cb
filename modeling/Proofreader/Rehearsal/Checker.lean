import Proofreader.Service.Literal
import Proofreader.Service.Reply
import Proofreader.Service.Tool

/-! A checker for rehearsals. It looks for fixed texts, and can be told to fail on some of the calls for a
tag; the calls are counted. -/

namespace Proofreader.Rehearsal

inductive Trouble where
  | reply (r : Reply)
  | tool (e : ToolError)

/-- Trouble on the calls with the given numbers, for one tag or for any. -/
structure Disturbance where
  language : Option String
  first : Int
  last : Option Int
  trouble : Trouble

structure Checker where
  rules : List LiteralRule
  disturbances : List Disturbance
  /-- How many calls each tag has seen. -/
  counts : List (String × Nat)
  /-- The forms of all calls, last one first. -/
  calls : List (List (String × String))

namespace Checker

def quiet : Checker := ⟨[], [], [], []⟩

def Disturbance.meets (d : Disturbance) (tag : String) (call : Nat) : Bool :=
  d.language.all (· = tag) && d.first ≤ call && d.last.all fun last => (call : Int) ≤ last

/-- Counts a call; the trouble that it meets, if any. -/
def count (c : Checker) (tag : String) (form : List (String × String)) : Option Trouble × Checker :=
  let call := (c.counts.lookup tag).getD 0 + 1
  ((c.disturbances.find? fun d => Disturbance.meets d tag call).map (·.trouble),
    { c with counts := putMember c.counts tag call, calls := form :: c.calls })

/-- The answer to a form, as a server gives it. -/
def answer (c : Checker) (form : List (String × String)) : Reply × Checker :=
  let tag := (form.lookup "language").getD ""
  match c.count tag form with
  | (some (.reply r), c) => (r, c)
  | (some (.tool e), c) => (.failed .other e.text, c)
  | (none, c) => (.answered 200 (literalAnswer c.rules tag ((form.lookup "text").getD "").toList).compact, c)

/-- The findings in a text, as a tool gives them. -/
def check (c : Checker) (text : Text) (tag : String) (disabled : List String) :
    Except ToolError (List Finding) × Checker :=
  let form := [("text", String.ofList text), ("language", tag), ("disabledRules", joinWith "," disabled)]
  match c.count tag form with
  | (some (.tool e), c) => (.error e, c)
  | (some (.reply _), c) => (.error ⟨.runtime, "boom"⟩, c)
  | (none, c) => (.ok (literalFindings c.rules tag text), c)

end Checker

end Proofreader.Rehearsal
