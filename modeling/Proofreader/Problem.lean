import Proofreader.Fault

/-! Problems made of their parts, which are given in order or by name. -/

namespace Proofreader.Problem

/-- The parts of each kind of problem, with what stands for those that are left out. -/
def parts : ProblemKind → List (String × Option Json)
  | .general => [("message", none), ("code", some (.str "UNKNOWN_ERROR")), ("details", some .null)]
  | .configuration => [("message", none), ("option", some .null)]
  | .launch | .connection => [("message", none), ("attempts", some (.int 0))]
  | .mapping => [("message", none), ("start", some (.int (-1))), ("end", some (.int (-1)))]

/-- Each part with its value: the values in order first, then those by name. -/
def fill (named : List (String × Json)) :
    List (String × Option Json) → List Json → Except Mishap (List (String × Json))
  | [], [] => .ok []
  | [], _ :: _ => .error (.wrongType "too many positional arguments")
  | (name, _) :: r, v :: vs =>
    if (named.lookup name).isSome then .error (.wrongType ("got multiple values for argument " ++ quoted name))
    else (fill named r vs).map ((name, v) :: ·)
  | (name, default) :: r, [] =>
    match (named.lookup name).or default with
    | some v => (fill named r []).map ((name, v) :: ·)
    | none => .error (.wrongType ("missing argument: " ++ quoted name))

/-- The code under which a kind of problem is reported, if it has one of its own. -/
def code? : ProblemKind → Option String
  | .general => none
  | .configuration => some "CONFIG_ERROR"
  | .launch => some "LAUNCH_ERROR"
  | .connection => some "CONNECTION_ERROR"
  | .mapping => some "MAPPING_ERROR"

/-- A problem with its parts as they were given. -/
structure Account where
  code : Json
  message : Json
  details : Json

namespace Account

def toJson (a : Account) : Json :=
  .obj [("success", .bool false), ("error", .obj [("code", a.code), ("message", a.message), ("details", a.details)])]

def text (a : Account) : String := a.message.plain

end Account

/-- A problem of a kind. What is named and no part goes to the details, where there is room for more. -/
def account (kind : ProblemKind) (values : List Json) (named : List (String × Json)) : Except Mishap Account := do
  let filled ← fill named (parts kind) values
  let part (name : String) : Json := (filled.lookup name).getD .null
  let more := named.filter fun m => !(parts kind).any (·.1 = m.1)
  if more.any fun m => m.1 = "self" then throw (.wrongType "got multiple values for argument 'self'")
  match code? kind, more with
  | some code, more => return ⟨.str code, part "message", .obj (filled.filter (·.1 ≠ "message") ++ more)⟩
  | none, [] =>
    let details := part "details"
    return ⟨part "code", part "message", if details.isEmpty then .obj [] else details⟩
  | none, m :: _ => throw (.wrongType ("got an unexpected keyword argument " ++ quoted m.1))

end Proofreader.Problem
