import Proofreader.Finding
import Proofreader.Language.Profile
import Proofreader.Fault

/-! The local checking tool, which counts offsets in code points. It is created for the first check; what
it raises becomes a problem of the launch or of the connection, as far as it is known. -/

namespace Proofreader

structure ToolError where
  failure : ToolFailure
  text : String

/-- What creates and asks tools. -/
structure Toolbox (σ : Type) where
  create : String → σ → Except ToolError Unit × σ
  check : Text → String → List String → σ → Except ToolError (List Finding) × σ

structure ToolState where
  /-- The language the tool is created for. -/
  language : String
  created : Bool

namespace Tool

variable {σ : Type}

/-- A tool that cannot be created. -/
def creationFault (e : ToolError) : Fault :=
  match e.failure with
  | .missing =>
    .problem (.configuration ("language-tool-python not installed: " ++ e.text) (.str "bundled") [])
  | .key => .mishap (.tool .key e.text)
  | _ => .problem (.launch ("LanguageTool initialization failed: " ++ e.text) (.int 1) [])

/-- A check that a tool could not make. -/
def checkFault (tag : String) (e : ToolError) : Fault :=
  match e.failure with
  | .java | .path => .problem (.launch ("LanguageTool server unavailable: " ++ e.text) (.int 1) [])
  | .key | .missing => .mishap (.tool e.failure e.text)
  | _ =>
    .problem (.connection ("Check failed for " ++ tag ++ ": " ++ e.text) (.int 0) [("language", .str tag)])

def start (box : Toolbox σ) (t : ToolState) (s : σ) : Except Fault Unit × ToolState × σ :=
  if t.created then (.ok (), t, s)
  else
    match box.create t.language s with
    | (.ok (), s) => (.ok (), { t with created := true }, s)
    | (.error e, s) => (.error (creationFault e), t, s)

def orNoText (v : Json) : Json := if v.isEmpty then .str "" else v

/-- A finding of the tool, with empty texts in place of a missing category or issue. -/
def complete (f : Finding) : Finding := { f with category := orNoText f.category, issue := orNoText f.issue }

def check (box : Toolbox σ) (text : Text) (profile : Profile) (t : ToolState) (s : σ) :
    Except Fault (List Finding) × ToolState × σ :=
  match start box t s with
  | (.error e, t, s) => (.error e, t, s)
  | (.ok (), t, s) =>
    match box.check text profile.tag (sortedSet profile.disabled) s with
    | (.ok fs, s) => (.ok (fs.map complete), t, s)
    | (.error e, s) => (.error (checkFault profile.tag e), t, s)

def close (t : ToolState) : ToolState := { t with created := false }

end Tool

end Proofreader
