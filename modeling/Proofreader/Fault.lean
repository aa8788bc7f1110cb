import Proofreader.Json.Writer

/-! What can go wrong. A problem is a failure the program knows and reports under a code of its own;
a mishap is one that it did not expect. -/

namespace Proofreader

inductive ProblemKind where
  | general
  | configuration
  | launch
  | connection
  | mapping
deriving DecidableEq, Inhabited

structure Problem where
  kind : ProblemKind
  code : String
  message : String
  details : List (String × Json)
deriving Inhabited

namespace Problem

def general (message code : String) (details : List (String × Json)) : Problem :=
  ⟨.general, code, message, details⟩

/-- Settings that cannot work. -/
def configuration (message : String) (option : Json) (more : List (String × Json)) : Problem :=
  ⟨.configuration, "CONFIG_ERROR", message, ("option", option) :: more⟩

/-- The checking service could not be started. -/
def launch (message : String) (attempts : Json) (more : List (String × Json)) : Problem :=
  ⟨.launch, "LAUNCH_ERROR", message, ("attempts", attempts) :: more⟩

/-- The checking service could not be reached or gave no usable answer. -/
def connection (message : String) (attempts : Json) (more : List (String × Json)) : Problem :=
  ⟨.connection, "CONNECTION_ERROR", message, ("attempts", attempts) :: more⟩

/-- A span of checked text without any source. -/
def mapping (message : String) (start stop : Json) (more : List (String × Json)) : Problem :=
  ⟨.mapping, "MAPPING_ERROR", message, ("start", start) :: ("end", stop) :: more⟩

def members (p : Problem) : List (String × Json) :=
  [("code", .str p.code), ("message", .str p.message), ("details", .obj p.details)]

def toJson (p : Problem) : Json := .obj [("success", .bool false), ("error", .obj p.members)]

end Problem

/-- How the local checking tool can fail. -/
inductive ToolFailure where
  | java
  | path
  | library
  | server
  | rate
  | system
  | runtime
  | value
  | key
  | missing
deriving DecidableEq, Inhabited

inductive Mishap where
  | badValue (text : String)
  | missingKey (key : String)
  | wrongType (text : String)
  | missingMember (text : String)
  | outOfRange
  | noHome
  | tooLarge
  | endless
  | tooDeep (text : String)
  | undecodable
  | request (text : String)
  | tool (failure : ToolFailure) (text : String)

def Mishap.message : Mishap → String
  | badValue text => text
  | missingKey key => quoted key
  | wrongType text => text
  | missingMember text => text
  | outOfRange => "list index out of range"
  | noHome => "Could not determine home directory."
  | tooLarge => "int too large to convert to float"
  | endless => "cannot convert float infinity to integer"
  | tooDeep text => text
  | undecodable => "invalid UTF-8"
  | request text => text
  | tool .key text => quoted text
  | tool _ text => text

inductive Fault where
  | problem (p : Problem)
  | mishap (m : Mishap)

def Fault.message : Fault → String
  | problem p => p.message
  | mishap m => m.message

end Proofreader
