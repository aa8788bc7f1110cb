import Proofreader.Location

/-! What is reported about a document that could still be read. -/

namespace Proofreader

inductive WarningKind where
  | unresolvedLanguage
  | missingInclude
  | includeCycle
  | other (name : String)
deriving DecidableEq

def WarningKind.name : WarningKind → String
  | unresolvedLanguage => "unresolved_language"
  | missingInclude => "missing_include"
  | includeCycle => "include_cycle"
  | other name => name

structure Warning where
  kind : WarningKind
  message : String
  location : Option Location
deriving DecidableEq

end Proofreader
