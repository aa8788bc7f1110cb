import Proofreader.Json.Value
import Proofreader.Text.Case

/-! What is known about checking a language: its region, its allowed words and its disabled rules.
Sets of words are kept as sorted lists without repetition. -/

namespace Proofreader

/-- What a tag names: a code, and a region after the first hyphen or underscore. -/
structure Language where
  code : String
  region : Option String
deriving DecidableEq, Inhabited

/-- A text, or nothing when it is empty. -/
def nonEmpty? (s : String) : Option String := if s = "" then none else some s

/-- The code in lower case and the region in upper case; an empty region is none. -/
def Language.ofTag (tag : String) : Language :=
  let (code, region) := Text.splitFirst (fun c => c = '-' || c = '_') (Text.trim tag.toList)
  ⟨String.ofList (Text.lower code), nonEmpty? (String.ofList (Text.upper (region.getD [])))⟩

def insertSorted (s : String) : List String → List String
  | [] => [s]
  | t :: r => if s = t then t :: r else if s < t then s :: t :: r else t :: insertSorted s r

def sortedSet (xs : List String) : List String := xs.foldr insertSorted []

structure Profile where
  code : String
  region : Option String
  dictionary : List String
  disabled : List String
  resolved : Bool
deriving DecidableEq, Inhabited

/-- A code and a region as one tag. -/
def Language.tag (l : Language) : String :=
  match l.region.filter (· ≠ "") with
  | some region => l.code ++ "-" ++ region
  | none => l.code

namespace Profile

def language (p : Profile) : Language := ⟨p.code, p.region⟩

/-- The tag that the checking service knows. -/
def tag (p : Profile) : String := p.language.tag

/-- Stands for every language that cannot be checked. -/
def unresolved : Profile := ⟨"und", none, [], [], false⟩

end Profile

/-- The codes that the checking service knows. -/
def supportedCodes : List String :=
  ["ar", "ast", "be", "br", "ca", "crh", "da", "de", "el", "en", "eo", "es", "fa", "fr", "ga", "gl",
    "it", "ja", "km", "nl", "pl", "pt", "ro", "ru", "sk", "sl", "sv", "ta", "tl", "uk", "zh"]

structure Resolver where
  preferences : List Language
  /-- Allowed words by code or tag, in lower case. -/
  dictionary : List (String × List String)
  disabled : List (String × List String)
  supported : List String

namespace Resolver

/-- Keys in lower case; of two that become one, the later counts. -/
def byLowerKey (lists : List (String × List String)) : List (String × List String) :=
  ofMembers (lists.map fun (k, v) => (lowerCase k, v))

def ofSettings (preferences : List String) (dictionary disabled : List (String × List String))
    (supported : List String) : Resolver where
  preferences := (preferences.filter (· ≠ "")).map Language.ofTag
  dictionary := byLowerKey dictionary
  disabled := byLowerKey disabled
  supported := supported.map lowerCase

/-- The region of the first preferred language with the code. -/
def regionFor (r : Resolver) (code : String) : Option String :=
  (r.preferences.find? (·.code = code)).bind (·.region)

def listed (lists : List (String × List String)) (keys : List String) : List String :=
  sortedSet (keys.flatMap fun k => (lists.lookup k).getD [])

/-- The profile for a language as a document names it. -/
def profile (r : Resolver) (l : Language) : Profile :=
  let code := lowerCase l.code
  if r.supported.contains code then
    let region :=
      match l.region.filter (· ≠ "") with
      | some region => some (upperCase region)
      | none => r.regionFor code
    let full := (region.filter (· ≠ "")).map fun g => lowerCase (code ++ "-" ++ g)
    let keys := code :: full.toList
    ⟨code, region, listed r.dictionary keys, listed r.disabled keys, true⟩
  else Profile.unresolved

end Resolver

end Proofreader
