import Proofreader.Language.Profile
import Proofreader.SourceMap
import Proofreader.Style.Segment
import Proofreader.Warning

/-! One checked text per language. Pieces of a language follow each other; between two paragraphs, or
around text in another language, stands a separator. Blanks never begin a text and never double. -/

namespace Proofreader

structure CheckedText where
  profile : Profile
  text : Text
  map : SourceMap
  /-- Where pages begin. -/
  pageBreaks : List Nat
  pieces : List Piece

def CheckedText.key (t : CheckedText) : Language := t.profile.language

structure Extraction where
  texts : List CheckedText
  pieces : List Piece
  warnings : List Warning

def Extraction.textFor (e : Extraction) (code : String) (region : Option String) : Option CheckedText :=
  e.texts.find? fun t => t.profile.code = code && (region.isNone || t.profile.region = region)

def separatorText : Text := ['\n', '\n']

/-- A text under construction. A separator is written only when prose follows it. -/
structure Draft where
  profile : Profile
  text : Array Char
  map : SourceMap
  pageBreaks : Array Nat
  pieces : Array Piece
  pendingGap : Bool
  pendingPage : Bool

namespace Draft

def start (profile : Profile) : Draft := ⟨profile, #[], .empty, #[], #[], false, false⟩

def addPiece (d : Draft) (p : Piece) : Draft :=
  { d with
    text := d.text ++ p.text.toArray
    map := d.map.push p.text.length p.location p.exact p.placeholder
    pieces := d.pieces.push p }

def writeGap (d : Draft) : Draft :=
  let map := d.map.addGap separatorText.length
  { d with
    text := d.text ++ separatorText.toArray
    map := map
    pageBreaks := if d.pendingPage then d.pageBreaks.push map.length else d.pageBreaks }

def append (d : Draft) (p : Piece) : Draft :=
  let blank := Text.isBlankRun p.text
  let due := d.pendingGap && 0 < d.map.length
  if due && blank then d
  else
    let d := if due then d.writeGap else d
    let d := { d with pendingGap := false, pendingPage := false }
    if blank && (d.map.length = 0 || d.text.back?.any isBlank) then d else d.addPiece p

/-- A paragraph ends, and a page with it if `page` holds. -/
def separate (page : Bool) (d : Draft) : Draft :=
  { d with pendingGap := true, pendingPage := d.pendingPage || page }

def finish (d : Draft) : CheckedText :=
  ⟨d.profile, d.text.toList, d.map, d.pageBreaks.toList, d.pieces.toList⟩

end Draft

structure Extracting where
  drafts : List (Language × Draft)
  /-- The language of the last piece. -/
  last : Option Language
  pieces : Array Piece
  warnings : Array Warning
  unresolved : List String

namespace Extracting

def start : Extracting := ⟨[], none, #[], #[], []⟩

def warn (s : Extracting) (p : Piece) : Extracting :=
  let code := p.language.code
  { s with
    unresolved := code :: s.unresolved
    warnings := s.warnings.push
      ⟨.unresolvedLanguage, "Unsupported language code " ++ quoted code ++ "; text is not checked",
        some p.location⟩ }

/-- The drafts with the one for `key` changed; a new one comes last. -/
def update (profile : Profile) (f : Draft → Draft) : List (Language × Draft) → List (Language × Draft)
  | [] => [(profile.language, f (.start profile))]
  | (key, d) :: r =>
    if key = profile.language then (key, f d) :: r else (key, d) :: update profile f r

def step (resolver : Resolver) (s : Extracting) : Segment → Extracting
  | .separator _ page => { s with drafts := s.drafts.map fun (k, d) => (k, d.separate page) }
  | .piece p =>
    let profile := resolver.profile p.language
    let s := if !profile.resolved && !s.unresolved.contains p.language.code then s.warn p else s
    let returns := s.last.any (· ≠ profile.language)
    let place := fun d : Draft => (if returns then { d with pendingGap := true } else d).append p
    { s with
      drafts := update profile place s.drafts
      last := some profile.language
      pieces := s.pieces.push p }

def finish (s : Extracting) : Extraction :=
  { texts := (s.drafts.filter fun (_, d) => 0 < d.map.length).map fun (_, d) => d.finish
    pieces := s.pieces.toList
    warnings := s.warnings.toList }

end Extracting

def defaultLanguage : Language := ⟨"en", none⟩

def extract (table : Table) (resolver : Resolver) (language : Language) (root : Node) : Extraction :=
  ((root.segments table language).foldl (Extracting.step resolver) .start).finish

end Proofreader
