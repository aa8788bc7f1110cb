import Proofreader.Chunk
import Proofreader.Extraction
import Proofreader.Text.Letter

/-! From findings in a checked text to diagnostics at its sources. Findings on allowed words, of
disabled rules, over separators or forced cuts, or on placeholders only, are left out. -/

namespace Proofreader

/-- Whether `word` occurs with no word character next to it. -/
def holdsWord (word : Text) (afterWord : Bool) (t : Text) : Bool :=
  (!afterWord && word.isPrefixOf t && !(t.drop word.length).head?.any isWordChar)
    || match t with
      | [] => false
      | c :: r => holdsWord word (isWordChar c) r

/-- Whether a suggestion holds a placeholder; a token of letters only counts as a whole word. -/
def holdsToken (suggestion : Json) (token : Text) : Except Mishap Bool :=
  if !token.isEmpty && token.all isLetter then suggestion.searched.map (holdsWord token false)
  else suggestion.holds token

structure Mapper where
  tokens : List Text
  caseSensitive : Bool

namespace Mapper

def ofTokens (tokens : List Text) (caseSensitive : Bool) : Mapper :=
  ⟨tokens.filter (!·.isEmpty), caseSensitive⟩

def allows (m : Mapper) (profile : Profile) (word : Text) : Bool :=
  if m.caseSensitive then profile.dictionary.contains (String.ofList word)
  else profile.dictionary.any fun entry => Text.fold entry.toList = Text.fold word

/-- Whether a finding counts where it lies: on no separator or forced cut, and not on placeholders only. -/
def isPlaced (t : CheckedText) (splits : List Int) (f : Finding) : Bool :=
  let entries := t.map.overlapping f.offset f.stop
  !t.map.touchesGap f.offset f.stop
    && !splits.any (fun cut => f.offset < cut && cut < f.stop)
    && (entries.isEmpty || !entries.all (·.placeholder))

def keep (m : Mapper) (t : CheckedText) (splits : List Int) (f : Finding) : Except Mishap Bool := do
  if (← f.isSpelling) && m.allows t.profile (t.text.slice f.offset f.stop) then return false
  if ← f.rule.isAmong t.profile.disabled then return false
  return isPlaced t splits f

/-- The replacements without those that hold a placeholder. -/
def suggestions (m : Mapper) (f : Finding) : Except Mishap (List Json) :=
  f.replacements.filterM fun s => (m.tokens.anyM (holdsToken s)).map (!·)

/-- The diagnostics of one finding, one for each connected range of its source. -/
def diagnose (m : Mapper) (t : CheckedText) (splits : List Int) (f : Finding) : Except Mishap (List Diagnostic) := do
  if !(← m.keep t splits f) then return []
  match t.map.project f.offset f.stop with
  | .error _ => return []
  | .ok locations =>
    let suggestions ← m.suggestions f
    return locations.map fun l => ⟨l, f.rule, f.message, suggestions, .information, t.profile.tag⟩

def map (m : Mapper) (t : CheckedText) (splits : List Int) (fs : List Finding) : Except Mishap (List Diagnostic) := do
  let ds ← fs.mapM (m.diagnose t splits)
  Diagnostic.sorted ds.flatten

end Mapper

end Proofreader
