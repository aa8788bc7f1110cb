import Proofreader.Text.Basic

/-! Caseless comparison with ASCII words. The long s counts as an s, the dotted and the dotless i as
an i, and the sign for kelvin as a k. -/

namespace Proofreader.Text

/-- The small ASCII letter a character stands for, if any, or else the character. -/
def plainLetter (c : Char) : Char :=
  if c = 'ſ' then 's'
  else if c = 'İ' || c = 'ı' then 'i'
  else if c.toNat = 0x212A then 'k'
  else c.toLower

/-- Whether the text begins with a word of small ASCII letters, in any case. -/
def startsCaseless (word t : Text) : Bool := word.isPrefixOf (t.map plainLetter)

/-- Whether the text holds a word of small ASCII letters, in any case. -/
def holdsCaseless (word t : Text) : Bool := (find word (t.map plainLetter)).isSome

end Proofreader.Text
