import Proofreader.Text.Printable

/-! A text quoted for a message: in single quotes, or in double quotes when that saves escaping a
single one. Backslashes, controls and unprintable characters are escaped. -/

namespace Proofreader

def hexDigits (width n : Nat) : List Char :=
  let ds := Nat.toDigits 16 n
  List.replicate (width - ds.length) '0' ++ ds

def escapeChar (quote c : Char) : Text :=
  if c = quote || c = '\\' then ['\\', c]
  else if c = '\n' then ['\\', 'n']
  else if c = '\r' then ['\\', 'r']
  else if c = '\t' then ['\\', 't']
  else if isPrintable c then [c]
  else if c.toNat < 0x100 then '\\' :: 'x' :: hexDigits 2 c.toNat
  else if c.toNat < 0x10000 then '\\' :: 'u' :: hexDigits 4 c.toNat
  else '\\' :: 'U' :: hexDigits 8 c.toNat

def quoteMark (t : Text) : Char := if t.contains '\'' && !t.contains '"' then '"' else '\''

def Text.quoted (t : Text) : Text :=
  let q := quoteMark t
  q :: t.flatMap (escapeChar q) ++ [q]

def quoted (s : String) : String := String.ofList (Text.quoted s.toList)

end Proofreader
