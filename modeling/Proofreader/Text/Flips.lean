import Proofreader.Text.Basic
import Proofreader.Search

/-! A set of characters, kept as the sorted code points where membership changes: a character is
in the set when an odd number of changes lie at or before it. -/

namespace Proofreader

structure Flips where
  points : Array Nat

def Flips.has (f : Flips) (c : Char) : Bool :=
  upperBound f.points c.toNat % 2 = 1

end Proofreader
