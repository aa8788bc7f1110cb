import Proofreader.Search
import Proofreader.Text.Basic

/-! UTF-16 measure: a character outside the basic plane takes two units, any other one. -/

namespace Proofreader

namespace Text

def unitWidth (c : Char) : Nat := if 0xFFFF < c.toNat then 2 else 1

def units (t : Text) : Nat := t.foldr (fun c n => unitWidth c + n) 0

/-- The least number of characters that have at least `n` units, or all of them. -/
def coverUnits (n : Int) : Text → Nat
  | [] => 0
  | c :: r => if n ≤ 0 then 0 else coverUnits (n - unitWidth c) r + 1

theorem coverUnits_le (n : Int) (t : Text) : coverUnits n t ≤ t.length := by
  induction t generalizing n with
  | nil => simp [coverUnits]
  | cons c r ih =>
    have := ih (n - unitWidth c)
    simp only [coverUnits, List.length_cons]
    split <;> omega

end Text

/-- Offsets in UTF-16 units as offsets in code points. An offset inside a character is moved down or up; one behind the
text is moved to its end. -/
structure UnitIndex where
  /-- How many units stand before each character, and in all. -/
  starts : Array Nat
  /-- Whether every character is one unit. -/
  plain : Bool

namespace UnitIndex

def startsFrom (n : Nat) : Text → List Nat
  | [] => [n]
  | c :: r => n :: startsFrom (n + Text.unitWidth c) r

def ofText (t : Text) : UnitIndex := ⟨(startsFrom 0 t).toArray, Text.units t = t.length⟩

/-- The offset of the end. -/
def last (x : UnitIndex) : Nat := x.starts.size - 1

def total (x : UnitIndex) : Nat := x.starts.back?.getD 0

/-- How many characters begin before `units`. -/
def before (x : UnitIndex) (units : Int) : Nat :=
  firstFailure (fun i => x.starts[i]?.any fun n => (n : Int) < units) 0 x.starts.size

def toIndex (x : UnitIndex) (units : Int) (up : Bool) : Int :=
  if x.total ≤ units then x.last
  else if x.plain then max 0 units
  else
    let i := x.before units
    if x.starts[i]?.any (fun n => (n : Int) = units) || up then i else (i : Int) - 1

end UnitIndex

end Proofreader
