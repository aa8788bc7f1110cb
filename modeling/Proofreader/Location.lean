/-! Places in source files. Offsets count code points and the end is exclusive. -/

namespace Proofreader

abbrev FileId := String

structure Location where
  file : FileId
  start : Nat
  stop : Nat
deriving DecidableEq, Inhabited

structure RangeError where
  start : Int
  stop : Int

def RangeError.message (e : RangeError) : String :=
  "Invalid source range " ++ toString e.start ++ ".." ++ toString e.stop

namespace Location

/-- What every location in a file promises. -/
def Valid (l : Location) : Prop := l.start ≤ l.stop

/-- Refuses a negative start and an end before the start. -/
def ofInts (file : FileId) (start stop : Int) : Except RangeError Location :=
  if 0 ≤ start ∧ start ≤ stop then .ok ⟨file, start.toNat, stop.toNat⟩ else .error ⟨start, stop⟩

def length (l : Location) : Nat := l.stop - l.start

theorem valid_of_ofInts {file : FileId} {start stop : Int} {l : Location}
    (h : ofInts file start stop = .ok l) : l.Valid := by
  unfold ofInts at h
  split at h
  · cases h
    simp only [Valid]
    omega
  · cases h

end Location

end Proofreader
