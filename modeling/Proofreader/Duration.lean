import Proofreader.Json.Access
import Proofreader.Text.Caseless

/-! Durations: numbers with units, one after the other, such as `1s 500ms`. A number without a unit
counts seconds. The numbers are searched for, and what stands between them has to be blank. -/

namespace Proofreader

inductive TimeUnit where
  | milliseconds
  | seconds
  | minutes
  | hours
deriving DecidableEq

def TimeUnit.inSeconds : TimeUnit → Float
  | milliseconds => 0.001
  | seconds => 1.0
  | minutes => 60.0
  | hours => 3600.0

/-- The words for units; of two that a text begins with, the earlier one counts. -/
def unitWords : List (String × TimeUnit) :=
  [("ms", .milliseconds), ("sec", .seconds), ("min", .minutes), ("s", .seconds), ("m", .minutes), ("h", .hours)]

/-- `digits · 10 ^ power` units. -/
structure DurationPart where
  digits : Nat
  power : Int
  unit : TimeUnit
deriving DecidableEq

def DurationPart.value (p : DurationPart) : Float := floatOfDecimal p.digits p.power * p.unit.inSeconds

inductive DurationError where
  /-- The text is no sequence of parts. -/
  | malformed
  /-- A unit that only caseless comparison takes for one. -/
  | unit (name : String)
deriving DecidableEq

namespace Duration

/-- The number that digits make up. -/
def digitsValue (t : Text) : Nat := ofDigits (t.filterMap digitValue?)

/-- A decimal number, taken as long as possible. -/
def readAmount? (t : Text) : Option (Nat × Int × Text) :=
  let whole := t.takeWhile isDigit
  if whole.isEmpty then none
  else
    match t.dropWhile isDigit with
    | '.' :: r =>
      let part := r.takeWhile isDigit
      if part.isEmpty then some (digitsValue whole, 0, '.' :: r)
      else some (digitsValue (whole ++ part), -(part.length : Int), r.dropWhile isDigit)
    | r => some (digitsValue whole, 0, r)

/-- The unit a text begins with, if any. Which word it is may be found out without regard to case, but the
word has to be one of the known ones in lower case. -/
def readUnit (t : Text) : Except DurationError (TimeUnit × Text) :=
  match unitWords.find? fun (word, _) => Text.startsCaseless word.toList t with
  | none => .ok (.seconds, t)
  | some (word, _) =>
    let (found, rest) := t.splitAt word.length
    let name := String.ofList (Text.lower found)
    (unitWords.lookup name).elim (.error (.unit name)) fun unit => .ok (unit, rest)

/-- The next part and the text behind it. There is none where no number follows or more than blanks stand
in front of it. -/
def readPart (t : Text) : Except DurationError (Option (DurationPart × Text)) :=
  let gap := t.takeWhile (!isDigit ·)
  match readAmount? (t.dropWhile (!isDigit ·)) with
  | none => .ok none
  | some (digits, power, r) =>
    if gap.all isBlank then
      (readUnit (r.dropWhile isBlank)).map fun (unit, rest) => some (⟨digits, power, unit⟩, rest)
    else .ok none

theorem length_lt_of_readAmount? {t r : Text} {digits : Nat} {power : Int}
    (h : readAmount? t = some (digits, power, r)) : r.length < t.length := by
  have hsplit : (t.takeWhile isDigit).length + (t.dropWhile isDigit).length = t.length := by
    rw [← List.length_append, List.takeWhile_append_dropWhile]
  unfold readAmount? at h
  dsimp only at h
  split at h
  · cases h
  · next hwhole =>
    have hpos : 0 < (t.takeWhile isDigit).length := by
      rw [List.length_pos_iff]
      simpa using hwhole
    split at h
    · next r' hr' =>
      rw [hr', List.length_cons] at hsplit
      split at h
      · cases h
        rw [List.length_cons]
        omega
      · cases h
        have := (List.dropWhile_sublist (p := isDigit) (l := r')).length_le
        omega
    · cases h
      omega

theorem length_le_of_readUnit {t r : Text} {unit : TimeUnit} (h : readUnit t = .ok (unit, r)) :
    r.length ≤ t.length := by
  unfold readUnit at h
  split at h
  · cases h
    exact Nat.le_refl _
  · next word _ _ =>
    simp only [List.splitAt_eq] at h
    cases hunit : unitWords.lookup (String.ofList (Text.lower (t.take word.length))) with
    | none => simp [hunit] at h
    | some unit' =>
      simp only [hunit, Option.elim_some, Except.ok.injEq, Prod.mk.injEq] at h
      rw [← h.2, List.length_drop]
      omega

theorem length_lt_of_readPart {t r : Text} {part : DurationPart} (h : readPart t = .ok (some (part, r))) :
    r.length < t.length := by
  unfold readPart at h
  dsimp only at h
  split at h
  · cases h
  · next digits power r' hamount =>
    split at h
    · cases hunit : readUnit (r'.dropWhile isBlank) with
      | error e => simp [hunit, Except.map] at h
      | ok x =>
        simp only [hunit, Except.map, Except.ok.injEq, Option.some.injEq, Prod.mk.injEq] at h
        have hfound := length_lt_of_readAmount? hamount
        have hbehind := length_le_of_readUnit hunit
        have hgap := (List.dropWhile_sublist (p := (!isDigit ·)) (l := t)).length_le
        have hblank := (List.dropWhile_sublist (p := isBlank) (l := r')).length_le
        rw [← h.2]
        omega
    · cases h

/-- The parts that follow one another from the start of a text, and the text behind the last of them. -/
def readParts (t : Text) : Except DurationError (List DurationPart × Text) :=
  match h : readPart t with
  | .error e => .error e
  | .ok none => .ok ([], t)
  | .ok (some (part, r)) =>
    have := length_lt_of_readPart h
    (readParts r).map fun (parts, behind) => (part :: parts, behind)
termination_by t.length

def total (parts : List DurationPart) : Float := parts.foldl (fun sum p => sum + p.value) 0.0

/-- The parts of a text that has at least one and nothing else but blanks. -/
def read (t : Text) : Except DurationError (List DurationPart) :=
  match readParts (Text.trim t) with
  | .error e => .error e
  | .ok (parts, behind) => if parts.isEmpty || !behind.all isBlank then .error .malformed else .ok parts

def problem (message : String) (v : Json) : Fault :=
  .problem (.configuration (message ++ ": " ++ v.literal) (.str "on_change") [])

/-- Seconds, or nothing where no duration is wanted. -/
def ofJson (v : Json) : Except Fault (Option Float) :=
  match v with
  | .null | .bool false | .str "" => .ok none
  | .int i =>
    if i < 0 then .error (problem "Duration must not be negative" v)
    else (Json.floatOfInteger i).mapError Fault.mishap |>.map some
  | .float x => if x < 0.0 then .error (problem "Duration must not be negative" v) else .ok (some x)
  | .str s =>
    match read s.toList with
    | .ok parts => .ok (some (total parts))
    | .error .malformed => .error (problem "Invalid duration" v)
    | .error (.unit name) => .error (.mishap (.missingKey name))
  | _ => .error (problem "Invalid duration" v)

end Duration

end Proofreader
