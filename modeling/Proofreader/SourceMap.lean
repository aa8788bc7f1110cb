import Proofreader.Fault
import Proofreader.Location
import Proofreader.Search

/-! Which source every part of a checked text comes from. Entries and separators are appended, so both
are sorted and disjoint and are looked up by halving. -/

namespace Proofreader

/-- The characters from `start` up to `stop` come from `location`. An exact entry is a copy of its
source; any other stands for it as a whole. -/
structure Entry where
  start : Nat
  stop : Nat
  location : Location
  exact : Bool
  placeholder : Bool
deriving DecidableEq

namespace Entry

def covers (e : Entry) (offset : Int) : Bool := e.start ≤ offset && offset < e.stop

/-- The source of what the entry shares with the span from `a` up to `b`. -/
def project (e : Entry) (a b : Int) : Location :=
  if e.exact then
    let low := max a e.start
    let high := max low (min b e.stop)
    let shift := (e.location.start : Int) - e.start
    ⟨e.location.file, (low + shift).toNat, (high + shift).toNat⟩
  else e.location

end Entry

structure Gap where
  start : Nat
  stop : Nat
deriving DecidableEq

structure SourceMap where
  entries : Array Entry
  gaps : Array Gap
  /-- How many characters are covered so far. -/
  length : Nat
deriving DecidableEq

inductive EntryError where
  | empty
  | inexact

def EntryError.message : EntryError → String
  | empty => "Map entries must be non-empty"
  | inexact => "Exact entries must have the length of their source range"

/-- A span without any source. -/
structure Unmapped where
  start : Int
  stop : Int

def Unmapped.problem (u : Unmapped) : Problem :=
  .mapping ("Span " ++ toString u.start ++ ".." ++ toString u.stop ++ " does not map to any source range")
    (.int u.start) (.int u.stop) []

/-- Ranges sorted by start, those that overlap or touch made one. -/
def mergeSorted : Location → List Location → List Location
  | current, [] => [current]
  | current, l :: r =>
    if l.start ≤ current.stop then mergeSorted { current with stop := max current.stop l.stop } r
    else current :: mergeSorted l r

def Location.before (l m : Location) : Bool := l.start < m.start || (l.start = m.start && l.stop ≤ m.stop)

/-- The connected ranges of each file, the files in the order in which they first appear. -/
def mergeLocations (ls : List Location) : List Location :=
  (ls.map (·.file)).eraseDups.flatMap fun file =>
    match (ls.filter (·.file = file)).mergeSort Location.before with
    | [] => []
    | l :: r => mergeSorted l r

namespace SourceMap

def empty : SourceMap := ⟨#[], #[], 0⟩

/-- An entry for the next `length` characters. -/
def push (m : SourceMap) (length : Nat) (location : Location) (exact placeholder : Bool) : SourceMap :=
  { m with
    entries := m.entries.push ⟨m.length, m.length + length, location, exact, placeholder⟩
    length := m.length + length }

def add (m : SourceMap) (length : Nat) (location : Location) (exact placeholder : Bool) :
    Except EntryError SourceMap :=
  if length = 0 then .error .empty
  else if exact ∧ length ≠ location.length then .error .inexact
  else .ok (m.push length location exact placeholder)

/-- The next `length` characters have no source. -/
def addGap (m : SourceMap) (length : Nat) : SourceMap :=
  if length = 0 then m
  else { m with gaps := m.gaps.push ⟨m.length, m.length + length⟩, length := m.length + length }

/-- How many entries start at or before `offset`. -/
def entriesFrom (m : SourceMap) (offset : Int) : Nat :=
  firstFailure (fun i => m.entries[i]?.any fun e => (e.start : Int) ≤ offset) 0 m.entries.size

/-- How many separators start before `offset`. -/
def gapsBefore (m : SourceMap) (offset : Int) : Nat :=
  firstFailure (fun i => m.gaps[i]?.any fun g => (g.start : Int) < offset) 0 m.gaps.size

def entryAt (m : SourceMap) (offset : Int) : Option Entry :=
  match m.entriesFrom offset with
  | 0 => none
  | n + 1 => m.entries[n]?.filter (·.covers offset)

/-- The entries that share characters with the span; an empty span takes the entry it lies in. -/
def overlapping (m : SourceMap) (a b : Int) : List Entry :=
  if b ≤ a then (m.entryAt a).toList
  else
    let reached := m.entries.toList.drop (m.entriesFrom a - 1)
    (reached.takeWhile fun e => (e.start : Int) < b).filter fun e => a < (e.stop : Int)

/-- Only the last separator that starts before the span ends can reach into it. -/
def touchesGap (m : SourceMap) (a b : Int) : Bool :=
  match m.gapsBefore b with
  | 0 => false
  | n + 1 => m.gaps[n]?.any fun g => a < (g.stop : Int)

def project (m : SourceMap) (a b : Int) : Except Unmapped (List Location) :=
  match m.overlapping a b with
  | [] => .error ⟨a, b⟩
  | entries => .ok (mergeLocations (entries.map (·.project a b)))

end SourceMap

end Proofreader
