import Proofreader.Document.Change
import Proofreader.Mapping
import Proofreader.Text.Utf16

/-! Places and sizes in numbers of any kind. The library counts in whole numbers: a float stands for the characters
it reaches, as long as no text is cut at it. A cut at a float is refused, and so is what is no number, once it is
looked at. -/

namespace Proofreader.Rehearsal.Measure

def uncountable (v : Json) : Mishap :=
  .wrongType (quoted v.kindName ++ " object cannot be interpreted as an integer")

def whole (v : Json) : Except Mishap Int := v.asInt?.elim (.error (uncountable v)) .ok

/-! ### Maps -/

/-- In an empty map nothing is compared. -/
def entryAt (m : SourceMap) (offset : Json) : Except Mishap (Option Entry) := do
  if m.entries.isEmpty then return none
  let q ← offset.toQuantity
  return if q.isNumber then m.entryAt q.floor else none

def overlapping (m : SourceMap) (start stop : Json) : Except Mishap (List Entry) := do
  let a ← start.toQuantity
  let b ← stop.toQuantity
  if b.atMost a then return (← entryAt m start).toList
  return if a.isNumber && b.isNumber then m.overlapping a.floor b.ceil else []

/-- The start is looked at only where a separator lies before the end. -/
def touchesGap (m : SourceMap) (start stop : Json) : Except Mishap Bool := do
  if m.gaps.isEmpty then return false
  let b ← stop.toQuantity
  if !b.isNumber || m.gapsBefore b.ceil = 0 then return false
  let a ← start.toQuantity
  return a.isNumber && m.touchesGap a.floor b.ceil

def project (m : SourceMap) (start stop : Json) : Except Fault (List Location) :=
  match start.asInt?, stop.asInt? with
  | some a, some b => (m.project a b).mapError fun u => .problem u.problem
  | _, _ => do
    let entries ← (overlapping m start stop).mapError .mishap
    let a ← start.toQuantity.mapError .mishap
    let b ← stop.toQuantity.mapError .mishap
    if entries.isEmpty then
      let message := "Span " ++ start.plain ++ ".." ++ stop.plain ++ " does not map to any source range"
      throw (.problem (.mapping message start stop []))
    return mergeLocations (entries.map (·.project a.floor b.ceil))

/-! ### Texts -/

/-- Line and column of an offset. Inside the text a float has a column that is a float. -/
def position (s : Source) (offset : Json) : Except Mishap (Nat × Json) := do
  match ← offset.toQuantity with
  | .whole i =>
    let p := s.position i
    return (p.line, .int p.column)
  | .real x =>
    let inner := Quantity.real x
    if (Quantity.whole s.length).less inner then
      let p := s.position s.length
      return (p.line, .int p.column)
    else if 0.0 < x then
      let line := (s.position inner.floor).line
      return (line, .float (x - (s.startOf line).toFloat))
    else return (0, .int 0)

/-- As `position`, with the column in UTF-16 units, which are counted up to a whole column only. -/
def unitPosition (s : Source) (offset : Json) : Except Mishap Position := do
  match ← position s offset with
  | (line, .int column) => return s.unitPosition (s.startOf line + column)
  | (_, column) => throw (uncountable column)

/-- The offset of a column. Behind the last line the column is not looked at. -/
def offset (s : Source) (line column : Json) : Except Mishap Json := do
  let l ← Change.line s line
  let start ← (s.offset? l 0).elim (.error .outOfRange) .ok
  if s.lines.size ≤ l then return .int start
  match ← column.toQuantity with
  | .whole c => return .int ((s.offset? l c).getD start)
  | .real x =>
    let place := Float.ofInt start + x
    return if (Quantity.whole (s.lineEnd l)).less (.real place) then .int (s.lineEnd l) else .float place

/-- The first offset of a line with at least so many UTF-16 units before it. -/
def unitOffset (s : Source) (line units : Json) : Except Mishap Int := do
  s.placeOffset (← Change.place s (.obj [("line", line), ("character", units)]))

/-- An edit; the end is looked at only where the start is one. -/
def edit (s : Source) (start stop text : Json) : Except Mishap Source := do
  let outside : Mishap :=
    .badValue ("Edit range " ++ start.plain ++ ".." ++ stop.plain ++ " outside file " ++ s.file)
  let a ← start.toQuantity
  if !(Quantity.whole 0).atMost a then throw outside
  let b ← stop.toQuantity
  if !a.atMost b || !b.atMost (.whole s.length) then throw outside
  match text with
  | .str t => (s.edit (← whole start) (← whole stop) t.toList).mapError fun e => .badValue e.message
  | v => throw (uncountable v)

/-- UTF-16 units as an offset. In a text without wide characters a float stays what it is. -/
def index (x : UnitIndex) (units : Json) (up : Bool) : Except Mishap Json := do
  match ← units.toQuantity with
  | .whole i => return .int (x.toIndex i up)
  | .real u =>
    let reached := (Quantity.real u).ceil
    if (Quantity.whole x.total).atMost (.real u) then return .int x.last
    else if x.plain then return if 0.0 < u then units else .int 0
    else if (Quantity.whole reached).atMost (.real u) then return .int (x.toIndex reached up)
    else return .int (if up then x.before reached else (x.before reached : Int) - 1)

/-! ### Chunks -/

/-- A break inside the text must be whole. -/
def innerBreak (length : Nat) (v : Json) : Except Mishap Int := do
  let q ← v.toQuantity
  if (Quantity.whole 0).less q && q.less (.whole length) then whole v else return 0

/-- A window limits nothing where it reaches from a cut back to the beginning of the chunk; a float has to. -/
def reachesBack (size : Quantity) (window : Json) (c : Chunk) : Except Mishap Unit := do
  match ← window.toQuantity with
  | .whole _ => return
  | .real x => if (Quantity.real x).less (size.add (.whole (-c.context))) then throw (uncountable window)

/-- A size in characters; any float will do where each page fits into one chunk. -/
def limit (size : Quantity) (pages : List (Nat × Text)) (least : Int) : Except Mishap Int :=
  match size with
  | .whole n => .ok n
  | .real _ =>
    if pages.all fun p => (Quantity.whole p.2.length).atMost size then
      .ok (pages.foldl (fun n p => max n p.2.length) (least + 1))
    else .error (uncountable (.ofQuantity size))

/-- The chunks of a text. The size is looked at first, then the context, then the window at each cut. -/
def split (size lookback window : Json) (t : Text) (breaks : Json) : Except Mishap (List Chunk) := do
  let size ← size.toQuantity
  if size.atMost (.whole 0) then throw (.badValue ChunkerError.size.message)
  let context ← lookback.toQuantity
  if !(Quantity.whole 0).atMost context || !context.less size then
    throw (.badValue ChunkerError.lookback.message)
  let breaks ← (← breaks.iterate).mapM (innerBreak t.length)
  let pages := pages t breaks
  let limit ← limit size pages context.floor
  let chunker ← (Chunker.ofInts limit context.floor window.asInt?).mapError fun e => .badValue e.message
  let chunks := chunker.split t breaks
  if !(window matches .null) then
    let ends := pages.map fun p => p.1 + p.2.length
    (chunks.filter fun c => !ends.contains c.stop).forM (reachesBack size window)
  if lookback.asInt?.isNone && !chunks.all fun c => pages.any (·.1 = c.base) then throw (uncountable lookback)
  return chunks

end Proofreader.Rehearsal.Measure
