import Proofreader.Finding
import Proofreader.Text.Basic

/-! Cutting a text into chunks of bounded size. A chunk ends behind a paragraph or a sentence where it
can, else behind a blank, else at the limit. Each page is cut on its own. A chunk may begin with
context, which the chunk before it owns. -/

namespace Proofreader

structure Chunk where
  text : Text
  /-- Where `text` begins in the whole. -/
  base : Nat
  /-- How many characters at the beginning are context. -/
  context : Nat
  /-- Whether the cut before the chunk was forced. -/
  hard : Bool
deriving DecidableEq

namespace Chunk

def start (c : Chunk) : Nat := c.base + c.context
def stop (c : Chunk) : Nat := c.base + c.text.length
def body (c : Chunk) : Text := c.text.drop c.context
def shift (n : Nat) (c : Chunk) : Chunk := { c with base := n + c.base }

/-- Findings in the chunk as findings in the whole. Those that begin in the context are left to the
chunk before. -/
def translate (c : Chunk) (fs : List Finding) : List Finding :=
  (fs.filter fun f => (c.context : Int) ≤ f.offset).map (·.shift c.base)

end Chunk

def hardSplits (chunks : List Chunk) : List Nat := (chunks.filter (·.hard)).map (·.start)

def isTerminator (c : Char) : Bool := c = '.' || c = '!' || c = '?'

def isCloser (c : Char) : Bool := c = '"' || c = '\'' || c = ')' || c = ']'

/-- The length of a sentence end at the head: a terminator, any closers and one blank. -/
def sentenceEnd? : Text → Option Nat
  | [] => none
  | c :: r =>
    let closers := (r.takeWhile isCloser).length
    if isTerminator c && (r.drop closers).head?.any isBlank then some (closers + 2) else none

/-- Behind the last of the sentence ends that are met from left to right without overlap; `skip` characters
belong to the one before. -/
def lastSentence? : (skip : Nat) → Text → Option Nat
  | _, [] => none
  | skip + 1, _ :: r => (lastSentence? skip r).map (· + 1)
  | 0, c :: r =>
    match sentenceEnd? (c :: r) with
    | some n => ((lastSentence? (n - 1) r).map (· + 1)).or (some n)
    | none => (lastSentence? 0 r).map (· + 1)

/-- Behind the paragraph or the sentence that ends last behind `start`, of those whose ends stand between `low` and
`limit`. -/
def lastPassage? (t : Text) (start low limit : Nat) : Option Nat :=
  let part := t.extract low limit
  let ends := ((Text.findLast ['\n', '\n'] part).map (low + · + 2)).toList ++ ((lastSentence? 0 part).map (low + ·)).toList
  (ends.filter fun n => start < n && n ≤ limit).max?

/-- Behind the last blank that stands there. -/
def lastWord? (t : Text) (start low limit : Nat) : Option Nat :=
  let part := t.extract low limit
  ((List.range part.length).reverse.find? fun i => part[i]?.any isBlank && start < low + i + 1).map (low + · + 1)

theorem lt_of_lastPassage? {t : Text} {start low limit n : Nat} (h : lastPassage? t start low limit = some n) : start < n := by
  have hmem := List.max?_mem h
  simp only [List.mem_filter, Bool.and_eq_true, decide_eq_true_eq] at hmem
  exact hmem.2.1

theorem lt_of_lastWord? {t : Text} {start low limit n : Nat} (h : lastWord? t start low limit = some n) : start < n := by
  obtain ⟨i, hi, rfl⟩ := Option.map_eq_some_iff.1 h
  have hword := List.find?_some hi
  simp only [Bool.and_eq_true, decide_eq_true_eq] at hword
  exact hword.2

structure Chunker where
  maxSize : Nat
  lookback : Nat
  /-- How far before the limit a good cut is looked for; anywhere in the chunk if there is none. -/
  window : Option Int
  lookback_lt : lookback < maxSize

inductive ChunkerError where
  | size
  | lookback

def ChunkerError.message : ChunkerError → String
  | size => "max_size must be positive"
  | lookback => "lookback must be smaller than max_size"

namespace Chunker

def ofInts (maxSize lookback : Int) (window : Option Int) : Except ChunkerError Chunker :=
  if maxSize ≤ 0 then .error .size
  else if h : 0 ≤ lookback ∧ lookback < maxSize then
    .ok ⟨maxSize.toNat, lookback.toNat, window, by omega⟩
  else .error .lookback

def contextBefore (c : Chunker) (start : Nat) : Nat := min c.lookback start

/-- How far a chunk may reach that begins at `start`. -/
def limit (c : Chunker) (start : Nat) : Nat := start + (c.maxSize - c.contextBefore start)

/-- Where the search for a good cut ends. -/
def low (c : Chunker) (start : Nat) : Nat :=
  match c.window with
  | some window => max start (c.limit start - window).toNat
  | none => start

/-- The best cut up to the limit: behind a paragraph or a sentence, else behind a blank. -/
def boundary? (c : Chunker) (page : Text) (start : Nat) : Option Nat :=
  (lastPassage? page start (c.low start) (c.limit start)).or (lastWord? page start (c.low start) (c.limit start))

/-- Where the chunk that begins at `start` ends, and whether that cut is forced. -/
def stop (c : Chunker) (page : Text) (start : Nat) : Nat × Bool :=
  if page.length ≤ c.limit start then (page.length, false)
  else
    match c.boundary? page start with
    | some n => (n, false)
    | none => (c.limit start, true)

theorem lt_limit (c : Chunker) (start : Nat) : start < c.limit start := by
  have := c.lookback_lt
  simp only [limit, contextBefore]
  omega

theorem le_low (c : Chunker) (start : Nat) : start ≤ c.low start := by
  unfold low
  split <;> omega

theorem lt_of_boundary? {c : Chunker} {page : Text} {start n : Nat} (h : c.boundary? page start = some n) : start < n :=
  (Option.or_eq_some_iff.1 h).elim lt_of_lastPassage? fun h => lt_of_lastWord? h.2

theorem lt_stop (c : Chunker) (page : Text) {start : Nat} (h : start < page.length) :
    start < (c.stop page start).1 := by
  unfold stop
  split
  · exact h
  · split
    · next hn => exact lt_of_boundary? hn
    · exact c.lt_limit start

/-- The chunks of a page from `start` on. -/
def splitFrom (c : Chunker) (page : Text) (start : Nat) (hard : Bool) : List Chunk :=
  if start < page.length then
    let next := c.stop page start
    let base := start - c.contextBefore start
    ⟨page.extract base next.1, base, c.contextBefore start, hard⟩ :: c.splitFrom page next.1 next.2
  else []
termination_by page.length - start
decreasing_by
  rename_i h
  have := c.lt_stop page h
  omega

def splitPage (c : Chunker) (page : Text) : List Chunk := c.splitFrom page 0 false

end Chunker

/-- The page breaks that lie inside a text, in order and once each. -/
def innerBreaks (length : Nat) (breaks : List Int) : List Nat :=
  let inside := (breaks.filter fun b : Int => 0 < b && b < (length : Int)).map Int.toNat
  inside.mergeSort.eraseDups

/-- A text cut at increasing offsets, each part with its own. -/
def cutAt (t : Text) (start : Nat) : List Nat → List (Nat × Text)
  | [] => [(start, t)]
  | b :: r => (start, t.take (b - start)) :: cutAt (t.drop (b - start)) b r

def pages (t : Text) (breaks : List Int) : List (Nat × Text) := cutAt t 0 (innerBreaks t.length breaks)

def Chunker.split (c : Chunker) (t : Text) (breaks : List Int) : List Chunk :=
  (pages t breaks).flatMap fun (start, page) => (c.splitPage page).map (·.shift start)

end Proofreader
