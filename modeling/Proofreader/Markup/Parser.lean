import Proofreader.Document.Node
import Proofreader.Language.Profile
import Proofreader.Markup.Cursor
import Proofreader.Text.Letter

/-! Reading one file. A file is a sequence of blocks, a block holds inline content, and content
blocks nest both. Each step is written over the readers for what lies deeper; `blocks` and `inline`
tie them together, one unit of fuel a step, and `parse` brings fuel for every character. -/

namespace Proofreader.Markup

/-! ### The language that the arguments of a call name -/

/-- The string given to the argument `name`, if the text begins with it. -/
def argumentHere? (name t : Text) : Option Text :=
  if name.isPrefixOf t then
    match (t.drop name.length).dropWhile isBlank with
    | ':' :: r =>
      match r.dropWhile isBlank with
      | '"' :: r => if r.contains '"' then some (r.takeWhile (· ≠ '"')) else none
      | _ => none
    | _ => none
  else none

/-- The string given to the argument `name`, whose name stands as a word of its own. -/
def argument? (name : Text) : (before : Option Char) → Text → Option Text
  | _, [] => none
  | before, c :: r =>
    match if before.any isWordChar then none else argumentHere? name (c :: r) with
    | some v => some v
    | none => argument? name (some c) r

/-- The rule that arguments lay down inside `outer`: a language replaces language and region, a
region alone keeps the language. -/
def Scope.withArguments (outer : Scope) (args : Text) : Scope :=
  let tag := (argument? "lang".toList none args).map fun t => Language.ofTag (String.ofList t)
  let region := (argument? "region".toList none args).map fun t => nonEmpty? (upperCase (String.ofList t))
  match tag, region with
  | some l, some r => ⟨some l.code, r⟩
  | some l, none => ⟨some l.code, l.region⟩
  | none, some (some r) => ⟨outer.lang, some r⟩
  | none, _ => outer

/-! ### Reading -/

/-- What an included file contributes. -/
structure Inclusion where
  nodes : List Node
  warnings : List Warning
  asked : List FileId

/-- The file being read, and how the files that it includes are read. -/
structure Page where
  file : FileId
  fetch : Text → Location → Scope → Inclusion

inductive Mode where
  /-- Headings and list items: the line end stops. -/
  | line
  /-- A blank line or the marker of a block stops. -/
  | paragraph
  /-- Only the closing bracket stops. -/
  | bracket
deriving DecidableEq

abbrev Reads := Cursor → List Node × Cursor

/-- Readers for nested content. -/
structure Deeper where
  blocks : Option Char → Reads
  inline : Mode → Option Char → Reads

def leaf (page : Page) (kind : Kind) (start s : Cursor) (text : Text) (verbatim : Bool) : Node :=
  ⟨kind, ⟨page.file, start.pos, s.pos⟩, text, s.scope, 0, verbatim, []⟩

def branch (page : Page) (kind : Kind) (start s : Cursor) (scope : Scope) (children : List Node) : Node :=
  ⟨kind, ⟨page.file, start.pos, s.pos⟩, [], scope, 0, false, children⟩

def isSpaceNode (n : Node) : Bool := n.kind = .space

/-- Spaces at either end go. -/
def trimSpaces (nodes : List Node) : List Node :=
  ((nodes.dropWhile isSpaceNode).reverse.dropWhile isSpaceNode).reverse

/-- A content block at the head, read by `body`. Rules set in it end with it. -/
def content (body : Reads) (s : Cursor) : List Node × Cursor :=
  match s.rest with
  | '[' :: _ =>
    let (nodes, t) := body { s.advance 1 with depth := 0 }
    let t := { t with depth := s.depth, scope := s.scope }
    (nodes, if t.rest.head? = some ']' then t.advance 1 else t)
  | _ => ([], s)

def inlineContent (deeper : Deeper) : Reads :=
  content fun s =>
    let (nodes, t) := deeper.inline .bracket (some ']') s
    (trimSpaces nodes, t)

def blockContent (deeper : Deeper) : Reads := content (deeper.blocks (some ']'))

/-- What a function name calls for. -/
inductive Callee where
  | set
  /-- Skipped to the end of the line. -/
  | line
  | inclusion
  | text
  | styled (kind : Kind)
  | block
  /-- A node without content. -/
  | plain (kind : Kind)
  /-- Skipped with its arguments and content. -/
  | layout

def Callee.ofName (name : Text) : Callee :=
  match String.ofList name with
  | "set" => .set
  | "show" | "let" | "import" => .line
  | "include" => .inclusion
  | "text" => .text
  | "strong" => .styled .strong
  | "emph" => .styled .emph
  | "block" => .block
  | "pagebreak" => .plain .pagebreak
  | "linebreak" => .plain .linebreak
  | "parbreak" => .plain .parbreak
  | "bibliography" => .plain .bibliography
  | "cite" => .plain .citation
  | _ => .layout

/-- A rule for the rest of the content block, if it is one for text. -/
def setRule (s : Cursor) : Cursor :=
  let s := s.skipWhile isTab
  match name? s.rest with
  | none => s
  | some target =>
    let (args, t) := (s.advance target.length).arguments
    if target = "text".toList then { t with scope := Scope.withArguments t.scope args } else t

def includeCall (page : Page) (start s : Cursor) : List Node × Cursor :=
  let s := s.skipWhile isTab
  match string? s.rest with
  | none => ([], s)
  | some path =>
    let t := s.advance (path.length + 2)
    let got := page.fetch path ⟨page.file, start.pos, t.pos⟩ t.scope
    let t := { t with warnings := t.warnings ++ got.warnings, asked := t.asked ++ got.asked }
    ([branch page .inclusion start t t.scope got.nodes], t)

def textCall (page : Page) (deeper : Deeper) (start s : Cursor) : Node × Cursor :=
  let (args, t) := s.arguments
  let scope := Scope.withArguments t.scope args
  let (nodes, u) := inlineContent deeper { t with scope := scope }
  (branch page .lang start u scope nodes, { u with scope := t.scope })

def plainCall (page : Page) (kind : Kind) (start s : Cursor) : Node × Cursor :=
  let t := s.arguments.2
  let node :=
    match kind with
    | .linebreak => leaf page kind start t [' '] false
    | .citation => leaf page kind start t (t.since start) true
    | _ => leaf page kind start t [] false
  (node, t)

/-- A call whose number sign is at `start` and whose name ends at `s`. -/
def call (page : Page) (deeper : Deeper) (name : Text) (start s : Cursor) : List Node × Cursor :=
  match Callee.ofName name with
  | .set => ([], setRule s)
  | .line => ([], s.skipWhile (· ≠ '\n'))
  | .inclusion => includeCall page start s
  | .text =>
    let (node, t) := textCall page deeper start s
    ([node], t)
  | .styled kind =>
    let (nodes, t) := inlineContent deeper s.arguments.2
    ([branch page kind start t s.scope nodes], t)
  | .block =>
    let (nodes, t) := blockContent deeper s.arguments.2
    ([branch page .block start t s.scope nodes], t)
  | .plain kind =>
    let (node, t) := plainCall page kind start s
    ([node], t)
  | .layout =>
    let t := s.arguments.2
    ([], t.skipContent t.rest.length)

/-- Math stands apart when spaces line it on both sides. -/
def mathNode (page : Page) (inside : Nat) (s : Cursor) : Node × Cursor :=
  let t := s.advance (inside + 2)
  let body := s.rest.tail.take inside
  let apart := 2 ≤ inside && body.head?.any isSpace && body.getLast?.any isSpace
  (leaf page (if apart then .mathBlock else .mathInline) s t (Text.trim body) false, t)

/-- The body of a fenced block: a first line that names a language goes, and line ends at either
end. -/
def fencedText (body : Text) : Text :=
  let body :=
    match Text.splitFirst (· = '\n') body with
    | (tag, some r) => if isIdentifier (Text.trim tag) then r else body
    | (_, none) => body
  Text.trimWhile (· = '\n') body

def rawNode (page : Page) (s : Cursor) : Node × Cursor :=
  if fence.isPrefixOf s.rest then
    let r := s.rest.drop 3
    let inside := (Text.find fence r).getD r.length
    let t := s.advance (inside + 6)
    (leaf page .rawBlock s t (fencedText (r.take inside)) false, t)
  else
    let body := s.rest.tail.takeWhile (· ≠ '`')
    let t := s.advance (body.length + 2)
    (leaf page .rawInline s t body false, t)

/-- Strong or emphasised text up to the closing delimiter, or up to where its surroundings stop. -/
def delimited (page : Page) (deeper : Deeper) (mode : Mode) (c : Char) (s : Cursor) : Node × Cursor :=
  let (nodes, t) := deeper.inline mode (some c) (s.advance 1)
  let t := if t.rest.head? = some c then t.advance 1 else t
  (branch page (if c = '*' then .strong else .emph) s t s.scope nodes, t)

/-- The content at a mark. -/
def marked (page : Page) (deeper : Deeper) (mode : Mode) (m : Mark) (s : Cursor) : List Node × Cursor :=
  match m with
  | .escape none =>
    let t := s.advance 1
    ([leaf page .linebreak s t [' '] false], t)
  | .escape (some c) =>
    let t := s.advance 2
    ([leaf page .text s t [c] false], t)
  | .comment n => ([], s.advance n)
  | .math inside =>
    let (node, t) := mathNode page inside s
    ([node], t)
  | .raw =>
    let (node, t) := rawNode page s
    ([node], t)
  | .delimiter c =>
    let (node, t) := delimited page deeper mode c s
    ([node], t)
  | .citation key =>
    let t := s.advance (key.length + 1)
    ([leaf page .citation s t (t.since s) true], t)
  | .label n => ([], s.advance n)
  | .call name => call page deeper name s (s.advance (name.length + 1))

/-- Whether the spaces at the head end the content. -/
def endsAtSpace (mode : Mode) (t : Text) : Bool :=
  let newlines := (t.takeWhile isSpace).count '\n'
  let after := t.dropWhile isSpace
  after.isEmpty ||
    match mode with
    | .line => 0 < newlines
    | .paragraph =>
      2 ≤ newlines ||
        (newlines = 1 && ((headingMarker? after).isSome || (itemMarker? after).isSome || fence.isPrefixOf after))
    | .bracket => false

/-- Spaces of any length stand for one. -/
def spaceNode (page : Page) (s : Cursor) : Node × Cursor :=
  let t := s.skipWhile isSpace
  (leaf page .space s t [' '] (t.since s = [' ']), t)

def textNode (page : Page) (stop : Option Char) (s : Cursor) : Node × Cursor :=
  let (n, depth) := textRun stop s.past.head? true s.depth s.rest
  let t := { s.advance (max n 1) with depth := depth }
  (leaf page .text s t (t.since s) true, t)

/-- Whether `c` ends content that `stop` closes; a bracket only does outside literal brackets. -/
def stopsAt (stop : Option Char) (depth : Nat) (c : Char) : Bool :=
  stop = some c && !(c = ']' && 0 < depth)

/-- The content at the head, which neither stops nor is at its end. -/
def piece (page : Page) (deeper : Deeper) (mode : Mode) (stop : Option Char) (c : Char) (s : Cursor) :
    List Node × Cursor :=
  if isSpace c then
    let (node, t) := spaceNode page s
    ([node], t)
  else
    match s.mark? with
    | some m => marked page deeper mode m s
    | none =>
      let (node, t) := textNode page stop s
      ([node], t)

def inlineStep (page : Page) (deeper : Deeper) (mode : Mode) (stop : Option Char) (s : Cursor) :
    List Node × Cursor :=
  match s.rest with
  | [] => ([], s)
  | c :: _ =>
    if stopsAt stop s.depth c || (isSpace c && endsAtSpace mode s.rest) then ([], s)
    else
      let (nodes, t) := piece page deeper mode stop c s
      let (more, u) := deeper.inline mode stop t
      (nodes ++ more, u)

/-- A heading or list item whose marker has the given length. -/
def lineBlock (page : Page) (deeper : Deeper) (kind : Kind) (level : Int) (marker : Nat)
    (stop : Option Char) (s : Cursor) : Node × Cursor :=
  let (nodes, t) := deeper.inline .line stop (s.advance marker)
  (⟨kind, ⟨page.file, s.pos, t.trimmedEnd s⟩, [], s.scope, level, false, trimSpaces nodes⟩, t)

/-- Stands alone when it is all that a paragraph has. -/
def standsAlone : Kind → Bool
  | .inclusion | .block | .bibliography | .pagebreak | .parbreak | .mathBlock | .rawBlock => true
  | _ => false

def paragraph (page : Page) (deeper : Deeper) (stop : Option Char) (s : Cursor) : List Node × Cursor :=
  let (nodes, t) := deeper.inline .paragraph stop s
  let node := fun children : List Node =>
    (⟨.paragraph, ⟨page.file, s.pos, t.trimmedEnd s⟩, [], s.scope, 0, false, children⟩ : Node)
  match trimSpaces nodes with
  | [] => ([], t)
  | [only] => if standsAlone only.kind then ([only], t) else ([node [only]], t)
  | children => ([node children], t)

def block (page : Page) (deeper : Deeper) (stop : Option Char) (s : Cursor) : List Node × Cursor :=
  if s.atLineStart then
    match headingMarker? s.rest, itemMarker? s.rest with
    | some (level, n), _ =>
      let (node, t) := lineBlock page deeper .heading level n stop s
      ([node], t)
    | none, some n =>
      let (node, t) := lineBlock page deeper .listItem 0 n stop s
      ([node], t)
    | none, none => paragraph page deeper stop s
  else paragraph page deeper stop s

/-- A block that reads nothing gives up one character. -/
def blocksStep (page : Page) (deeper : Deeper) (stop : Option Char) (s : Cursor) : List Node × Cursor :=
  let s := s.skipWhile isSpace
  match s.rest with
  | [] => ([], s)
  | c :: _ =>
    if stop = some c then ([], s)
    else
      let (nodes, t) := block page deeper stop s
      let t := if t.pos = s.pos then t.advance 1 else t
      let (more, u) := deeper.blocks stop t
      (nodes ++ more, u)

mutual

def blocks (page : Page) : (fuel : Nat) → Option Char → Reads
  | 0 => fun _ s => ([], s)
  | fuel + 1 => blocksStep page ⟨blocks page fuel, inline page fuel⟩

def inline (page : Page) : (fuel : Nat) → Mode → Option Char → Reads
  | 0 => fun _ _ s => ([], s)
  | fuel + 1 => inlineStep page ⟨blocks page fuel, inline page fuel⟩

end

/-- Every character costs at most one step of each reader, and one more step ends each. -/
def fuelFor (text : Text) : Nat := 4 * text.length + 4

def parse (page : Page) (text : Text) (scope : Scope) : List Node × Cursor :=
  blocks page (fuelFor text) none (Cursor.start text scope)

end Proofreader.Markup
