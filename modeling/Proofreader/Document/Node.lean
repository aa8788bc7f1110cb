import Proofreader.Location
import Proofreader.Text.Basic

/-! The document tree. A leaf carries rendered text; it is verbatim when the text is a copy of the
leaf's source. A node created under a language rule carries that rule. -/

namespace Proofreader

inductive Kind where
  | document
  | heading
  | paragraph
  | text
  | space
  | linebreak
  | parbreak
  | strong
  | emph
  | block
  | listItem
  | mathInline
  | mathBlock
  | citation
  | bibliography
  | rawInline
  | rawBlock
  | pagebreak
  | inclusion
  | lang
deriving DecidableEq, Inhabited

namespace Kind

def all : List Kind :=
  [document, heading, paragraph, text, space, linebreak, parbreak, strong, emph, block, listItem,
    mathInline, mathBlock, citation, bibliography, rawInline, rawBlock, pagebreak, inclusion, lang]

def name : Kind → String
  | document => "document"
  | heading => "heading"
  | paragraph => "paragraph"
  | text => "text"
  | space => "space"
  | linebreak => "linebreak"
  | parbreak => "parbreak"
  | strong => "strong"
  | emph => "emph"
  | block => "block"
  | listItem => "list_item"
  | mathInline => "math_inline"
  | mathBlock => "math_block"
  | citation => "citation"
  | bibliography => "bibliography"
  | rawInline => "raw_inline"
  | rawBlock => "raw_block"
  | pagebreak => "pagebreak"
  | inclusion => "include"
  | lang => "lang"

def ofName? (s : String) : Option Kind := all.find? (·.name = s)

/-- Ends a paragraph of the flattened text. -/
def isBlock : Kind → Bool
  | heading | paragraph | listItem | mathBlock | rawBlock | parbreak | pagebreak | bibliography => true
  | _ => false

/-- Renders its own text instead of children. -/
def isLeaf : Kind → Bool
  | text | space | linebreak | mathInline | mathBlock | citation | rawInline | rawBlock => true
  | _ => false

theorem mem_all (k : Kind) : k ∈ all := by cases k <;> decide

end Kind

/-- A language rule in force: whatever it leaves open is inherited. -/
structure Scope where
  lang : Option String
  region : Option String
deriving DecidableEq, Inhabited

def Scope.unset : Scope := ⟨none, none⟩

structure Node where
  kind : Kind
  location : Location
  text : Text
  scope : Scope
  level : Int
  verbatim : Bool
  children : List Node
deriving Inhabited

namespace Node

mutual

/-- How many nodes the tree has. -/
def size : Node → Nat
  | ⟨_, _, _, _, _, _, children⟩ => 1 + sizes children

def sizes : List Node → Nat
  | [] => 0
  | n :: r => n.size + sizes r

end

mutual

/-- The node and everything below it, in document order. -/
def preorder : Node → List Node
  | ⟨k, l, t, s, v, b, children⟩ => ⟨k, l, t, s, v, b, children⟩ :: preorders children

def preorders : List Node → List Node
  | [] => []
  | n :: r => n.preorder ++ preorders r

end

end Node

end Proofreader
