import Proofreader.Language.Profile
import Proofreader.Style.Rule

/-! Flattening: the pieces of prose of a tree in document order, with separators where paragraphs
and pages end. -/

namespace Proofreader

/-- A run of text with its place. It is exact when it is a copy of the source there. -/
structure Piece where
  text : Text
  location : Location
  language : Language
  exact : Bool
  placeholder : Bool
deriving DecidableEq

inductive Segment where
  | piece (p : Piece)
  | separator (language : Language) (page : Bool)
deriving DecidableEq

/-- The language inside a node: its own, or its region in the language around it, or that one. -/
def Scope.within (s : Scope) (outer : Language) : Language :=
  match s.lang.filter (· ≠ ""), s.region.filter (· ≠ "") with
  | some code, _ => ⟨code, s.region⟩
  | none, some region => ⟨outer.code, some region⟩
  | none, none => outer

/-- Whether a node under the rule begins a page. -/
def Rule.paginates (rule : Rule) (kind : Kind) (level : Int) : Bool :=
  rule.effect = .paginateBefore && (kind ≠ .heading || level ≤ rule.level)

namespace Node

def ownPiece (n : Node) (language : Language) : List Segment :=
  if n.text.isEmpty then []
  else [.piece ⟨n.text, n.location, language, n.verbatim && n.text.length = n.location.length, false⟩]

def tokenPiece (n : Node) (language : Language) (token : Text) : Segment :=
  .piece ⟨token, n.location, language, false, true⟩

mutual

def segments (table : Table) (outer : Language) (n : Node) : List Segment :=
  match n with
  | ⟨kind, location, text, scope, level, verbatim, children⟩ =>
    let self : Node := ⟨kind, location, text, scope, level, verbatim, []⟩
    let language := scope.within outer
    let after := if kind.isBlock then [Segment.separator language false] else []
    let inside := if kind.isLeaf then self.ownPiece language else segmentsOf table language children
    let rule := table.ruleFor kind
    match rule.effect with
    | .drop => []
    | .rewrite => if rule.token.isEmpty then [] else self.tokenPiece language rule.token :: after
    | .unwrap => inside
    | _ => (if rule.paginates kind level then [.separator language true] else []) ++ inside ++ after

def segmentsOf (table : Table) (outer : Language) : List Node → List Segment
  | [] => []
  | n :: r => n.segments table outer ++ segmentsOf table outer r

end

end Node

end Proofreader
