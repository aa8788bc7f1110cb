import Proofreader.Number.Shortest
import Proofreader.Text.Quoted

/-! JSON values. Whole numbers and floats are told apart; the members of an object keep the order in
which their keys first appeared. -/

namespace Proofreader

inductive Json where
  | null
  | bool (b : Bool)
  | int (i : Int)
  | float (x : Float)
  | str (s : String)
  | arr (items : List Json)
  | obj (members : List (String × Json))
deriving Inhabited

/-- Members in which each key stands once: a later value replaces an earlier one in its place. -/
def putMember {α : Type} (members : List (String × α)) (key : String) (value : α) :
    List (String × α) :=
  match members with
  | [] => [(key, value)]
  | (k, v) :: r => if k = key then (k, value) :: r else (k, v) :: putMember r key value

def ofMembers {α : Type} (members : List (String × α)) : List (String × α) :=
  members.foldl (fun ms m => putMember ms m.1 m.2) []

namespace Json

def get? (key : String) : Json → Option Json
  | obj members => members.lookup key
  | _ => none

/-- Whether the value counts as absent: nothing, false, zero or empty. -/
def isEmpty : Json → Bool
  | null => true
  | bool b => !b
  | int i => i = 0
  | float x => x == 0.0
  | str s => s = ""
  | arr items => items.isEmpty
  | obj members => members.isEmpty

/-- The name that messages use for the kind of a value. -/
def kindName : Json → String
  | null => "NoneType"
  | bool _ => "bool"
  | int _ => "int"
  | float _ => "float"
  | str _ => "str"
  | arr _ => "list"
  | obj _ => "dict"

mutual

/-- The text of a value inside a message, strings quoted. -/
def literal : Json → String
  | null => "None"
  | bool b => if b then "True" else "False"
  | int i => toString i
  | float x => floatText x
  | str s => quoted s
  | arr items => "[" ++ literals items ++ "]"
  | obj members => "\x7b" ++ memberLiterals members ++ "\x7d"

def literals : List Json → String
  | [] => ""
  | [x] => x.literal
  | x :: r => x.literal ++ ", " ++ literals r

def memberLiterals : List (String × Json) → String
  | [] => ""
  | [(k, x)] => quoted k ++ ": " ++ x.literal
  | (k, x) :: r => quoted k ++ ": " ++ x.literal ++ ", " ++ memberLiterals r

end

/-- The text of a value on its own: a string stands for itself. -/
def plain : Json → String
  | str s => s
  | v => v.literal

end Json

end Proofreader
