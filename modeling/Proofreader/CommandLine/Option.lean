import Proofreader.Text.Digit
import Proofreader.Text.Basic

/-! The words of a command line. An option may be shortened as long as it stays the only one that begins so,
and its value may follow an equals sign. -/

namespace Proofreader.CommandLine

inductive OptionName where
  | help
  | version
  | main
  | root
  | config
  | bundled
  | jar
  | host
  | port
  | language
  | chunkSize
  | noSpellcheck
  | logLevel
  | logFormat
  | assignment
  | json
  | onChange
  | interval
deriving DecidableEq, Inhabited

namespace OptionName

def takesValue : OptionName → Bool
  | help | version | bundled | noSpellcheck | json => false
  | _ => true

/-- The options ahead of a command. -/
def leading : List (Text × OptionName) :=
  [("-h".toList, help), ("--help".toList, help), ("--version".toList, version)]

/-- The options that every command has. -/
def common : List (Text × OptionName) :=
  [("-h", help), ("--help", help), ("--main", main), ("--root", root), ("--config", config), ("--bundled", bundled),
    ("--jar", jar), ("--host", host), ("--port", port), ("--language", language), ("--chunk-size", chunkSize),
    ("--no-spellcheck", noSpellcheck), ("--log-level", logLevel), ("--log-format", logFormat),
    ("--set", assignment)].map fun (name, o) => (name.toList, o)

end OptionName

/-- How a value is attached to its option. -/
inductive Attached where
  | separate
  | equals (value : Text)
  /-- Written on behind an option of one letter, with or without an equals sign. -/
  | joined (value : Text)

/-- How a value behind an equals sign is attached to the option in front of it. -/
def Attached.after (option value : Text) : Attached :=
  if option.length = 2 && !value.isEmpty then joined value else equals value

inductive Word where
  | argument (text : Text)
  /-- Two dashes: all that follows are arguments. -/
  | divider
  | option (name : OptionName) (value : Attached)
  | unknown (text : Text)

/-- A dash and a number in digits, maybe with a point; a line end may follow. -/
def isNegativeNumber (t : Text) : Bool :=
  let body := if t.getLast? = some '\n' then t.dropLast else t
  match body with
  | '-' :: r =>
    match Text.splitFirst (· = '.') r with
    | (whole, none) => !whole.isEmpty && whole.all isDigit
    | (whole, some places) => whole.all isDigit && !places.isEmpty && places.all isDigit
  | _ => false

/-- The options that a word may be short for. -/
def candidates (known : List (Text × OptionName)) (t : Text) : List Word :=
  match t with
  | '-' :: '-' :: _ =>
    let (head, value) := Text.splitFirst (· = '=') t
    (known.filter fun k => head.isPrefixOf k.1).map fun k => .option k.2 (value.elim .separate .equals)
  | _ => (known.filter fun k => k.1 = t.take 2).map fun k => .option k.2 (.joined (t.drop 2))

/-- What a word is, unless it is short for several options. -/
def Word.ofText? (known : List (Text × OptionName)) (t : Text) : Option Word :=
  let (head, value) := Text.splitFirst (· = '=') t
  if t.head? ≠ some '-' || t.length = 1 then some (.argument t)
  else
    match known.lookup t, value.bind fun v => (known.lookup head).map fun o => Word.option o (.after head v) with
    | some o, _ => some (.option o .separate)
    | none, some word => some word
    | none, none =>
      match candidates known t with
      | [word] => some word
      | _ :: _ => none
      | [] => some (if isNegativeNumber t || t.contains ' ' then .argument t else .unknown t)

/-- All words of a line. -/
def Word.ofTexts? (known : List (Text × OptionName)) : List Text → Option (List Word)
  | [] => some []
  | t :: r =>
    if t = ['-', '-'] then some (.divider :: r.map .argument)
    else do return (← Word.ofText? known t) :: (← Word.ofTexts? known r)

end Proofreader.CommandLine
