import Proofreader.Path
import Proofreader.Presentation.Host
import Proofreader.Text.Utf8

/-! Files as URIs. Of the octets of a path, letters, digits and a few signs stand for themselves and all
others are written as hexadecimal pairs. -/

namespace Proofreader.Uri

inductive UriError where
  | relative
  | notFile (uri : Text)
  | host (e : Host.HostError)

def UriError.message : UriError → String
  | relative => "relative path can't be expressed as a file URI"
  | notFile uri => "Not a file URI: " ++ String.ofList uri
  | host e => e.message

def isAsciiLetter (c : Char) : Bool := ('a' ≤ c && c ≤ 'z') || ('A' ≤ c && c ≤ 'Z')

def isAsciiDigit (c : Char) : Bool := '0' ≤ c && c ≤ '9'

/-- Whether an octet stands for itself in a path. -/
def isPlain (b : Nat) : Bool :=
  b < 128 && (isAsciiLetter (Char.ofNat b) || isAsciiDigit (Char.ofNat b)
    || ['_', '.', '-', '~', '/'].contains (Char.ofNat b))

def upperHex (n : Nat) : Char := (Nat.digitChar n).toUpper

def quoteOctet (b : Nat) : Text :=
  if isPlain b then [Char.ofNat b] else ['%', upperHex (b / 16), upperHex (b % 16)]

def quotePath (p : Text) : Text := (Utf8.encode p).flatMap quoteOctet

def ofPath (p : Text) : Except UriError Text :=
  let p := Path.tidy p
  if Path.isAbsolute p then .ok ("file://".toList ++ quotePath p) else .error .relative

def hexValue? (c : Char) : Option Nat :=
  if isAsciiDigit c then some (c.toNat - 48)
  else if 'a' ≤ c && c ≤ 'f' then some (c.toNat - 87)
  else if 'A' ≤ c && c ≤ 'F' then some (c.toNat - 55)
  else none

/-- The octets of ASCII text, pairs after a percent sign counting as one. -/
def unquoteOctets : Text → List Nat
  | '%' :: a :: b :: r =>
    match hexValue? a, hexValue? b with
    | some x, some y => (16 * x + y) :: unquoteOctets r
    | _, _ => 37 :: unquoteOctets (a :: b :: r)
  | c :: r => c.toNat :: unquoteOctets r
  | [] => []

/-- The text with each stretch of ASCII decoded on its own. -/
def unquote (t : Text) : Text := go [] t
where
  /-- `ascii` is the stretch so far, reversed. -/
  go (ascii : Text) : Text → Text
    | [] => close ascii
    | c :: r => if c.toNat < 128 then go (c :: ascii) r else close ascii ++ c :: go [] r
  close (ascii : Text) : Text := Utf8.decodeLossy (unquoteOctets ascii.reverse)

/-- A scheme in front of a colon, in lower case, and what follows; without one, nothing and everything. -/
def splitScheme (t : Text) : Text × Text :=
  let head := t.takeWhile (· ≠ ':')
  let schemeLetter (c : Char) : Bool := isAsciiLetter c || isAsciiDigit c || ['+', '-', '.'].contains c
  if head.length < t.length && head.head?.any isAsciiLetter && head.all schemeLetter then
    (head.map Char.toLower, t.drop (head.length + 1))
  else ([], t)

/-- The host behind two slashes, and what follows it. -/
def splitHost : Text → Text × Text
  | '/' :: '/' :: r =>
    let inHost (c : Char) : Bool := c ≠ '/' && c ≠ '?' && c ≠ '#'
    (r.takeWhile inHost, r.dropWhile inHost)
  | t => ([], t)

/-- A path without the parameters of its last part. -/
def dropParameters (p : Text) : Text :=
  let last := (p.reverse.takeWhile (· ≠ '/')).reverse
  p.take (p.length - last.length) ++ last.takeWhile (· ≠ ';')

/-- The path in a file URI, or in one without a scheme. -/
def toPath (uri : Text) : Except UriError Text := do
  let cleaned := (uri.dropWhile fun c => c.toNat ≤ 32).filter fun c => c ≠ '\t' && c ≠ '\r' && c ≠ '\n'
  let (scheme, r) := splitScheme cleaned
  let (host, r) := splitHost r
  (Host.checkBrackets host).mapError .host
  (Host.checkLetters host).mapError .host
  let p := (r.takeWhile (· ≠ '#')).takeWhile (· ≠ '?')
  if scheme = [] then pure (unquote (dropParameters p))
  else if scheme = "file".toList then pure (unquote p)
  else throw (.notFile uri)

end Proofreader.Uri
