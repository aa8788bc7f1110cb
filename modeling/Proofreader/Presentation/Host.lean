import Proofreader.Text.Quoted

/-! The host part of a URI, as far as it can be wrong: brackets that do not match or hold no address, and
characters that are taken for others. -/

namespace Proofreader.Host

inductive HostError where
  | brackets
  | future
  | address (host : Text)
  | shortAddress
  | lookalike (host : Text)

def HostError.message : HostError → String
  | brackets => "Invalid IPv6 URL"
  | future => "IPvFuture address is invalid"
  | address host => String.ofList (Text.quoted host) ++ " does not appear to be an IPv4 or IPv6 address"
  | shortAddress => "An IPv4 address cannot be in brackets"
  | lookalike host =>
    "netloc '" ++ String.ofList host ++ "' contains invalid characters under NFKC normalization"

def isHexDigit (c : Char) : Bool :=
  ('0' ≤ c && c ≤ '9') || ('a' ≤ c && c ≤ 'f') || ('A' ≤ c && c ≤ 'F')

/-- Up to three decimal digits without a leading zero, at most 255. -/
def isOctet (t : Text) : Bool :=
  let digits := t.all fun c => '0' ≤ c && c ≤ '9'
  let value := t.foldl (fun n c => 10 * n + (c.toNat - 48)) 0
  !t.isEmpty && t.length ≤ 3 && digits && (t.length = 1 || t.head? ≠ some '0') && value ≤ 255

def isShortAddress (t : Text) : Bool :=
  let octets := Text.splitWhen (· = '.') t
  octets.length = 4 && octets.all isOctet

/-- Up to four hexadecimal digits. -/
def isGroup (t : Text) : Bool := !t.isEmpty && t.length ≤ 4 && t.all isHexDigit

/-- Eight groups, or fewer around one gap. -/
def areGroups (parts : List Text) : Bool :=
  let inner := parts.tail.dropLast
  match (inner.zipIdx.filter fun p => p.1.isEmpty).map (·.2) with
  | [] => parts.length = 8 && parts.all isGroup
  | [i] =>
    let before := parts.take (i + 1)
    let behind := parts.drop (i + 2)
    let high := if before = [[]] then [] else before
    let low := if behind = [[]] then [] else behind
    high.all isGroup && low.all isGroup && high.length + low.length < 8
  | _ => false

/-- Groups between colons, the last two maybe as a short address, and a zone after a percent sign. -/
def isLongAddress (t : Text) : Bool :=
  let (body, zone) := Text.splitFirst (· = '%') t
  let parts := Text.splitWhen (· = ':') body
  let last := parts.getLast?.getD []
  let shortLast := last.contains '.'
  let groups := if shortLast then parts.dropLast ++ [['0'], ['0']] else parts
  zone.all (fun z => !z.isEmpty && !z.contains '%') && 3 ≤ parts.length && groups.length ≤ 9
    && (!shortLast || isShortAddress last) && areGroups groups

/-- A bracketed host of a later kind: a v, hexadecimal digits, a point and something more. -/
def isFuture : Text → Bool
  | 'v' :: r =>
    match r.dropWhile isHexDigit with
    | '.' :: _ :: _ => r.head?.any isHexDigit
    | _ => false
  | _ => false

/-- Characters that stand for a slash, a question or number sign, an at or a colon. -/
def lookalikes : List Nat :=
  [0x2047, 0x2048, 0x2049, 0x2100, 0x2101, 0x2105, 0x2106, 0x2A74, 0xFE13, 0xFE16, 0xFE55, 0xFE56, 0xFE5F,
    0xFE6B, 0xFF03, 0xFF0F, 0xFF1A, 0xFF1F, 0xFF20]

/-- A host without the user in front of the last at sign. -/
def withoutUser (host : Text) : Text := (host.reverse.takeWhile (· ≠ '@')).reverse

/-- The name of a host that holds brackets somewhere: what they enclose, if nothing stands in front of them and
nothing but a port behind them. Without a bracket behind the user, it is all in front of the port. -/
def bracketedName (host : Text) : Except HostError Text :=
  match Text.splitFirst (· = '[') (withoutUser host) with
  | (name, none) => .ok (Text.splitFirst (· = ':') name).1
  | (_ :: _, some _) => .error .brackets
  | ([], some r) =>
    match Text.splitFirst (· = ']') r with
    | (name, none) | (name, some []) | (name, some (':' :: _)) => .ok name
    | (_, some _) => .error .brackets

def checkName (name : Text) : Except HostError Unit :=
  if name.head? = some 'v' then if isFuture name then .ok () else .error .future
  else if isShortAddress name then .error .shortAddress
  else if isLongAddress name then .ok ()
  else .error (.address name)

def checkBrackets (host : Text) : Except HostError Unit :=
  if host.contains '[' ≠ host.contains ']' then .error .brackets
  else if host.contains '[' then bracketedName host >>= checkName
  else .ok ()

def checkLetters (host : Text) : Except HostError Unit :=
  if host.any fun c => lookalikes.contains c.toNat then .error (.lookalike host) else .ok ()

end Proofreader.Host
