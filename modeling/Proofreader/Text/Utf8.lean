import Proofreader.Text.Basic

/-! UTF-8. `decode?` is strict; `decodeLossy` writes one replacement character for each longest
stretch of octets that begins a character but cannot complete it. -/

namespace Proofreader

namespace Utf8

def encodeChar (c : Char) : List Nat :=
  let n := c.toNat
  if n < 0x80 then [n]
  else if n < 0x800 then [0xC0 + n / 64, 0x80 + n % 64]
  else if n < 0x10000 then [0xE0 + n / 4096, 0x80 + n / 64 % 64, 0x80 + n % 64]
  else [0xF0 + n / 262144, 0x80 + n / 4096 % 64, 0x80 + n / 64 % 64, 0x80 + n % 64]

def encode (t : Text) : List Nat := t.flatMap encodeChar

/-- What a first octet announces: its payload, how many octets follow, and the least and the
greatest that the next one may be. -/
structure Lead where
  payload : Nat
  owed : Nat
  low : Nat
  high : Nat

def lead? (b : Nat) : Option Lead :=
  if 0xC2 ≤ b && b ≤ 0xDF then some ⟨b - 0xC0, 1, 0x80, 0xBF⟩
  else if b = 0xE0 then some ⟨0, 2, 0xA0, 0xBF⟩
  else if b = 0xED then some ⟨0xD, 2, 0x80, 0x9F⟩
  else if 0xE1 ≤ b && b ≤ 0xEF then some ⟨b - 0xE0, 2, 0x80, 0xBF⟩
  else if b = 0xF0 then some ⟨0, 3, 0x90, 0xBF⟩
  else if 0xF1 ≤ b && b ≤ 0xF3 then some ⟨b - 0xF0, 3, 0x80, 0xBF⟩
  else if b = 0xF4 then some ⟨4, 3, 0x80, 0x8F⟩
  else none

/-- The octets of a character that is still incomplete; `none` between characters. -/
abbrev Open := Option Lead

/-- One octet: the character it completes, if any, and what is open after it; `none` where UTF-8
cannot hold it. -/
def step : Open → Nat → Option (Option Char × Open)
  | none, b => if b < 0x80 then some (some (Char.ofNat b), none) else (lead? b).map fun l => (none, some l)
  | some l, b =>
    if l.low ≤ b && b ≤ l.high then
      let payload := l.payload * 64 + (b - 0x80)
      if l.owed ≤ 1 then some (some (Char.ofNat payload), none)
      else some (none, some ⟨payload, l.owed - 1, 0x80, 0xBF⟩)
    else none

def decodeFrom? : Open → List Nat → Option Text
  | none, [] => some []
  | some _, [] => none
  | q, b :: r =>
    match step q b with
    | none => none
    | some (some c, q') => (decodeFrom? q' r).map (c :: ·)
    | some (none, q') => decodeFrom? q' r

def decode? (octets : List Nat) : Option Text := decodeFrom? none octets

def replacement : Char := Char.ofNat 0xFFFD

def decodeLossyFrom : Open → List Nat → Text
  | none, [] => []
  | some _, [] => [replacement]
  | none, b :: r =>
    match step none b with
    | none => replacement :: decodeLossyFrom none r
    | some (c, q) => c.toList ++ decodeLossyFrom q r
  | some l, b :: r =>
    match step (some l) b with
    | some (c, q) => c.toList ++ decodeLossyFrom q r
    | none =>
      match step none b with
      | none => replacement :: replacement :: decodeLossyFrom none r
      | some (c, q) => replacement :: c.toList ++ decodeLossyFrom q r

def decodeLossy (octets : List Nat) : Text := decodeLossyFrom none octets

end Utf8

end Proofreader
