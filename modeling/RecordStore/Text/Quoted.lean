import RecordStore.Text.Utf8

/-!
# Hexadecimal

Numbers are written in a given count of hexadecimal digits, and bytes in two digits each; blanks may
stand between bytes.
-/

set_option autoImplicit false

namespace RecordStore
namespace Hex

def digit (n : Nat) : CodePoint :=
  CodePoint.ofNat (if n % 16 < 10 then 0x30 + n % 16 else 0x57 + n % 16)

def digits : (width : Nat) → Nat → List CodePoint
  | 0, _ => []
  | w + 1, n => digits w (n / 16) ++ [digit n]

def value? (c : CodePoint) : Option Nat :=
  let n := c.val
  if 0x30 ≤ n ∧ n ≤ 0x39 then some (n - 0x30)
  else if 0x41 ≤ n ∧ n ≤ 0x46 then some (n - 0x37)
  else if 0x61 ≤ n ∧ n ≤ 0x66 then some (n - 0x57)
  else none

def natural? (cs : List CodePoint) : Option Nat :=
  cs.foldlM (fun n c => (value? c).map (n * 16 + ·)) 0

def encode (bs : Bytes) : Text := ⟨bs.flatMap (fun b => digits 2 b.toNat)⟩

def isBlank (c : CodePoint) : Bool := c.val = 0x20 || (0x09 ≤ c.val && c.val ≤ 0x0D)

/-- The bytes of digits of ASCII, or the position of the first character that is wrong, counted on
from the position of the first. -/
def decodeFrom (position : Nat) : List CodePoint → Except Nat Bytes
  | [] => .ok []
  | a :: rest =>
    if isBlank a then decodeFrom (position + 1) rest
    else
      match value? a, rest with
      | none, _ => .error position
      | some _, [] => .error (position + 1)
      | some m, b :: rest =>
        match value? b with
        | none => .error (position + 1)
        | some n => (decodeFrom (position + 2) rest).map (UInt8.ofNat (m * 16 + n) :: ·)

/-- The bytes of a text, or the position of a character that is wrong: the first one outside ASCII,
if there is one. -/
def decode (t : Text) : Except Nat Bytes :=
  match t.points.findIdx? (fun c => 0x80 ≤ c.val) with
  | some n => .error n
  | none => decodeFrom 0 t.points

end Hex
end RecordStore

/-!
## Quoted texts and bytes

Messages show a text between quotes, with everything that cannot be printed escaped, so that a
reader can tell apart any two texts. Bytes are shown the same way behind a `b`.
-/

namespace RecordStore
namespace Quoted

/-- Ranges of code points that are not printed: controls, separators other than the space, format
characters, surrogates, private use, and the code points that are no characters. -/
def hidden : List (Nat × Nat) :=
  [(0x00, 0x1F), (0x7F, 0xA0), (0xAD, 0xAD), (0x1680, 0x1680), (0x180E, 0x180E),
   (0x2000, 0x200F), (0x2028, 0x202F), (0x205F, 0x206F), (0x3000, 0x3000), (0xD7FC, 0xF8FF),
   (0xFDD0, 0xFDEF), (0xFEFF, 0xFEFF), (0xFFF0, 0xFFFB), (0xE0000, 0xE00FF),
   (0xE01F0, 0x10FFFF)]

def isHidden (c : CodePoint) : Bool :=
  hidden.any (fun r => r.1 ≤ c.val && c.val ≤ r.2) || c.val % 0x10000 ≥ 0xFFFE

def chars (s : String) : List CodePoint := s.toList.map CodePoint.ofChar

def numbered (c : CodePoint) : List CodePoint :=
  if c.val < 0x100 then chars "\\x" ++ Hex.digits 2 c.val
  else if c.val < 0x10000 then chars "\\u" ++ Hex.digits 4 c.val
  else chars "\\U" ++ Hex.digits 8 c.val

def escape (quote c : CodePoint) : List CodePoint :=
  if c = quote ∨ c.val = 0x5C then chars "\\" ++ [c]
  else if c.val = 0x0A then chars "\\n"
  else if c.val = 0x0D then chars "\\r"
  else if c.val = 0x09 then chars "\\t"
  else if isHidden c then numbered c
  else [c]

def singleQuote : CodePoint := ⟨0x27, by decide⟩
def doubleQuote : CodePoint := ⟨0x22, by decide⟩

def quoteFor (cs : List CodePoint) : CodePoint :=
  if cs.contains singleQuote && !cs.contains doubleQuote then doubleQuote else singleQuote

def text (t : Text) : Text :=
  let q := quoteFor t.points
  ⟨[q] ++ t.points.flatMap (escape q) ++ [q]⟩

def escapeByte (quote : CodePoint) (b : UInt8) : List CodePoint :=
  let c := CodePoint.ofNat b.toNat
  if b.toNat < 0x80 then escape quote c else numbered c

def quoteForBytes (bs : Bytes) : CodePoint := quoteFor (bs.map (fun b => CodePoint.ofNat b.toNat))

def bytesWith (escape : UInt8 → List CodePoint) (quote : CodePoint) (bs : Bytes) : Text :=
  ⟨chars "b" ++ [quote] ++ bs.flatMap escape ++ [quote]⟩

def bytes (bs : Bytes) : Text :=
  let q := quoteForBytes bs
  bytesWith (escapeByte q) q bs

/-- Bytes that can change. Among them a single quote is escaped between double quotes, too. -/
def byteArray (bs : Bytes) : Text :=
  let q := quoteForBytes bs
  let escape (b : UInt8) : List CodePoint :=
    if b.toNat = 0x27 then escapeByte singleQuote b else escapeByte q b
  "bytearray(" ++ bytesWith escape q bs ++ ")"

end Quoted
end RecordStore
