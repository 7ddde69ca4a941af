import RecordStore.Text.Utf8

/-!
# Base64 for names in addresses

Writing uses the alphabet with `-` and `_` and no padding. Reading is lenient: both alphabets are
accepted, what lies outside them is passed over, and reading stops where the padding is complete.
-/

set_option autoImplicit false

namespace RecordStore
namespace Base64

def letter (n : Nat) : CodePoint :=
  CodePoint.ofNat <|
    if n < 26 then 0x41 + n
    else if n < 52 then 0x61 + (n - 26)
    else if n < 62 then 0x30 + (n - 52)
    else if n = 62 then 0x2D
    else 0x5F

def encodePoints : Bytes → List CodePoint
  | [] => []
  | [a] => [letter (a.toNat / 4), letter (a.toNat % 4 * 16)]
  | [a, b] =>
    [letter (a.toNat / 4), letter (a.toNat % 4 * 16 + b.toNat / 16), letter (b.toNat % 16 * 4)]
  | a :: b :: c :: rest =>
    [letter (a.toNat / 4), letter (a.toNat % 4 * 16 + b.toNat / 16),
      letter (b.toNat % 16 * 4 + c.toNat / 64), letter (c.toNat % 64)] ++ encodePoints rest

def encode (bs : Bytes) : Text := ⟨encodePoints bs⟩

def value? (c : CodePoint) : Option Nat :=
  let n := c.val
  if 0x41 ≤ n ∧ n ≤ 0x5A then some (n - 0x41)
  else if 0x61 ≤ n ∧ n ≤ 0x7A then some (n - 0x61 + 26)
  else if 0x30 ≤ n ∧ n ≤ 0x39 then some (n - 0x30 + 52)
  else if n = 0x2B ∨ n = 0x2D then some 62
  else if n = 0x2F ∨ n = 0x5F then some 63
  else none

/-- Letters read of the group of four that is open, with the bits they leave over. -/
inductive Group where
  | fresh
  | one (bits : Nat)
  | two (bits : Nat)
  | three (bits : Nat)

def isPadding (c : CodePoint) : Bool := c.val == 0x3D

/-- Reads from an open group with `pads` padding signs seen since the last letter. A group of one
letter holds no byte, and one of two or three needs its padding. -/
def decodeFrom : Group → (pads : Nat) → List CodePoint → Option Bytes
  | .fresh, _, [] => some []
  | _, _, [] => none
  | g, pads, c :: rest =>
    if isPadding c then
      match g with
      | .two _ => if pads + 1 ≥ 2 then some [] else decodeFrom g (pads + 1) rest
      | .three _ => some []
      | _ => decodeFrom g pads rest
    else
      match value? c with
      | none => decodeFrom g pads rest
      | some v =>
        match g with
        | .fresh => decodeFrom (.one v) 0 rest
        | .one bits => (decodeFrom (.two (v % 16)) 0 rest).map
          (UInt8.ofNat (bits * 4 + v / 16) :: ·)
        | .two bits => (decodeFrom (.three (v % 4)) 0 rest).map
          (UInt8.ofNat (bits * 16 + v / 4) :: ·)
        | .three bits => (decodeFrom .fresh 0 rest).map (UInt8.ofNat (bits * 64 + v) :: ·)

def padded (t : Text) : List CodePoint :=
  t.points ++ List.replicate ((4 - t.length % 4) % 4) ⟨0x3D, by decide⟩

def standardLetter (c : CodePoint) : CodePoint :=
  if c.val = 0x2D then CodePoint.ofChar '+' else if c.val = 0x5F then CodePoint.ofChar '/' else c

def standard (t : Text) : List CodePoint := (padded t).map standardLetter

def decodeStandard? (t : Text) : Option Bytes :=
  if t.points.all (·.val < 0x80) then
    decodeFrom .fresh 0 (t.points.filter (fun c => c.val ≠ 0x2D && c.val ≠ 0x5F))
  else none

def decode? (t : Text) : Option Bytes :=
  if t.points.all (·.val < 0x80) then decodeFrom .fresh 0 (padded t) else none

end Base64
end RecordStore
