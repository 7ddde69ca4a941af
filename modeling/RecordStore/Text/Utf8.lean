import RecordStore.Text.Basic

/-!
# UTF-8 with escaped bytes

A byte that is no part of well-formed UTF-8 is kept in a text as a surrogate from U+DC80 to U+DCFF,
so every byte string has a text, and its text encodes back to it. Texts with any other surrogate
have no encoding. Prefix queries use the bytes: the texts that begin with a prefix are those from
the prefix up to, but not including, its upper bound.
-/

set_option autoImplicit false

namespace RecordStore

abbrev Bytes := List UInt8

namespace Bytes

def order (a b : Bytes) : Ordering := List.compareLex compare a b

end Bytes

namespace Utf8

/-- The bytes of one code point; a surrogate has some only if it stands for an escaped byte. -/
def encodePoint (c : CodePoint) : Option Bytes :=
  let n := c.val
  let tail (k : Nat) : UInt8 := UInt8.ofNat (0x80 + k % 0x40)
  if n < 0x80 then some [UInt8.ofNat n]
  else if n < 0x800 then some [UInt8.ofNat (0xC0 + n / 0x40), tail n]
  else if 0xDC80 ≤ n ∧ n < 0xDD00 then some [UInt8.ofNat (n - 0xDC00)]
  else if 0xD800 ≤ n ∧ n < 0xE000 then none
  else if n < 0x10000 then some [UInt8.ofNat (0xE0 + n / 0x1000), tail (n / 0x40), tail n]
  else some [UInt8.ofNat (0xF0 + n / 0x40000), tail (n / 0x1000), tail (n / 0x40), tail n]

def encodePoints : List CodePoint → Option Bytes
  | [] => some []
  | c :: cs => do return (← encodePoint c) ++ (← encodePoints cs)

def encode? (t : Text) : Option Bytes := encodePoints t.points

/-- A well-formed code point, or a byte that is no part of one. -/
inductive Piece where
  | point (c : CodePoint)
  | stray (b : UInt8)
  deriving DecidableEq

def isTail (b : UInt8) : Bool := 0x80 ≤ b.toNat && b.toNat < 0xC0

/-- The second bytes that may follow a first byte: they rule out overlong forms, surrogates and
numbers past U+10FFFF. -/
def allowsSecond (first second : UInt8) : Bool :=
  let b := second.toNat
  match first.toNat with
  | 0xE0 => 0xA0 ≤ b && b < 0xC0
  | 0xED => 0x80 ≤ b && b < 0xA0
  | 0xF0 => 0x90 ≤ b && b < 0xC0
  | 0xF4 => 0x80 ≤ b && b < 0x90
  | _ => isTail second

def low (b : UInt8) : Nat := b.toNat % 0x40

def head (b : UInt8) (rest : Bytes) : Piece × Bytes :=
  let n := b.toNat
  if n < 0x80 then (.point (CodePoint.ofNat n), rest)
  else if 0xC2 ≤ n ∧ n < 0xE0 then
    match rest with
    | b₁ :: r =>
      if isTail b₁ then (.point (CodePoint.ofNat ((n - 0xC0) * 0x40 + low b₁)), r)
      else (.stray b, rest)
    | _ => (.stray b, rest)
  else if 0xE0 ≤ n ∧ n < 0xF0 then
    match rest with
    | b₁ :: b₂ :: r =>
      if allowsSecond b b₁ && isTail b₂ then
        (.point (CodePoint.ofNat ((n - 0xE0) * 0x1000 + low b₁ * 0x40 + low b₂)), r)
      else (.stray b, rest)
    | _ => (.stray b, rest)
  else if 0xF0 ≤ n ∧ n < 0xF5 then
    match rest with
    | b₁ :: b₂ :: b₃ :: r =>
      if allowsSecond b b₁ && isTail b₂ && isTail b₃ then
        (.point (CodePoint.ofNat
          ((n - 0xF0) * 0x40000 + low b₁ * 0x1000 + low b₂ * 0x40 + low b₃)), r)
      else (.stray b, rest)
    | _ => (.stray b, rest)
  else (.stray b, rest)

theorem head_rest_length_le (b : UInt8) (rest : Bytes) :
    (head b rest).2.length ≤ rest.length := by
  unfold head
  dsimp only
  split
  · simp
  split
  · split
    · split <;> simp
    · simp
  split
  · split
    · split <;> simp
      omega
    · simp
  split
  · split
    · split <;> simp
      omega
    · simp
  · simp

def pieces : Bytes → List Piece
  | [] => []
  | b :: rest =>
    have := head_rest_length_le b rest
    (head b rest).1 :: pieces (head b rest).2
termination_by bs => bs.length
decreasing_by simp; omega

def Piece.codePoint : Piece → CodePoint
  | .point c => c
  | .stray b => CodePoint.ofNat (0xDC00 + b.toNat)

def Piece.codePoint? : Piece → Option CodePoint
  | .point c => some c
  | .stray _ => none

def decode (bs : Bytes) : Text := ⟨(pieces bs).map Piece.codePoint⟩

def decodeStrict? (bs : Bytes) : Option Text := ((pieces bs).mapM Piece.codePoint?).map Text.mk

/-- The least byte string above all that begin with these: the bytes 0xFF at the end go, and the
last byte left is raised by one. There is none when nothing is left. -/
def successor? (bs : Bytes) : Option Bytes :=
  match bs.reverse.dropWhile (· == 0xFF) with
  | [] => none
  | b :: before => some (before.reverse ++ [b + 1])

end Utf8

/-- Where the texts that begin with a prefix end. -/
inductive UpperBound where
  | unencodable
  | unbounded
  | below (bound : Text)

def Text.upperBound (t : Text) : UpperBound :=
  match Utf8.encode? t with
  | none => .unencodable
  | some bs =>
    match Utf8.successor? bs with
    | none => .unbounded
    | some u => .below (Utf8.decode u)

end RecordStore
