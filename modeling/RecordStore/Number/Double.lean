import RecordStore.Text.Quoted

/-!
# Double precision numbers

A double is its 64 bits. Its sign, mantissa and scale are read off the bits, so comparing doubles
with whole numbers and with decimals is exact arithmetic, and rounding a fraction to the nearest
double is a division with remainder.
-/

set_option autoImplicit false

namespace RecordStore

def twoTo (k : Nat) : Nat := Nat.pow 2 k

def tenTo (k : Nat) : Nat := Nat.pow 10 k

inductive Quantity where
  | undefined
  | negativeInfinity
  | exact (q : Rat)
  /-- A whole number times a power of ten that is too great or too small to be worked out. -/
  | scaled (coefficient exponent : Int)
  | positiveInfinity

def digitCount (n : Nat) : Nat := (toString n).length

namespace Quantity

/-- Compares `c * 10 ^ e` with a fraction, both above zero. The power is worked out only if the
numbers of digits leave it open which is greater. -/
def compareMagnitude (c : Nat) (e : Int) (num den : Nat) : Ordering :=
  let size := e + digitCount c
  if size > digitCount num then .gt
  else if size < -digitCount den then .lt
  else compare (c * tenTo e.toNat * den) (num * tenTo (-e).toNat)

def compareScaled (c e : Int) (q : Rat) : Ordering :=
  let magnitude := compareMagnitude c.natAbs e q.num.natAbs q.den
  if 0 < c then (if q ≤ 0 then .gt else magnitude)
  else if 0 ≤ q then .lt
  else magnitude.swap

/-- Compares products with powers of ten, neither of them zero: those of one sign by their numbers
of digits first. -/
def compareBoth (c e d f : Int) : Ordering :=
  if c < 0 ∧ 0 < d then .lt
  else if d < 0 ∧ 0 < c then .gt
  else
    let least := min e f
    let sizes := compare (e + digitCount c.natAbs) (f + digitCount d.natAbs)
    let magnitude :=
      if sizes = .eq then
        compare (c.natAbs * tenTo (e - least).toNat) (d.natAbs * tenTo (f - least).toNat)
      else sizes
    if 0 < c then magnitude else magnitude.swap

def compare? : Quantity → Quantity → Option Ordering
  | .undefined, _ => none
  | _, .undefined => none
  | .exact a, .exact b => some (if a < b then .lt else if a = b then .eq else .gt)
  | .scaled c e, .scaled d f => some (compareBoth c e d f)
  | .scaled c e, .exact q => some (compareScaled c e q)
  | .exact q, .scaled c e => some (compareScaled c e q).swap
  | .negativeInfinity, .negativeInfinity => some .eq
  | .positiveInfinity, .positiveInfinity => some .eq
  | .negativeInfinity, _ => some .lt
  | _, .negativeInfinity => some .gt
  | .positiveInfinity, _ => some .gt
  | _, .positiveInfinity => some .lt

def add : Quantity → Quantity → Quantity
  | .exact a, .exact b => .exact (a + b)
  | .undefined, _ => .undefined
  | _, .undefined => .undefined
  | .positiveInfinity, .negativeInfinity => .undefined
  | .negativeInfinity, .positiveInfinity => .undefined
  | .exact _, y => y
  | x, _ => x

def scale (factor : Rat) : Quantity → Quantity
  | .exact a => .exact (a * factor)
  | x => x

end Quantity

structure Double where
  bits : UInt64
  deriving DecidableEq, Inhabited

namespace Double

/-- A finite double is its mantissa times two to its scale. -/
inductive Parts where
  | nan
  | infinite (negative : Bool)
  | finite (negative : Bool) (mantissa : Nat) (scale : Int)

def parts (x : Double) : Parts :=
  let n := x.bits.toNat
  let negative := n / twoTo 63 == 1
  let exponent : Nat := n / twoTo 52 % twoTo 11
  let fraction : Nat := n % twoTo 52
  if exponent = 2047 then (if fraction = 0 then .infinite negative else .nan)
  else if exponent = 0 then .finite negative fraction (-1074)
  else .finite negative (fraction + twoTo 52) (exponent - 1075)

def isNaN (x : Double) : Bool :=
  match x.parts with
  | .nan => true
  | _ => false

def isInfinite (x : Double) : Bool :=
  match x.parts with
  | .infinite _ => true
  | _ => false

def signed (negative : Bool) (n : Nat) : Int := if negative then -n else n

def quantity (x : Double) : Quantity :=
  match x.parts with
  | .nan => .undefined
  | .infinite true => .negativeInfinity
  | .infinite false => .positiveInfinity
  | .finite negative m scale =>
    if 0 ≤ scale then .exact (mkRat (signed negative (m * twoTo scale.toNat)) 1)
    else .exact (mkRat (signed negative m) (twoTo (-scale).toNat))

def signBit (negative : Bool) : Nat := if negative then twoTo 63 else 0

def infinity (negative : Bool) : Double := ⟨UInt64.ofNat (signBit negative + 2047 * twoTo 52)⟩

def nan : Double := ⟨UInt64.ofNat (2047 * twoTo 52 + twoTo 51)⟩

/-- A NaN with a mark, by which it is told apart from other NaNs; no two marks less than `2 ^ 51`
give the same bits. -/
def markedNaN (mark : Nat) : Double := ⟨nan.bits + UInt64.ofNat (mark % twoTo 51)⟩

/-- Whether two doubles are one NaN, read once. A NaN without a mark is never known to be
another. -/
def isOneNaN (x y : Double) : Bool := x.isNaN && x = y && x ≠ nan

def zero (negative : Bool) : Double := ⟨UInt64.ofNat (signBit negative)⟩

/-- The double with a mantissa below `2 ^ 53`; the mantissas below `2 ^ 52` are those of the least
scale. -/
def assemble (negative : Bool) (mantissa : Nat) (scale : Int) : Double :=
  if scale > 971 then infinity negative
  else if mantissa < twoTo 52 then ⟨UInt64.ofNat (signBit negative + mantissa)⟩
  else
    ⟨UInt64.ofNat (signBit negative + (scale + 1075).toNat * twoTo 52 + (mantissa - twoTo 52))⟩

def roundQuotient (num den : Nat) : Nat :=
  let q := num / den
  let twice := 2 * (num % den)
  if twice < den then q else if den < twice then q + 1 else q + q % 2

def scaledQuotient (num den : Nat) (scale : Int) : Nat × Nat :=
  if 0 ≤ scale then (num, den * twoTo scale.toNat) else (num * twoTo (-scale).toNat, den)

def scaleOf (num den : Nat) : Int :=
  let guess : Int := (num.log2 : Int) - den.log2 - 53
  let (a, b) := scaledQuotient num den guess
  max (if a / b < twoTo 53 then guess else guess + 1) (-1074)

def nearest (negative : Bool) (num den : Nat) : Double :=
  if num = 0 then zero negative
  else
    let scale := scaleOf num den
    let (a, b) := scaledQuotient num den scale
    let m := roundQuotient a b
    if m = twoTo 53 then assemble negative (twoTo 52) (scale + 1) else assemble negative m scale

def ofNat (n : Nat) : Double := nearest false n 1

def ofQuantity : Quantity → Double
  | .undefined => nan
  | .negativeInfinity => infinity true
  | .positiveInfinity => infinity false
  | .exact q => nearest (q < 0) q.num.natAbs q.den
  | .scaled c e => if 0 < e then infinity (c < 0) else zero (c < 0)

def add (x y : Double) : Double :=
  if x = zero true ∧ y = zero true then x else ofQuantity (x.quantity.add y.quantity)

def times (x : Double) (n : Nat) : Double :=
  match (ofNat n).quantity with
  | .exact factor => ofQuantity (x.quantity.scale factor)
  | _ => nan

def negate (x : Double) : Double := if x.isNaN then nan else ⟨x.bits ^^^ 0x8000000000000000⟩

def hex (x : Double) : Text := ⟨Hex.digits 16 (if x.isNaN then nan else x).bits.toNat⟩

def ofBytes? (bs : Bytes) : Option Double :=
  if bs.length = 8 then some ⟨bs.foldl (fun n b => n * 256 + b.toUInt64) 0⟩ else none

end Double
end RecordStore

/-!
## Residues of numbers

Numbers that are equal have the same residue, in whatever form they are written: a fraction has its
numerator divided by its denominator modulo the prime `2 ^ 61 - 1`, with the sign of the fraction.
The residue -1 is in use for nothing, -2 stands for it. The infinities have residues of their own.
-/

namespace RecordStore
namespace Residue

def prime : Nat := 0x1FFFFFFFFFFFFFFF

def power (base : Nat) : Nat → Nat
  | 0 => 1
  | n + 1 =>
    let half := power base ((n + 1) / 2)
    let square := half * half % prime
    if n % 2 = 0 then square * base % prime else square

def inverse (n : Nat) : Nat := power (n % prime) (prime - 2)

def signed (negative : Bool) (magnitude : Nat) : Int :=
  let r := Double.signed negative (magnitude % prime)
  if r = -1 then -2 else r

def ofInt (n : Int) : Int := signed (n < 0) n.natAbs

def infinity : Nat := 314159

end Residue

def Quantity.residue? : Quantity → Option Int
  | .undefined => none
  | .negativeInfinity => some (Residue.signed true Residue.infinity)
  | .positiveInfinity => some (Residue.signed false Residue.infinity)
  | .exact q =>
    some <|
      if q.den % Residue.prime = 0 then Residue.signed (q.num < 0) Residue.infinity
      else Residue.signed (q.num < 0) (q.num.natAbs * Residue.inverse q.den)
  | .scaled c e =>
    let exponent := (e % ((Residue.prime - 1 : Nat) : Int)).toNat
    some (Residue.signed (c < 0) (c.natAbs * Residue.power 10 exponent))

end RecordStore
