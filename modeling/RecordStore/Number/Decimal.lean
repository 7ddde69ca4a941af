import RecordStore.Number.Double

/-!
# Decimal numbers

A decimal keeps its trailing zeros: it is a coefficient and an exponent. Negating one rounds it to
28 digits, a half to the even neighbour, and turning it into a double rounds it once more.
-/

set_option autoImplicit false

namespace RecordStore

inductive Decimal where
  | finite (negative : Bool) (coefficient : Nat) (exponent : Int)
  | infinite (negative : Bool)
  /-- Not a number. A signalling one stops every computation it enters. -/
  | nan (negative signalling : Bool) (payload : Nat)
  deriving DecidableEq

namespace Decimal

inductive Signal where
  | invalid
  | overflow
  deriving DecidableEq

def adjusted (coefficient : Nat) (exponent : Int) : Int := exponent + digitCount coefficient - 1

def precision : Nat := 28
def maxExponent : Int := 999999
def leastExponent : Int := -1000026

def dropDigits (coefficient : Nat) (exponent : Int) (places : Nat) : Nat × Int :=
  (Double.roundQuotient coefficient (tenTo places), exponent + places)

/-- A coefficient of at most 28 digits and an exponent that is not too small. A coefficient with
nothing left of it is zero, whatever the exponent was; the exponent of a zero is not too great
either. -/
def fit (coefficient : Nat) (exponent : Int) : Nat × Int :=
  let surplus := max ((digitCount coefficient : Int) - precision) (leastExponent - exponent)
  if coefficient = 0 then (0, min maxExponent (max leastExponent exponent))
  else if surplus ≤ 0 then (coefficient, exponent)
  else if surplus > digitCount coefficient then (0, leastExponent)
  else
    let (c, e) := dropDigits coefficient exponent surplus.toNat
    if digitCount c > precision then dropDigits c e 1 else (c, e)

/-- The result of a computation, to 28 digits. Of what a NaN carries the last 28 digits are kept. -/
def rounded : Decimal → Except Signal Decimal
  | .finite negative c e =>
    let (c', e') := fit c e
    if c' ≠ 0 ∧ adjusted c' e' > maxExponent then .error .overflow else .ok (.finite negative c' e')
  | .infinite negative => .ok (.infinite negative)
  | .nan _ true _ => .error .invalid
  | .nan negative false payload => .ok (.nan negative false (payload % tenTo precision))

def negate : Decimal → Except Signal Decimal
  | .finite negative c e => rounded (.finite (c ≠ 0 && !negative) c e)
  | .infinite negative => .ok (.infinite (!negative))
  | d => rounded d

def toDouble : Decimal → Except Signal Double
  | .finite negative c e =>
    if c = 0 ∨ adjusted c e < -400 then .ok (Double.zero negative)
    else if adjusted c e > 400 then .ok (Double.infinity negative)
    else .ok (Double.nearest negative (c * tenTo e.toNat) (tenTo (-e).toNat))
  | .infinite negative => .ok (Double.infinity negative)
  | .nan _ true _ => .error .invalid
  | .nan _ false _ => .ok Double.nan

def quantity : Decimal → Quantity
  | .finite negative c e =>
    if c = 0 then .exact 0
    else if (adjusted c e).natAbs ≤ 400 then
      .exact (mkRat (Double.signed negative (c * tenTo e.toNat)) (tenTo (-e).toNat))
    else .scaled (Double.signed negative c) e
  | .infinite true => .negativeInfinity
  | .infinite false => .positiveInfinity
  | .nan _ _ _ => .undefined

def minus (negative : Bool) : String := if negative then "-" else ""

/-- The digits with their point: as they stand while the exponent is not positive and at most six
zeros follow the point, and with an exponent otherwise. -/
def finiteText (coefficient : Nat) (exponent : Int) : String :=
  let ds := (toString coefficient).toList
  let n : Int := ds.length
  let left := exponent + n
  let point := if exponent ≤ 0 ∧ left > -6 then left else 1
  let zeros (k : Int) := String.ofList (List.replicate k.toNat '0')
  let mantissa :=
    if point ≤ 0 then "0." ++ zeros (-point) ++ String.ofList ds
    else if n ≤ point then String.ofList ds ++ zeros (point - n)
    else String.ofList (ds.take point.toNat) ++ "." ++ String.ofList (ds.drop point.toNat)
  let power := left - point
  if power = 0 then mantissa
  else mantissa ++ "E" ++ (if power < 0 then "-" else "+") ++ toString power.natAbs

def text : Decimal → Text
  | .finite negative c e => Text.ofString (minus negative ++ finiteText c e)
  | .infinite negative => Text.ofString (minus negative ++ "Infinity")
  | .nan negative signalling payload =>
    Text.ofString (minus negative ++ (if signalling then "sNaN" else "NaN") ++
      (if payload = 0 then "" else toString payload))

end Decimal
end RecordStore

/-!
## Sums of decimals

Decimals are added with all their digits, and the sum is rounded to 28 of them. Of a summand that is
too small to show among the digits of the other only the sign counts, so that no power of ten grows
with the distance of the exponents.
-/

namespace RecordStore
namespace Decimal

def align (c : Nat) (e : Int) (d : Nat) (f : Int) : Nat × Nat × Int :=
  let least := e + min (-1) ((digitCount c : Int) - precision - 2)
  let (d, f) := if adjusted d f < least then (1, least) else (d, f)
  (c * tenTo (e - f).toNat, d, f)

def besideZero (negative : Bool) (c : Nat) (e f : Int) : Decimal :=
  let exponent := max (min e f) (e - precision - 1)
  .finite negative (c * tenTo (e - exponent).toNat) exponent

/-- The sum of finite decimals before it is rounded. A sum of opposites is a zero without a sign. -/
def exactSum (s : Bool) (c : Nat) (e : Int) (t : Bool) (d : Nat) (f : Int) : Decimal :=
  if c = 0 ∧ d = 0 then .finite (s && t) 0 (min e f)
  else if c = 0 then besideZero t d f e
  else if d = 0 then besideZero s c e f
  else
    let (c, d, exponent) : Nat × Nat × Int :=
      if f ≤ e then align c e d f
      else
        let (d, c, exponent) := align d f c e
        (c, d, exponent)
    let sum := Double.signed s c + Double.signed t d
    if sum = 0 then .finite false 0 (min e f) else .finite (sum < 0) sum.natAbs exponent

def add (x y : Decimal) : Except Signal Decimal :=
  match x, y with
  | .nan _ true _, _ | _, .nan _ true _ => .error .invalid
  | .nan s false payload, _ => rounded (.nan s false payload)
  | _, .nan s false payload => rounded (.nan s false payload)
  | .infinite s, .infinite t => if s = t then .ok (.infinite s) else .error .invalid
  | .infinite s, .finite _ _ _ | .finite _ _ _, .infinite s => .ok (.infinite s)
  | .finite s c e, .finite t d f => rounded (exactSum s c e t d f)

def opposite : Decimal → Decimal
  | .finite s c e => .finite (!s) c e
  | .infinite s => .infinite (!s)
  | .nan s signalling payload => .nan (!s) signalling payload

def subtract (x y : Decimal) : Except Signal Decimal :=
  match y with
  | .nan _ _ _ => add x y
  | y => add x y.opposite

end Decimal
end RecordStore
