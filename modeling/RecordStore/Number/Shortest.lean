import RecordStore.Number.Double

/-!
# Shortest decimals

A double is written with the fewest digits that read back as the same double; of two such decimals
with as few digits, with the nearer one. Small and large numbers get an exponent.
-/

set_option autoImplicit false

namespace RecordStore
namespace Shortest

/-- A positive fraction and the widths of the interval around it that rounds to the same double,
all over one denominator. -/
structure Interval where
  value : Nat
  below : Nat
  above : Nat
  denominator : Nat
  /-- Whether the ends of the interval round to the double as well. -/
  closed : Bool

/-- The interval of a mantissa and a scale. Below a power of two the doubles lie twice as dense. -/
def Interval.ofParts (mantissa : Nat) (scale : Int) : Interval :=
  let step := twoTo scale.toNat
  let dense := mantissa == twoTo 52 && scale > -1074
  { value := 4 * mantissa * step
    below := if dense then step else 2 * step
    above := 2 * step
    denominator := 4 * twoTo (-scale).toNat
    closed := mantissa % 2 == 0 }

/-- A decimal: `digits` times ten to the `exponent`. -/
structure Candidate where
  digits : Nat
  exponent : Int

def Candidate.fraction (c : Candidate) : Nat × Nat :=
  (c.digits * tenTo c.exponent.toNat, tenTo (-c.exponent).toNat)

def Candidate.distance (i : Interval) (c : Candidate) : Nat × Bool :=
  let (n, d) := c.fraction
  let x := n * i.denominator
  let y := i.value * d
  if x ≤ y then (y - x, true) else (x - y, false)

def Candidate.readsBack (i : Interval) (c : Candidate) : Bool :=
  let (gap, isBelow) := c.distance i
  let width := (if isBelow then i.below else i.above) * c.fraction.2
  if i.closed then gap ≤ width else gap < width

/-- The decimal exponent of a positive fraction: ten to it is at most the fraction, and ten to the
next is not. -/
def decimalExponent (num den : Nat) : Int :=
  let atLeast (e : Int) : Bool := den * tenTo e.toNat ≤ num * tenTo (-e).toNat
  let guess : Int := ((num.log2 : Int) - den.log2) * 30103 / 100000
  if !atLeast guess then (if atLeast (guess - 1) then guess - 1 else guess - 2)
  else if atLeast (guess + 1) then guess + 1
  else guess

def neighbours (i : Interval) (places : Int) : Candidate × Candidate :=
  let e := decimalExponent i.value i.denominator + 1 - places
  let floor := i.value * tenTo (-e).toNat / (i.denominator * tenTo e.toNat)
  (⟨floor, e⟩, ⟨floor + 1, e⟩)

/-- The better of two neighbours, if one reads back: the nearer, and in a tie the even one. -/
def choose (i : Interval) (low high : Candidate) : Option Candidate :=
  match low.readsBack i, high.readsBack i with
  | false, false => none
  | true, false => some low
  | false, true => some high
  | true, true =>
    let a := (low.distance i).1
    let b := (high.distance i).1
    if a < b then some low else if b < a then some high
    else some (if low.digits % 2 = 0 then low else high)

def search (i : Interval) : (tries : Nat) → (places : Nat) → Candidate
  | 0, places => (neighbours i places).1
  | tries + 1, places =>
    let (low, high) := neighbours i places
    match choose i low high with
    | some c => c
    | none => search i tries (places + 1)

/-- A decimal with ten for its digits is written with one digit. No other decimal that is found
ends in a zero, because the one without the zero is tried before it. -/
def Candidate.trim (c : Candidate) : Candidate :=
  if c.digits = 10 then ⟨1, c.exponent + 1⟩ else c

def ofParts (mantissa : Nat) (scale : Int) : Candidate :=
  (search (.ofParts mantissa scale) 17 1).trim

def zeros (n : Nat) : String := String.ofList (List.replicate n '0')

def positional (digits : String) (point : Int) : String :=
  let n : Int := digits.length
  if point ≤ 0 then "0." ++ zeros (-point).toNat ++ digits
  else if n ≤ point then digits ++ zeros (point - n).toNat ++ ".0"
  else String.ofList (digits.toList.take point.toNat) ++ "." ++
    String.ofList (digits.toList.drop point.toNat)

def scientific (digits : String) (exponent : Int) : String :=
  let sign := if exponent < 0 then "-" else "+"
  let size := toString exponent.natAbs
  let fraction := String.ofList (digits.toList.drop 1)
  String.ofList (digits.toList.take 1) ++ (if fraction.isEmpty then "" else "." ++ fraction) ++
    "e" ++ sign ++ (if size.length < 2 then "0" ++ size else size)

def Candidate.text (c : Candidate) : String :=
  let digits := toString c.digits
  let point := c.exponent + digits.length
  if -4 < point ∧ point ≤ 16 then positional digits point else scientific digits (point - 1)

end Shortest

def Double.text (x : Double) : Text :=
  let minus (negative : Bool) : String := if negative then "-" else ""
  match x.parts with
  | .nan => "nan"
  | .infinite negative => Text.ofString (minus negative ++ "inf")
  | .finite negative 0 _ => Text.ofString (minus negative ++ "0.0")
  | .finite negative m scale => Text.ofString (minus negative ++ (Shortest.ofParts m scale).text)

end RecordStore
