import RecordStore.Fault
import RecordStore.Key.Basic
import RecordStore.Number.Shortest
import RecordStore.Number.Decimal
import RecordStore.Value.Heap

/-!
# Bounds

Ranges and windows are given by bounds, which are numbers of any type. Whole numbers and flags make
whole numbers, and with a double they make a double if they are in its range; decimals and doubles
do not go together. What is no number can be a bound, too, but nothing can be done with it.
-/

set_option autoImplicit false

namespace RecordStore

inductive Bound where
  | integer (n : Int)
  | flag (b : Bool)
  | real (x : Double)
  | decimal (d : Decimal)
  /-- No number, by the text that it is in messages. -/
  | other (shown : Except Fault Text)

def Decimal.Signal.misuse : Decimal.Signal → Misuse
  | .invalid => .decimalInvalid
  | .overflow => .decimalOverflow

namespace Bound

instance (n : Nat) : OfNat Bound n := ⟨.integer n⟩

def ofValue (h : Heap) : Value → Bound
  | .integer n => .integer n
  | .flag b => .flag b
  | .real x => .real x
  | .decimal d => .decimal d
  | v => .other (h.plain v)

def position? : Bound → Option Int
  | .integer n => some n
  | .flag b => some (Identity.ofFlag b)
  | _ => none

def position (b : Bound) : Except Fault Int := b.position?.elim (.error (.misuse .type)) .ok

def text : Bound → Except Fault Text
  | .integer n => Text.numeral n
  | .flag b => .ok (if b then "True" else "False")
  | .real x => .ok x.text
  | .decimal d => .ok d.text
  | .other shown => shown

def quantity? : Bound → Option Quantity
  | .integer n => some (.exact n)
  | .flag b => some (.exact (Identity.ofFlag b))
  | .real x => some x.quantity
  | .decimal d => some d.quantity
  | .other _ => none

def isDecimal : Bound → Bool
  | .decimal _ => true
  | _ => false

/-- Whether a number comes before another. A decimal that is no number cannot be asked. -/
def isBelow (a b : Bound) : Except Fault Bool :=
  match a.quantity?, b.quantity? with
  | some p, some q =>
    match p.compare? q with
    | some o => .ok (o = .lt)
    | none =>
      if a.isDecimal || b.isDecimal then .error (.misuse .decimalInvalid) else .ok false
  | _, _ => .error (.misuse .type)

def isAtMost (a b : Bound) : Except Fault Bool := do
  if ← a.isBelow b then return true
  else return (a.quantity?.bind fun p => b.quantity?.bind p.compare?) = some .eq

def whole? (b : Bound) : Option Int :=
  match b.quantity? with
  | some (.exact q) => if q.den = 1 then some q.num else none
  | _ => none

def isZero (b : Bound) : Bool := b.quantity?.any fun q => q.compare? (.exact 0) = some .eq

def equalsZero : Bound → Except Fault Bool
  | .decimal (.nan _ true _) => .error (.misuse .decimalInvalid)
  | b => .ok b.isZero

def least (a b : Bound) : Except Fault Bound := do
  if ← b.isBelow a then return b else return a

def toDouble : Bound → Except Fault Double
  | .real x => .ok x
  | b =>
    match b.position? with
    | none => .error (.misuse .type)
    | some n =>
      let x := Double.ofQuantity (.exact n)
      if x.isInfinite then .error (.misuse .overflow) else .ok x

def toDecimal : Bound → Except Fault Decimal
  | .decimal d => .ok d
  | b =>
    match b.position? with
    | none => .error (.misuse .type)
    | some n => .ok (.finite (n < 0) n.natAbs 0)

def combine (whole : Int → Int → Int) (decimal : Decimal → Decimal → Except Decimal.Signal Decimal)
    (real : Double → Double → Double) (a b : Bound) : Except Fault Bound :=
  match a.position?, b.position? with
  | some m, some n => .ok (.integer (whole m n))
  | _, _ =>
    if a.isDecimal || b.isDecimal then do
      let d := decimal (← a.toDecimal) (← b.toDecimal)
      (d.map .decimal).mapError (fun s => .misuse s.misuse)
    else do
      let x ← a.toDouble
      return .real (real x (← b.toDouble))

def add : Bound → Bound → Except Fault Bound := combine (· + ·) Decimal.add Double.add

def subtract : Bound → Bound → Except Fault Bound :=
  combine (· - ·) Decimal.subtract (fun x y => x.add y.negate)

def unlessZero (b : Bound) : Bound := if b.isZero then 0 else b

end Bound
end RecordStore

/-!
## Windows

A range gives the position of the first row and the position behind the last. The store takes an
offset and a limit instead, neither above the largest number it can take. Only whole numbers and
flags are positions; that other bounds are none comes out where rows are counted by them.
-/

namespace RecordStore

structure Window where
  offset : Option Bound
  limit : Option Bound

namespace Window

def all : Window := ⟨none, none⟩

def isTrivial (w : Window) : Bool := w.offset.isNone && w.limit.isNone

def start (w : Window) : Bound := (w.offset.getD 0).unlessZero

def stop (w : Window) : Except Fault (Option Bound) := w.limit.mapM w.start.add

end Window

structure Range where
  first : Option Bound
  stop : Option Bound

namespace Range

def isEmpty (r : Range) : Except Fault Bool := do
  match r.first, r.stop with
  | _, none => return false
  | none, some b => b.equalsZero
  | some a, some b =>
    if ← b.equalsZero then return true
    else
      let rest ← b.subtract a
      return rest.isZero || (← rest.isBelow 0)

def isNegative : Option Bound → Except Fault Bool
  | none => .ok false
  | some b => b.isBelow 0

def boundText (b : Option Bound) : Except Fault Text :=
  match b with
  | none => .ok "None"
  | some b => b.text

def refuse (r : Range) (query : Option Text) : Except Fault Unit := do
  let start ← boundText r.first
  let stop ← boundText r.stop
  .error (.invalid (.negativeRange start stop) query)

/-- The window of a range. With an offset the limit is what is left of the range behind it. The
largest number is only asked for where there is a bound. -/
def window (r : Range) (largest : Bound) (query : Option Text) : Except Fault Window := do
  if ← isNegative r.first then r.refuse query
  if ← isNegative r.stop then r.refuse query
  let offset ← (r.first.filter (!·.isZero)).mapM largest.least
  let limit ← r.stop.mapM fun b => do
    let last ← largest.least b
    match offset with
    | none => return last
    | some a => last.subtract a
  return ⟨offset, limit⟩

end Range
end RecordStore

/-!
## Slices

A slice picks positions of a list from a start to before a stop, a step apart. Positions below zero
count from the end, and what lies outside the list is cut off. Bounds that are no positions make no
slice.
-/

namespace RecordStore

structure Slice where
  start : Option Bound
  stop : Option Bound
  step : Option Bound

namespace Slice

def bound (n least greatest : Int) (i : Int) : Int :=
  if i < 0 then max (i + n) least else min i greatest

def steps (first last step : Int) : Nat :=
  if 0 < step then ((last - first + step - 1) / step).toNat
  else ((first - last - step - 1) / (-step)).toNat

def part (b : Option Bound) : Except Fault (Option Int) :=
  b.mapM fun b => (b.position?.map .ok).getD (.error (.misuse .type))

def positions (s : Slice) (n : Nat) : Except Fault (List Nat) := do
  let step := (← part s.step).getD 1
  if step = 0 then throw (.misuse (.number "slice step cannot be zero"))
  let (least, greatest) : Int × Int := if 0 < step then (0, n) else (-1, n - 1)
  let first := ((← part s.start).map (bound n least greatest)).getD
    (if 0 < step then least else greatest)
  let last := ((← part s.stop).map (bound n least greatest)).getD
    (if 0 < step then greatest else least)
  return (List.range (steps first last step)).map (fun (k : Nat) => (first + k * step).toNat)

def apply {α : Type} (s : Slice) (items : List α) : Except Fault (List α) := do
  let ps ← s.positions items.length
  return ps.filterMap (fun p => items[p]?)

end Slice
end RecordStore
