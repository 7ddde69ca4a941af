import RecordStore.Value.Heap
import RecordStore.Key.Basic
import RecordStore.Query.Operator
import RecordStore.Sorting

/-!
# The order of stored values

Values of different types are ordered by type: null, flags, numbers, texts, binary data, keys,
times, and all others by the way they are shown. Within a type values have their own order; only a
number that is not a number is in no order with other numbers, and a time with an offset in none
with a time without.
-/

set_option autoImplicit false

namespace RecordStore

inductive Standing where
  | null
  | flag (b : Bool)
  | number (q : Quantity)
  | text (t : Text)
  | binary (bs : Bytes)
  | key (r : Rank)
  | time (m : Moment)
  /-- By the text that shows the value, which fails if the value cannot be shown. -/
  | other (shown : Except Fault Text)

namespace Standing

def tier : Standing → Nat
  | .null => 0
  | .flag _ => 1
  | .number _ => 2
  | .text _ => 3
  | .binary _ => 4
  | .key _ => 5
  | .time _ => 6
  | .other _ => 7

def compare? : Standing → Standing → Option Ordering
  | .null, .null => some .eq
  | .flag a, .flag b => some (compare a b)
  | .number a, .number b => a.compare? b
  | .text a, .text b => some (a.order b)
  | .binary a, .binary b => some (a.order b)
  | .key a, .key b => some (Key.orderRank a b)
  | .time a, .time b => a.order? b
  | .other (.ok a), .other (.ok b) => some (a.order b)
  | .other _, .other _ => none
  | a, b => some (compare a.tier b.tier)

/-- Whether a comparison holds. Of times that are neither before nor after each other not all are
equal. -/
def holds (c : Comparator) (a b : Standing) : Bool :=
  match c, a, b with
  | .equal, .time m, .time n => m.same n
  | c, a, b => c.holds (a.compare? b)

def precedes (a b : Standing) : Bool := Comparator.less.holds (a.compare? b)

def fault? : Standing → Option Fault
  | .other (.error f) => some f
  | _ => none

def clash? : Standing → Standing → Option Fault
  | .time a, .time b => if (a.order? b).isSome then none else some (.misuse .type)
  | _, _ => none

def ofValue (shown : Value → Except Fault Text) : Value → Standing
  | .null => .null
  | .flag b => .flag b
  | .integer n => .number (.exact n)
  | .real x => .number x.quantity
  | .text t => .text t
  | .blob bs | .bytes bs | .byteArray bs => .binary bs
  | .key k => .key k.rank
  | .moment m => .time m.anchored
  | .date d => .time d.midnight.anchored
  | v => .other (shown v)

def least (s : Standing) (rest : List Standing) : Standing :=
  rest.foldl (fun m x => if x.precedes m then x else m) s

def greatest (s : Standing) (rest : List Standing) : Standing :=
  rest.foldl (fun m x => if m.precedes x then x else m) s

/-- The standing that counts among several: the least going up, and the greatest going down. -/
def extreme (direction : Direction) (s : Standing) (rest : List Standing) : Standing :=
  match direction with
  | .ascending => s.least rest
  | .descending => s.greatest rest

def extremeClash? (direction : Direction) : Standing → List Standing → Option Fault
  | _, [] => none
  | s, x :: rest => (x.clash? s).or (extremeClash? direction (extreme direction s [x]) rest)

def clashAmong? : List Standing → Option Fault
  | [] => none
  | s :: rest => (rest.findSome? s.clash?).or (clashAmong? rest)

def mayPrecede (direction : Direction) (a b : Standing) : Bool :=
  match direction with
  | .ascending => !b.precedes a
  | .descending => !a.precedes b

/-- Whether the order leaves nothing open about an item. Times of zones that vary can come before
each other in a circle. -/
def isOrdered : Standing → Bool
  | .number q => (q.compare? q).isSome
  | .time m => m.zone.any Zone.isFixed
  | .other (.error _) => false
  | _ => true

end Standing

/-- Sorted by where the items stand; items of the same standing stay in the order they had. Where
some stand in no order, the items go in one after the other. -/
def sortByStanding {α : Type} (direction : Direction) (standing : α → Standing) (items : List α) :
    List α :=
  if items.all (fun a => (standing a).isOrdered) then
    items.mergeSort (fun a b => (standing a).mayPrecede direction (standing b))
  else
    let sort := Sorting.sort (fun a b => (standing a).precedes (standing b))
    match direction with
    | .ascending => sort items
    | .descending => (sort items.reverse).reverse

end RecordStore
