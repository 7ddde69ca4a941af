import RecordStore.Value.Heap
import RecordStore.Fault
import RecordStore.Key.Basic

/-!
# Equal values

Numbers and flags are equal when they are the same quantity, bytes in both forms when they are the
same bytes, sets when they hold the same items. A NaN equals no number but itself. Objects are equal
when they are of one class and have equal fields; all their fields are asked for, and one that is
not set is a fault. A key that is an object equals keys with the same parts.
-/

set_option autoImplicit false

namespace RecordStore
namespace Value

def quantity? : Value → Option (Except Fault Quantity)
  | .flag b => some (.ok (.exact (Identity.ofFlag b)))
  | .integer n => some (.ok (.exact n))
  | .real x => some (.ok x.quantity)
  | .decimal (.nan _ true _) => some (.error (.misuse .decimalInvalid))
  | .decimal d => some (.ok d.quantity)
  | _ => none

def content? : Value → Option Bytes
  | .bytes bs | .byteArray bs => some bs
  | _ => none

def isOneNaN : Value → Value → Bool
  | .real x, .real y => x.isOneNaN y
  | _, _ => false

def sameAtom (a b : Value) : Except Fault Bool :=
  match a.quantity?, b.quantity? with
  | some p, some q => do
    let x ← p
    let y ← q
    return x.compare? y == some .eq || isOneNaN a b
  | _, _ =>
    match a.content?, b.content? with
    | some x, some y => .ok (x == y)
    | _, _ => .ok <|
      match a, b with
      | .null, .null => true
      | .text s, .text t => s = t
      | .blob x, .blob y => x == y
      | .moment m, .moment n => m.same n
      | .date d, .date e => d = e
      | .key k, .key l => k.same l
      | .choice type member _, .choice type' member' _ => type = type' && member = member'
      | _, _ => false

mutual

def sameWith (objects : ObjectId → Value → Except Fault Bool) : Value → Value → Except Fault Bool
  | .collection c items, b =>
    match b with
    | .collection d others =>
      if c.isOrdered || d.isOrdered then
        if c = d then sameItems objects items others else .ok false
      else if items.length = others.length then withinItems objects items others
      else .ok false
    | _ => .ok false
  | .object i, b => objects i b
  | a, b =>
    match b with
    | .object j => objects j a
    | b => sameAtom a b

def sameItems (objects : ObjectId → Value → Except Fault Bool) :
    List Value → List Value → Except Fault Bool
  | [], [] => .ok true
  | a :: as, b :: bs => do
    if ← sameWith objects a b then sameItems objects as bs else return false
  | _, _ => .ok false

def withinItems (objects : ObjectId → Value → Except Fault Bool) :
    List Value → List Value → Except Fault Bool
  | [], _ => .ok true
  | a :: as, others => do
    if ← containedWith objects a others then withinItems objects as others else return false

def containedWith (objects : ObjectId → Value → Except Fault Bool) (a : Value) :
    List Value → Except Fault Bool
  | [] => .ok false
  | b :: bs => do
    if ← sameWith objects a b then return true else containedWith objects a bs

end

end Value

namespace Heap

def fieldValues (o : Object) : Except Fault (List Value) :=
  o.shape.fields.mapM fun f => o.value f.1

def sameObject (h : Heap) : (depth : Nat) → ObjectId → Value → Except Fault Bool
  | 0, _, _ => .error (.misuse .endless)
  | depth + 1, i, .object j =>
    if i = j then .ok true
    else
      let o := h.object i
      let p := h.object j
      if o.shape.name = p.shape.name then do
        let values ← fieldValues o
        let others ← fieldValues p
        Value.sameItems (h.sameObject depth) values others
      else .ok false
  | depth + 1, i, .key k =>
    let o := h.object i
    if o.isKey then do
      let values ← fieldValues o
      Value.sameItems (h.sameObject depth) values
        [.text k.kind, .ofIdentity k.id, .ofKey? k.parent?]
    else .ok false
  | _, _, _ => .ok false

/-- Whether two values are equal. Two chains of objects that can be followed in step for longer than
there are pairs of objects can be followed without end. -/
def same (h : Heap) (a b : Value) : Except Fault Bool :=
  Value.sameWith (h.sameObject (h.size * h.size + 1)) a b

end Heap
end RecordStore

/-!
## Comparing values

Values of one type can be compared: numbers as quantities, texts and bytes item by item, times in
their order, lists and tuples by their first items that differ, and sets by what they hold. Numbers
and flags count as one type, and so do bytes in both forms. Any two values are equal or not.
-/

namespace RecordStore
namespace Heap

variable (h : Heap)

def isDecimal : Value → Bool
  | .decimal _ => true
  | _ => false

/-- How values that hold no others compare; none if they are in no order. A decimal is in an order
with every number, or else cannot be compared. -/
def compareAtom (a b : Value) : Except Fault (Option Ordering) :=
  match a.quantity?, b.quantity? with
  | some p, some q => do
    match (← p).compare? (← q) with
    | some o => return some o
    | none => if isDecimal a || isDecimal b then .error (.misuse .decimalInvalid) else return none
  | _, _ =>
    match a.content?, b.content? with
    | some x, some y => .ok (some (Bytes.order x y))
    | _, _ =>
      match a, b with
      | .text s, .text t => .ok (some (s.order t))
      | .blob x, .blob y => .ok (some (Bytes.order x y))
      | .date d, .date e => .ok (some (compare d.dayNumber e.dayNumber))
      | .moment m, .moment n =>
        match m.order? n with
        | some o => .ok (some o)
        | none => .error (.misuse .type)
      | _, _ => .error (.misuse .type)

/-- Whether a comparison of two keys holds. Keys that differ but are of one rank come neither before
nor at each other, and so each of them comes after the other. -/
def keysHold (c : Comparator) (k l : Key) : Bool :=
  match c with
  | .equal => k.same l
  | .less => k.precedes l
  | .lessOrEqual => k.precedes l || k.same l
  | .greater => !k.precedes l && !k.same l
  | .greaterOrEqual => !k.precedes l

def atomsHold (c : Comparator) : Value → Value → Except Fault Bool
  | .key k, .key l => .ok (keysHold c k l)
  | a, b => (compareAtom a b).map c.holds

/-- Whether a comparison of sets, which hold no objects, holds: a set comes before the sets that
hold more. -/
def setsHold (c : Comparator) (xs ys : List Value) : Except Fault Bool := do
  let within ← Value.withinItems (fun _ _ => .ok false) xs ys
  let covers ← Value.withinItems (fun _ _ => .ok false) ys xs
  return c.holds (
    match within, covers with
    | true, true => some .eq
    | true, false => some .lt
    | false, true => some .gt
    | false, false => none)

mutual

def inOrder (c : Comparator) : Value → Value → Except Fault Bool
  | .collection k items, b =>
    match b with
    | .collection l others =>
      if k.isOrdered && l.isOrdered then
        if k = l then itemsInOrder c items others else .error (.misuse .type)
      else if k.isOrdered || l.isOrdered then .error (.misuse .type)
      else setsHold c items others
    | _ => .error (.misuse .type)
  | a, b => atomsHold c a b

def itemsInOrder (c : Comparator) : List Value → List Value → Except Fault Bool
  | [], [] => .ok (c.holds (some .eq))
  | [], _ :: _ => .ok (c.holds (some .lt))
  | _ :: _, [] => .ok (c.holds (some .gt))
  | a :: as, b :: bs => do
    if ← h.same a b then itemsInOrder c as bs else inOrder c a b

end

def holds (c : Comparator) (a b : Value) : Except Fault Bool :=
  match c with
  | .equal => h.same a b
  | c => h.inOrder c a b

end Heap
end RecordStore
