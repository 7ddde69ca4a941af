import RecordStore.Number.Double
import RecordStore.Value.Comparison

/-!
# Residues of values

Equal values have equal residues. Those of numbers, of moments with an offset, of the empty text and
the empty bytes, and of tuples, sets and blobs of such are the same from run to run; other values
have none here. Residues of collections are worked out in words of 64 bits.
-/

set_option autoImplicit false

namespace RecordStore
namespace Residue

def bits (r : Int) : UInt64 := UInt64.ofInt r

def ofBits (w other : UInt64) : Int :=
  let r := if w + 1 = 0 then other else w
  if r.toNat < twoTo 63 then r.toNat else r.toNat - twoTo 64

def follow (w : UInt64) (r : Int) : UInt64 :=
  let v := w + bits r * 14029467366897019727
  ((v <<< 31) ||| (v >>> 33)) * 11400714785074694791

def ofSequence (rs : List Int) : Int :=
  let start : UInt64 := 2870177450012600261
  let length := UInt64.ofNat rs.length ^^^ start ^^^ (3527539 : UInt64)
  ofBits (rs.foldl follow start + length) 1546275796

def shuffle (w : UInt64) : UInt64 := (w ^^^ (89869747 : UInt64) ^^^ (w <<< 16)) * 3644798167

def ofSet (rs : List Int) : Int :=
  let w := rs.foldl (fun w r => w ^^^ shuffle (bits r)) 0
  let w := w ^^^ (UInt64.ofNat (rs.length + 1) * 1927868237)
  let w := w ^^^ ((w >>> 11) ^^^ (w >>> 25))
  ofBits (w * 69069 + 907133923) 590923713

end Residue

/-- The residue of an instant: that of its days, seconds and microseconds. A time that the clock
shows twice counts as it was shown first, and one without an offset has no residue. -/
def Moment.residue? (m : Moment) : Option Int :=
  (if m.fold then m.refolded else m.offset).map fun offset =>
    let instant := m.localTime - offset
    let rest := instant % dayLength
    Residue.ofSequence
      ([instant / dayLength, rest / 1000000, rest % 1000000].map Residue.ofInt)

namespace Value

mutual

def residue? : Value → Option Int
  | .collection c items => do
    let rs ← residues? items
    return if c.isOrdered then Residue.ofSequence rs else Residue.ofSet rs
  | .text t => if t.isEmpty then some 0 else none
  | .bytes bs => if bs.isEmpty then some 0 else none
  | .blob bs => if bs.isEmpty then some (Residue.ofSequence [0]) else none
  | .moment m => m.residue?
  | v =>
    match v.quantity? with
    | some (.ok q) => q.residue?
    | _ => none

def residues? : List Value → Option (List Int)
  | [] => some []
  | v :: vs => do
    let r ← residue? v
    return r :: (← residues? vs)

end

end Value
end RecordStore

/-!
## The order of the items of a set

A set keeps its items in a table of slots and lists them slot by slot. Every item has a first slot
by its residue; where that slot is taken, it goes on to others. The table starts with eight slots
and grows when three fifths of it are taken. A set with an item whose residue is not the same from
run to run lists its items in the order in which they came.
-/

namespace RecordStore
namespace Slots

variable {α : Type}

structure Table (α : Type) where
  size : Nat
  slots : List (Nat × Int × α)

/-- The first free slot from one on: the slots next to it come first, if the table does not end
before, and then those that the rest of the residue leads to. -/
def freeSlot (size : Nat) (isTaken : Nat → Bool) : (steps : Nat) → (slot rest : Nat) → Nat
  | 0, slot, _ => slot
  | steps + 1, slot, rest =>
    let near := if slot + 9 < size then List.range' slot 10 else [slot]
    match near.find? (fun s => !isTaken s) with
    | some s => s
    | none => freeSlot size isTaken steps ((slot * 5 + 1 + rest / 32) % size) (rest / 32)

namespace Table

/-- Puts an item into a slot. Without its remaining bits a residue leads through all slots in turn,
and fourteen steps use up the bits. -/
def place (t : Table α) (item : Int × α) : Table α :=
  let bits := (item.1 % (twoTo 64 : Int)).toNat
  let isTaken (slot : Nat) : Bool := t.slots.any (·.1 == slot)
  let slot := freeSlot t.size isTaken (t.size + 14) (bits % t.size) bits
  { t with slots := t.slots ++ [(slot, item)] }

def items (t : Table α) : List (Int × α) :=
  (t.slots.mergeSort (fun a b => a.1 ≤ b.1)).map (·.2)

/-- The number of slots for so many items: four times as many, or twice as many for long tables, and
at least eight. -/
def roomFor (count : Nat) : Nat :=
  let least := if count > 50000 then count * 2 else count * 4
  max 8 (twoTo (least.log2 + 1))

def insert (t : Table α) (item : Int × α) : Table α :=
  let t := t.place item
  let count := t.slots.length
  if count * 5 < (t.size - 1) * 3 then t else t.items.foldl place ⟨roomFor count, []⟩

end Table

def arrange (residue? : α → Option Int) (items : List α) : List α :=
  match items.mapM (fun a => (residue? a).map (·, a)) with
  | some keyed => (keyed.foldl Table.insert ⟨8, []⟩).items.map (·.2)
  | none => items

end Slots

end RecordStore

/-!
## Collecting values

Any values make a list or a tuple. A set takes no value that can change, which lists, sets, byte
arrays and objects do, and no tuple with such a value in it. Of equal values a set keeps the first,
and it has an order of its own.
-/

namespace RecordStore
namespace Heap

variable (h : Heap)

def unfit (v : Value) : Except Fault Unit :=
  .error (.misuse (.item ("unhashable type: '" ++ h.typeName v ++ "'")))

mutual

def checkItem : Value → Except Fault Unit
  | .collection .frozenSet _ => .ok ()
  | .collection .tuple items => checkItems items
  | .decimal (.nan _ true _) => .error (.misuse (.item "Cannot hash a signaling NaN value"))
  | .collection .list items => h.unfit (.collection .list items)
  | .collection .set items => h.unfit (.collection .set items)
  | .byteArray bs => h.unfit (.byteArray bs)
  | .object i => h.unfit (.object i)
  | _ => .ok ()

def checkItems : List Value → Except Fault Unit
  | [] => .ok ()
  | v :: vs => do
    checkItem v
    checkItems vs

end

def addItem (kept : List Value) (v : Value) : Except Fault (List Value) := do
  h.checkItem v
  if ← Value.containedWith (fun _ _ => .ok false) v kept then return kept else return kept ++ [v]

def collect (c : Collection) (items : List Value) : Except Fault Value := do
  if c.isOrdered then return .collection c items
  else return .collection c (Slots.arrange Value.residue? (← items.foldlM h.addItem []))

end Heap
end RecordStore
