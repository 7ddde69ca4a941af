import RecordStore.Schema
import RecordStore.Store.Basic
import RecordStore.Value.Attribute
import RecordStore.Value.Stored

/-!
# Saving objects

An object is stored under the key that its primary key gives, below the parent that its parent
member, or an object that it refers to, gives. The parts of embedded objects are stored beside the
other properties; where two members have one property, the later one counts.
-/

set_option autoImplicit false

namespace RecordStore

namespace Heap

variable (h : Heap) (registry : Registry)

def valueUnder (name : Text) (v : Value) : Value := (h.attribute? name v).getD .null

def parentIn? : Value → Option (Except Fault Key)
  | .key k => some (.ok k)
  | .text t => some (Key.ofToken t)
  | _ => none

def parentValues (keyOf : ClassMapping → Value → Except Fault Value) (v : Value) :
    List Member → Except Fault (List Value)
  | [] => .ok []
  | m :: rest =>
    match m.traits.related, m.traits.providesParent with
    | some className, true => do
      let first ← match h.valueUnder m.name v with
        | .null => pure .null
        | .key k => pure (.key k)
        | .text t => pure (.text t)
        | w => do keyOf (← registry.require className) w
      return first :: (← parentValues keyOf v rest)
    | _, _ => parentValues keyOf v rest

/-- The key of the parent of an object: the parent member is asked first, and then the objects it
refers to. -/
def parentWith (keyOf : ClassMapping → Value → Except Fault Value) (mapping : ClassMapping)
    (v : Value) : Except Fault (Option Key) := do
  let own : List Value :=
    match mapping.parent? with
    | none => []
    | some m => [h.valueUnder m.name v]
  let given ← h.parentValues registry keyOf v mapping.members
  match (own ++ given).findSome? parentIn? with
  | none => return none
  | some found => found.map some

/-- The key under which an object is stored, or null if its primary key is not set. It can depend
on the keys of objects above it, as far as `depth` goes. -/
def keyAt : (depth : Nat) → ClassMapping → Value → Except Fault Value
  | 0, _, _ => .error (.misuse .endless)
  | depth + 1, mapping, v =>
    match mapping.primary? with
    | none => .ok .null
    | some m =>
      match h.valueUnder m.name v, m.traits.isEncoded with
      | .null, _ => .ok .null
      | .key k, _ => .ok (.key k)
      | .text t, true => (Key.ofToken t).map .key
      | w, _ => do
        let parent ← h.parentWith registry (keyAt depth) mapping v
        let k ← Key.make h parent mapping.kind w
        return .key k

def maxDepth : Nat := h.size * registry.mappings.length + 1

def parentOf (mapping : ClassMapping) (v : Value) : Except Fault (Option Key) :=
  h.parentWith registry (h.keyAt registry (h.maxDepth registry)) mapping v

mutual

def partProperties (v : Value) : Member → Except Fault (List (Text × Value))
  | .plain t => do return [((Member.plain t).property, ← v.stored)]
  | .embedded _ parts => allParts v parts

def allParts (v : Value) : List Member → Except Fault (List (Text × Value))
  | [] => .ok []
  | m :: rest => do
    let first ← partProperties (h.valueUnder m.name v) m
    return first ++ (← allParts v rest)

end

def isStored (m : Member) : Bool :=
  !m.traits.isPrimary && !m.traits.isParent && m.traits.related.isNone

def propertiesOf (mapping : ClassMapping) (v : Value) : Except Fault (List (Text × Value)) := do
  return byName (← h.allParts v (mapping.members.filter isStored))

end Heap

inductive Numbering where
  | fromStore
  | leftOpen
  deriving DecidableEq

def recordKey (h : Heap) (registry : Registry) (mapping : ClassMapping) (v : Value)
    (numbering : Numbering) : Attempt Store Key := do
  let parent ← Attempt.ofExcept (h.parentOf registry mapping v)
  let primary := mapping.primary?.map (fun m => (h.valueUnder m.name v, m.traits.isEncoded))
  match primary.getD (.null, false), numbering with
  | (.key k, _), _ => return k
  | (.text t, true), _ => Attempt.ofExcept (Key.ofToken t)
  | (.null, _), .fromStore => do
    let n ← Store.allocate mapping.kind
    return Key.under parent mapping.kind (.number n)
  | (w, _), _ => Attempt.ofExcept (Key.make h parent mapping.kind w)

def recordOf (h : Heap) (registry : Registry) (mapping : ClassMapping) (v : Value)
    (numbering : Numbering) : Attempt Store Record := do
  let key ← recordKey h registry mapping v numbering
  let properties ← Attempt.ofExcept (h.propertiesOf mapping v)
  return ⟨key, properties⟩

end RecordStore
