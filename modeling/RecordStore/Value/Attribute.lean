import RecordStore.Fault
import RecordStore.Value.Heap
import RecordStore.Key.Token

/-!
# Attributes

Objects have their fields for attributes. Other values have the parts that they are made of: a
whole number its numerator and denominator, a date its year, month and day, a key its kind and what
it identifies by. A text, a list or bytes have none.
-/

set_option autoImplicit false

namespace RecordStore

namespace Date

def first : Date := ⟨1, 1, 1⟩
def last : Date := ⟨9999, 12, 31⟩

def dayAttributes (d : Date) : List (Text × Value) :=
  [("year", .integer d.year), ("month", .integer d.month), ("day", .integer d.day)]

def attributes (d : Date) : List (Text × Value) :=
  d.dayAttributes.append [("min", .date first), ("max", .date last)]

end Date

namespace Moment

def attributes (m : Moment) : List (Text × Value) :=
  m.date.dayAttributes.append
    [("hour", .integer m.hour), ("minute", .integer m.minute), ("second", .integer m.second),
      ("microsecond", .integer m.microsecond), ("fold", .integer (Identity.ofFlag m.fold)),
      ("min", .moment Date.first.midnight),
      ("max", .moment ⟨Date.last, 23, 59, 59, 999999, false, none⟩)]

end Moment

namespace Key

def attributes (k : Key) : List (Text × Value) :=
  [("kind", .text k.kind), ("id_or_name", .ofIdentity k.id), ("parent", .ofKey? k.parent?),
    ("id", .ofOption .ofIdentity k.numberOf), ("name", .ofOption .text k.nameOf),
    ("root", .key k.rootKey)]

end Key

namespace Value

def wholeAttributes (n : Int) : List (Text × Value) :=
  [("real", .integer n), ("imag", .integer 0), ("numerator", .integer n),
    ("denominator", .integer 1)]

def attributes : Value → List (Text × Value)
  | .flag b => wholeAttributes (Identity.ofFlag b)
  | .integer n => wholeAttributes n
  | .real x => [("real", .real x), ("imag", .real (Double.zero false))]
  | .decimal d => [("real", .decimal d), ("imag", .decimal (.finite false 0 0))]
  | .blob bs => [("value", .bytes bs)]
  | .moment m => m.attributes
  | .date d => d.attributes
  | .key k => k.attributes
  | .choice _ member value => [("name", .text member), ("value", value)]
  | _ => []

end Value

namespace Heap

variable (h : Heap)

def rootWithin : (steps : Nat) → Value → Option Value
  | 0, _ => none
  | steps + 1, v =>
    match v with
    | .object i =>
      match h.get? i "parent" with
      | some .null => some v
      | some p => rootWithin steps p
      | none => none
    | .key k => some (.key k.rootKey)
    | _ => none

def derivedAttribute? (i : ObjectId) (name : Text) : Option Value :=
  let id := (h.get? i "id_or_name").getD .null
  if name = "id" then
    some (match id with
      | .integer _ | .flag _ => id
      | _ => .null)
  else if name = "name" then
    some (match id with
      | .text _ => id
      | _ => .null)
  else if name = "root" then h.rootWithin (h.size + 1) (.object i)
  else none

def attribute? (name : Text) : Value → Option Value
  | .object i =>
    if (h.object i).isKey then (h.derivedAttribute? i name).or (h.get? i name) else h.get? i name
  | v => lookupName name v.attributes

def pathWithin : (steps : Nat) → Value → Except Fault (List (Value × Value))
  | _, .null => .ok []
  | _, .key k => .ok (k.path.map (fun s => (.text s.1, .ofIdentity s.2)))
  | 0, _ => .error (.misuse .endless)
  | steps + 1, v => do
    let part (name : Text) : Except Fault Value :=
      match h.attribute? name v with
      | some x => .ok x
      | none =>
        .error (.misuse (.attribute (
          "'" ++ h.typeName v ++ "' object has no attribute '" ++ name ++ "'")))
    let kind ← part "kind"
    let id ← part "id_or_name"
    let above ← pathWithin steps (← part "parent")
    return above ++ [(kind, id)]

/-- The path of a key, which can be an object. A path that is longer than the heap has no end. -/
def keyPath (v : Value) : Except Fault (List (Value × Value)) := h.pathWithin (h.size + 1) v

def keyText (v : Value) : Except Fault Text := do
  let steps ← h.keyPath v
  let texts ← steps.mapM fun s => do
    let kind ← h.plain s.1
    let id ← h.shown s.2
    return kind ++ "(" ++ id ++ ")"
  return Text.join "/" texts

end Heap
end RecordStore

/-!
## Keys made of values

Numbers, flags, texts and null can identify a record within its kind; the kind itself must not be
blank. A key with a kind that is no text is an object.
-/

namespace RecordStore
namespace Key

def badIdentity {α : Type} (h : Heap) (id : Value) : Except Fault α := do
  let shown ← h.shown id
  .error (.badKey (.badIdentity shown))

def make (h : Heap) (parent : Option Key) (kind : Text) (id : Value) : Except Fault Key :=
  if kind.isEmpty then .error (.badKey .noKind)
  else
    match id.identity? with
    | some i => .ok (Key.under parent kind i)
    | none => badIdentity h id

def assemble (h : Heap) (parent kind id : Value) : Except Fault (Value × Heap) :=
  if kind.isBlank then .error (.badKey .noKind)
  else
    match id.identity?, parent, kind with
    | none, _, _ => badIdentity h id
    | some i, .null, .text t => .ok (.key (.root t i), h)
    | some i, .key p, .text t => .ok (.key (.child p t i), h)
    | _, _, _ =>
      let (n, h) := h.build .ofKey [("kind", kind), ("id_or_name", id), ("parent", parent)]
      .ok (.object n, h)

def ofPairs (h : Heap) : Value → List (Value × Value) → Except Fault (Value × Heap)
  | .null, [] => .error (.badKey .unpairedPath)
  | k, [] => .ok (k, h)
  | parent, (kind, id) :: rest => do
    let (k, h) ← assemble h parent kind id
    ofPairs h k rest

def pairs? : List Value → Option (List (Value × Value))
  | [] => some []
  | kind :: id :: rest => (pairs? rest).map ((kind, id) :: ·)
  | [_] => none

def ofElements (h : Heap) (elements : List Value) : Except Fault (Value × Heap) :=
  match pairs? elements with
  | some ps => ofPairs h .null ps
  | none => .error (.badKey .unpairedPath)

def ofTokenValue (h : Heap) : Value → Except Fault Key
  | .text t => ofToken t
  | v => do
    let shown ← h.shown v
    .error (.badKey (.undecodable shown))

end Key

mutual

def Value.json? : Value → Option Json
  | .null => some .null
  | .flag b => some (.flag b)
  | .integer n => some (.integer n)
  | .real x => some (.real x)
  | .text t => some (.text t)
  | .collection .list items => (jsonEach? items).map .list
  | .collection .tuple items => (jsonEach? items).map .list
  | _ => none

def Value.jsonEach? : List Value → Option (List Json)
  | [] => some []
  | v :: vs => do
    let j ← json? v
    return j :: (← jsonEach? vs)

end

def Heap.keyToken (h : Heap) (v : Value) : Except Fault Text := do
  let steps ← h.keyPath v
  match Value.jsonEach? (steps.map (fun s => .collection .tuple [s.1, s.2])) with
  | some items => Key.tokenOf (.list items)
  | none => throw (.misuse .type)

end RecordStore
