import RecordStore.Key.Basic
import RecordStore.Number.Shortest
import RecordStore.Number.Decimal
import RecordStore.Time.Moment

/-!
# Values

The values that objects hold, that queries compare with, and that the store keeps. An object is
held by reference: values name it by its number in a heap. A short blob is the form in which the
store keeps binary data.
-/

set_option autoImplicit false

namespace RecordStore

abbrev ObjectId := Nat

inductive Collection where
  | list | tuple | set | frozenSet
  deriving DecidableEq

inductive Value where
  | null
  | flag (b : Bool)
  | integer (n : Int)
  | real (x : Double)
  | decimal (d : Decimal)
  | text (t : Text)
  | bytes (bs : Bytes)
  | byteArray (bs : Bytes)
  | blob (bs : Bytes)
  | moment (m : Moment)
  | date (d : Date)
  | key (k : Key)
  /-- A member of a choice, with the value behind it. -/
  | choice (type member : Text) (value : Value)
  | object (i : ObjectId)
  | collection (c : Collection) (items : List Value)

instance : Inhabited Value := ⟨.null⟩

namespace Collection

def typeName : Collection → Text
  | .list => "list"
  | .tuple => "tuple"
  | .set => "set"
  | .frozenSet => "frozenset"

def isOrdered : Collection → Bool
  | .list | .tuple => true
  | .set | .frozenSet => false

def enclose (c : Collection) (items : List Text) : Text :=
  let inner := Text.join ", " items
  match c, items with
  | .list, _ => "[" ++ inner ++ "]"
  | .tuple, [_] => "(" ++ inner ++ ",)"
  | .tuple, _ => "(" ++ inner ++ ")"
  | .set, [] => "set()"
  | .set, _ => "\x7b" ++ inner ++ "\x7d"
  | .frozenSet, [] => "frozenset()"
  | .frozenSet, _ => "frozenset(\x7b" ++ inner ++ "\x7d)"

end Collection

def flagText (b : Bool) : Text := if b then "True" else "False"

namespace Value

def list (items : List Value) : Value := .collection .list items

def isNull : Value → Bool
  | .null => true
  | _ => false

def isBlank : Value → Bool
  | .null => true
  | .flag b => !b
  | .integer n => n = 0
  | .real x => x.quantity.compare? (.exact 0) == some .eq
  | .decimal (.finite _ c _) => c = 0
  | .text t => t.isEmpty
  | .bytes bs | .byteArray bs => bs.isEmpty
  | .collection _ items => items.isEmpty
  | _ => false

def isCollection : Value → Bool
  | .collection _ _ => true
  | _ => false

def ofOption {α : Type} (f : α → Value) : Option α → Value
  | none => .null
  | some a => f a

def ofKey? : Option Key → Value := ofOption .key

def ofIdentity : Identity → Value
  | .unset => .null
  | .number n => .integer n
  | .flag b => .flag b
  | .name t => .text t

def identity? : Value → Option Identity
  | .null => some .unset
  | .integer n => some (.number n)
  | .flag b => some (.flag b)
  | .text t => some (.name t)
  | _ => none

mutual

/-- A value as messages show it, given how they show the objects in it. A whole number that is too
long cannot be shown, nor can what holds it. -/
def shownWith (object : ObjectId → Except Fault Text) : Value → Except Fault Text
  | .null => .ok "None"
  | .flag b => .ok (flagText b)
  | .integer n => Text.numeral n
  | .real x => .ok x.text
  | .decimal d => .ok ("Decimal('" ++ d.text ++ "')")
  | .text t => .ok (Quoted.text t)
  | .bytes bs => .ok (Quoted.bytes bs)
  | .byteArray bs => .ok (Quoted.byteArray bs)
  | .blob bs => .ok ("ShortBlob(value=" ++ Quoted.bytes bs ++ ")")
  | .moment m => .ok m.text
  | .date d => .ok d.text
  | .key k => k.text
  | .choice type member value => do
    let shown ← shownWith object value
    return "<" ++ type ++ "." ++ member ++ ": " ++ shown ++ ">"
  | .object i => object i
  | .collection c items => do
    let shown ← shownEach object items
    return c.enclose shown

def shownEach (object : ObjectId → Except Fault Text) : List Value → Except Fault (List Text)
  | [] => .ok []
  | v :: vs => do
    let shown ← shownWith object v
    return shown :: (← shownEach object vs)

end

end Value
end RecordStore
