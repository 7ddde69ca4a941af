import RecordStore.Text.Quoted
import RecordStore.Value.Basic

/-!
# Class names

A class is declared in a schema, as a class of records or as a choice, or it is built in. A name
that was never looked up stands for no class; it is shown as the text that it is.
-/

set_option autoImplicit false

namespace RecordStore

inductive ClassName where
  | record (name : Text)
  | choice (name : Text)
  | builtIn (name : Text)
  /-- A built-in class of a module. -/
  | ofModule (module name : Text)
  | unresolved (name : Text)
  deriving DecidableEq

namespace ClassName

def key : ClassName := .ofModule "kindquery.storage.keys" "Key"
def shortBlob : ClassName := .ofModule "kindquery.storage.keys" "ShortBlob"
def moment : ClassName := .ofModule "datetime" "datetime"
def date : ClassName := .ofModule "datetime" "date"
def decimal : ClassName := .ofModule "decimal" "Decimal"

def name : ClassName → Text
  | .record n | .choice n | .builtIn n | .ofModule _ n | .unresolved n => n

def fullName : ClassName → Text
  | .record n | .choice n => "domain." ++ n
  | .builtIn n => "builtins." ++ n
  | .ofModule module n => module ++ "." ++ n
  | .unresolved n => n

def text : ClassName → Text
  | .choice n => "<enum '" ++ n ++ "'>"
  | .builtIn n => "<class '" ++ n ++ "'>"
  | .unresolved n => Quoted.text n
  | c => "<class '" ++ c.fullName ++ "'>"

def optionText : Option ClassName → Text
  | some c => c.text
  | none => "None"

end ClassName
end RecordStore

/-!
## Objects

An object belongs to a class and has attributes. The heap holds all objects; an object that was
made without its attributes gets them one by one. A field of a class has null for its value until it
is set, or no value at all. A key that is made part by part is an object, too, as long as any value
can be a part of it.
-/

namespace RecordStore

structure Shape where
  name : Text
  /-- The fields in order, each with whether it has no value until it is set. List fields have none,
  and objects that are made with their attributes have an empty list there. -/
  fields : List (Text × Bool)
  deriving DecidableEq, Inhabited

structure Object where
  shape : Shape
  attributes : List (Text × Value)
  deriving Inhabited

namespace Shape

def ofKey : Shape := ⟨"Key", [("kind", true), ("id_or_name", false), ("parent", false)]⟩

def default? (s : Shape) (field : Text) : Option Value :=
  match lookupName field s.fields with
  | some false => some .null
  | _ => none

end Shape

namespace Object

def isKey (o : Object) : Bool := o.shape = .ofKey

def get? (o : Object) (field : Text) : Option Value :=
  (lookupName field o.attributes).or (o.shape.default? field)

def value (o : Object) (field : Text) : Except Fault Value :=
  match o.get? field with
  | some v => .ok v
  | none =>
    .error (.misuse (.attribute (
      "'" ++ o.shape.name ++ "' object has no attribute '" ++ field ++ "'")))

def set (o : Object) (field : Text) (v : Value) : Object :=
  { o with attributes := assignName field v o.attributes }

end Object

structure Heap where
  objects : List Object

namespace Heap

def empty : Heap := ⟨[]⟩

def size (h : Heap) : Nat := h.objects.length

/-- The object of a number; a number that is not in use stands for an object without fields. -/
def object (h : Heap) (i : ObjectId) : Object := h.objects[i]?.getD default

def create (h : Heap) (s : Shape) : ObjectId × Heap := (h.size, ⟨h.objects ++ [⟨s, []⟩]⟩)

/-- A new object with the given attributes; list fields that are not given start out empty. -/
def build (h : Heap) (s : Shape) (given : List (Text × Value)) : ObjectId × Heap :=
  let entry (f : Text × Bool) : Text × Value :=
    (f.1, (lookupName f.1 given).getD (if f.2 then .list [] else .null))
  (h.size, ⟨h.objects ++ [⟨s, s.fields.map entry⟩]⟩)

def set (h : Heap) (i : ObjectId) (field : Text) (v : Value) : Heap :=
  ⟨h.objects.modify i (·.set field v)⟩

def get? (h : Heap) (i : ObjectId) (field : Text) : Option Value := (h.object i).get? field

def className (h : Heap) (i : ObjectId) : Text := (h.object i).shape.name

def shownObject (h : Heap) : (depth : Nat) → (outer : List ObjectId) → ObjectId → Except Fault Text
  | 0, _, _ => .ok "..."
  | depth + 1, outer, i =>
    if outer.contains i then .ok "..."
    else do
      let o := h.object i
      let fields ← o.shape.fields.mapM fun f => do
        let v ← o.value f.1
        let shown ← v.shownWith (h.shownObject depth (i :: outer))
        return f.1 ++ "=" ++ shown
      return o.shape.name ++ "(" ++ Text.join ", " fields ++ ")"

/-- A value as messages show it. No chain of different objects is longer than the heap. -/
def shown (h : Heap) (v : Value) : Except Fault Text :=
  v.shownWith (h.shownObject (h.size + 1) [])

def plain (h : Heap) : Value → Except Fault Text
  | .text t => .ok t
  | .decimal d => .ok d.text
  | .moment m => .ok (Text.ofString (m.isoWith " "))
  | .date d => .ok (Text.ofString d.iso)
  | .key k => k.pathText
  | .choice type member _ => .ok (type ++ "." ++ member)
  | v => h.shown v

def classOf (h : Heap) : Value → ClassName
  | .object i => if (h.object i).isKey then .key else .record (h.className i)
  | .choice type _ _ => .choice type
  | .null => .builtIn "NoneType"
  | .flag _ => .builtIn "bool"
  | .integer _ => .builtIn "int"
  | .real _ => .builtIn "float"
  | .decimal _ => .decimal
  | .text _ => .builtIn "str"
  | .bytes _ => .builtIn "bytes"
  | .byteArray _ => .builtIn "bytearray"
  | .blob _ => .shortBlob
  | .moment _ => .moment
  | .date _ => .date
  | .key _ => .key
  | .collection c _ => .builtIn c.typeName

def typeName (h : Heap) (v : Value) : Text := (h.classOf v).name

end Heap
end RecordStore
