import RecordStore.Value.Heap
import RecordStore.Value.Comparison

/-!
# Schemas

A schema declares choices and record classes. A field of a class says what is stored for it: a
value under a property name, a part of the record's key, or the parts of an embedded object, which
lie side by side with the other properties of the record.
-/

set_option autoImplicit false

namespace RecordStore

/-- A choice between named members; members with equal values are one member with several names. -/
structure ChoiceType where
  name : Text
  members : List (Text × Value)

namespace ChoiceType

def member? (c : ChoiceType) (name : Text) : Option Value := do
  let v ← lookupName name c.members
  let first ← c.members.find? (fun m =>
    match Heap.empty.same m.2 v with
    | .ok equal => equal
    | .error _ => false)
  return .choice c.name first.1 first.2

end ChoiceType

inductive DeclaredType where
  | undeclared
  /-- One of several types. -/
  | either
  /-- A type or null. -/
  | optional
  | integer | text | real | bytes | list | flag | anything | key | moment
  | choice (c : ChoiceType)
  | record (s : Shape)

namespace DeclaredType

def name? : DeclaredType → Option Text
  | .undeclared => none
  | .either => some "Union"
  | .optional => some "Optional"
  | .integer => some "int"
  | .text => some "str"
  | .real => some "float"
  | .bytes => some "bytes"
  | .list => some "list"
  | .flag => some "bool"
  | .anything => some "object"
  | .key => some "Key"
  | .moment => some "datetime"
  | .choice c => some c.name
  | .record s => some s.name

def builtIn : List DeclaredType :=
  [.integer, .text, .real, .bytes, .list, .flag, .anything, .key, .moment]

def className? : DeclaredType → Option ClassName
  | .undeclared | .either | .optional => none
  | .choice c => some (.choice c.name)
  | .record s => some (.record s.name)
  | .key => some .key
  | .moment => some .moment
  | t => t.name?.map .builtIn

def shape : DeclaredType → Shape
  | .record s => s
  | .key => .ofKey
  | t => ⟨t.name?.getD Text.empty, []⟩

def isInteger : DeclaredType → Bool
  | .integer => true
  | _ => false

def isText : DeclaredType → Bool
  | .text => true
  | _ => false

def isKey : DeclaredType → Bool
  | .key => true
  | _ => false

def isList : DeclaredType → Bool
  | .list => true
  | _ => false

end DeclaredType

structure Traits where
  name : Text
  declared : DeclaredType
  isPrimary : Bool
  /-- Whether the field is the key of the parent. -/
  isParent : Bool
  column : Option Text
  /-- The class of the object that the field refers to. -/
  related : Option ClassName
  /-- Whether the object that the field refers to is the parent. -/
  providesParent : Bool
  /-- Whether keys are given out as tokens. -/
  isEncoded : Bool

inductive Member where
  | plain (traits : Traits)
  | embedded (traits : Traits) (parts : List Member)

namespace Member

def traits : Member → Traits
  | .plain t => t
  | .embedded t _ => t

def name (m : Member) : Text := m.traits.name

def parts? : Member → Option (List Member)
  | .plain _ => none
  | .embedded _ parts => some parts

def isEmbedded (m : Member) : Bool := m.parts?.isSome

def property (m : Member) : Text :=
  match m.traits.column with
  | none => m.name
  | some c => if c.isEmpty then m.name else c

def find? (name : Text) (ms : List Member) : Option Member := ms.find? (fun m => m.name = name)

def ofKey : List Member :=
  let part (name : Text) (declared : DeclaredType) : Member :=
    .plain ⟨name, declared, false, false, none, none, false, false⟩
  [part "kind" .text, part "id_or_name" .either, part "parent" .optional]

/-- Members by name; of members with one name the last counts, in the place of the first. -/
def distinct (ms : List Member) : List Member :=
  (byName (ms.map (fun m => (m.name, m)))).map (·.2)

end Member

structure ClassMapping where
  className : ClassName
  shape : Shape
  kind : Text
  members : List Member

namespace ClassMapping

def fullName (m : ClassMapping) : Text := m.className.fullName

def primary? (m : ClassMapping) : Option Member := m.members.find? (·.traits.isPrimary)

def parent? (m : ClassMapping) : Option Member := m.members.find? (·.traits.isParent)

def descend (query : Option Text) : Option Member → List Text → Except Fault (Option Member)
  | none, _ => .ok none
  | some m, [] => .ok (some m)
  | some m, name :: rest =>
    match m.parts? with
    | none => .error (.invalid .notEmbedded query)
    | some parts => descend query (Member.find? name parts) rest

def memberAt (m : ClassMapping) (path : List Text) (query : Option Text) :
    Except Fault (Option Member) :=
  match path with
  | [] => .error (.misuse .position)
  | name :: rest => descend query (Member.find? name m.members) rest

end ClassMapping

structure Registry where
  mappings : List ClassMapping

namespace Registry

def empty : Registry := ⟨[]⟩

def get? (r : Registry) (className : ClassName) : Option ClassMapping :=
  r.mappings.find? (fun m => m.className = className)

def mappingOf (className : ClassName) (shape : Shape) (members : List Member)
    (kind : Option Text) : ClassMapping :=
  let named := kind.getD Text.empty
  ⟨className, shape, if named.isEmpty then className.name else named, Member.distinct members⟩

def register (r : Registry) (className : ClassName) (shape : Shape) (members : List Member)
    (kind : Option Text) : Except Fault (ClassMapping × Registry) :=
  let m := mappingOf className shape members kind
  if (m.members.filter (·.traits.isPrimary)).length = 1 then
    .ok (m, ⟨m :: r.mappings.filter (fun x => x.className ≠ className)⟩)
  else .error (.invalid (.primaryKeys m.fullName) none)

def require (r : Registry) (className : ClassName) : Except Fault ClassMapping :=
  match r.get? className with
  | some m => .ok m
  | none => .error (.invalid (.unmappedClass className.text false) none)

end Registry

/-- A class with its members, or with what is wrong with them. -/
structure RecordClass where
  shape : Shape
  members : Except Fault (List Member)

/-- A later class stands for its name in the place of an earlier one. -/
structure Schema where
  choices : List ChoiceType
  /-- The classes, the last first. -/
  classes : List RecordClass

structure FieldDeclaration where
  traits : Traits
  /-- The type of the field itself, which `traits.declared` may replace for the mapping. -/
  type : DeclaredType
  isEmbedded : Bool

namespace Schema

def class? (s : Schema) (name : Text) : Option RecordClass :=
  s.classes.find? (fun c => c.shape.name = name)

def choice? (s : Schema) (name : Text) : Option ChoiceType :=
  s.choices.find? (fun c => c.name = name)

def member (s : Schema) (name : Text) : Except Fault Value :=
  match Text.splitOn Text.dot name with
  | [type, member] =>
    match s.choice? type with
    | none => .error (.misuse (.name (Quoted.text type)))
    | some c =>
      match c.member? member with
      | some v => .ok v
      | none => .error (.misuse (.name (Quoted.text member)))
  | _ => .error (.misuse (.name (Quoted.text name)))

def type? (s : Schema) (name : Text) : Option DeclaredType :=
  ((DeclaredType.builtIn.find? (fun t => t.name? = some name)).or
    ((s.choice? name).map .choice)).or ((s.class? name).map (fun c => .record c.shape))

def className? (s : Schema) (name : Text) : Option ClassName :=
  (s.type? name).bind DeclaredType.className?

/-- What objects of a class have; classes that the schema does not declare have no fields. -/
def shapeOf (s : Schema) (c : ClassName) : Shape :=
  match c with
  | .record name => ((s.class? name).map (·.shape)).getD ⟨name, []⟩
  | c => if c = .key then .ofKey else ⟨c.name, []⟩

def membersOf (s : Schema) : ClassName → Except Fault (List Member)
  | .record name =>
    match s.class? name with
    | some c => c.members
    | none => .error (.misuse .type)
  | c => if c = .key then .ok Member.ofKey else .error (.misuse .type)

def partsOf (s : Schema) (t : DeclaredType) : Except Fault (List Member) :=
  match t.className? with
  | some c => s.membersOf c
  | none => .error (.misuse .type)

def memberOf (s : Schema) (f : FieldDeclaration) : Except Fault Member :=
  if f.isEmbedded then do
    let parts ← s.partsOf f.type
    return .embedded f.traits (Member.distinct parts)
  else .ok (.plain f.traits)

def declare (s : Schema) (name : Text) (fields : List FieldDeclaration) : Schema :=
  let shape : Shape := ⟨name, fields.map (fun f => (f.traits.name, f.type.isList))⟩
  { s with classes := ⟨shape, fields.mapM s.memberOf⟩ :: s.classes }

end Schema

mutual

/-- What the store gives back, as a member declares it: binary data becomes bytes, and the name of a
member of a choice becomes that member. -/
def DeclaredType.restore (declared : DeclaredType) : Value → Except Fault Value
  | .collection .list items => (restoreEach declared items).map .list
  | .blob bs => .ok (.bytes bs)
  | .text t =>
    match declared with
    | .choice c =>
      match c.member? t with
      | some v => .ok v
      | none => .error (.misuse (.name (Quoted.text t)))
    | _ => .ok (.text t)
  | v => .ok v

def DeclaredType.restoreEach (declared : DeclaredType) : List Value → Except Fault (List Value)
  | [] => .ok []
  | v :: vs => do
    let r ← restore declared v
    let rest ← restoreEach declared vs
    return r :: rest

end

end RecordStore
