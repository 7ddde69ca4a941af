import RecordStore.Value.Heap
import RecordStore.Key.Basic
import RecordStore.Schema
import RecordStore.Store.Record
import RecordStore.Key.Token
import RecordStore.Fault

/-!
# The identity map

While a key is in the map it has one object. An object is hollow as long as only the parts of its
key are set.
-/

set_option autoImplicit false

namespace RecordStore

structure IdentityMap where
  entries : List (Key × Value)
  hollow : List Key

namespace IdentityMap

def empty : IdentityMap := ⟨[], []⟩

def get? (m : IdentityMap) (k : Key) : Option Value :=
  (m.entries.find? (fun e => e.1.same k)).map (·.2)

def contains (m : IdentityMap) (k : Key) : Bool := m.entries.any (fun e => e.1.same k)

def isHollow (m : IdentityMap) (k : Key) : Bool := m.hollow.any (fun h => h.same k)

def size (m : IdentityMap) : Nat := m.entries.length

def without (k : Key) (ks : List Key) : List Key := ks.filter (fun h => !h.same k)

def assign (k : Key) (v : Value) : List (Key × Value) → List (Key × Value)
  | [] => [(k, v)]
  | e :: rest => if e.1.same k then (e.1, v) :: rest else e :: assign k v rest

def put (m : IdentityMap) (k : Key) (v : Value) (hollow : Bool) : IdentityMap :=
  ⟨assign k v m.entries, if hollow then without k m.hollow ++ [k] else without k m.hollow⟩

def evict (m : IdentityMap) (k : Key) : IdentityMap :=
  ⟨m.entries.filter (fun e => !e.1.same k), without k m.hollow⟩

def object? (m : IdentityMap) (k : Key) : Option Value :=
  match m.get? k with
  | some .null => none
  | found => found

end IdentityMap
end RecordStore

/-!
## Loading objects

A record can be loaded as a whole object, as a hollow object with the parts of its key, or as the
values of chosen members. Objects come from the identity map where it has them, and a hollow object
is filled in where it is, so that a key keeps its one object.
-/

namespace RecordStore

structure Workspace where
  heap : Heap
  identities : IdentityMap

namespace Member

def encodesParent (m : Member) : Bool := m.traits.isEncoded || m.traits.declared.isText

def keyValue (m : Member) (k : Key) : Value :=
  if m.traits.isEncoded then .text k.token
  else if m.traits.declared.isInteger then Value.ofOption Value.ofIdentity k.numberOf
  else if m.traits.declared.isText then Value.ofOption Value.text k.nameOf
  else .key k

def parentValue (m : Member) (k : Key) : Value :=
  match k.parent? with
  | none => .null
  | some p => if m.encodesParent then .text p.token else .key p

def giveKey (m : Member) (k : Key) : Except Fault Value := do
  if m.traits.isEncoded then discard k.encode
  return m.keyValue k

def giveParent (m : Member) (k : Key) : Except Fault Value := do
  if m.encodesParent then k.parent?.forM fun p => discard p.encode
  return m.parentValue k

end Member

namespace Record

def stored (r : Record) (property : Text) : Value := (lookupName property r.properties).getD .null

end Record

namespace Workspace

def create (s : Shape) : Attempt Workspace ObjectId := do
  let w ← get
  let (i, heap) := w.heap.create s
  set { w with heap := heap }
  return i

def derivedFromKey : List Text := ["id", "name", "root"]

def lacks (name : Text) : Fault := .misuse (.attribute ("no attribute '" ++ name ++ "'"))

/-- Sets a field of an object. Only objects have fields, and what follows from other fields cannot
be set. -/
def assign (v : Value) (field : Text) (x : Value) : Attempt Workspace Unit := do
  match v with
  | .object i =>
    if ((← get).heap.object i).isKey && derivedFromKey.contains field then throw (lacks field)
    modify (fun w => { w with heap := w.heap.set i field x })
  | _ => throw (lacks field)

def remember (k : Key) (v : Value) (hollow : Bool) : Attempt Workspace Unit :=
  modify (fun w => { w with identities := w.identities.put k v hollow })

def evict (k : Key) : Attempt Workspace Unit :=
  modify (fun w => { w with identities := w.identities.evict k })

def forget : Attempt Workspace Unit := modify (fun w => { w with identities := .empty })

def plainValue (r : Record) (m : Member) : Except Fault Value :=
  m.traits.declared.restore (r.stored m.property)

def isAbsent (r : Record) (parts : List Member) : Bool :=
  parts.all (fun m => m.isEmbedded || (r.stored m.property).isNull)

/-- A new instance of a class: an object of a class of records or a key, both without any of their
parts, and a bare value of a built-in class that needs nothing to be made. -/
def instantiate (className : Option ClassName) (s : Shape) : Attempt Workspace Value :=
  match className with
  | some (.record _) => .object <$> create s
  | some (.builtIn _) => return .null
  | c => if c = some .key then .object <$> create .ofKey else throw (.misuse .type)

mutual

def partValue (r : Record) : Member → Attempt Workspace Value
  | .plain t => Attempt.ofExcept (plainValue r (.plain t))
  | .embedded t parts =>
    if isAbsent r parts then return .null
    else do
      let v ← instantiate t.declared.className? t.declared.shape
      assignParts r v parts
      return v

def assignParts (r : Record) (v : Value) : List Member → Attempt Workspace Unit
  | [] => return ()
  | m :: rest => do
    let x ← partValue r m
    assign v m.name x
    assignParts r v rest

end

/-- The value of a member of a whole object. Objects that are referred to are not loaded. -/
def memberValue (r : Record) (m : Member) : Attempt Workspace Value :=
  if m.traits.isPrimary then Attempt.ofExcept (m.giveKey r.key)
  else if m.traits.isParent then Attempt.ofExcept (m.giveParent r.key)
  else if m.traits.related.isSome then
    return (if m.traits.providesParent then Value.ofKey? r.key.parent? else .null)
  else partValue r m

def fill (r : Record) (v : Value) : List Member → Attempt Workspace Unit
  | [] => return ()
  | m :: rest => do
    let x ← memberValue r m
    assign v m.name x
    fill r v rest

def loadFresh (mapping : ClassMapping) (r : Record) : Attempt Workspace Value := do
  let v ← instantiate mapping.className mapping.shape
  fill r v mapping.members
  return v

def loadWhole (mapping : ClassMapping) (r : Record) (ignoreIdentities : Bool) :
    Attempt Workspace Value := do
  if ignoreIdentities then loadFresh mapping r
  else
    let ids := (← get).identities
    match ids.object? r.key with
    | none =>
      let v ← loadFresh mapping r
      remember r.key v false
      return v
    | some v =>
      if ids.isHollow r.key then
        fill r v mapping.members
        remember r.key v false
      return v

def loadIdentity (mapping : ClassMapping) (r : Record) : Attempt Workspace Value := do
  match (← get).identities.object? r.key with
  | some v => return v
  | none =>
    let v ← instantiate mapping.className mapping.shape
    let set (m : Option Member) (value : Member → Except Fault Value) : Attempt Workspace Unit :=
      match m with
      | none => pure ()
      | some m => do assign v m.name (← Attempt.ofExcept (value m))
    set mapping.primary? (·.giveKey r.key)
    set mapping.parent? (·.giveParent r.key)
    remember r.key v true
    return v

def chosenValue (r : Record) (m : Member) : Attempt Workspace Value :=
  if m.traits.isPrimary then Attempt.ofExcept (m.giveKey r.key)
  else if m.traits.isParent then Attempt.ofExcept (m.giveParent r.key)
  else partValue r m

def chosenValues (r : Record) : List (Option Member) → Attempt Workspace (List Value)
  | [] => return []
  | none :: _ => throw (.misuse (.attribute "no such member"))
  | some m :: rest => do
    let v ← chosenValue r m
    return v :: (← chosenValues r rest)

def loadChosen (r : Record) (members : List (Option Member)) : Attempt Workspace Value := do
  match ← chosenValues r members with
  | [v] => return v
  | vs => return .collection .tuple vs

def project (mapping : ClassMapping) (r : Record) (paths : List (List Text)) :
    Attempt Workspace Value := do
  loadChosen r (← Attempt.ofExcept (paths.mapM (fun path => mapping.memberAt path none)))

end Workspace
end RecordStore
