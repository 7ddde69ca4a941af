import RecordStore.Query.Compile
import RecordStore.Schema.Declaration
import RecordStore.Mapping.Load
import RecordStore.Mapping.Save
import RecordStore.Rows

/-!
# The database

The database joins a store, a registry of mapped classes, the objects loaded so far, and the
connections that results are opened under.
-/

set_option autoImplicit false

namespace RecordStore

structure Database where
  settings : Settings
  registry : Registry
  store : Store
  workspace : Workspace
  connections : Connections
  /-- The scope that new results belong to. -/
  scope : Nat
  /-- The native query compiled last. -/
  latest : Option NativeQuery

namespace Database

def start (settings : Settings) : Database :=
  { settings := settings, registry := .empty, store := .start settings.storage
    workspace := ⟨.empty, .empty⟩, connections := .start, scope := 0, latest := none }

def create (settings : Settings) : Except Fault Database :=
  match settings.storage.backend with
  | .text t =>
    if t = "memory" then .ok (start settings) else .error (.unknownBackend t)
  | other => do
    let shown ← other.plainText
    .error (.unknownBackend shown)

def heap (d : Database) : Heap := d.workspace.heap

def shown (d : Database) (v : Value) : Except Fault Text := d.heap.shown v

def onStore {α : Type} (a : Attempt Store α) : Attempt Database α :=
  a.zoom store (fun d s => { d with store := s })

def onWorkspace {α : Type} (a : Attempt Workspace α) : Attempt Database α :=
  a.zoom workspace (fun d w => { d with workspace := w })

def onConnections {α : Type} (f : Connections → α × Connections) : Attempt Database α := do
  let d ← get
  let (a, connections) := f d.connections
  set { d with connections := connections }
  return a

def register (className : ClassName) (shape : Shape) (members : List Member)
    (kind : Option Text) : Attempt Database ClassMapping := do
  let d ← get
  let (m, registry) ← Attempt.ofExcept (d.registry.register className shape members kind)
  set { d with registry := registry }
  return m

def registerAll (s : Schema) (classes : List NamedClass) : Attempt Database Unit :=
  (classes.filter (·.isMapped)).forM fun c => do
    let name := ClassName.record c.name
    let members ← Attempt.ofExcept (s.membersOf name)
    let _ ← register name (s.shapeOf name) members c.kind

def mappingOfValue (d : Database) (v : Value) : Except Fault ClassMapping :=
  d.registry.require (d.heap.classOf v)

/-- Stores an object in the current transaction. The object gets its primary key and becomes the
object of its key, which the log shows at the end. -/
def put (v : Value) : Attempt Database Key := do
  let d ← get
  let mapping ← Attempt.ofExcept (d.mappingOfValue v)
  let r ← onStore (recordOf d.heap d.registry mapping v .fromStore)
  let k ← onStore (Store.put r (← get).store.current)
  match mapping.primary? with
  | none => pure ()
  | some m => do
    let x ← Attempt.ofExcept (m.giveKey k)
    onWorkspace (Workspace.assign v m.name x)
  onWorkspace (Workspace.remember k v false)
  let _ ← Attempt.ofExcept k.pathText
  return k

/-- The object of a key; a value that is no key identifies a record of the class's kind. -/
def find? (className : ClassName) (id : Value) : Attempt Database (Option Value) := do
  let d ← get
  let mapping ← Attempt.ofExcept (d.registry.require className)
  let k ← match id with
    | .key k => pure k
    | v => Attempt.ofExcept (Key.make d.heap none mapping.kind v)
  let found ← onStore (Store.lookup [some k] d.store.current)
  match found.find? (fun p => p.1.same k) with
  | none => return none
  | some p =>
    let v ← onWorkspace (Workspace.loadWhole mapping p.2 d.settings.query.ignoreCache.isTrue)
    return some v

def flush : Attempt Database Unit := do
  let d ← get
  onConnections fun c => ((), c.flush d.scope)

def connect : Attempt Database Nat := do
  flush
  let i ← onConnections Connections.openScope
  modify (fun d => { d with scope := i })
  return i

def close : Attempt Database Unit := do
  let d ← get
  onConnections fun c => ((), c.close d.scope)
  onWorkspace Workspace.forget

/-- Ends a transaction after the work that was done in it: with a commit if the work was finished
and the transaction still goes on, and with a rollback if the work failed. -/
def settle (number : Nat) (work : Except Fault Unit) : Attempt Database Unit := do
  match work with
  | .error f =>
    onStore (Store.rollback number)
    throw f
  | .ok _ =>
    match (← get).store.transaction? number with
    | some t => if t.isActive then onStore (Store.commit number)
    | none => pure ()

end Database
end RecordStore
