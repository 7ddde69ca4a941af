import RecordStore.Database.Basic

/-!
# Executing statements

A statement is checked and compiled before the store is asked for anything. Selections are scanned,
look-ups fetch their keys, and rows are loaded as they are asked for. What the store refuses or
fails at becomes a failure that names the statement. The native query is shown in the log before
anything is done with it, so a statement fails there if a number in it is too long to be written.
-/

set_option autoImplicit false

namespace RecordStore

inductive RowForm where
  | chosen (members : List Member)
  | identity
  | whole (ignoreIdentities : Bool)

structure RowReader where
  mapping : ClassMapping
  form : RowForm

inductive Result where
  | number (n : Nat)
  /-- The result of a range in which no row can lie. -/
  | nothing
  | rows (r : Rows Record Value) (reader : RowReader)

namespace RowReader

def load (reader : RowReader) (r : Record) : Attempt Workspace Value :=
  match reader.form with
  | .chosen members => Workspace.loadChosen r (members.map some)
  | .identity => Workspace.loadIdentity reader.mapping r
  | .whole ignoreIdentities => Workspace.loadWhole reader.mapping r ignoreIdentities

end RowReader

def Database.maker {α : Type} (make : α → Attempt Database Value) : RowMaker Database α Value where
  isCancelled d t := d.connections.isCancelled t
  read n := onStore (Store.read n)
  make := make
  same d a b := d.heap.same a b

def RowReader.maker (reader : RowReader) : RowMaker Database Record Value :=
  Database.maker fun r => Database.onWorkspace (reader.load r)

structure Execution where
  candidate : Candidate
  plan : ResultPlan
  window : Window

namespace Execution

def statement (e : Execution) : Statement := e.candidate.statement

def request {α : Type} (e : Execution) (a : Attempt Store α) : Attempt Database α :=
  (Database.onStore a).mapFault (Fault.wrapped .executing e.candidate.query)

def wantsNumber (e : Execution) : Bool := e.plan.form = .count || e.statement.isDelete

def reader (e : Execution) (settings : QuerySettings) : RowReader :=
  let form :=
    if !e.plan.projection.isEmpty then .chosen (e.plan.projection.map (·.2))
    else if e.plan.form = .keysOnly then .identity
    else .whole (e.statement.flag "ignore_cache" settings.ignoreCache)
  ⟨e.candidate.mapping, form⟩

def openRows (e : Execution) (c : Cursor Record) : Attempt Database Result := do
  let d ← get
  let token ← Database.onConnections (·.issue d.scope)
  return .rows (Rows.start c (some token) e.candidate.query) (e.reader d.settings.query)

def delete (e : Execution) (keys : List (Option Key)) (transaction : Option Nat) :
    Attempt Database Result := do
  e.request (Store.delete keys transaction)
  Database.onWorkspace ((keys.filterMap id).forM Workspace.evict)
  return .number keys.length

def isFound (found : List (Key × Record)) : Option Key → Bool
  | none => false
  | some k => found.any (fun p => p.1.same k)

def recordOf? (found : List (Key × Record)) (k : Option Key) : Option Record :=
  k.bind (fun k => (found.find? (fun p => p.1.same k)).map (·.2))

def cut (w : Window) (rs : List Record) : Except Fault (List Record) :=
  if w.isTrivial then .ok rs
  else do Slice.apply ⟨some w.start, ← w.stop, none⟩ rs

def lookup (e : Execution) (keys : List (Option Key)) : Attempt Database Result := do
  let d ← get
  let transaction := d.store.current
  if e.statement.isDelete then
    if e.statement.flag "slow_but_more_accurate_delete" d.settings.query.accurateDelete then
      let found ← e.request (Store.lookup keys transaction)
      e.delete (keys.filter (isFound found)) transaction
    else e.delete keys transaction
  else
    let found ← e.request (Store.lookup keys transaction)
    let rs ← Attempt.ofExcept (cut e.window (keys.filterMap (recordOf? found)))
    if e.plan.form = .count then return .number rs.length
    else e.openRows (Cursor.ofList rs)

def transactionFor (e : Execution) (q : Selection) (d : Database) : Option Nat :=
  if q.ancestor.isSome && !e.statement.flag "exclude_query_from_txn" d.settings.query.exclude then
    d.store.current
  else none

def scan (e : Execution) (q : Selection) : Attempt Database Result := do
  let d ← get
  let transaction := e.transactionFor q d
  if e.plan.form = .count then
    return .number (← e.request (Store.count d.shown q transaction .all))
  else if e.statement.isDelete then
    let keys ← e.request do
      let c ← Store.scan d.shown { q with keysOnly := true } transaction e.window false
      let rs ← Store.drain c
      return rs.map (fun r => some r.key)
    e.delete keys d.store.current
  else
    e.openRows (← e.request (Store.scan d.shown q transaction e.window false))

def run (e : Execution) : NativeQuery → Attempt Database Result
  | .selection q => e.scan q
  | .lookup _ keys => e.lookup keys

end Execution

namespace Statement

def withAlias (s : Statement) (settings : QuerySettings) : Statement :=
  match s.aliasName with
  | some a => if a.isEmpty then { s with aliasName := settings.aliasName? } else s
  | none => { s with aliasName := settings.aliasName? }

def candidateIn (s : Statement) (d : Database) : Except Fault Candidate :=
  if s.kind = .update then .error (.invalid .updateStatement s.text)
  else
    match s.candidate with
    | none => .error (.invalid .noCandidate s.text)
    | some name =>
      match d.registry.get? name with
      | none => .error s.unmapped
      | some m => .ok ⟨s.withAlias d.settings.query, m⟩

end Statement

namespace Database

def bindings (d : Database) (parameters : Parameters) (now : Moment) : Bindings :=
  ⟨parameters, d.heap, now, d.registry⟩

def execute (s : Statement) (range : Range) (parameters : Parameters) (now : Moment) :
    Attempt Database Result := do
  let d ← get
  let c ← Attempt.ofExcept (s.candidateIn d)
  let plan ← Attempt.ofExcept c.plan
  let native ← Attempt.ofExcept (c.compile (d.bindings parameters now) plan)
  set { d with latest := some native }
  let _ ← Attempt.ofExcept (native.text d.shown)
  let e : Execution := ⟨c, plan, .all⟩
  if ← Attempt.ofExcept range.isEmpty then return (if e.wantsNumber then .number 0 else .nothing)
  else
    let w ← Attempt.ofExcept (range.window d.settings.query.largest c.query)
    if plan.form = .count && !w.isTrivial then
      throw (.unsupportedFeature .windowedCount c.query)
    else ({ e with window := w } : Execution).run native

end Database
end RecordStore
