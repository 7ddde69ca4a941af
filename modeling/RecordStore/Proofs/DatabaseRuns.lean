import RecordStore.Database.Execute
import RecordStore.Proofs.Pulling
import RecordStore.Proofs.StoreRuns

/-!
# Runs of the database

The states that a database comes to by what is asked of it and of the results it gave out. Between
two requests a program may change its objects as it likes. The store of a database stays sound.
-/

set_option autoImplicit false

namespace RecordStore

/-- What can be asked of a database. -/
inductive DatabaseAction where
  | register (className : ClassName) (shape : Shape) (members : List Member) (kind : Option Text)
  | put (v : Value)
  | find (className : ClassName) (id : Value)
  | execute (s : Statement) (range : Range) (parameters : Parameters) (now : Moment)
  /-- Asks a result for one more row. -/
  | pull (reader : RowReader) (rows : Rows Record Value)
  /-- Leaves the objects and the identity map in another state. -/
  | arrange (w : Workspace)
  /-- Asks the store directly. -/
  | store (a : StoreAction)
  | settle (number : Nat) (work : Except Fault Unit)
  | flush
  | connect
  | close

namespace DatabaseAction

def perform : DatabaseAction → Attempt Database Unit
  | .register className shape members kind => do
    let _ ← Database.register className shape members kind
  | .put v => do let _ ← Database.put v
  | .find className id => do let _ ← Database.find? className id
  | .execute s range parameters now => do let _ ← Database.execute s range parameters now
  | .pull reader rows => do
    let _ ← (Rows.pull reader.maker).zoom (fun d => (rows, d)) (fun _ p => p.2)
  | .arrange w => modify fun d => { d with workspace := w }
  | .store a => Database.onStore a.perform
  | .settle number work => Database.settle number work
  | .flush => Database.flush
  | .connect => do let _ ← Database.connect
  | .close => Database.close

def onlyDeletes : DatabaseAction → Bool
  | .put _ | .store _ | .settle _ _ => false
  | _ => true

def step (d : Database) (a : DatabaseAction) : Database := (a.perform.on d).2

end DatabaseAction

namespace Database

/-- The databases that some settings and some actions lead to. -/
def Reachable (d : Database) : Prop :=
  ∃ settings actions, d = List.foldl DatabaseAction.step (start settings) actions

/-- What holds of every database that is reached. -/
def Sound (d : Database) : Prop := d.store.Sound

end Database

open Attempt

theorem Registry.get?_of_require {registry : Registry} {className : ClassName}
    {mapping : ClassMapping} (h : registry.require className = .ok mapping) :
    registry.get? className = some mapping := by
  rw [require] at h
  split at h
  · rename_i found
    cases h
    exact found
  · cases h

theorem keeps_recordOf {P : Store → Prop} (ha : ∀ kind, Keeps P (Store.allocate kind)) (h : Heap)
    (registry : Registry) (mapping : ClassMapping) (v : Value) (numbering : Numbering) :
    Keeps P (recordOf h registry mapping v numbering) := by
  have key : Keeps P (recordKey h registry mapping v numbering) := by
    apply keeps_bind (keeps_ofExcept _)
    intro parent
    dsimp only
    split
    · exact keeps_pure _
    · exact keeps_ofExcept _
    · exact keeps_bind (ha _) fun _ => keeps_pure _
    · exact keeps_ofExcept _
  exact keeps_bind key fun _ => keeps_bind (keeps_ofExcept _) fun _ => keeps_pure _

namespace Database

/-- Whether the store of a database has a property. -/
def Has (P : Store → Prop) (d : Database) : Prop := P d.store

variable {P : Store → Prop}

theorem keeps_onStore {α : Type} {a : Attempt Store α} (h : Keeps P a) :
    Keeps (Has P) (onStore a) :=
  keeps_zoom h (fun _ hd => hd) fun _ _ _ hs => hs

theorem keeps_onWorkspace {α : Type} (a : Attempt Workspace α) : Keeps (Has P) (onWorkspace a) :=
  ⟨fun _ h => h⟩

theorem keeps_onConnections {α : Type} (f : Connections → α × Connections) :
    Keeps (Has P) (onConnections f) := by
  apply keeps_get_bind
  intro d h
  exact keeps_bind (keeps_set h) fun _ => keeps_pure _

theorem keeps_register (className : ClassName) (shape : Shape) (members : List Member)
    (kind : Option Text) : Keeps (Has P) (register className shape members kind) := by
  apply keeps_get_bind
  intro d h
  apply keeps_bind (keeps_ofExcept _)
  intro p
  exact keeps_bind (keeps_set h) fun _ => keeps_pure _

theorem keeps_findAt (hP : Store.Uncounted P) (mapping : ClassMapping) (d : Database) (k : Key) :
    Keeps (Has P) (onStore (Store.lookup [some k] d.store.current) >>= fun found =>
      match found.find? (fun p => p.1.same k) with
      | none => pure none
      | some p => onWorkspace
          (Workspace.loadWhole mapping p.2 d.settings.query.ignoreCache.isTrue) >>= fun v =>
            pure (some v)) := by
  apply keeps_bind (keeps_onStore (hP.keeps_lookup _ _))
  intro found
  split
  · exact keeps_pure _
  · exact keeps_bind (keeps_onWorkspace _) fun _ => keeps_pure _

theorem keeps_find (hP : Store.Uncounted P) (className : ClassName) (id : Value) :
    Keeps (Has P) (find? className id) := by
  apply keeps_get_bind
  intro d _
  apply keeps_bind (keeps_ofExcept _)
  intro mapping
  have found := keeps_findAt hP mapping d
  cases id with
  | key k => exact found k
  | _ => exact keeps_bind (keeps_ofExcept _) found

theorem keeps_flush : Keeps (Has P) flush :=
  keeps_get_bind fun _ _ => keeps_onConnections _

theorem keeps_connect : Keeps (Has P) connect := by
  apply keeps_bind keeps_flush
  intro _
  apply keeps_bind (keeps_onConnections _)
  intro i
  exact keeps_bind (keeps_modify fun _ h => h) fun _ => keeps_pure _

theorem keeps_close : Keeps (Has P) close := by
  apply keeps_get_bind
  intro d _
  exact keeps_bind (keeps_onConnections _) fun _ => keeps_onWorkspace _

theorem keeps_settle (hP : Store.Stable P) (number : Nat) (work : Except Fault Unit) :
    Keeps (Has P) (settle number work) := by
  cases work with
  | error f =>
    exact keeps_bind (keeps_onStore (hP.keeps_rollback number)) fun _ => keeps_throw f
  | ok _ =>
    apply keeps_get_bind
    intro d _
    cases d.store.transaction? number with
    | none => exact keeps_pure _
    | some t =>
      by_cases ht : t.isActive = true
      · simp only [if_pos ht]
        exact keeps_onStore (hP.keeps_commit number)
      · simp only [if_neg ht]
        exact keeps_pure _

theorem keeps_rowPull (hP : Store.Uncounted P) (reader : RowReader) :
    Keeps (fun p : Rows Record Value × Database => p.2.Has P) (Rows.pull reader.maker) :=
  keeps_pull _ (fun n => keeps_onStore (hP.keeps_read n)) fun _ => keeps_onWorkspace _

end Database

namespace Execution

open Database

variable {P : Store → Prop} (e : Execution)

theorem keeps_request {α : Type} {a : Attempt Store α} (h : Keeps P a) :
    Keeps (Has P) (e.request a) :=
  keeps_mapFault (keeps_onStore h) _

theorem keeps_openRows (c : Cursor Record) : Keeps (Has P) (e.openRows c) := by
  apply keeps_get_bind
  intro d _
  exact keeps_bind (keeps_onConnections _) fun _ => keeps_pure _

variable {current : Option Nat} (hP : Store.Deletes P current)
include hP

theorem keeps_delete (keys : List (Option Key)) : Keeps (Has P) (e.delete keys current) := by
  apply keeps_bind (e.keeps_request (hP.delete keys))
  intro _
  exact keeps_bind (keeps_onWorkspace _) fun _ => keeps_pure _

theorem keeps_scan (q : Selection) : Keeps (Has P) (e.scan q) := by
  apply keeps_get_bind
  intro d h
  rw [hP.current d.store h]
  dsimp only
  split
  · exact keeps_bind (e.keeps_request (hP.uncounted.keeps_count _ _ _ _)) fun _ => keeps_pure _
  split
  · apply keeps_bind
    · apply keeps_request
      apply keeps_bind (hP.uncounted.keeps_scan _ _ _ _ _)
      intro c
      exact keeps_bind (hP.uncounted.keeps_drain c) fun _ => keeps_pure _
    · intro keys
      exact e.keeps_delete hP keys
  · exact keeps_bind (e.keeps_request (hP.uncounted.keeps_scan _ _ _ _ _)) fun c =>
      e.keeps_openRows c

theorem keeps_lookup (keys : List (Option Key)) : Keeps (Has P) (e.lookup keys) := by
  apply keeps_get_bind
  intro d h
  rw [hP.current d.store h]
  dsimp only
  have found := e.keeps_request (hP.uncounted.keeps_lookup keys current)
  split
  · split
    · exact keeps_bind found fun _ => e.keeps_delete hP _
    · exact e.keeps_delete hP keys
  · apply keeps_bind found
    intro rs
    apply keeps_bind (keeps_ofExcept _)
    intro kept
    split
    · exact keeps_pure _
    · exact e.keeps_openRows _

theorem keeps_run (native : NativeQuery) : Keeps (Has P) (e.run native) := by
  cases native with
  | selection q => exact e.keeps_scan hP q
  | lookup kind keys => exact e.keeps_lookup hP keys

end Execution

namespace Database

variable {P : Store → Prop}

theorem keeps_executeIn {current : Option Nat} (hP : Store.Deletes P current) (s : Statement)
    (range : Range) (parameters : Parameters) (now : Moment) :
    Keeps (Has P) (execute s range parameters now) := by
  apply keeps_get_bind
  intro d h
  apply keeps_bind (keeps_ofExcept _)
  intro c
  apply keeps_bind (keeps_ofExcept _)
  intro plan
  apply keeps_bind (keeps_ofExcept _)
  intro native
  have compiled : Has P { d with latest := some native } := h
  apply keeps_bind (keeps_set compiled)
  intro _
  apply keeps_bind (keeps_ofExcept _)
  intro _
  apply keeps_bind (keeps_ofExcept _)
  intro isEmpty
  split
  · exact keeps_pure _
  · apply keeps_bind (keeps_ofExcept _)
    intro w
    dsimp only
    split
    · exact keeps_throw _
    · exact Execution.keeps_run _ hP native

theorem remember_shown_on (v : Value) (k : Key) (d : Database) :
    (onWorkspace (Workspace.remember k v false) >>= fun _ =>
      Attempt.ofExcept k.pathText >>= fun _ => pure k).on d =
        (k.pathText.map fun _ => k, { d with workspace :=
          { d.workspace with identities := d.workspace.identities.put k v false } }) := by
  cases k.pathText <;> rfl

theorem keeps_afterPut (mapping : ClassMapping) (v : Value) (k : Key) :
    Keeps (Has P) (do
      match mapping.primary? with
      | none => pure ()
      | some m => do
        let x ← Attempt.ofExcept (m.giveKey k)
        onWorkspace (Workspace.assign v m.name x)
      onWorkspace (Workspace.remember k v false)
      let _ ← Attempt.ofExcept k.pathText
      return k) := by
  have rest : Keeps (Has P) (onWorkspace (Workspace.remember k v false) >>= fun _ =>
      Attempt.ofExcept k.pathText >>= fun _ => pure k) :=
    keeps_bind (keeps_onWorkspace _) fun _ => keeps_bind (keeps_ofExcept _) fun _ => keeps_pure _
  cases mapping.primary? with
  | none => exact rest
  | some m =>
    exact keeps_bind (keeps_ofExcept _) fun _ => keeps_bind (keeps_onWorkspace _) fun _ => rest

theorem keeps_putIn {current : Option Nat} (hP : Store.Writes P current) (v : Value) :
    Keeps (Has P) (put v) := by
  apply keeps_get_bind
  intro d _
  apply keeps_bind (keeps_ofExcept _)
  intro mapping
  apply keeps_bind (keeps_onStore (keeps_recordOf hP.allocate _ _ _ _ _))
  intro r
  apply keeps_get_bind
  intro d' h
  rw [hP.current d'.store h]
  exact keeps_bind (keeps_onStore (hP.put r)) fun k => keeps_afterPut mapping v k

theorem keeps_of_inTransaction {α : Type} {a : Attempt Database α}
    (h : ∀ transaction, Keeps (Has fun s => P s ∧ s.current = transaction) a) : Keeps (Has P) a :=
  ⟨fun d hd => ((h d.store.current).after d ⟨hd, rfl⟩).1⟩

theorem keeps_execute (hP : Store.Edited P) (s : Statement) (range : Range)
    (parameters : Parameters) (now : Moment) : Keeps (Has P) (execute s range parameters now) :=
  keeps_of_inTransaction fun transaction =>
    keeps_executeIn (hP.writes transaction).toDeletes s range parameters now

theorem keeps_put (hP : Store.Edited P) (v : Value) : Keeps (Has P) (put v) :=
  keeps_of_inTransaction fun transaction => keeps_putIn (hP.writes transaction) v

theorem keeps_perform {current : Option Nat} (hP : Store.Deletes P current) {a : DatabaseAction}
    (ha : a.onlyDeletes = true) : Keeps (Has P) a.perform := by
  cases a with
  | register className shape members kind =>
    exact keeps_bind (keeps_register className shape members kind) fun _ => keeps_pure _
  | find className id =>
    exact keeps_bind (keeps_find hP.uncounted className id) fun _ => keeps_pure _
  | execute s range parameters now =>
    exact keeps_bind (keeps_executeIn hP s range parameters now) fun _ => keeps_pure _
  | pull reader rows =>
    exact keeps_bind
      (keeps_zoom (keeps_rowPull hP.uncounted reader) (fun _ hd => hd) fun _ _ _ hp => hp)
      fun _ => keeps_pure _
  | arrange w => exact keeps_modify fun _ hd => hd
  | flush => exact keeps_flush
  | connect => exact keeps_bind keeps_connect fun _ => keeps_pure _
  | close => exact keeps_close
  | _ => cases ha

variable (hP : Store.Stable P)
include hP

theorem has_step {d : Database} (h : d.Has P) (a : DatabaseAction) : (a.step d).Has P := by
  suffices hk : Keeps (Has P) a.perform from hk.after d h
  cases a with
  | put v => exact keeps_bind (keeps_put hP.toEdited v) fun _ => keeps_pure _
  | store a => exact keeps_onStore ⟨fun _ hs => hP.step hs a⟩
  | settle number work => exact keeps_settle hP number work
  | _ =>
    exact keeps_of_inTransaction fun transaction =>
      keeps_perform (hP.writes transaction).toDeletes rfl

theorem has_run {d : Database} (h : d.Has P) (actions : List DatabaseAction) :
    (actions.foldl DatabaseAction.step d).Has P := by
  induction actions generalizing d with
  | nil => exact h
  | cons a rest ih => exact ih (has_step hP h a)

/-- What the store of every new database has, the store of a database that is reached has. -/
theorem Reachable.has {d : Database} (h : d.Reachable)
    (begun : ∀ settings, P (Store.start settings)) : d.Has P := by
  obtain ⟨settings, actions, rfl⟩ := h
  have new : (start settings).Has P := begun settings.storage
  exact has_run hP new actions

end Database

namespace Database.Sound

theorem keeps_put (v : Value) : Keeps Sound (put v) :=
  Database.keeps_put Store.Sound.stable.toEdited v

theorem of_put {d after : Database} {v : Value} {e : Except Fault Key} (h : d.Sound)
    (hput : (put v).on d = (e, after)) : after.Sound :=
  (keeps_put v).of_on h hput

theorem keeps_execute (s : Statement) (range : Range) (parameters : Parameters) (now : Moment) :
    Keeps Sound (execute s range parameters now) :=
  Database.keeps_execute Store.Sound.stable.toEdited s range parameters now

end Database.Sound

theorem Database.Reachable.sound {d : Database} (h : d.Reachable) : d.Sound :=
  Reachable.has Store.Sound.stable h Store.Sound.start

end RecordStore
