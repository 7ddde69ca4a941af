import RecordStore.Proofs.DatabaseRuns
import RecordStore.Proofs.Holding
import RecordStore.Proofs.ObjectMaking
import RecordStore.Proofs.Scanning

/-!
# Puts in a transaction

In a transaction the records of objects are held back, but the objects themselves are set at once
and remembered as those of their keys.
-/

set_option autoImplicit false

namespace RecordStore

open Attempt

namespace Store

/-- Whether a store has come from another one, with the same records, into a transaction that goes
on. -/
structure Buffers (before : Store) (number : Nat) (s : Store) : Prop where
  records : s.records = before.records
  outages : s.outages = before.outages
  current : s.current = some number
  active : ∃ t, s.transaction? number = some t ∧ t.isActive = true

variable {before : Store} {number : Nat}

theorem keeps_buffers_allocate (kind : Text) : Keeps (Buffers before number) (allocate kind) := by
  refine keeps_get_bind fun s h => ?_
  have counted (numbers : List (Text × Nat)) :
    Buffers before number { s with numbers := numbers } :=
    ⟨h.records, h.outages, h.current, h.active⟩
  exact keeps_bind (keeps_set (counted _)) fun _ => keeps_pure _

theorem Buffers.update {s : Store} (h : Buffers before number s) (n : Nat)
    {f : Transaction → Transaction}
    (hf : ∀ t, (f t).number = t.number ∧ (f t).isActive = t.isActive) :
    Buffers before number (s.updateTransaction n f) := by
  obtain ⟨t, found, active⟩ := h.active
  refine ⟨h.records, h.outages, h.current, if t.number = n then f t else t, ?_, ?_⟩
  · rw [transaction?_updateTransaction fun t => (hf t).1, found]
    rfl
  · split
    · exact (hf t).2.trans active
    · exact active

theorem keeps_buffers_put (r : Record) (n : Nat) :
    Keeps (Buffers before number) (put r (some n)) := by
  have hold (r : Record) : Keeps (Buffers before number) (active n >>= fun _ =>
      modify (·.updateTransaction n fun t => { t with puts := insertPut r t.puts }) >>=
        fun _ => pure r.key) :=
    keeps_bind (keeps_active n) fun _ =>
      keeps_bind (keeps_modify fun s h => h.update n fun _ => ⟨rfl, rfl⟩) fun _ => keeps_pure _
  unfold put
  by_cases hi : r.key.id = .unset
  · simp only [if_pos hi, pure_bind]
    exact keeps_bind (keeps_buffers_allocate _) fun _ => hold _
  · simp only [if_neg hi, pure_bind]
    exact hold r

def Numbered (s : Store) : Prop := ∀ t ∈ s.transactions, t.number ≤ s.transactions.length

theorem Numbered.update {s : Store} (h : s.Numbered) (n : Nat) {f : Transaction → Transaction}
    (hf : ∀ t, (f t).number = t.number) : (s.updateTransaction n f).Numbered := by
  intro t ht
  obtain ⟨x, hx, rfl⟩ := List.mem_map.mp ht
  have same : (if x.number = n then f x else x).number = x.number := by
    split
    · exact hf x
    · rfl
  rw [same, updateTransaction, List.length_map]
  exact h x hx

theorem Numbered.stable : Stable Numbered where
  uncounted _ _ _ _ h := h
  write _ _ h := h
  remove _ _ h := h
  number _ _ h := h
  gather _ n _ hf h := h.update n fun t => (hf t).1
  opened s h _ := by
    intro t ht
    show t.number ≤ (s.transactions ++ [_]).length
    rw [List.length_append]
    rcases List.mem_append.mp ht with ht | ht
    · exact Nat.le_succ_of_le (h t ht)
    · rw [List.mem_singleton.mp ht]
      exact Nat.le_refl _
  finish s n h := by
    have ended := h.update n (f := fun t => { t with isActive := false }) fun _ => rfl
    unfold finish
    dsimp only
    split <;> exact ended
  clear _ h := h

theorem begin_on {s : Store} (h : s.Numbered) (hn : s.current = none) :
    ∃ t, begin.on s = (.ok (s.transactions.length + 1), t) ∧
      Buffers s (s.transactions.length + 1) t := by
  let opened : Transaction := ⟨s.transactions.length + 1, true, [], []⟩
  let t : Store := { s with
    transactions := s.transactions ++ [opened], current := some opened.number }
  have begun : begin.on s = (.ok opened.number, t) := by
    simp only [begin, on_bind, on_get, hn]
    rfl
  have unused : s.transactions.find? (fun x => x.number = opened.number) = none := by
    refine List.find?_eq_none.mpr fun x hx same => ?_
    have below := h x hx
    have same : x.number = s.transactions.length + 1 := by simpa using same
    omega
  have found : t.transaction? opened.number = some opened := by
    simp only [transaction?, t, List.find?_append, unused]
    simp
  exact ⟨t, begun, rfl, rfl, rfl, opened, found, rfl⟩

theorem Buffers.rollback_on {s : Store} (h : Buffers before number s) :
    (rollback number).on s = (.ok (), s.finish number) ∧
      (s.finish number).records = before.records ∧ (s.finish number).outages = before.outages ∧
        (s.finish number).current = none := by
  obtain ⟨t, found, active⟩ := h.active
  have finished : s.finish number =
      { s.updateTransaction number (fun t => { t with isActive := false }) with current := none } :=
    if_pos h.current
  refine ⟨?_, ?_, ?_, ?_⟩
  · simp only [rollback, on_bind, on_get, found, active, if_true, on_modify]
  · rw [finished]
    exact h.records
  · rw [finished]
    exact h.outages
  · rw [finished]

end Store

namespace Database

/-- Storing an object, up to where it becomes the object of its key. -/
def enterObject (v : Value) : Attempt Database Key := do
  let d ← get
  let mapping ← Attempt.ofExcept (d.mappingOfValue v)
  let r ← onStore (recordOf d.heap d.registry mapping v .fromStore)
  let k ← onStore (Store.put r (← get).store.current)
  match mapping.primary? with
  | none => pure ()
  | some m => do
    let x ← Attempt.ofExcept (m.giveKey k)
    onWorkspace (Workspace.assign v m.name x)
  return k

theorem put_eq (v : Value) :
    put v = enterObject v >>= fun k => onWorkspace (Workspace.remember k v false) >>= fun _ =>
      Attempt.ofExcept k.pathText >>= fun _ => pure k := by
  simp only [put, enterObject, bind_assoc]
  refine congrArg _ (funext fun d => congrArg _ (funext fun mapping => congrArg _ (funext fun r =>
    congrArg _ (funext fun d' => congrArg _ (funext fun k => ?_)))))
  cases mapping.primary? with
  | none => rfl
  | some m => simp only [bind_assoc, pure_bind]

/-- Whether a database has come from another one into a transaction, with other contents of some
objects at most. -/
structure Buffers (objects : List ObjectId) (before : Database) (number : Nat) (d : Database) :
    Prop where
  settings : d.settings = before.settings
  registry : d.registry = before.registry
  connections : d.connections = before.connections
  scope : d.scope = before.scope
  store : before.store.Buffers number d.store
  size : d.heap.size = before.heap.size
  object : ∀ i, i ∉ objects → d.heap.object i = before.heap.object i

variable {objects : List ObjectId} {before : Database} {number : Nat}

theorem keeps_enterObject {i : ObjectId} (hi : i ∈ objects) (ids : IdentityMap) :
    Keeps (fun d => Buffers objects before number d ∧ d.workspace.identities = ids)
      (enterObject (.object i)) := by
  have store {α : Type} {a : Attempt Store α} (ha : Keeps (before.store.Buffers number) a) :
      Keeps (fun d => Buffers objects before number d ∧ d.workspace.identities = ids)
        (onStore a) :=
    keeps_zoom ha (fun _ h => h.1.store) fun _ _ h hs => ⟨{ h.1 with store := hs }, h.2⟩
  have assign (m : Member) (x : Value) :
      Keeps (fun d => Buffers objects before number d ∧ d.workspace.identities = ids)
        (onWorkspace (Workspace.assign (.object i) m.name x)) := by
    have set : Keeps (fun w : Workspace => w.identities = ids ∧ w.heap.size = before.heap.size ∧
        ∀ j, j ∉ objects → w.heap.object j = before.heap.object j)
        (Workspace.assign (.object i) m.name x) := by
      refine keeps_get_bind fun w _ => ?_
      have changed : Keeps (fun w : Workspace => w.identities = ids ∧
          w.heap.size = before.heap.size ∧
            ∀ j, j ∉ objects → w.heap.object j = before.heap.object j)
          (modify fun w => { w with heap := w.heap.set i m.name x }) := by
        refine keeps_modify fun w ⟨same, size, object⟩ => ⟨same, ?_, fun j hj => ?_⟩
        · exact (Heap.size_set _ _ _ _).trans size
        · have other : j ≠ i := fun same => hj (same ▸ hi)
          exact (Heap.object_set_of_ne _ _ _ other).trans (object j hj)
      split
      · exact keeps_bind (keeps_throw _) fun _ => changed
      · exact changed
    exact keeps_zoom set (fun _ h => ⟨h.2, h.1.size, h.1.object⟩) fun _ _ h hw =>
      ⟨{ h.1 with size := hw.2.1, object := hw.2.2 }, hw.1⟩
  refine keeps_get_bind fun d _ => keeps_bind (keeps_ofExcept _) fun mapping => ?_
  refine keeps_bind (store (keeps_recordOf Store.keeps_buffers_allocate _ _ _ _ _)) fun r => ?_
  refine keeps_get_bind fun d h => ?_
  rw [h.1.store.current]
  refine keeps_bind (store (Store.keeps_buffers_put r number)) fun k => ?_
  cases mapping.primary? with
  | none => exact keeps_pure _
  | some m =>
    exact keeps_bind (keeps_ofExcept _) fun x => keeps_bind (assign m x) fun _ => keeps_pure _

def remembered (ids : IdentityMap) (written : List (Key × ObjectId)) : IdentityMap :=
  written.foldl (fun ids e => ids.put e.1 (.object e.2) false) ids

def storedUnder (i : ObjectId) : Except Fault Key → List (Key × ObjectId)
  | .ok k => [(k, i)]
  | .error _ => []

/-- An object that is stored becomes the object of its key, also if the log cannot show the key, and
one that cannot be stored does not. -/
theorem put_object_on {i : ObjectId} (hi : i ∈ objects) {d : Database}
    (h : Buffers objects before number d) :
    ∃ outcome after, (put (.object i)).on d = (outcome, after) ∧
      Buffers objects before number after ∧
        after.workspace.identities = remembered d.workspace.identities
          (storedUnder i ((enterObject (.object i)).on d).1) := by
  have kept : Keeps (fun t => Buffers objects before number t ∧
      t.workspace.identities = d.workspace.identities) (enterObject (.object i)) :=
    keeps_enterObject hi _
  have entered := kept.after d ⟨h, rfl⟩
  rw [put_eq, on_bind]
  rcases ran : (enterObject (.object i)).on d with ⟨f | k, t⟩ <;> rw [ran] at entered
  · exact ⟨.error f, t, rfl, entered.1, entered.2⟩
  · refine ⟨k.pathText.map fun _ => k, { t with workspace :=
      { t.workspace with identities := t.workspace.identities.put k (.object i) false } }, ?_,
      { entered.1 with }, ?_⟩
    · exact remember_shown_on (.object i) k t
    · show t.workspace.identities.put k (.object i) false = _
      rw [show t.workspace.identities = d.workspace.identities from entered.2]
      rfl

def putEach : List ObjectId → Attempt Database (List (Key × ObjectId))
  | [] => return []
  | i :: rest => do
    let entered := ((enterObject (.object i)).on (← get)).1
    let _ ← (put (.object i)).observing
    let written ← putEach rest
    return storedUnder i entered ++ written

theorem putEach_on {rest : List ObjectId} (hr : ∀ i ∈ rest, i ∈ objects) {d : Database}
    (h : Buffers objects before number d) :
    ∃ written after, (putEach rest).on d = (.ok written, after) ∧
      Buffers objects before number after ∧
        after.workspace.identities = remembered d.workspace.identities written ∧
          ∀ e ∈ written, e.2 ∈ objects := by
  induction rest generalizing d with
  | nil => exact ⟨[], d, rfl, h, rfl, List.forall_mem_nil _⟩
  | cons i rest ih =>
    obtain ⟨hi, hrest⟩ := List.forall_mem_cons.mp hr
    obtain ⟨outcome, t, stored, buffers, one⟩ := put_object_on hi h
    obtain ⟨written, after, others, buffers, all, from_⟩ := ih hrest buffers
    let entered := ((enterObject (.object i)).on d).1
    refine ⟨storedUnder i entered ++ written, after, ?_, buffers, ?_, fun e he => ?_⟩
    · rw [putEach, on_bind_of_ok (on_get d), on_bind, on_observing, stored]
      dsimp only
      rw [on_bind, others]
      rfl
    · rw [all, one, remembered, remembered, remembered, List.foldl_append]
    · rcases List.mem_append.mp he with he | he
      · cases ran : entered with
        | error f =>
          rw [ran] at he
          cases he
        | ok k =>
          rw [ran] at he
          rw [List.mem_singleton.mp he]
          exact hi
      · exact from_ e he

end Database
end RecordStore
