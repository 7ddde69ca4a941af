import RecordStore.Proofs.AgreeingReads
import RecordStore.Proofs.BufferedPuts
import RecordStore.Proofs.FullRows

/-!
# Rolled back transactions

A transaction that is rolled back leaves the records as they were, but the objects that were stored
in it stay the objects of their keys. Reads see nothing of it, unless they ask for such a key.
-/

set_option autoImplicit false

namespace RecordStore

open Attempt

def lastUnder (k : Key) : List (Key × ObjectId) → Option ObjectId
  | [] => none
  | e :: rest => (lastUnder k rest).or (if e.1.same k then some e.2 else none)

namespace Database

theorem remembered_spec (ids : IdentityMap) (written : List (Key × ObjectId)) (k : Key) :
    (remembered ids written).get? k = ((lastUnder k written).map Value.object).or (ids.get? k) ∧
      (remembered ids written).isHollow k =
        ((lastUnder k written).isNone && ids.isHollow k) := by
  induction written generalizing ids with
  | nil => exact ⟨rfl, rfl⟩
  | cons e rest ih =>
    obtain ⟨object, hollow⟩ := ih (ids.put e.1 (.object e.2) false)
    rw [remembered, List.foldl_cons]
    rw [remembered] at object hollow
    rw [object, hollow, IdentityMap.get?_put, IdentityMap.isHollow_put, lastUnder]
    cases lastUnder k rest with
    | some i => exact ⟨rfl, rfl⟩
    | none => by_cases same : e.1.same k = true <;> simp [same]

def rolledBack (objects : List ObjectId) (f : Fault) : Attempt Database (List (Key × ObjectId)) :=
  do
  let number ← onStore Store.begin
  let written ← putEach objects
  let _ ← (settle number (.error f)).observing
  return written

/-- What a transaction leaves of a database, once it is rolled back. -/
structure Restored (objects : List ObjectId) (written : List (Key × ObjectId))
    (before after : Database) : Prop where
  settings : after.settings = before.settings
  registry : after.registry = before.registry
  connections : after.connections = before.connections
  scope : after.scope = before.scope
  records : after.store.records = before.store.records
  outages : after.store.outages = before.store.outages
  outside : after.store.current = none
  size : after.heap.size = before.heap.size
  object : ∀ i, i ∉ objects → after.heap.object i = before.heap.object i
  identities : after.workspace.identities = remembered before.workspace.identities written
  written : ∀ e ∈ written, e.2 ∈ objects

theorem rolledBack_on {d : Database} (h : d.store.Numbered) (hn : d.store.current = none)
    (objects : List ObjectId) (f : Fault) :
    ∃ written after, (rolledBack objects f).on d = (.ok written, after) ∧
      Restored objects written d after := by
  obtain ⟨s, begun, buffers⟩ := Store.begin_on h hn
  have opened : (onStore Store.begin).on d = (.ok (d.store.transactions.length + 1),
      { d with store := s }) := by
    rw [onStore, on_zoom, begun]
  have started : Buffers objects d (d.store.transactions.length + 1) { d with store := s } :=
    ⟨rfl, rfl, rfl, rfl, buffers, rfl, fun _ _ => rfl⟩
  obtain ⟨written, t, stored, held, identities, from_⟩ := putEach_on (fun _ hi => hi) started
  obtain ⟨ended, records, outages, outside⟩ := held.store.rollback_on
  let after : Database := { t with store := t.store.finish (d.store.transactions.length + 1) }
  have settled : (settle (d.store.transactions.length + 1) (.error f)).on t =
      (.error f, after) := by
    simp only [settle, onStore, on_bind, on_zoom, ended]
    rfl
  refine ⟨written, after, ?_, ?_⟩
  · rw [rolledBack, on_bind_of_ok opened, on_bind_of_ok stored, on_bind, on_observing, settled]
    rfl
  · exact ⟨held.settings, held.registry, held.connections, held.scope, records, outages, outside,
      held.size, held.object, identities, from_⟩

/-- Whether some objects are new to a database. The identity map has none of them, and from what is
stored or declared only visible objects are reached, of which they are none. -/
structure IsFresh (d : Database) (objects : List ObjectId) (visible : ObjectId → Prop) : Prop where
  unknown : ∀ k i, d.workspace.identities.get? k = some (.object i) → i ∉ objects
  apart : ∀ i, visible i → i ∉ objects
  /-- Objects that are not made yet are visible. -/
  beyond : ∀ i, d.heap.size ≤ i → visible i
  closed : ∀ i, visible i → ∀ e ∈ (d.heap.object i).attributes, e.2.Within visible
  stored : ∀ r ∈ d.store.records, r.Within visible
  members : ∀ mapping ∈ d.registry.mappings, ∀ m ∈ mapping.members, m.Within visible

variable {d after : Database} {objects : List ObjectId} {visible : ObjectId → Prop}
  {written : List (Key × ObjectId)}

/-- What hides a transaction: its objects, for the keys that they were stored under. -/
def IsFresh.veil (fresh : d.IsFresh objects visible) (written : List (Key × ObjectId)) : Veil where
  hidden i := i ∈ objects
  visible := visible
  written k := lastUnder k written ≠ none
  apart := fresh.apart

theorem IsFresh.alike (fresh : d.IsFresh objects visible) (hn : d.store.current = none)
    (restored : Restored objects written d after) :
    d.AlikeUnder (fresh.veil written) after := by
  have unwritten {k : Key} (hk : ¬(fresh.veil written).written k) : lastUnder k written = none :=
    not_not.mp hk
  refine ⟨restored.settings, restored.registry, restored.connections, restored.scope,
    ⟨restored.records, restored.outages, hn, restored.outside, fresh.stored⟩,
    ⟨restored.size, restored.object, fresh.closed, fresh.beyond, fun k hk => ?_, fun k hk => ?_,
      fun k _ v known i same => fresh.unknown k i (same ▸ known)⟩, fresh.members⟩
  · rw [restored.identities, (remembered_spec _ _ k).1, unwritten hk]
    rfl
  · rw [restored.identities, (remembered_spec _ _ k).2, unwritten hk]
    rfl

theorem IsFresh.not_has (fresh : d.IsFresh objects visible) (hn : d.store.current = none)
    {read : Read} (within : read.Within visible) {answer : Answer}
    (answered : (read.perform.on d).1 = .ok answer) {i : ObjectId} (hi : i ∈ objects) :
    ¬answer.Has (.object i) := by
  have restored : Restored objects [] d d :=
    ⟨rfl, rfl, rfl, rfl, rfl, rfl, hn, rfl, fun _ _ => rfl, rfl, List.forall_mem_nil _⟩
  have alike := fresh.alike hn restored
  intro there
  exact (agreesAt_perform alike within fun k _ written => written rfl).gives answer answered _ there
    i rfl hi

namespace Restored

theorem holds (restored : Restored objects written d after) {k : Key} {i : ObjectId}
    (last : lastUnder k written = some i) : after.workspace.Holds k (.object i) := by
  constructor
  · rw [IdentityMap.object?, restored.identities, (remembered_spec _ _ k).1, last]
    rfl
  · rw [restored.identities, (remembered_spec _ _ k).2, last]
    rfl

theorem sound (restored : Restored objects written d after) (sound : d.Sound) : after.Sound :=
  Store.Sound.congr sound restored.records restored.outages

theorem find?_on (restored : Restored objects written d after) (sound : d.Sound)
    {className : ClassName} {id : Value}
    (named : ∀ mapping, after.keyIn mapping id = d.keyIn mapping id) {k : Key} {i : ObjectId}
    (asks : (Read.find className id).AsksFor d k) (last : lastUnder k written = some i) :
    ((find? className id).on after).1 = .ok (some (.object i)) := by
  cases asks with
  | @find _ _ mapping asked r required key stored cached =>
    refine find?_of_holds (restored.sound sound) restored.outside (restored.settings ▸ cached)
      (restored.registry ▸ required) ((named mapping).trans key) ?_ (restored.holds last)
    rw [Store.find?, restored.records]
    exact stored

theorem has_of_asksFor (restored : Restored objects written d after) (sound : d.Sound)
    {u : Veil} (alike : d.AlikeUnder u after) {read : Read} (within : read.Within u.visible)
    {k : Key} {i : ObjectId} (asks : read.AsksFor d k) (last : lastUnder k written = some i)
    {answer : Answer} (answered : (read.perform.on after).1 = .ok answer) :
    answer.Has (.object i) := by
  have answered : read.perform.on after = (.ok answer, (read.perform.on after).2) :=
    Prod.ext answered rfl
  cases asks with
  | @find className id mapping asked r required key stored cached =>
    have found := restored.find?_on sound (fun mapping => alike.keyIn_eq mapping within)
      (.find required key stored cached) last
    obtain ⟨o, t, ran, answered⟩ := (on_bind_eq_ok_iff _ _ _ _ _).mp answered
    rw [ran] at found
    cases found
    cases answered
    exact .head _
  | @query s range parameters now rows reader _ r ran cached given =>
    obtain ⟨keeps, filter, values⟩ := within
    have executing := (agrees_execute keeps filter values range now).starting d after alike
    obtain ⟨result, t, ran', answered⟩ := (on_bind_eq_ok_iff _ _ _ _ _).mp answered
    have same := executing.outcome
    rw [ran, ran'] at same
    cases same
    obtain ⟨vs, t', read, answered⟩ := (on_bind_eq_ok_iff _ _ _ _ _).mp answered
    cases answered
    have kept :=
      (Sound.keeps_execute s range parameters now).of_on (restored.sound sound) ran'
    exact RowReader.mem_readAll cached (execute_isOpened ran') kept (restored.holds last) given read

end Restored

/-- A transaction in which new objects are stored and that is rolled back leaves the records as they
were. Before it, no read gives out one of these objects. After it, a read that does not ask for the
object of a key that was written has the same answer as before, and leaves all other objects as it
would have left them. But a read that asks for the object of such a key gives out the object that
was stored in the transaction, if it has an answer, and looking for it by its key has one. -/
theorem rolledBack_reads (reached : d.Reachable) (hn : d.store.current = none)
    (fresh : d.IsFresh objects visible) (f : Fault) :
    ∃ written after, (rolledBack objects f).on d = (.ok written, after) ∧
      after.store.records = d.store.records ∧ (∀ e ∈ written, e.2 ∈ objects) ∧
      (∀ read : Read, read.Within visible →
        (∀ answer, (read.perform.on d).1 = .ok answer → ∀ i ∈ objects, ¬answer.Has (.object i)) ∧
        ((∀ k, read.AsksFor d k → lastUnder k written = none) →
          (read.perform.on after).1 = (read.perform.on d).1 ∧
          ∀ i, i ∉ objects →
            (read.perform.on after).2.heap.object i = (read.perform.on d).2.heap.object i) ∧
        ∀ k i, read.AsksFor d k → lastUnder k written = some i →
          ∀ answer, (read.perform.on after).1 = .ok answer → answer.Has (.object i)) ∧
      ∀ className id, id.Within visible → ∀ k i, (Read.find className id).AsksFor d k →
        lastUnder k written = some i → ((find? className id).on after).1 =
          .ok (some (.object i)) := by
  have numbered : d.store.Numbered :=
    Reachable.has Store.Numbered.stable reached fun _ => List.forall_mem_nil _
  obtain ⟨written, after, ran, restored⟩ := rolledBack_on numbered hn objects f
  have alike := fresh.alike hn restored
  refine ⟨written, after, ran, restored.records, restored.written, fun read within => ⟨?_, ?_, ?_⟩,
    fun className id within k i asks last => ?_⟩
  · exact fun answer answered i hi => fresh.not_has hn within answered hi
  · intro unwritten
    obtain ⟨outcome, state, -⟩ :=
      agreesAt_perform alike within fun k asks => not_not.mpr (unwritten k asks)
    exact ⟨outcome, state.workspace.object⟩
  · exact fun k i asks last answer answered =>
      restored.has_of_asksFor reached.sound alike within asks last answered
  · exact restored.find?_on reached.sound (fun mapping => alike.keyIn_eq mapping within) asks last

def authorShape : Shape := ⟨"Author", [("id", false), ("name", false)]⟩

def annRecord : Record := ⟨.root "Author" (.number 1), [("name", .text "Ann")]⟩

def annAndBob : Database :=
  List.foldl DatabaseAction.step (start .default)
    [.register (.record "Author") authorShape
        [.plain ⟨"id", .integer, true, false, none, none, false, false⟩,
          .plain ⟨"name", .text, false, false, none, none, false, false⟩] none,
      .store (.put annRecord none),
      .arrange ⟨⟨[⟨authorShape, [("id", .integer 1), ("name", .text "Bob")]⟩]⟩, .empty⟩]

theorem annAndBob_isFresh : annAndBob.IsFresh [0] (· ≠ 0) where
  unknown _ _ h := by cases h
  apart i hi := by simpa using hi
  beyond i hi := Nat.pos_iff_ne_zero.mp hi
  closed i hi e he := by
    obtain ⟨j, rfl⟩ := Nat.exists_eq_succ_of_ne_zero hi
    cases he
  stored := List.forall_mem_singleton.mpr (List.forall_mem_singleton.mpr trivial)
  members := by
    refine List.forall_mem_singleton.mpr (List.forall_mem_cons.mpr ⟨trivial, ?_⟩)
    exact List.forall_mem_singleton.mpr trivial

/-- Bob is found in the place of Ann, who was found before. -/
theorem rolledBack_reads_author :
    ∃ written after, (rolledBack [0] (.external "boom")).on annAndBob = (.ok written, after) ∧
      ((find? (.record "Author") (.integer 1)).on after).1 = .ok (some (.object 0)) ∧
      after.heap.get? 0 "name" = some (.text "Bob") ∧
      ∃ found d, (find? (.record "Author") (.integer 1)).on annAndBob = (.ok (some found), d) ∧
        d.heap.attribute? "name" found = some (.text "Ann") := by
  have reached : annAndBob.Reachable := ⟨_, _, rfl⟩
  obtain ⟨written, after, ran, -, -, -, finds⟩ :=
    rolledBack_reads reached rfl annAndBob_isFresh (.external "boom")
  have computed : ∃ t, (rolledBack [0] (.external "boom")).on annAndBob =
      (.ok [(.root "Author" (.number 1), 0)], t) ∧ t.heap.get? 0 "name" = some (.text "Bob") :=
    ⟨_, rfl, rfl⟩
  obtain ⟨t, stored, named⟩ := computed
  cases ran.symm.trans stored
  have asks : (Read.find (.record "Author") (.integer 1)).AsksFor annAndBob annRecord.key :=
    .find rfl rfl rfl rfl
  have found := finds (.record "Author") (.integer 1) trivial _ 0 asks rfl
  exact ⟨_, _, ran, found, named, _, _, rfl, rfl⟩

end Database
end RecordStore
