import RecordStore.Proofs.DatabaseRuns
import RecordStore.Proofs.Holding
import RecordStore.Proofs.LookingUp
import RecordStore.Proofs.NamedEntries
import RecordStore.Proofs.ObjectMaking

/-!
# Numbers that were given out

The store counts the numbers that it gives out for each kind, and gives out none twice. It does not
look at the keys that objects are given by their program. So a number is new among the records
unless an object was put under a key with it.
-/

set_option autoImplicit false

namespace RecordStore

open Attempt

namespace Store

def lastNumber (s : Store) (kind : Text) : Nat := (lookupName kind s.numbers).getD 0

def numbered (s : Store) (kind : Text) : Store :=
  { s with numbers := assignName kind (s.lastNumber kind + 1) s.numbers }

def nextKey (s : Store) (parent : Option Key) (kind : Text) : Key :=
  Key.under parent kind (.number (s.lastNumber kind + 1 : Nat))

/-- Whether the number of a key was given out. -/
def Gave (s : Store) (k : Key) : Prop := ∃ n : Nat, k.id = .number n ∧ n ≤ s.lastNumber k.kind

theorem lastNumber_numbered (s : Store) (kind other : Text) :
    (s.numbered kind).lastNumber other =
      if kind = other then s.lastNumber kind + 1 else s.lastNumber other := by
  rw [lastNumber, numbered, lookupName_assignName]
  split <;> rfl

theorem Gave.numbered {s : Store} {k : Key} (h : s.Gave k) (kind : Text) :
    (s.numbered kind).Gave k := by
  obtain ⟨n, hn, hle⟩ := h
  refine ⟨n, hn, ?_⟩
  rw [lastNumber_numbered]
  split
  · rename_i same
    rw [same]
    omega
  · exact hle

theorem kind_nextKey (s : Store) (parent : Option Key) (kind : Text) :
    (s.nextKey parent kind).kind = kind := by
  cases parent <;> rfl

theorem id_nextKey (s : Store) (parent : Option Key) (kind : Text) :
    (s.nextKey parent kind).id = .number (s.lastNumber kind + 1 : Nat) := by
  cases parent <;> rfl

theorem gave_nextKey (s : Store) (parent : Option Key) (kind : Text) :
    (s.numbered kind).Gave (s.nextKey parent kind) := by
  refine ⟨s.lastNumber kind + 1, s.id_nextKey parent kind, ?_⟩
  rw [kind_nextKey, lastNumber_numbered, if_pos rfl]

theorem Gave.not_same_nextKey {s : Store} {k : Key} (h : s.Gave k) (parent : Option Key)
    (kind : Text) : k.same (s.nextKey parent kind) = false := by
  obtain ⟨n, hn, hle⟩ := h
  refine Bool.eq_false_iff.mpr fun same => ?_
  have kinds := Key.kind_eq_of_same same
  have ids := congrArg Key.id ((Key.same_iff _ _).mp same)
  have normal (k : Key) : k.normal.id = k.id.normal := by cases k <;> rfl
  rw [normal, normal, hn, id_nextKey] at ids
  rw [kind_nextKey] at kinds
  have numbers : (n : Int) = (s.lastNumber kind + 1 : Nat) := Identity.number.inj ids
  rw [kinds] at hle
  omega

theorem put_unset_on {r : Record} (h : r.key.id = .unset) (s : Store) :
    (put r none).on s =
      (.ok (s.nextKey r.key.parent? r.key.kind),
        (s.numbered r.key.kind).write ⟨s.nextKey r.key.parent? r.key.kind, r.properties⟩) := by
  rw [put, if_pos h]
  rfl

/-- What an object that is put can do to a store. The key that it was given by its program, if it
was given any, is known. -/
inductive Enters (s : Store) (stated : Option Key) : Store → Prop
  | nothing : s.Enters stated s
  | number (kind : Text) : s.Enters stated (s.numbered kind)
  | stated (r : Record) (h : stated = some r.key) : s.Enters stated (s.write r)
  | fresh (r : Record) (parent : Option Key) (kind : Text) (h : r.key = s.nextKey parent kind) :
    s.Enters stated ((s.numbered kind).write r)

/-- Whether every record has a number that was given out, or one of some keys. -/
structure Covers (keys : List Key) (s : Store) : Prop where
  idle : s.current = none
  record : ∀ r ∈ s.records, r.key ∈ keys ∨ s.Gave r.key

namespace Covers

variable {keys : List Key} {s t : Store}

theorem start (settings : StorageSettings) : Covers [] (Store.start settings) :=
  ⟨rfl, List.forall_mem_nil _⟩

theorem deletes (keys : List Key) : Deletes (Covers keys) none where
  uncounted _ _ _ _ h := ⟨h.idle, h.record⟩
  current _ h := h.idle
  delete deleted := Uncounted.keeps_delete (fun _ _ _ _ h => ⟨h.idle, h.record⟩)
    (fun _ _ h => ⟨h.idle, fun r hr => h.record r (List.mem_filter.mp hr).1⟩) deleted

theorem numbered (h : Covers keys s) (kind : Text) : Covers keys (s.numbered kind) :=
  ⟨h.idle, fun r hr => (h.record r hr).imp_right fun gave => gave.numbered kind⟩

theorem write (h : Covers keys s) {r : Record} (hr : r.key ∈ keys ∨ s.Gave r.key) :
    Covers keys (s.write r) := by
  refine ⟨h.idle, fun x hx => ?_⟩
  rcases mem_insert hx with rfl | hx
  · exact hr
  · exact h.record x hx

theorem mono (h : Covers keys s) {more : List Key} (hm : keys ⊆ more) : Covers more s :=
  ⟨h.idle, fun r hr => (h.record r hr).imp_left fun known => hm known⟩

theorem enters (h : Covers keys s) {stated : Option Key} (ht : s.Enters stated t) :
    Covers (keys ++ stated.toList) t := by
  have more := h.mono (List.subset_append_left keys stated.toList)
  cases ht with
  | nothing => exact more
  | number kind => exact more.numbered kind
  | stated r hr =>
    subst hr
    exact more.write (.inl (List.mem_append_right _ (List.mem_singleton_self _)))
  | fresh r parent kind hr =>
    exact (more.numbered kind).write (.inr (hr ▸ s.gave_nextKey parent kind))

theorem mem_of_same_nextKey (h : Covers keys s) {r : Record} (hr : r ∈ s.records)
    {parent : Option Key} {kind : Text} (same : r.key.same (s.nextKey parent kind) = true) :
    r.key ∈ keys := by
  refine (h.record r hr).resolve_right fun gave => ?_
  rw [gave.not_same_nextKey] at same
  cases same

end Covers
end Store

theorem recordKey_cases (h : Heap) (registry : Registry) (mapping : ClassMapping) (v : Value)
    (s : Store) :
    (∃ key, ∀ numbering, (recordKey h registry mapping v numbering).on s = (key, s)) ∨
      ∃ parent, (recordKey h registry mapping v .fromStore).on s =
        (.ok (s.nextKey parent mapping.kind), s.numbered mapping.kind) := by
  simp only [recordKey, on_bind, on_ofExcept]
  cases h.parentOf registry mapping v with
  | error f => exact .inl ⟨.error f, fun _ => rfl⟩
  | ok parent =>
    dsimp only
    generalize (mapping.primary?.map fun m => (h.valueUnder m.name v, m.traits.isEncoded)).getD
      (.null, false) = given
    obtain ⟨w, encoded⟩ := given
    cases w with
    | null => exact .inr ⟨parent, rfl⟩
    | key k => exact .inl ⟨.ok k, fun _ => rfl⟩
    | text t =>
      cases encoded with
      | true => exact .inl ⟨_, fun _ => Attempt.on_ofExcept _ s⟩
      | false => exact .inl ⟨_, fun _ => Attempt.on_ofExcept _ s⟩
    | _ => exact .inl ⟨_, fun _ => Attempt.on_ofExcept _ s⟩

theorem recordKey_unkeyed_on {h : Heap} {registry : Registry} {mapping : ClassMapping} {v : Value}
    {parent : Option Key}
    (unkeyed : ∀ m, mapping.primary? = some m → h.valueUnder m.name v = .null)
    (below : h.parentOf registry mapping v = .ok parent) (s : Store) :
    (recordKey h registry mapping v .fromStore).on s =
      (.ok (s.nextKey parent mapping.kind), s.numbered mapping.kind) := by
  have given : ∃ encoded, (mapping.primary?.map fun m =>
      (h.valueUnder m.name v, m.traits.isEncoded)).getD (.null, false) = (.null, encoded) := by
    cases hp : mapping.primary? with
    | none => exact ⟨false, rfl⟩
    | some m => exact ⟨m.traits.isEncoded, by rw [← unkeyed m hp]; rfl⟩
  obtain ⟨encoded, given⟩ := given
  rw [recordKey, below, on_bind_of_ok (Attempt.on_ofExcept (.ok parent) s)]
  simp only [given]
  rfl

namespace Database

/-- The key that an object is given by its program. One with an open identity is none yet. -/
def statedKey? (d : Database) (v : Value) : Option Key :=
  match d.mappingOfValue v with
  | .error _ => none
  | .ok mapping =>
    match ((recordKey d.heap d.registry mapping v .leftOpen).on d.store).1 with
    | .error _ => none
    | .ok k => if k.id = .unset then none else some k

theorem recordOf_enters {d : Database} {v : Value} {mapping : ClassMapping}
    (hm : d.mappingOfValue v = .ok mapping) {outcome : Except Fault Record} {t : Store}
    (h : (recordOf d.heap d.registry mapping v .fromStore).on d.store = (outcome, t)) :
    d.store.Enters (d.statedKey? v) t ∧
      ∀ r, outcome = .ok r → d.store.Enters (d.statedKey? v) ((Store.put r none).on t).2 := by
  rw [recordOf, on_bind] at h
  -- the object has its key, or a number is used up, also if its properties then fail
  rcases recordKey_cases d.heap d.registry mapping v d.store with ⟨key, hk⟩ | ⟨parent, hk⟩
  · rw [hk .fromStore] at h
    cases key with
    | error f =>
      cases h
      exact ⟨.nothing, nofun⟩
    | ok k =>
      simp only [on_bind, on_ofExcept] at h
      cases hp : d.heap.propertiesOf mapping v with
      | error f =>
        rw [hp] at h
        cases h
        exact ⟨.nothing, nofun⟩
      | ok properties =>
        rw [hp] at h
        cases h
        refine ⟨.nothing, fun r hr => ?_⟩
        obtain rfl := Except.ok.inj hr
        by_cases hi : k.id = .unset
        · rw [Store.put_unset_on hi]
          exact .fresh _ k.parent? k.kind rfl
        · rw [Store.put_none_on hi]
          refine .stated _ ?_
          simp only [statedKey?, hm, hk .leftOpen, if_neg hi]
  · rw [hk] at h
    simp only [on_bind, on_ofExcept] at h
    cases hp : d.heap.propertiesOf mapping v with
    | error f =>
      rw [hp] at h
      cases h
      exact ⟨.number _, nofun⟩
    | ok properties =>
      rw [hp] at h
      cases h
      refine ⟨.number _, fun r hr => ?_⟩
      obtain rfl := Except.ok.inj hr
      have numbered : (d.store.nextKey parent mapping.kind).id ≠ .unset := by
        rw [Store.id_nextKey]
        nofun
      rw [Store.put_none_on numbered]
      exact .fresh _ parent mapping.kind rfl

theorem put_enters {d : Database} (idle : d.store.current = none) (v : Value) :
    d.store.Enters (d.statedKey? v) ((put v).on d).2.store := by
  rw [put, on_bind_of_ok (on_get d), on_bind, on_ofExcept]
  cases hm : d.mappingOfValue v with
  | error f => exact .nothing
  | ok mapping =>
    dsimp only
    rw [on_bind, onStore, on_zoom]
    rcases made : (recordOf d.heap d.registry mapping v .fromStore).on d.store with ⟨f | r, t⟩
    · exact (recordOf_enters hm made).1
    · have entered := (recordOf_enters hm made).2 r rfl
      have still : t.current = none :=
        (keeps_recordOf (P := fun s => s.current = none) (fun _ => ⟨fun _ h => h⟩)
          d.heap d.registry mapping v .fromStore).of_on idle made
      dsimp only
      rw [on_bind_of_ok (on_get _), on_bind, onStore, on_zoom]
      rw [still]
      rcases written : (Store.put r none).on t with ⟨f | k, u⟩
      · rw [written] at entered
        exact entered
      · rw [written] at entered
        exact (keeps_afterPut (P := d.store.Enters (d.statedKey? v)) mapping v k).after _ entered

def statedBy (d : Database) : DatabaseAction → List Key
  | .put v => (d.statedKey? v).toList
  | _ => []

def statedKeys : Database → List DatabaseAction → List Key
  | _, [] => []
  | d, a :: rest => d.statedBy a ++ statedKeys (a.step d) rest

end Database

def DatabaseAction.isOfObjects : DatabaseAction → Bool
  | .store _ | .settle _ _ => false
  | _ => true

namespace Database

theorem covers_step {keys : List Key} {d : Database} (h : d.store.Covers keys) {a : DatabaseAction}
    (ha : a.isOfObjects = true) : (a.step d).store.Covers (keys ++ d.statedBy a) := by
  have others (only : a.onlyDeletes = true) (none_stated : d.statedBy a = []) :
      (a.step d).store.Covers (keys ++ d.statedBy a) := by
    rw [none_stated, List.append_nil]
    exact (keeps_perform (Store.Covers.deletes keys) only).after d h
  cases a with
  | put v =>
    have entered := put_enters h.idle v
    have stepped : (DatabaseAction.step d (.put v)).store = ((put v).on d).2.store := by
      rw [DatabaseAction.step, DatabaseAction.perform, on_bind]
      rcases (put v).on d with ⟨f | k, after⟩ <;> rfl
    rw [stepped]
    exact h.enters entered
  | store a => cases ha
  | settle number work => cases ha
  | _ => exact others rfl rfl

theorem covers_run {keys : List Key} {d : Database} (h : d.store.Covers keys)
    {actions : List DatabaseAction} (ha : ∀ a ∈ actions, a.isOfObjects = true) :
    (actions.foldl DatabaseAction.step d).store.Covers (keys ++ d.statedKeys actions) := by
  induction actions generalizing keys d with
  | nil => rwa [statedKeys, List.append_nil]
  | cons a rest ih =>
    obtain ⟨first, others⟩ := List.forall_mem_cons.mp ha
    rw [statedKeys, ← List.append_assoc]
    exact ih (covers_step h first) others

theorem recordOf_unkeyed_on {d : Database} {v : Value} {mapping : ClassMapping}
    {parent : Option Key} {properties : List (Text × Value)}
    (unkeyed : ∀ m, mapping.primary? = some m → d.heap.valueUnder m.name v = .null)
    (below : d.heap.parentOf d.registry mapping v = .ok parent)
    (stored : d.heap.propertiesOf mapping v = .ok properties) (s : Store) :
    (recordOf d.heap d.registry mapping v .fromStore).on s =
      (.ok ⟨s.nextKey parent mapping.kind, properties⟩, s.numbered mapping.kind) := by
  rw [recordOf, on_bind_of_ok (recordKey_unkeyed_on unkeyed below s), stored]
  rfl

theorem put_on_of_written {d : Database} {i : ObjectId} {mapping : ClassMapping} {r : Record}
    {s t : Store} {k : Key} (mapped : d.mappingOfValue (.object i) = .ok mapping)
    (plain : (d.heap.object i).isKey = false)
    (made : (recordOf d.heap d.registry mapping (.object i) .fromStore).on d.store = (.ok r, s))
    (written : (Store.put r s.current).on s = (.ok k, t)) :
    ∃ after, (put (.object i)).on d = (k.pathText.map fun _ => k, after) ∧ after.store = t := by
  have assigned (m : Member) :
      (Workspace.assign (.object i) m.name (m.keyValue k)).on d.workspace =
        (.ok (), { d.workspace with heap := d.heap.set i m.name (m.keyValue k) }) := by
    refine Workspace.assign_on _ fun shape => ?_
    rw [Object.isKey, show (d.heap.object i).shape = .ofKey from shape] at plain
    cases plain
  have mapped_on : (Attempt.ofExcept (d.mappingOfValue (.object i))).on d = (.ok mapping, d) := by
    rw [mapped, Attempt.on_ofExcept]
  have made_on : (onStore (recordOf d.heap d.registry mapping (.object i) .fromStore)).on d =
      (.ok r, { d with store := s }) := by
    rw [onStore, on_zoom, made]
  have written_on : (onStore (Store.put r s.current)).on { d with store := s } =
      (.ok k, { d with store := t }) := by
    rw [onStore, on_zoom, written]
  rw [put, on_bind_of_ok (on_get d), on_bind_of_ok mapped_on, on_bind_of_ok made_on,
    on_bind_of_ok (on_get _), on_bind_of_ok written_on]
  cases mapping.primary? with
  | none => exact ⟨_, remember_shown_on _ k _, rfl⟩
  | some m =>
    have assigned_on : (onWorkspace (Workspace.assign (.object i) m.name (m.keyValue k))).on
        { d with store := t } = (.ok (), { d with
          store := t, workspace :=
            { d.workspace with heap := d.heap.set i m.name (m.keyValue k) } }) := by
      rw [onWorkspace, on_zoom, assigned m]
    dsimp only
    cases given : m.giveKey k with
    | error f =>
      rw [on_bind, on_ofExcept, Member.map_pathText_of_giveKey given]
      exact ⟨_, rfl, rfl⟩
    | ok x =>
      obtain rfl := Member.keyValue_of_giveKey given
      rw [on_bind_of_ok (on_ofExcept _ _), on_bind_of_ok assigned_on]
      exact ⟨_, remember_shown_on _ k _, rfl⟩

/-- An object without a primary key is put under the key with the next number of its kind, which is
given back if the log can show it. A record is there already only if an object with that key was put
before; then the record is replaced. All other records stay as they are. -/
theorem put_unkeyed {settings : Settings} {actions : List DatabaseAction}
    (used : ∀ a ∈ actions, a.isOfObjects = true) {d : Database}
    (run : d = actions.foldl DatabaseAction.step (start settings)) {i : ObjectId}
    {mapping : ClassMapping} {parent : Option Key} {properties : List (Text × Value)}
    (mapped : d.mappingOfValue (.object i) = .ok mapping)
    (plain : (d.heap.object i).isKey = false)
    (unkeyed : ∀ m, mapping.primary? = some m → d.heap.valueUnder m.name (.object i) = .null)
    (below : d.heap.parentOf d.registry mapping (.object i) = .ok parent)
    (stored : d.heap.propertiesOf mapping (.object i) = .ok properties) :
    ∃ after,
      let k := d.store.nextKey parent mapping.kind
      (put (.object i)).on d = (k.pathText.map fun _ => k, after) ∧
        (∀ r ∈ d.store.records, r.key.same k = true →
          r.key ∈ (start settings).statedKeys actions) ∧
        (∀ r ∈ d.store.records, r.key.same k = false → r ∈ after.store.records) ∧
        after.store.find? k = some ⟨k, properties⟩ := by
  have sound : d.Sound := Reachable.sound ⟨settings, actions, run⟩
  have covers : d.store.Covers ((start settings).statedKeys actions) := by
    have covered := covers_run (d := start settings) (Store.Covers.start settings.storage) used
    rwa [← run] at covered
  have made := recordOf_unkeyed_on unkeyed below stored d.store
  let k := d.store.nextKey parent mapping.kind
  let r : Record := ⟨k, properties⟩
  have numbered : r.key.id ≠ .unset := by
    rw [show r.key = k from rfl, Store.id_nextKey]
    nofun
  have idle : (d.store.numbered mapping.kind).current = none := covers.idle
  have written := Store.put_none_on numbered (d.store.numbered mapping.kind)
  rw [← idle] at written
  obtain ⟨after, put_on, left⟩ := put_on_of_written mapped plain made written
  refine ⟨after, put_on, fun x hx same => covers.mem_of_same_nextKey hx same, fun x hx other => ?_,
    ?_⟩
  · rw [left]
    exact Store.mem_insert_of_not_same hx other
  · rw [left]
    exact Store.find?_of_mem (Store.insert_apart sound.apart) (Store.mem_insert_self r _)
      (Key.same_self k)

def annStated : List DatabaseAction :=
  [.register (.record "Author") ⟨"Author", [("id", false), ("name", false)]⟩
      [.plain ⟨"id", .integer, true, false, none, none, false, false⟩,
        .plain ⟨"name", .text, false, false, none, none, false, false⟩] none,
    .arrange ⟨⟨[⟨⟨"Author", [("id", false), ("name", false)]⟩,
          [("id", .integer 1), ("name", .text "Ann")]⟩,
        ⟨⟨"Author", [("id", false), ("name", false)]⟩,
          [("id", .null), ("name", .text "Bob")]⟩]⟩, .empty⟩,
    .put (.object 0)]

/-- Bob gets the number that Ann has, and his record takes the place of hers. -/
theorem put_unkeyed_replacing :
    let d := annStated.foldl DatabaseAction.step (start .default)
    let k : Key := .root "Author" (.number 1)
    d.store.find? k = some ⟨k, [("name", .text "Ann")]⟩ ∧
      k ∈ (start .default).statedKeys annStated ∧
      ∃ after, (put (.object 1)).on d = (.ok k, after) ∧
        after.store.find? k = some ⟨k, [("name", .text "Bob")]⟩ := by
  intro d k
  have unkeyed : ∀ m, (⟨.record "Author", ⟨"Author", [("id", false), ("name", false)]⟩, "Author",
      [.plain ⟨"id", .integer, true, false, none, none, false, false⟩,
        .plain ⟨"name", .text, false, false, none, none, false, false⟩]⟩ :
        ClassMapping).primary? = some m → d.heap.valueUnder m.name (.object 1) = .null := by
    intro m hm
    cases hm
    rfl
  obtain ⟨after, put_on, stated, -, found⟩ :=
    @put_unkeyed .default annStated (by decide) d rfl 1 _ none [("name", .text "Bob")] rfl rfl
      unkeyed rfl rfl
  have short : k.IsShort := k.pathText_isOk_iff.mp ⟨_, rfl⟩
  exact ⟨rfl, stated ⟨k, [("name", .text "Ann")]⟩ (List.mem_singleton_self _) rfl, after,
    put_on.trans (congrArg (·, after) (Key.map_pathText short k)), found⟩

end Database
end RecordStore
