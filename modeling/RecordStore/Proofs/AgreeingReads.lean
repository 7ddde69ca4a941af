import RecordStore.Proofs.AgreeingRows

/-!
# Reads that agree

A program reads a database by asking for the object of a key and by executing a statement and going
through all rows. A read has the same answer over databases that are alike but for what a veil
hides, as long as it asks the identity map for no hidden object.
-/

set_option autoImplicit false

namespace RecordStore

open Attempt

/-- The key that a value stands for, as an identity of objects of a class. -/
def Database.keyIn (d : Database) (mapping : ClassMapping) : Value → Except Fault Key
  | .key k => .ok k
  | v => Key.make d.heap none mapping.kind v

/-- What a program reads of a database. -/
inductive Read where
  | find (className : ClassName) (id : Value)
  | query (s : Statement) (range : Range) (parameters : Parameters) (now : Moment)

inductive Answer where
  | number (n : Nat)
  | rows (vs : List Value)

namespace Read

def perform : Read → Attempt Database Answer
  | .find className id => do return .rows (← Database.find? className id).toList
  | .query s range parameters now => do
    match ← Database.execute s range parameters now with
    | .number n => return .number n
    | .nothing => return .rows []
    | .rows rows reader => return .rows (← reader.readAll rows)

def Within (visible : ObjectId → Prop) : Read → Prop
  | .find _ id => id.Within visible
  | .query s _ parameters _ =>
    s.kind ≠ .delete ∧ s.filter.Within visible ∧ ∀ p ∈ parameters, p.2.Within visible

/-- Whether the identity map of a database is asked for the object of a key, to be given out. -/
inductive AsksFor (d : Database) : Read → Key → Prop
  | find {className : ClassName} {id : Value} {mapping : ClassMapping} {k : Key} {r : Record}
      (required : d.registry.require className = .ok mapping) (named : d.keyIn mapping id = .ok k)
      (stored : d.store.find? k = some r)
      (cached : d.settings.query.ignoreCache.isTrue = false) : AsksFor d (.find className id) r.key
  | query {s : Statement} {range : Range} {parameters : Parameters} {now : Moment}
      {rows : Rows Record Value} {reader : RowReader} {after : Database} {r : Record}
      (ran : (Database.execute s range parameters now).on d = (.ok (.rows rows reader), after))
      (cached : reader.form.asksIdentities = true) (given : rows.pending.Gives r) :
      AsksFor d (.query s range parameters now) r.key

end Read

namespace Answer

def Has (v : Value) : Answer → Prop
  | .rows vs => v ∈ vs
  | .number _ => False

def Shows (u : Veil) (answer : Answer) : Prop := ∀ v, answer.Has v → u.Shows v

end Answer

namespace Database

theorem find?_eq (className : ClassName) (id : Value) :
    find? className id = do
      let d ← get
      let mapping ← Attempt.ofExcept (d.registry.require className)
      let k ← Attempt.ofExcept (d.keyIn mapping id)
      let found ← onStore (Store.lookup [some k] d.store.current)
      match found.find? (fun p => p.1.same k) with
      | none => return none
      | some p =>
        let v ← onWorkspace (Workspace.loadWhole mapping p.2 d.settings.query.ignoreCache.isTrue)
        return some v := by
  cases id <;> rfl

variable {u : Veil} {d d' : Database}

theorem AlikeUnder.keyIn_eq (h : d.AlikeUnder u d') (mapping : ClassMapping) {id : Value}
    (hid : id.Within u.visible) : d'.keyIn mapping id = d.keyIn mapping id := by
  have made := Key.make_eq h.workspace.seesAlike none mapping.kind hid
  cases id with
  | key k => rfl
  | _ => exact made

theorem agreesAt_find (h : d.AlikeUnder u d') {className : ClassName} {id : Value}
    (hid : id.Within u.visible)
    (hk : ∀ k, (Read.find className id).AsksFor d k → ¬u.written k) :
    AgreesAt (AlikeUnder u) (fun o => ∀ v ∈ o, u.Shows v) (find? className id) (find? className id)
      d d' := by
  rw [find?_eq]
  refine .get_bind ?_
  rw [h.registry, h.settings, h.store.outside, h.store.outside']
  refine ((agrees_ofExcept fun m hm => hm).starting d d' h).bind fun mapping s t ran hs required =>
    ?_
  obtain ⟨-, rfl⟩ := (on_ofExcept_eq_ok_iff _ _ _ _).mp ran
  rw [h.keyIn_eq mapping hid]
  refine ((agrees_ofExcept fun k hk => hk).starting _ _ hs).bind fun k s t ran hs named => ?_
  obtain ⟨-, rfl⟩ := (on_ofExcept_eq_ok_iff _ _ _ _).mp ran
  have looking := (agrees_onStore (Store.agrees_lookup [some k])).starting _ _ hs
  refine looking.bind fun found s' t' looked hs' within => ?_
  obtain ⟨after, looked, -⟩ := (on_zoom_eq_ok_iff _ _ _ _ _ _).mp looked
  cases first : found.find? (fun p => p.1.same k) with
  | none => exact (agrees_pure nofun).starting s' t' hs'
  | some p =>
    have known := ((Store.lookup_spec looked).2 (some k) (.head _)).1
    rw [Execution.recordOf?, Option.bind_some, Option.bind_some, first] at known
    have stored : d.store.find? k = some p.2 := known.symm
    have plain : d.settings.query.ignoreCache.isTrue = true ∨ ¬u.written p.2.key := by
      cases cached : d.settings.query.ignoreCache.isTrue with
      | true => exact .inl rfl
      | false => exact .inr (hk _ (.find required named stored cached))
    have loads := agrees_onWorkspace (Workspace.agrees_loadWhole
      (within p (List.mem_of_find?_eq_some first))
      (h.mapping_within (Registry.get?_of_require required)) plain)
    refine (agrees_bind loads fun v shown => agrees_pure ?_).starting s' t' hs'
    rintro _ ⟨⟩
    exact shown

/-- Reads have the same answer, unless they ask for the object of a key that is hidden. -/
theorem agreesAt_perform (h : d.AlikeUnder u d') {read : Read} (hw : read.Within u.visible)
    (hk : ∀ k, read.AsksFor d k → ¬u.written k) :
    AgreesAt (AlikeUnder u) (Answer.Shows u) read.perform read.perform d d' := by
  cases read with
  | find className id =>
    refine (agreesAt_find h hw hk).bind fun o s t _ hs shown => ?_
    exact (agrees_pure fun v there => shown v (Option.mem_toList.mp there)).starting s t hs
  | query s range parameters now =>
    obtain ⟨keeps, filter, parameters⟩ := hw
    have executing := (agrees_execute keeps filter parameters range now).starting d d' h
    refine executing.bind fun result d₁ d₁' ran hd opens => ?_
    cases result with
    | number n => exact (agrees_pure fun _ there => there.elim).starting _ _ hd
    | nothing => exact (agrees_pure (List.forall_mem_nil _)).starting _ _ hd
    | rows rows reader =>
      obtain ⟨started, stored, within⟩ := opens
      have spares : reader.Spares u rows.pending :=
        ⟨stored, fun cached r given => hk _ (.query ran cached given)⟩
      have reading := RowReader.agrees_readAll within started spares
      exact (agrees_bind reading fun vs shown => agrees_pure shown).starting _ _ hd

end Database

namespace Store

theorem lookup_one_on {s : Store} (hu : s.IsUp .get) (k : Key) :
    ∃ t, (lookup [some k] none).on s = (.ok ((s.find? k).map fun r => (k, r)).toList, t) := by
  have found : ((s.noted .get none).tick .get).find? k = s.find? k := rfl
  rw [lookup, on_bind_of_ok (enter_on hu none), on_bind_of_ok (on_modify _ _), fetch,
    on_bind_of_ok (on_get _)]
  dsimp only
  rw [found]
  cases s.find? k with
  | none => exact ⟨_, rfl⟩
  | some r => exact ⟨_, rfl⟩

end Store

namespace Database

variable {d : Database} {className : ClassName} {id : Value} {mapping : ClassMapping} {k : Key}

theorem find?_of_holds (sound : d.Sound) (idle : d.store.current = none)
    (cached : d.settings.query.ignoreCache.isTrue = false)
    (required : d.registry.require className = .ok mapping) (named : d.keyIn mapping id = .ok k)
    {r : Record} (stored : d.store.find? k = some r) {v : Value}
    (holds : d.workspace.Holds r.key v) : ((find? className id).on d).1 = .ok (some v) := by
  obtain ⟨t, looked⟩ := Store.lookup_one_on (sound.isUp .get) k
  rw [stored] at looked
  have requested : (onStore (Store.lookup [some k] none)).on d =
      (.ok [(k, r)], { d with store := t }) := by
    rw [onStore, on_zoom, looked]
    rfl
  have loaded : (onWorkspace (Workspace.loadWhole mapping r false)).on { d with store := t } =
      (.ok v, { d with store := t }) := by
    rw [onWorkspace, on_zoom, Workspace.loadWhole_on_of_holds holds]
  have first : [(k, r)].find? (fun p => p.1.same k) = some (k, r) :=
    List.find?_cons_of_pos (Key.same_self k)
  rw [find?_eq, on_bind_of_ok (on_get d), required, on_bind_of_ok (on_ofExcept _ _), named,
    on_bind_of_ok (on_ofExcept _ _), idle, on_bind_of_ok requested, first, cached]
  dsimp only
  rw [on_bind_of_ok loaded, on_pure]

theorem find?_of_missing (sound : d.Sound) (idle : d.store.current = none)
    (required : d.registry.require className = .ok mapping) (named : d.keyIn mapping id = .ok k)
    (missing : d.store.find? k = none) : ((find? className id).on d).1 = .ok none := by
  obtain ⟨t, looked⟩ := Store.lookup_one_on (sound.isUp .get) k
  rw [missing] at looked
  have requested : (onStore (Store.lookup [some k] none)).on d =
    (.ok [], { d with store := t }) := by
    rw [onStore, on_zoom, looked]
    rfl
  rw [find?_eq, on_bind_of_ok (on_get d), required, on_bind_of_ok (on_ofExcept _ _), named,
    on_bind_of_ok (on_ofExcept _ _), idle, on_bind_of_ok requested]
  rfl

end Database

end RecordStore
