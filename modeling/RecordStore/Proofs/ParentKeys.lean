import RecordStore.Proofs.DatabaseRuns
import RecordStore.Proofs.Holding
import RecordStore.Proofs.ObjectMaking

/-!
# Keys of parents

An object that refers to its parent is stored below the key of the parent, whatever lies above the
parent itself.
-/

set_option autoImplicit false

namespace RecordStore

open Attempt

namespace Heap

variable {h : Heap} {registry : Registry}

theorem keyAt_eq_key {depth : Nat} {mapping : ClassMapping} {v x : Value} {pk : Member}
    (hp : mapping.primary? = some pk) (hw : h.valueUnder pk.name v ≠ .null)
    (hx : h.keyAt registry depth mapping v = .ok x) : ∃ k, x = .key k := by
  cases depth with
  | zero => cases hx
  | succ depth =>
    simp only [keyAt, hp] at hx
    split at hx
    · contradiction
    · cases hx
      exact ⟨_, rfl⟩
    · rename_i t _ _
      cases ht : Key.ofToken t with
      | error f =>
        rw [ht] at hx
        cases hx
      | ok k =>
        rw [ht] at hx
        cases hx
        exact ⟨k, rfl⟩
    · obtain ⟨parent, -, hx⟩ := (bind_eq_ok_iff _ _ _).mp hx
      obtain ⟨k, -, hx⟩ := (bind_eq_ok_iff _ _ _).mp hx
      cases hx
      exact ⟨k, rfl⟩

theorem findSome?_parentIn?_of_null {own : List Value} (ho : ∀ x ∈ own, x = .null)
    {given : List Value} {k : Key} (hg : ∀ x ∈ given, x = .key k) (hne : given ≠ []) :
    (own ++ given).findSome? parentIn? = some (.ok k) := by
  have none_own : own.findSome? parentIn? = none := by
    rw [List.findSome?_eq_none_iff]
    intro x hx
    rw [ho x hx]
    rfl
  rw [List.findSome?_append, none_own]
  cases given with
  | nil => exact absurd rfl hne
  | cons x rest =>
    obtain rfl := hg x (.head _)
    rfl

end Heap

namespace Database

/-- An object without a key whose parent is the object that one of its members refers to. -/
structure RefersUp (d : Database) (i j : ObjectId) (mapping above : ClassMapping) (r : Member) :
    Prop where
  mapped : d.mappingOfValue (.object i) = .ok mapping
  above_mapped : d.mappingOfValue (.object j) = .ok above
  above_record : (d.heap.object j).isKey = false
  found : Member.find? r.name mapping.members = some r
  related : r.traits.related = some (d.heap.classOf (.object j))
  provides : r.traits.providesParent = true
  only_provider : ∀ x ∈ mapping.members,
    x.traits.related.isSome = true → x.traits.providesParent = true → x = r
  refers : d.heap.valueUnder r.name (.object i) = .object j
  unidentified : ∀ x, mapping.primary? = some x → d.heap.valueUnder x.name (.object i) = .null
  unparented : ∀ x, mapping.parent? = some x → d.heap.valueUnder x.name (.object i) = .null

namespace RefersUp

variable {d : Database} {i j : ObjectId} {mapping above : ClassMapping} {r : Member}

theorem get?_eq (h : d.RefersUp i j mapping above r) :
    d.registry.get? (d.heap.classOf (.object i)) = some mapping :=
  Registry.get?_of_require h.mapped

theorem get?_above (h : d.RefersUp i j mapping above r) :
    d.registry.get? (d.heap.classOf (.object j)) = some above :=
  Registry.get?_of_require h.above_mapped

theorem ne (h : d.RefersUp i j mapping above r) {pk : Member} (hp : above.primary? = some pk)
    (hw : d.heap.valueUnder pk.name (.object j) ≠ .null) : j ≠ i := by
  rintro rfl
  have one : mapping = above := Except.ok.inj (h.mapped.symm.trans h.above_mapped)
  exact hw (h.unidentified pk (one ▸ hp))

theorem parentValues_spec (h : d.RefersUp i j mapping above r)
    {keyOf : ClassMapping → Value → Except Fault Value} {ms : List Member}
    (hms : ∀ x ∈ ms, x ∈ mapping.members) {vs : List Value}
    (hv : d.heap.parentValues d.registry keyOf (.object i) ms = .ok vs) :
    (∀ x ∈ vs, keyOf above (.object j) = .ok x) ∧ (r ∈ ms → vs ≠ []) := by
  induction ms generalizing vs with
  | nil =>
    cases hv
    simp
  | cons m rest ih =>
    obtain ⟨hm, hrest⟩ := List.forall_mem_cons.mp hms
    rw [Heap.parentValues] at hv
    split at hv
    · rename_i className hrel hprov
      have one : m = r := h.only_provider m hm (by rw [hrel]; rfl) hprov
      subst one
      obtain rfl : d.heap.classOf (.object j) = className :=
        Option.some.inj (h.related.symm.trans hrel)
      rw [h.refers] at hv
      obtain ⟨found, hfound, hv⟩ := (bind_eq_ok_iff _ _ _).mp hv
      obtain rfl : above = found := Except.ok.inj (h.above_mapped.symm.trans hfound)
      obtain ⟨first, hfirst, hv⟩ := (bind_eq_ok_iff _ _ _).mp hv
      obtain ⟨others, hothers, hv⟩ := (bind_eq_ok_iff _ _ _).mp hv
      cases hv
      have known := (ih hrest hothers).1
      exact ⟨List.forall_mem_cons.mpr ⟨hfirst, known⟩, fun _ => List.cons_ne_nil _ _⟩
    · rename_i hno
      obtain ⟨known, some⟩ := ih hrest hv
      refine ⟨known, fun hr => ?_⟩
      rcases List.mem_cons.mp hr with rfl | hr
      · exact absurd h.provides (hno _ h.related)
      · exact some hr

theorem parentOf_eq (h : d.RefersUp i j mapping above r) {pk : Member}
    (hp : above.primary? = some pk) (hw : d.heap.valueUnder pk.name (.object j) ≠ .null)
    {o : Option Key} (ho : d.heap.parentOf d.registry mapping (.object i) = .ok o) :
    ∃ k, o = some k ∧
      d.heap.keyAt d.registry (d.heap.maxDepth d.registry) above (.object j) = .ok (.key k) := by
  obtain ⟨given, hgiven, ho⟩ := (bind_eq_ok_iff _ _ _).mp ho
  obtain ⟨known, some⟩ := h.parentValues_spec (fun _ hx => hx) hgiven
  have nonempty := some (List.mem_of_find?_eq_some h.found)
  obtain ⟨x, hx⟩ := List.exists_mem_of_ne_nil given nonempty
  obtain ⟨k, rfl⟩ := Heap.keyAt_eq_key hp hw (known x hx)
  have all_key : ∀ y ∈ given, y = .key k := fun y hy =>
    Except.ok.inj ((known y hy).symm.trans (known _ hx))
  have of_null (own : List Value) (hn : ∀ y ∈ own, y = .null) :=
    Heap.findSome?_parentIn?_of_null hn all_key nonempty
  refine ⟨k, ?_, known _ hx⟩
  cases hm : mapping.parent? with
  | none =>
    simp only [hm, of_null [] (by simp)] at ho
    cases ho
    rfl
  | some m =>
    simp only [hm, of_null [_] (by simpa using h.unparented m hm)] at ho
    cases ho
    rfl

theorem recordOf_key (h : d.RefersUp i j mapping above r) {pk : Member}
    (hp : above.primary? = some pk) (hw : d.heap.valueUnder pk.name (.object j) ≠ .null)
    {s t : Store} {x : Record}
    (hx : (recordOf d.heap d.registry mapping (.object i) .fromStore).on s = (.ok x, t)) :
    ∃ parent n, x.key = .child parent mapping.kind (.number n) ∧
      d.heap.keyAt d.registry (d.heap.maxDepth d.registry) above (.object j) =
        .ok (.key parent) := by
  obtain ⟨k, u, hk, hx⟩ := (on_bind_eq_ok_iff _ _ _ _ _).mp hx
  obtain ⟨properties, u', -, hx⟩ := (on_bind_eq_ok_iff _ _ _ _ _).mp hx
  cases hx
  obtain ⟨o, u, ho, hk⟩ := (on_bind_eq_ok_iff _ _ _ _ _).mp hk
  rw [on_ofExcept] at ho
  obtain ⟨parent, rfl, hparent⟩ := h.parentOf_eq hp hw (Prod.ext_iff.mp ho).1
  have unset : ∃ e, (mapping.primary?.map fun m =>
      (d.heap.valueUnder m.name (.object i), m.traits.isEncoded)).getD (.null, false) =
        (.null, e) := by
    cases hm : mapping.primary? with
    | none => exact ⟨false, rfl⟩
    | some m => exact ⟨m.traits.isEncoded, by simp [h.unidentified m hm]⟩
  obtain ⟨e, he⟩ := unset
  simp only [he] at hk
  cases hk
  exact ⟨parent, _, rfl, hparent⟩

end RefersUp

/-- Whether a database is another one after an object was stored under a key. -/
structure HasPut (after before : Database) (i : ObjectId) (k : Key) : Prop where
  short : k.IsShort
  stored : ∃ x ∈ after.store.records, x.key = k
  current : after.store.current = before.store.current
  registry : after.registry = before.registry
  settings : after.settings = before.settings
  holds : after.workspace.Holds k (.object i)
  others : ∀ j, j ≠ i → after.heap.object j = before.heap.object j

end Database

namespace Store

theorem put_spec {r : Record} {s t : Store} {k : Key} (h : (put r none).on s = (.ok k, t)) :
    (r.key.id ≠ .unset → k = r.key) ∧ ⟨k, r.properties⟩ ∈ t.records ∧ t.current = s.current := by
  by_cases hi : r.key.id = .unset
  · rw [put, if_pos hi] at h
    cases h
    exact ⟨fun hn => absurd hi hn, mem_insert_self _ _, rfl⟩
  · rw [put_none_on hi] at h
    cases h
    exact ⟨fun _ => rfl, mem_insert_self r _, rfl⟩

end Store

namespace Database

variable {d after : Database} {i : ObjectId} {k : Key}

theorem put_spec (hn : d.store.current = none) (h : (put (.object i)).on d = (.ok k, after)) :
    ∃ mapping x s t, d.mappingOfValue (.object i) = .ok mapping ∧
      (recordOf d.heap d.registry mapping (.object i) .fromStore).on d.store = (.ok x, s) ∧
      (Store.put x none).on s = (.ok k, t) ∧ after.HasPut d i k ∧
      (∀ m, mapping.primary? = some m → after.heap = d.heap.set i m.name (m.keyValue k)) ∧
      after.store = t := by
  obtain ⟨_, _, hd, h⟩ := (on_bind_eq_ok_iff _ _ _ _ _).mp h
  cases hd
  obtain ⟨mapping, _, required, h⟩ := (on_bind_eq_ok_iff _ _ _ _ _).mp h
  obtain ⟨hm, rfl⟩ := (on_ofExcept_eq_ok_iff _ _ _ _).mp required
  obtain ⟨x, _, made, h⟩ := (on_bind_eq_ok_iff _ _ _ _ _).mp h
  obtain ⟨s, hx, rfl⟩ := (on_zoom_eq_ok_iff _ _ _ _ _ _).mp made
  obtain ⟨_, _, hd, h⟩ := (on_bind_eq_ok_iff _ _ _ _ _).mp h
  cases hd
  obtain ⟨k', _, written, h⟩ := (on_bind_eq_ok_iff _ _ _ _ _).mp h
  obtain ⟨t, hk, rfl⟩ := (on_zoom_eq_ok_iff _ _ _ _ _ _).mp written
  -- making the record may give out a number, but it begins no transaction
  have current : s.current = none := by
    have numbered (kind : Text) : Keeps (fun s : Store => s.current = none) (Store.allocate kind) :=
      ⟨fun _ hs => hs⟩
    exact (keeps_recordOf numbered d.heap d.registry mapping (.object i) .fromStore).of_on hn hx
  replace hk : (Store.put x none).on s = (.ok k', t) := current ▸ hk
  obtain ⟨-, stored, unchanged⟩ := Store.put_spec hk
  have put_current : t.current = d.store.current := by rw [unchanged, current, hn]
  -- only a primary key is set in the object
  cases hp : mapping.primary? with
  | none =>
    simp only [hp] at h
    obtain ⟨_, _, hr, h⟩ := (on_bind_eq_ok_iff _ _ _ _ _).mp h
    cases hr
    obtain ⟨_, _, shown, h⟩ := (on_bind_eq_ok_iff _ _ _ _ _).mp h
    obtain ⟨ht, rfl⟩ := (on_ofExcept_eq_ok_iff _ _ _ _).mp shown
    cases h
    exact ⟨mapping, x, s, t, hm, hx, hk,
      ⟨k.pathText_isOk_iff.mp ⟨_, ht⟩, ⟨_, stored, rfl⟩, put_current, rfl, rfl,
        Workspace.holds_of_remembered rfl, fun _ _ => rfl⟩, fun m hm => (nomatch hp.symm.trans hm),
          rfl⟩
  | some m =>
    simp only [hp] at h
    obtain ⟨y, _, given, h⟩ := (on_bind_eq_ok_iff _ _ _ _ _).mp h
    obtain ⟨gives, rfl⟩ := (on_ofExcept_eq_ok_iff _ _ _ _).mp given
    obtain rfl := Member.keyValue_of_giveKey gives
    obtain ⟨_, _, assigned, h⟩ := (on_bind_eq_ok_iff _ _ _ _ _).mp h
    obtain ⟨w, ha, rfl⟩ := (on_zoom_eq_ok_iff _ _ _ _ _ _).mp assigned
    obtain rfl := Workspace.assign_object_on ha
    obtain ⟨_, _, hr, h⟩ := (on_bind_eq_ok_iff _ _ _ _ _).mp h
    cases hr
    obtain ⟨_, _, shown, h⟩ := (on_bind_eq_ok_iff _ _ _ _ _).mp h
    obtain ⟨ht, rfl⟩ := (on_ofExcept_eq_ok_iff _ _ _ _).mp shown
    cases h
    refine ⟨mapping, x, s, t, hm, hx, hk,
      ⟨k.pathText_isOk_iff.mp ⟨_, ht⟩, ⟨_, stored, rfl⟩, put_current, rfl, rfl,
        Workspace.holds_of_remembered rfl, fun _ hj => Heap.object_set_of_ne _ _ _ hj⟩, ?_, rfl⟩
    intro m' hm'
    obtain rfl := Option.some.inj (hp.symm.trans hm')
    rfl

theorem RefersUp.put_below {j : ObjectId} {mapping above : ClassMapping} {r pk : Member}
    (h : d.RefersUp i j mapping above r) (hp : above.primary? = some pk)
    (hw : d.heap.valueUnder pk.name (.object j) ≠ .null) (hn : d.store.current = none)
    (hput : (put (.object i)).on d = (.ok k, after)) :
    (∃ parent n, k = .child parent mapping.kind (.number n) ∧
      d.heap.keyAt d.registry (d.heap.maxDepth d.registry) above (.object j) =
        .ok (.key parent)) ∧ after.HasPut d i k := by
  obtain ⟨m, x, s, t, hm, hx, ht, done, -⟩ := put_spec hn hput
  obtain rfl : mapping = m := Except.ok.inj (h.mapped.symm.trans hm)
  obtain ⟨parent, n, hk, hparent⟩ := h.recordOf_key hp hw hx
  have numbered : x.key.id ≠ .unset := by
    rw [hk]
    simp [Key.id]
  exact ⟨⟨parent, n, ((Store.put_spec ht).1 numbered).trans hk, hparent⟩, done⟩

end Database
end RecordStore
