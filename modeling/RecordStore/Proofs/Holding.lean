import RecordStore.Mapping.Load
import RecordStore.Proofs.Attempts
import RecordStore.Proofs.SameKeys

/-!
# Objects of keys

Once a key has an object that is not hollow, loading its record gives out that object, and loading
other records leaves it in its place.
-/

set_option autoImplicit false

namespace RecordStore

namespace Member

variable {m : Member} {k : Key} {x : Value}

theorem giveKey_eq (m : Member) (k : Key) :
    m.giveKey k =
      if m.traits.isEncoded then k.pathText.map fun _ => m.keyValue k else .ok (m.keyValue k) := by
  rw [giveKey, Key.encode_eq]
  split
  · cases k.pathText <;> rfl
  · rfl

theorem keyValue_of_giveKey (h : m.giveKey k = .ok x) : m.keyValue k = x := by
  rw [giveKey_eq] at h
  split at h
  · cases written : k.pathText with
    | error f =>
      rw [written] at h
      cases h
    | ok t =>
      rw [written] at h
      exact Except.ok.inj h
  · exact Except.ok.inj h

theorem map_pathText_of_giveKey {f : Fault} (h : m.giveKey k = .error f) (a : Key) :
    k.pathText.map (fun _ => a) = .error f := by
  rw [giveKey_eq] at h
  split at h
  · cases written : k.pathText with
    | error g =>
      rw [written] at h
      exact congrArg Except.error (Except.error.inj h)
    | ok t =>
      rw [written] at h
      cases h
  · cases h

theorem parentValue_of_giveParent (h : m.giveParent k = .ok x) : m.parentValue k = x := by
  rw [giveParent] at h
  split at h
  · obtain ⟨_, -, h⟩ := (bind_eq_ok_iff _ _ _).mp h
    exact Except.ok.inj h
  · exact Except.ok.inj h

end Member

namespace IdentityMap

theorem find?_assign (k : Key) (v : Value) (entries : List (Key × Value)) (j : Key) :
    (assign k v entries).find? (fun e => e.1.same j) =
      if k.same j then some (((entries.find? (fun e => e.1.same k)).map (·.1)).getD k, v)
      else entries.find? (fun e => e.1.same j) := by
  induction entries with
  | nil => by_cases h : k.same j = true <;> simp [assign, h]
  | cons e rest ih =>
    rw [assign]
    by_cases he : e.1.same k = true
    · have hj := Key.same_congr_left he j
      by_cases h : k.same j = true <;> simp [he, hj, h]
    · rw [if_neg he, List.find?_cons]
      by_cases hj : e.1.same j = true
      · have hk : ¬k.same j = true := fun hk => he (Key.same_trans hj (by rwa [Key.same_comm]))
        simp [hj, hk]
      · simp [hj, he, ih]

theorem get?_put (m : IdentityMap) (k : Key) (v : Value) (hollow : Bool) (j : Key) :
    (m.put k v hollow).get? j = if k.same j then some v else m.get? j := by
  rw [get?, put, find?_assign]
  by_cases h : k.same j = true
  · simp [h]
  · simp [h, get?]

theorem any_without (k j : Key) (ks : List Key) :
    (without k ks).any (fun h => h.same j) = (!k.same j && ks.any (fun h => h.same j)) := by
  rw [Bool.eq_iff_iff]
  simp only [without, List.any_eq_true, List.mem_filter, Bool.and_eq_true, Bool.not_eq_true']
  constructor
  · rintro ⟨h, ⟨hm, hk⟩, hj⟩
    refine ⟨?_, h, hm, hj⟩
    rw [Key.same_comm, ← Key.same_congr_left hj, hk]
  · rintro ⟨hk, h, hm, hj⟩
    refine ⟨h, ⟨hm, ?_⟩, hj⟩
    rw [Key.same_congr_left hj, Key.same_comm, hk]

theorem isHollow_put (m : IdentityMap) (k : Key) (v : Value) (hollow : Bool) (j : Key) :
    (m.put k v hollow).isHollow j = if k.same j then hollow else m.isHollow j := by
  have kept := any_without k j m.hollow
  rw [isHollow, put]
  cases hollow <;> by_cases h : k.same j = true <;> simp [kept, h, isHollow]

theorem get?_evict (m : IdentityMap) (k j : Key) :
    (m.evict k).get? j = if k.same j then none else m.get? j := by
  have other (e : Key × Value) : decide ((!e.1.same k) = true ∧ e.1.same j = true) =
      (!k.same j && e.1.same j) := by
    cases hj : e.1.same j with
    | false => simp
    | true => simp [Key.same_congr_left hj, Key.same_comm j k]
  simp only [get?, evict, List.find?_filter, other]
  cases k.same j <;> simp

theorem isHollow_evict (m : IdentityMap) (k j : Key) :
    (m.evict k).isHollow j = (!k.same j && m.isHollow j) :=
  any_without k j m.hollow

end IdentityMap

namespace Workspace

/-- Whether a key has an object that is not hollow. -/
structure Holds (w : Workspace) (k : Key) (v : Value) : Prop where
  object : w.identities.object? k = some v
  full : w.identities.isHollow k = false

theorem holds_of_remembered {w : Workspace} {k : Key} {i : ObjectId} {identities : IdentityMap}
    (h : w.identities = identities.put k (.object i) false) : w.Holds k (.object i) := by
  constructor
  · simp [h, IdentityMap.object?, IdentityMap.get?_put]
  · simp [h, IdentityMap.isHollow_put]

open Attempt

/-- A property of workspaces that lasts while objects are made and their fields are set. -/
structure Lasting (P : Workspace → Prop) : Prop where
  create : ∀ w s, P w → P { w with heap := (w.heap.create s).2 }
  set : ∀ w i field x, P w → P { w with heap := w.heap.set i field x }

namespace Lasting

variable {P : Workspace → Prop} (hP : Lasting P)
include hP

theorem keeps_create (s : Shape) : Keeps P (Workspace.create s) := by
  apply keeps_get_bind
  intro w h
  exact keeps_bind (keeps_set (hP.create w s h)) fun _ => keeps_pure _

theorem keeps_assign (v : Value) (field : Text) (x : Value) : Keeps P (assign v field x) := by
  cases v with
  | object i =>
    have set : Keeps P (modify fun w => { w with heap := w.heap.set i field x }) :=
      keeps_modify fun w h => hP.set w i field x h
    apply keeps_get_bind
    intro w _
    split
    · exact keeps_bind (keeps_throw _) fun _ => set
    · exact set
  | _ => exact keeps_throw _

theorem keeps_instantiate (className : Option ClassName) (s : Shape) :
    Keeps P (instantiate className s) := by
  have made (t : Shape) : Keeps P (Value.object <$> Workspace.create t) :=
    keeps_bind (hP.keeps_create t) fun _ => keeps_pure _
  rw [instantiate.eq_def]
  split
  · exact made s
  · exact keeps_pure _
  · split
    · exact made _
    · exact keeps_throw _

mutual

theorem keeps_partValue (r : Record) (m : Member) : Keeps P (partValue r m) := by
  cases m with
  | plain t => exact keeps_ofExcept _
  | embedded t parts =>
    rw [partValue]
    split
    · exact keeps_pure _
    · apply keeps_bind (hP.keeps_instantiate _ _)
      intro v
      exact keeps_bind (keeps_assignParts r v parts) fun _ => keeps_pure _

theorem keeps_assignParts (r : Record) (v : Value) (ms : List Member) :
    Keeps P (assignParts r v ms) := by
  cases ms with
  | nil => exact keeps_pure _
  | cons m rest =>
    rw [assignParts]
    apply keeps_bind (keeps_partValue r m)
    intro x
    exact keeps_bind (hP.keeps_assign v _ x) fun _ => keeps_assignParts r v rest

end

theorem keeps_memberValue (r : Record) (m : Member) : Keeps P (memberValue r m) := by
  rw [memberValue]
  split
  · exact keeps_ofExcept _
  split
  · exact keeps_ofExcept _
  split
  · exact keeps_pure _
  · exact hP.keeps_partValue r m

theorem keeps_fill (r : Record) (v : Value) (ms : List Member) : Keeps P (fill r v ms) := by
  induction ms with
  | nil => exact keeps_pure _
  | cons m rest ih =>
    apply keeps_bind (hP.keeps_memberValue r m)
    intro x
    exact keeps_bind (hP.keeps_assign v _ x) fun _ => ih

theorem keeps_loadFresh (mapping : ClassMapping) (r : Record) : Keeps P (loadFresh mapping r) := by
  apply keeps_bind (hP.keeps_instantiate _ _)
  intro v
  exact keeps_bind (hP.keeps_fill r v _) fun _ => keeps_pure _

theorem keeps_assign? (x : Value) (m : Option Member) (value : Member → Except Fault Value) :
    Keeps P (match m with
      | none => pure ()
      | some m => do assign x m.name (← Attempt.ofExcept (value m))) := by
  cases m with
  | none => exact keeps_pure _
  | some m => exact keeps_bind (keeps_ofExcept _) fun _ => hP.keeps_assign x _ _

theorem keeps_chosenValues (r : Record) (ms : List (Option Member)) :
    Keeps P (chosenValues r ms) := by
  induction ms with
  | nil => exact keeps_pure _
  | cons m rest ih =>
    cases m with
    | none => exact keeps_throw _
    | some m =>
      have value : Keeps P (chosenValue r m) := by
        rw [chosenValue]
        split
        · exact keeps_ofExcept _
        split
        · exact keeps_ofExcept _
        · exact hP.keeps_partValue r m
      exact keeps_bind value fun _ => keeps_bind ih fun _ => keeps_pure _

theorem keeps_loadChosen (r : Record) (ms : List (Option Member)) : Keeps P (loadChosen r ms) := by
  apply keeps_bind (hP.keeps_chosenValues r ms)
  intro vs
  split
  · exact keeps_pure _
  · exact keeps_pure _

end Lasting

theorem lasting_identities (ids : IdentityMap) : Lasting fun w => w.identities = ids :=
  ⟨fun _ _ h => h, fun _ _ _ _ h => h⟩

theorem lasting_holds (k : Key) (v : Value) : Lasting fun w => w.Holds k v :=
  ⟨fun _ _ h => ⟨h.object, h.full⟩, fun _ _ _ _ h => ⟨h.object, h.full⟩⟩

theorem keeps_holds_remember {k j : Key} (hj : j.same k = false) (v x : Value) (hollow : Bool) :
    Keeps (fun w : Workspace => w.Holds k v) (remember j x hollow) := by
  apply keeps_modify
  intro w h
  constructor
  · simpa [IdentityMap.object?, IdentityMap.get?_put, hj] using h.object
  · simpa [IdentityMap.isHollow_put, hj] using h.full

theorem Holds.congr_key {w : Workspace} {k j : Key} {v : Value} (h : w.Holds k v)
    (hj : j.same k = true) : w.Holds j v := by
  have object : w.identities.object? j = w.identities.object? k := by
    simp only [IdentityMap.object?, IdentityMap.get?, Key.same_congr_right hj]
  have full : w.identities.isHollow j = w.identities.isHollow k := by
    simp only [IdentityMap.isHollow, Key.same_congr_right hj]
  exact ⟨object.trans h.object, full.trans h.full⟩

theorem loadWhole_on_of_holds {w : Workspace} {r : Record} {v : Value} (h : w.Holds r.key v)
    (mapping : ClassMapping) : (loadWhole mapping r false).on w = (.ok v, w) := by
  simp only [loadWhole, Bool.false_eq_true, if_false, on_bind, on_get, h.object, h.full]
  rfl

theorem keeps_holds_loadWhole (k : Key) (v : Value) (mapping : ClassMapping) (r : Record)
    (ignoreIdentities : Bool) :
    Keeps (fun w : Workspace => w.Holds k v) (loadWhole mapping r ignoreIdentities) := by
  have fresh := (lasting_holds k v).keeps_loadFresh mapping r
  cases ignoreIdentities with
  | true => exact fresh
  | false =>
    by_cases hr : r.key.same k = true
    · constructor
      intro w h
      rw [loadWhole_on_of_holds (h.congr_key hr) mapping]
      exact h
    · have remembered (x : Value) := keeps_holds_remember (Bool.eq_false_iff.mpr hr) v x false
      apply keeps_get_bind
      intro w _
      dsimp only
      split
      · exact keeps_bind fresh fun x => keeps_bind (remembered x) fun _ => keeps_pure _
      · rename_i x _
        split
        · exact keeps_bind ((lasting_holds k v).keeps_fill r x _) fun _ =>
            keeps_bind (remembered x) fun _ => keeps_pure _
        · exact keeps_pure _

theorem loadIdentity_on_of_holds {w : Workspace} {r : Record} {v : Value} (h : w.Holds r.key v)
    (mapping : ClassMapping) : (loadIdentity mapping r).on w = (.ok v, w) := by
  simp only [loadIdentity, on_bind, on_get, h.object]
  rfl

theorem keeps_holds_loadIdentity (k : Key) (v : Value) (mapping : ClassMapping) (r : Record) :
    Keeps (fun w : Workspace => w.Holds k v) (loadIdentity mapping r) := by
  by_cases hr : r.key.same k = true
  · constructor
    intro w h
    rw [loadIdentity_on_of_holds (h.congr_key hr) mapping]
    exact h
  · apply keeps_get_bind
    intro w _
    dsimp only
    split
    · exact keeps_pure _
    · apply keeps_bind ((lasting_holds k v).keeps_instantiate _ _)
      intro x
      have remembered := keeps_holds_remember (Bool.eq_false_iff.mpr hr) v x true
      refine keeps_bind ((lasting_holds k v).keeps_assign? x _ _) fun _ => ?_
      refine keeps_bind ((lasting_holds k v).keeps_assign? x _ _) fun _ => ?_
      exact keeps_bind remembered fun _ => keeps_pure _

end Workspace
end RecordStore
