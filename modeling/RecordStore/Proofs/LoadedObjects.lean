import RecordStore.Proofs.AgreeingLoads
import RecordStore.Proofs.FailedStatements

/-!
# One object for each key

Records are loaded whole, hollow or as values of some members, and keys are evicted in between.
Until it is evicted a key keeps the object that it was first given, and what is given out as a whole
object has all members of its class.
-/

set_option autoImplicit false

namespace RecordStore

open Attempt

namespace Heap

def IsSet (h : Heap) (i : ObjectId) (field : Text) : Prop :=
  (lookupName field (h.object i).attributes).isSome = true

/-- Whether a heap has come out of another one by making objects and setting fields. -/
structure Outgrows (g h : Heap) : Prop where
  size : h.size ≤ g.size
  fields : ∀ i < h.size, ∀ field, h.IsSet i field → g.IsSet i field

theorem Outgrows.refl (h : Heap) : h.Outgrows h := ⟨le_rfl, fun _ _ _ => id⟩

theorem isSet_set_self {h : Heap} {i : ObjectId} (hi : i < h.size) (field : Text) (x : Value) :
    (h.set i field x).IsSet i field := by
  rw [IsSet, object_set_self hi, Object.set, lookupName_assignName, if_pos rfl]
  rfl

theorem isSet_set {h : Heap} {j : ObjectId} (hj : j < h.size) {field : Text} (hf : h.IsSet j field)
    (i : ObjectId) (name : Text) (x : Value) : (h.set i name x).IsSet j field := by
  by_cases hij : j = i
  · subst hij
    rw [IsSet, object_set_self hj, Object.set, lookupName_assignName]
    split
    · rfl
    · exact hf
  · rw [IsSet, object_set_of_ne h name x hij]
    exact hf

end Heap

namespace Workspace

theorem lasting_outgrows (h : Heap) : Lasting fun w => w.heap.Outgrows h where
  create w s hw := by
    have kept := w.heap.extends_create s
    refine ⟨hw.size.trans kept.size, fun i hi field hf => ?_⟩
    rw [Heap.IsSet, kept.kept i (hi.trans_le hw.size)]
    exact hw.fields i hi field hf
  set w i name x hw := by
    refine ⟨hw.size.trans (Heap.size_set _ _ _ _).ge, fun j hj field hf => ?_⟩
    exact Heap.isSet_set (hj.trans_le hw.size) (hw.fields j hj field hf) i name x

variable {w u : Workspace} {v : Value} {r : Record} {f : Fault}

def Has (w : Workspace) (v : Value) (ms : List Member) : Prop :=
  ∃ i, v = .object i ∧ i < w.heap.size ∧ ∀ m ∈ ms, w.heap.IsSet i m.name

theorem Has.outgrows {ms : List Member} (h : w.Has v ms) (hu : u.heap.Outgrows w.heap) :
    u.Has v ms := by
  obtain ⟨i, rfl, hi, set⟩ := h
  exact ⟨i, rfl, hi.trans_le hu.size, fun m hm => hu.fields i hi _ (set m hm)⟩

theorem object_of_assign {field : Text} {x : Value} (h : (assign v field x).on w = (.ok (), u)) :
    ∃ i, v = .object i := by
  cases v with
  | object i => exact ⟨i, rfl⟩
  | _ => cases h

theorem fill_has {i : ObjectId} {ms : List Member} (hi : i < w.heap.size)
    (h : (fill r (.object i) ms).on w = (.ok (), u)) : u.Has (.object i) ms := by
  induction ms generalizing w with
  | nil =>
    cases h
    exact ⟨i, rfl, hi, by simp⟩
  | cons m rest ih =>
    obtain ⟨x, t, made, h⟩ := (on_bind_eq_ok_iff _ _ _ _ _).mp h
    obtain ⟨_, t', assigned, h⟩ := (on_bind_eq_ok_iff _ _ _ _ _).mp h
    obtain rfl := assign_object_on assigned
    have grown := ((lasting_outgrows w.heap).keeps_memberValue r m).after w (.refl _)
    rw [made] at grown
    have hit : i < t.heap.size := hi.trans_le grown.size
    have inside : i < (t.heap.set i m.name x).size := hit.trans_eq (Heap.size_set _ _ _ _).symm
    have later := ((lasting_outgrows (t.heap.set i m.name x)).keeps_fill r (.object i) rest).after
      { t with heap := t.heap.set i m.name x } (.refl _)
    rw [h] at later
    have first := later.fields i inside m.name (Heap.isSet_set_self hit m.name x)
    obtain ⟨_, ⟨⟩, hu, set⟩ := ih inside h
    exact ⟨i, rfl, hu, List.forall_mem_cons.mpr ⟨first, set⟩⟩

theorem instantiate_eq_ok {c : Option ClassName} {s : Shape}
    (h : (instantiate c s).on w = (.ok v, u)) :
    v = .null ∨ v = .object w.heap.size ∧ w.heap.size < u.heap.size := by
  have inside (s : Shape) : w.heap.size < (w.heap.create s).2.size := by
    simp [Heap.create, Heap.size]
  rw [instantiate.eq_def] at h
  split at h
  · cases h
    exact .inr ⟨rfl, inside _⟩
  · cases h
    exact .inl rfl
  · split at h
    · cases h
      exact .inr ⟨rfl, inside _⟩
    · cases h

theorem loadFresh_has {mapping : ClassMapping} (hm : mapping.members ≠ [])
    (h : (loadFresh mapping r).on w = (.ok v, u)) : u.Has v mapping.members := by
  obtain ⟨x, t, made, h⟩ := (on_bind_eq_ok_iff _ _ _ _ _).mp h
  obtain ⟨_, t', filled, h⟩ := (on_bind_eq_ok_iff _ _ _ _ _).mp h
  cases h
  rcases instantiate_eq_ok made with rfl | ⟨rfl, inside⟩
  · -- null has no members
    cases hms : mapping.members with
    | nil => exact absurd hms hm
    | cons m rest =>
      rw [hms] at filled
      obtain ⟨_, _, -, filled⟩ := (on_bind_eq_ok_iff _ _ _ _ _).mp filled
      obtain ⟨_, _, assigned, -⟩ := (on_bind_eq_ok_iff _ _ _ _ _).mp filled
      obtain ⟨_, ⟨⟩⟩ := object_of_assign assigned
  · exact fill_has inside filled

end Workspace

namespace IdentityMap

theorem get?_congr (m : IdentityMap) {j k : Key} (h : j.same k = true) : m.get? j = m.get? k := by
  simp only [get?, Key.same_congr_right h]

theorem contains_eq (m : IdentityMap) (k : Key) : m.contains k = (m.get? k).isSome := by
  rw [contains, get?, Option.isSome_map, Bool.eq_iff_iff, List.find?_isSome, List.any_eq_true]

end IdentityMap

namespace Registry

def IsKeyed (registry : Registry) : Prop :=
  ∀ c ∈ registry.mappings, (c.members.filter (·.traits.isPrimary)).length = 1

theorem isKeyed_empty : empty.IsKeyed := List.forall_mem_nil _

theorem IsKeyed.register {registry after : Registry} (h : registry.IsKeyed) {c : ClassName}
    {s : Shape} {ms : List Member} {kind : Option Text} {mapping : ClassMapping}
    (registered : registry.register c s ms kind = .ok (mapping, after)) : after.IsKeyed := by
  unfold Registry.register at registered
  dsimp only at registered
  split at registered
  · rename_i one
    cases registered
    exact List.forall_mem_cons.mpr ⟨one, fun x hx => h x (List.mem_of_mem_filter hx)⟩
  · cases registered

theorem IsKeyed.exists_primary {registry : Registry} (h : registry.IsKeyed) {c : ClassMapping}
    (hc : c ∈ registry.mappings) : ∃ m ∈ c.members, c.primary? = some m := by
  obtain ⟨m, only⟩ := List.length_eq_one_iff.mp (h c hc)
  have found : c.primary? = some m := by
    rw [ClassMapping.primary?, ← List.head?_filter, only]
    rfl
  exact ⟨m, List.mem_of_find?_eq_some found, found⟩

/-- Whether a class is the one of the kind of a record. -/
structure Maps (registry : Registry) (c : ClassMapping) (r : Record) : Prop where
  mem : c ∈ registry.mappings
  kind : c.kind = r.kind
  only : ∀ x ∈ registry.mappings, x.kind = r.kind → x = c

end Registry

namespace Workspace

variable {registry : Registry} {w u : Workspace} {v : Value} {r : Record} {f : Fault}

/-- Whether the objects of keys are objects that there are, with all members of the classes of their
kind unless they are hollow. -/
structure Remembers (registry : Registry) (w : Workspace) : Prop where
  object : ∀ k v, w.identities.get? k = some v → w.Has v []
  whole : ∀ k v, w.identities.get? k = some v → w.identities.isHollow k = false →
    ∀ c ∈ registry.mappings, c.kind = k.kind → w.Has v c.members
  hollow : ∀ k, w.identities.isHollow k = true → (w.identities.get? k).isSome = true

namespace Remembers

theorem start (registry : Registry) (h : Heap) : Remembers registry ⟨h, .empty⟩ :=
  ⟨nofun, nofun, nofun⟩

variable (h : w.Remembers registry)
include h

theorem grown (same : u.identities = w.identities) (hu : u.heap.Outgrows w.heap) :
    u.Remembers registry := by
  refine ⟨fun k v hv => ?_, fun k v hv full c hc hk => ?_, fun k hk => ?_⟩
  · exact (h.object k v (same ▸ hv)).outgrows hu
  · exact (h.whole k v (same ▸ hv) (same ▸ full) c hc hk).outgrows hu
  · rw [same] at hk ⊢
    exact h.hollow k hk

theorem put {k : Key} {hollow : Bool} (hv : w.Has v [])
    (full : hollow = false → ∀ c ∈ registry.mappings, c.kind = k.kind → w.Has v c.members) :
    Remembers registry { w with identities := w.identities.put k v hollow } := by
  refine ⟨fun j x hx => ?_, fun j x hx whole c hc hj => ?_, fun j hj => ?_⟩
  · change (w.identities.put k v hollow).get? j = some x at hx
    rw [IdentityMap.get?_put] at hx
    split at hx
    · cases hx
      exact hv
    · exact h.object j x hx
  · change (w.identities.put k v hollow).get? j = some x at hx
    change (w.identities.put k v hollow).isHollow j = false at whole
    rw [IdentityMap.get?_put] at hx
    rw [IdentityMap.isHollow_put] at whole
    split at hx
    · rename_i same
      cases hx
      rw [if_pos same] at whole
      exact full whole c hc (hj.trans (Key.kind_eq_of_same same).symm)
    · rename_i other
      rw [if_neg other] at whole
      exact h.whole j x hx whole c hc hj
  · change (w.identities.put k v hollow).isHollow j = true at hj
    change ((w.identities.put k v hollow).get? j).isSome = true
    rw [IdentityMap.isHollow_put] at hj
    rw [IdentityMap.get?_put]
    split
    · rfl
    · rename_i other
      rw [if_neg other] at hj
      exact h.hollow j hj

theorem evict (k : Key) : Remembers registry { w with identities := w.identities.evict k } := by
  have kept {j : Key} {x : Value} (hx : (w.identities.evict k).get? j = some x) :
      k.same j = false ∧ w.identities.get? j = some x := by
    rw [IdentityMap.get?_evict] at hx
    split at hx
    · cases hx
    · rename_i other
      exact ⟨Bool.eq_false_iff.mpr other, hx⟩
  refine ⟨fun j x hx => h.object j x (kept hx).2, fun j x hx whole c hc hj => ?_, fun j hj => ?_⟩
  · obtain ⟨other, hx⟩ := kept hx
    change (w.identities.evict k).isHollow j = false at whole
    rw [IdentityMap.isHollow_evict, other] at whole
    exact h.whole j x hx whole c hc hj
  · change (w.identities.evict k).isHollow j = true at hj
    change ((w.identities.evict k).get? j).isSome = true
    rw [IdentityMap.isHollow_evict, Bool.and_eq_true, Bool.not_eq_true'] at hj
    rw [IdentityMap.get?_evict, hj.1]
    exact h.hollow j hj.2

theorem object?_eq (k : Key) : w.identities.object? k = w.identities.get? k := by
  rw [IdentityMap.object?]
  split
  · rename_i null
    obtain ⟨_, ⟨⟩, -⟩ := h.object k _ null
  · rfl

end Remembers

theorem Lasting.keeps_load {P : Workspace → Prop} (hP : Lasting P)
    (unnamed : ∀ w ids, P w → P { w with identities := ids }) (reader : RowReader) (r : Record) :
    Keeps P (reader.load r) := by
  have remembers (v : Value) (hollow : Bool) : Keeps P (remember r.key v hollow) :=
    keeps_modify fun w h => unnamed w _ h
  obtain ⟨mapping, form⟩ := reader
  cases form with
  | chosen members => exact hP.keeps_loadChosen r _
  | identity =>
    apply keeps_get_bind
    intro w _
    dsimp only
    split
    · exact keeps_pure _
    · apply keeps_bind (hP.keeps_instantiate _ _)
      intro x
      refine keeps_bind (hP.keeps_assign? x _ _) fun _ => ?_
      refine keeps_bind (hP.keeps_assign? x _ _) fun _ => ?_
      exact keeps_bind (remembers x true) fun _ => keeps_pure _
  | whole ignoreIdentities =>
    cases ignoreIdentities with
    | true => exact hP.keeps_loadFresh mapping r
    | false =>
      apply keeps_get_bind
      intro w _
      dsimp only
      split
      · exact keeps_bind (hP.keeps_loadFresh mapping r) fun x =>
          keeps_bind (remembers x false) fun _ => keeps_pure _
      · split
        · exact keeps_bind (hP.keeps_fill r _ _) fun _ =>
            keeps_bind (remembers _ false) fun _ => keeps_pure _
        · exact keeps_pure _

theorem load_outgrows (reader : RowReader) (r : Record) (w : Workspace) :
    ((reader.load r).on w).2.heap.Outgrows w.heap :=
  ((lasting_outgrows w.heap).keeps_load (fun _ _ h => h) reader r).after w (.refl _)

theorem load_unasked {reader : RowReader} (h : reader.form.asksIdentities = false) (r : Record)
    (w : Workspace) : ((reader.load r).on w).2.identities = w.identities := by
  have lasting := lasting_identities w.identities
  obtain ⟨mapping, form⟩ := reader
  cases form with
  | chosen members => exact (lasting.keeps_loadChosen r _).after w rfl
  | identity => cases h
  | whole ignoreIdentities =>
    cases ignoreIdentities with
    | true => exact (lasting.keeps_loadFresh mapping r).after w rfl
    | false => cases h

theorem spares_load (ids : IdentityMap) (reader : RowReader) (r : Record) :
    Spares (fun w => w.identities = ids) (reader.load r) := by
  have lasting := lasting_identities ids
  obtain ⟨mapping, form⟩ := reader
  cases form with
  | chosen members => exact (lasting.keeps_loadChosen r _).spares
  | identity =>
    apply spares_get_bind
    intro w _
    dsimp only
    split
    · exact (keeps_pure _).spares
    · refine spares_bind (lasting.keeps_instantiate _ _) fun _ x _ _ => ?_
      refine spares_bind (lasting.keeps_assign? x _ _) fun _ _ _ _ => ?_
      exact spares_bind_of_total (lasting.keeps_assign? x _ _).spares fun _ _ => ⟨_, _, rfl⟩
  | whole ignoreIdentities =>
    cases ignoreIdentities with
    | true => exact (lasting.keeps_loadFresh mapping r).spares
    | false =>
      apply spares_get_bind
      intro w _
      dsimp only
      split
      · exact spares_bind_of_total (lasting.keeps_loadFresh mapping r).spares fun _ _ => ⟨_, _, rfl⟩
      · split
        · exact spares_bind_of_total (lasting.keeps_fill r _ _).spares fun _ _ => ⟨_, _, rfl⟩
        · exact (keeps_pure _).spares

theorem load_fails {reader : RowReader} (h : (reader.load r).on w = (.error f, u)) :
    u.identities = w.identities :=
  (spares_load w.identities reader r).failed w f u rfl h

/-- Whether a value that was loaded is the object of its key from then on. -/
structure GivesOut (registry : Registry) (w : Workspace) (reader : RowReader) (r : Record)
    (v : Value) (u : Workspace) : Prop where
  held : ∀ x, w.identities.get? r.key = some x → x = v
  object : u.identities.get? r.key = some v
  others : ∀ k, r.key.same k = false → u.identities.get? k = w.identities.get? k
  whole : reader.form = .whole false →
    u.identities.isHollow r.key = false ∧ u.Has v reader.mapping.members
  remembers : u.Remembers registry

theorem GivesOut.of_remember {reader : RowReader} {t : Workspace} {hollow : Bool}
    (h : w.Remembers registry) (hm : registry.Maps reader.mapping r)
    (same : t.identities = w.identities) (grown : t.heap.Outgrows w.heap)
    (held : ∀ x, w.identities.get? r.key = some x → x = v) (hv : t.Has v [])
    (full : hollow = false → t.Has v reader.mapping.members)
    (form : reader.form = .whole false → hollow = false) :
    GivesOut registry w reader r v { t with identities := t.identities.put r.key v hollow } where
  held := held
  object := by
    change (t.identities.put r.key v hollow).get? r.key = some v
    rw [IdentityMap.get?_put, if_pos (Key.same_self _)]
  others k other := by
    change (t.identities.put r.key v hollow).get? k = _
    rw [IdentityMap.get?_put, if_neg (by simp [other]), same]
  whole asked := by
    refine ⟨?_, full (form asked)⟩
    change (t.identities.put r.key v hollow).isHollow r.key = false
    rw [IdentityMap.isHollow_put, if_pos (Key.same_self _), form asked]
  remembers := (h.grown same grown).put hv fun whole c hc hk => hm.only c hc hk ▸ full whole

theorem GivesOut.of_held {reader : RowReader} (h : w.Remembers registry)
    (hm : registry.Maps reader.mapping r) (object : w.identities.get? r.key = some v)
    (full : reader.form = .whole false → w.identities.isHollow r.key = false) :
    GivesOut registry w reader r v w where
  held _ hx := Option.some.inj (hx.symm.trans object)
  object := object
  others _ _ := rfl
  whole asked :=
    ⟨full asked, h.whole r.key v object (full asked) reader.mapping hm.mem hm.kind⟩
  remembers := h

theorem Has.nil {ms : List Member} (h : w.Has v ms) : w.Has v [] := by
  obtain ⟨i, rfl, hi, -⟩ := h
  exact ⟨i, rfl, hi, List.forall_mem_nil _⟩

theorem loadWhole_gives {c : ClassMapping} (h : w.Remembers registry) (keyed : registry.IsKeyed)
    (hm : registry.Maps c r) (loaded : (loadWhole c r false).on w = (.ok v, u)) :
    GivesOut registry w ⟨c, .whole false⟩ r v u := by
  have lasting := lasting_identities w.identities
  simp only [loadWhole, Bool.false_eq_true, if_false] at loaded
  rw [on_bind_of_ok (on_get w)] at loaded
  rw [h.object?_eq] at loaded
  cases found : w.identities.get? r.key with
  | none =>
    rw [found] at loaded
    obtain ⟨x, t, made, loaded⟩ := (on_bind_eq_ok_iff _ _ _ _ _).mp loaded
    cases loaded
    have same := (lasting.keeps_loadFresh c r).after w rfl
    have grown := ((lasting_outgrows w.heap).keeps_loadFresh c r).after w (.refl _)
    rw [made] at same grown
    obtain ⟨m, member, -⟩ := keyed.exists_primary hm.mem
    have full := loadFresh_has (List.ne_nil_of_mem member) made
    exact .of_remember h hm same grown (by simp [found]) full.nil (fun _ => full) fun _ => rfl
  | some _ =>
    rw [found] at loaded
    dsimp only at loaded
    split at loaded
    · -- the object that is hollow is filled
      obtain ⟨_, t, filled, loaded⟩ := (on_bind_eq_ok_iff _ _ _ _ _).mp loaded
      cases loaded
      have same := (lasting.keeps_fill r v c.members).after w rfl
      have grown := ((lasting_outgrows w.heap).keeps_fill r v c.members).after w (.refl _)
      rw [filled] at same grown
      obtain ⟨i, rfl, hi, -⟩ := h.object r.key v found
      have full := fill_has hi filled
      exact .of_remember h hm same grown (by simp [found]) full.nil (fun _ => full) fun _ => rfl
    · rename_i full
      cases loaded
      exact .of_held h hm found fun _ => Bool.eq_false_iff.mpr full

theorem loadIdentity_makes {c : ClassMapping} {m : Member} (primary : c.primary? = some m)
    (missing : w.identities.object? r.key = none) (loaded : (loadIdentity c r).on w = (.ok v, u)) :
    ∃ t : Workspace, u = { t with identities := t.identities.put r.key v true } ∧
      t.identities = w.identities ∧ t.heap.Outgrows w.heap ∧ t.Has v [] := by
  simp only [loadIdentity] at loaded
  rw [on_bind_of_ok (on_get w)] at loaded
  rw [missing, primary] at loaded
  obtain ⟨x, t₁, made, loaded⟩ := (on_bind_eq_ok_iff _ _ _ _ _).mp loaded
  obtain ⟨_, t₂, assigned, loaded⟩ := (on_bind_eq_ok_iff _ _ _ _ _).mp loaded
  obtain ⟨_, t, parent, loaded⟩ := (on_bind_eq_ok_iff _ _ _ _ _).mp loaded
  cases loaded
  have begun {P : Workspace → Prop} (hP : Lasting P) (hw : P w) : P t₁ :=
    (hP.keeps_instantiate c.className c.shape).of_on hw made
  have onward {P : Workspace → Prop} (hP : Lasting P) (h₁ : P t₁) : P t :=
    (hP.keeps_assign? v c.parent? (·.giveParent r.key)).of_on
      ((hP.keeps_assign? v (some m) (·.giveKey r.key)).of_on h₁ assigned) parent
  have lasting := lasting_identities w.identities
  have grows := lasting_outgrows w.heap
  refine ⟨t, rfl, onward lasting (begun lasting rfl), onward grows (begun grows (.refl _)), ?_⟩
  obtain ⟨_, _, -, assigned⟩ := (on_bind_eq_ok_iff _ _ _ _ _).mp assigned
  obtain ⟨_, rfl⟩ := object_of_assign assigned
  rcases instantiate_eq_ok made with null | ⟨new, inside⟩
  · cases null
  · have grown := onward (lasting_outgrows t₁.heap) (.refl _)
    exact ⟨_, new, inside.trans_le grown.size, List.forall_mem_nil _⟩

theorem loadIdentity_gives {c : ClassMapping} (h : w.Remembers registry) (keyed : registry.IsKeyed)
    (hm : registry.Maps c r) (loaded : (loadIdentity c r).on w = (.ok v, u)) :
    GivesOut registry w ⟨c, .identity⟩ r v u := by
  cases found : w.identities.get? r.key with
  | some _ =>
    simp only [loadIdentity] at loaded
    rw [on_bind_of_ok (on_get w)] at loaded
    rw [h.object?_eq, found] at loaded
    cases loaded
    exact .of_held h hm found nofun
  | none =>
    obtain ⟨m, -, primary⟩ := keyed.exists_primary hm.mem
    obtain ⟨t, rfl, same, grown, hv⟩ :=
      loadIdentity_makes primary ((h.object?_eq _).trans found) loaded
    have unheld (x : Value) : w.identities.get? r.key = some x → x = v := by simp [found]
    exact .of_remember h hm same grown unheld hv (fun whole => by cases whole) fun form => by cases
      form

theorem load_gives {reader : RowReader} (h : w.Remembers registry) (keyed : registry.IsKeyed)
    (hm : registry.Maps reader.mapping r) (asks : reader.form.asksIdentities = true)
    (loaded : (reader.load r).on w = (.ok v, u)) : GivesOut registry w reader r v u := by
  obtain ⟨c, form⟩ := reader
  cases form with
  | chosen members => cases asks
  | identity => exact loadIdentity_gives h keyed hm loaded
  | whole ignoreIdentities =>
    cases ignoreIdentities with
    | true => cases asks
    | false => exact loadWhole_gives h keyed hm loaded

end Workspace

/-- What is done with the objects of keys. -/
inductive LoadAction where
  | load (reader : RowReader) (r : Record)
  | evict (k : Key)

namespace LoadAction

def step (w : Workspace) : LoadAction → Workspace
  | .load reader r => ((reader.load r).on w).2
  | .evict k => ((Workspace.evict k).on w).2

def Within (registry : Registry) : LoadAction → Prop
  | .load reader r => registry.Maps reader.mapping r
  | .evict _ => True

def evicts (k : Key) : LoadAction → Bool
  | .load _ _ => false
  | .evict j => j.same k

variable {registry : Registry} {w : Workspace} {a : LoadAction}

theorem remembers_step (keyed : registry.IsKeyed) (h : w.Remembers registry)
    (within : a.Within registry) : (a.step w).Remembers registry := by
  cases a with
  | evict k => exact h.evict k
  | load reader r =>
    have grown := Workspace.load_outgrows reader r w
    cases asks : reader.form.asksIdentities with
    | false => exact h.grown (Workspace.load_unasked asks r w) grown
    | true =>
      rcases loaded : (reader.load r).on w with ⟨f | v, u⟩
      · rw [loaded] at grown
        rw [step, loaded]
        exact h.grown (Workspace.load_fails loaded) grown
      · rw [step, loaded]
        exact (Workspace.load_gives h keyed within asks loaded).remembers

theorem step_get? (keyed : registry.IsKeyed) (h : w.Remembers registry)
    (within : a.Within registry) {k : Key} (kept : a.evicts k = false) {v : Value}
    (hv : w.identities.get? k = some v) : (a.step w).identities.get? k = some v := by
  cases a with
  | evict j =>
    change (w.identities.evict j).get? k = some v
    have other : j.same k = false := kept
    rw [IdentityMap.get?_evict, other]
    exact hv
  | load reader r =>
    cases asks : reader.form.asksIdentities with
    | false =>
      rw [step, Workspace.load_unasked asks]
      exact hv
    | true =>
      rcases loaded : (reader.load r).on w with ⟨f | x, u⟩
      · rw [step, loaded, Workspace.load_fails loaded]
        exact hv
      · have gives := Workspace.load_gives h keyed within asks loaded
        rw [step, loaded]
        by_cases same : r.key.same k = true
        · rw [← IdentityMap.get?_congr _ same] at hv ⊢
          rw [gives.object, gives.held v hv]
        · rw [gives.others k (Bool.eq_false_iff.mpr same), hv]

variable {actions : List LoadAction}

theorem remembers_run (keyed : registry.IsKeyed) (h : w.Remembers registry)
    (within : ∀ a ∈ actions, a.Within registry) : (actions.foldl step w).Remembers registry := by
  induction actions generalizing w with
  | nil => exact h
  | cons a rest ih =>
    obtain ⟨first, rest⟩ := List.forall_mem_cons.mp within
    exact ih (remembers_step keyed h first) rest

theorem run_get? (keyed : registry.IsKeyed) (h : w.Remembers registry)
    (within : ∀ a ∈ actions, a.Within registry) {k : Key}
    (kept : ∀ a ∈ actions, a.evicts k = false) {v : Value}
    (hv : w.identities.get? k = some v) : (actions.foldl step w).identities.get? k = some v := by
  induction actions generalizing w with
  | nil => exact hv
  | cons a rest ih =>
    obtain ⟨first, within⟩ := List.forall_mem_cons.mp within
    obtain ⟨spared, kept⟩ := List.forall_mem_cons.mp kept
    exact ih (remembers_step keyed h first) within kept (step_get? keyed h first spared hv)

end LoadAction

namespace Workspace

/-- The workspaces that loading and evicting lead to from one without objects of keys. -/
def Loaded (registry : Registry) (w : Workspace) : Prop :=
  ∃ heap actions, (∀ a ∈ actions, LoadAction.Within registry a) ∧
    w = List.foldl LoadAction.step ⟨heap, .empty⟩ actions

/-- What holds of loading where each key has one object. -/
structure HasOneObject (registry : Registry) (w : Workspace) : Prop where
  hollow : ∀ k, w.identities.isHollow k = true → w.identities.contains k = true
  /-- What is loaded afresh or by its members leaves the identity map alone. -/
  unasked : ∀ (reader : RowReader) r, reader.form.asksIdentities = false →
    ((reader.load r).on w).2.identities = w.identities
  failed : ∀ (reader : RowReader) r f u, (reader.load r).on w = (.error f, u) →
    u.identities = w.identities
  /-- The object that a key has is given out, be it hollow or not. -/
  held : ∀ (reader : RowReader) r v u, registry.Maps reader.mapping r →
    reader.form.asksIdentities = true → (reader.load r).on w = (.ok v, u) →
      ∀ x, w.identities.get? r.key = some x → v = x
  /-- It is given out again until it is evicted. -/
  same : ∀ (reader : RowReader) r v u, registry.Maps reader.mapping r →
    reader.form.asksIdentities = true → (reader.load r).on w = (.ok v, u) →
      ∀ actions : List LoadAction, (∀ a ∈ actions, a.Within registry) →
        (∀ a ∈ actions, a.evicts r.key = false) →
          ∀ (later : RowReader) r' v' u', registry.Maps later.mapping r' →
            later.form.asksIdentities = true → r'.key.same r.key = true →
              (later.load r').on (actions.foldl LoadAction.step u) = (.ok v', u') → v' = v
  /-- A whole object is not hollow any more, and has all members of its class. -/
  whole : ∀ c r v u, registry.Maps c r → (loadWhole c r false).on w = (.ok v, u) →
    u.identities.isHollow r.key = false ∧
      ∃ i, v = .object i ∧ ∀ m ∈ c.members, u.heap.IsSet i m.name

/-- However objects are loaded and evicted, each key has one object. -/
theorem loaded_hasOneObject {registry : Registry} (keyed : registry.IsKeyed) {w : Workspace}
    (hw : w.Loaded registry) : w.HasOneObject registry := by
  obtain ⟨heap, actions, within, rfl⟩ := hw
  have h := LoadAction.remembers_run keyed (Remembers.start registry heap) within
  refine ⟨fun k hk => ?_, fun reader r => (load_unasked · r _), fun _ _ _ _ => load_fails,
    fun reader r v u hm asks loaded x hx => ?_, ?_, fun c r v u hm loaded => ?_⟩
  · rw [IdentityMap.contains_eq]
    exact h.hollow k hk
  · exact ((load_gives h keyed hm asks loaded).held x hx).symm
  · intro reader r v u hm asks loaded more within kept later r' v' u' hm' asks' same loaded'
    have gives := load_gives h keyed hm asks loaded
    have still := LoadAction.run_get? keyed gives.remembers within kept gives.object
    have h' := LoadAction.remembers_run keyed gives.remembers within
    rw [← IdentityMap.get?_congr _ same] at still
    exact ((load_gives h' keyed hm' asks' loaded').held v still).symm
  · obtain ⟨full, i, rfl, -, set⟩ := (loadWhole_gives h keyed hm loaded).whole rfl
    exact ⟨full, i, rfl, set⟩

def door : ClassMapping :=
  ⟨.record "Door", ⟨"Door", [("id", false), ("color", false)]⟩, "Door",
    [.plain ⟨"id", .integer, true, false, none, none, false, false⟩,
      .plain ⟨"color", .choice ⟨"Color", [("red", .integer 1)]⟩, false, false, none, none, false,
        false⟩]⟩

def firstDoor (properties : List (Text × Value)) : Record := ⟨.root "Door" (.number 1), properties⟩

def hollowDoor : Workspace :=
  List.foldl LoadAction.step ⟨.empty, .empty⟩
    [.load ⟨door, .identity⟩ (firstDoor []),
      .load ⟨door, .whole false⟩ (firstDoor [("color", .text "mauve")])]

/-- The door is hollow after the failure. Without a color it can be loaded, and is whole then. -/
theorem loaded_hasOneObject_door :
    hollowDoor.identities.isHollow (.root "Door" (.number 1)) = true ∧
      ∃ u, (loadWhole door (firstDoor []) false).on hollowDoor = (.ok (.object 0), u) ∧
        u.identities.isHollow (.root "Door" (.number 1)) = false ∧ u.heap.IsSet 0 "color" := by
  have registered : Registry.empty.register door.className door.shape door.members none =
      .ok (door, ⟨[door]⟩) := rfl
  have keyed : Registry.IsKeyed ⟨[door]⟩ := Registry.isKeyed_empty.register registered
  have maps (properties : List (Text × Value)) :
      Registry.Maps ⟨[door]⟩ door (firstDoor properties) :=
    ⟨.head _, rfl, fun _ hx _ => List.mem_singleton.mp hx⟩
  have loaded : hollowDoor.Loaded ⟨[door]⟩ := by
    refine ⟨.empty, _, List.forall_mem_cons.mpr ⟨?_, List.forall_mem_singleton.mpr ?_⟩, rfl⟩
    · exact maps []
    · exact maps [("color", .text "mauve")]
  have holds := loaded_hasOneObject keyed loaded
  obtain ⟨u, ran⟩ : ∃ u, (loadWhole door (firstDoor []) false).on hollowDoor =
      (.ok (.object 0), u) :=
    ⟨_, rfl⟩
  obtain ⟨full, _, ⟨⟩, set⟩ := holds.whole door (firstDoor []) _ u (maps []) ran
  exact ⟨rfl, u, ran, full, set _ (.tail _ (.head _))⟩

end Workspace
end RecordStore
