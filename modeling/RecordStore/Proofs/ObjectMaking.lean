import Mathlib.Order.Nat
import RecordStore.Mapping.Load
import RecordStore.Mapping.Save
import RecordStore.Proofs.Attempts
import RecordStore.Proofs.NamedEntries

/-!
# Making objects

An object is made bare and then given its fields one by one, and the value of a field may itself be
an object that is made on the way. Making objects leaves the objects that are there as they are.
-/

set_option autoImplicit false

namespace RecordStore

open Attempt

namespace Object

theorem get?_set (o : Object) (field name : Text) (x : Value) :
    (o.set field x).get? name = if field = name then some x else o.get? name := by
  rw [get?, set, lookupName_assignName]
  by_cases h : field = name <;> simp [h, get?]

end Object

namespace Heap

theorem size_set (h : Heap) (i : ObjectId) (field : Text) (x : Value) :
    (h.set i field x).size = h.size := List.length_modify _ _ _

theorem object_set_self {h : Heap} {i : ObjectId} (hi : i < h.size) (field : Text) (x : Value) :
    (h.set i field x).object i = (h.object i).set field x := by
  have hi : i < h.objects.length := hi
  simp [object, set, hi]

theorem object_set_of_ne {i j : ObjectId} (h : Heap) (field : Text) (x : Value)
    (hj : j ≠ i) : (h.set i field x).object j = h.object j := by
  rw [object, object, set, List.getElem?_modify_ne _ _ hj.symm]

/-- Whether a heap has the objects of another one, as they are there. -/
structure Extends (g h : Heap) : Prop where
  size : h.size ≤ g.size
  kept : ∀ j < h.size, g.object j = h.object j

theorem Extends.refl (h : Heap) : h.Extends h := ⟨le_rfl, fun _ _ => rfl⟩

theorem extends_create (h : Heap) (s : Shape) : (h.create s).2.Extends h := by
  constructor
  · simp [create, size]
  · intro j hj
    rw [object, object, create, List.getElem?_append_left hj]

theorem object_create (h : Heap) (s : Shape) : (h.create s).2.object h.size = ⟨s, []⟩ := by
  simp [object, create, size]

/-- Whether a heap has the objects of another one from a number on. -/
def AgreesFrom (n : ObjectId) (g h : Heap) : Prop :=
  ∀ j, n ≤ j → j < h.size → g.object j = h.object j

theorem valueUnder_object {h : Heap} {i : ObjectId} {name : Text}
    (hn : (h.object i).shape = .ofKey → name ∉ Workspace.derivedFromKey) :
    h.valueUnder name (.object i) = (h.get? i name).getD .null := by
  by_cases hk : (h.object i).isKey = true
  · have other := hn (by simpa [Object.isKey] using hk)
    have derived : h.derivedAttribute? i name = none := by
      simp only [Workspace.derivedFromKey, List.mem_cons, List.not_mem_nil, or_false,
        not_or] at other
      simp [derivedAttribute?, other]
    simp [valueUnder, attribute?, hk, derived]
  · simp [valueUnder, attribute?, hk]

theorem valueUnder_null (h : Heap) (name : Text) : h.valueUnder name .null = .null := rfl

/-- Whether a value is an instance of the class whose objects have a shape. -/
def IsInstance (h : Heap) (s : Shape) : Value → Prop
  | .object i => (h.object i).shape = s
  | .key _ => s = .ofKey
  | _ => False

theorem IsInstance.classOf_eq {h : Heap} {s : Shape} {x : Value} (hx : h.IsInstance s x) :
    h.classOf x = if s = .ofKey then .key else .record s.name := by
  cases x with
  | object i =>
    obtain rfl : (h.object i).shape = s := hx
    by_cases hk : (h.object i).shape = .ofKey <;> simp [classOf, Object.isKey, className, hk]
  | key k =>
    obtain rfl : s = .ofKey := hx
    simp [classOf]
  | _ => exact hx.elim

end Heap

namespace Shape

/-- Whether objects of a shape can be given members one by one, each its own field. -/
structure Fits (s : Shape) (ms : List Member) : Prop where
  names : (ms.map Member.name).Nodup
  settable : s = .ofKey → ∀ m ∈ ms, m.name ∉ Workspace.derivedFromKey

theorem Fits.tail {s : Shape} {m : Member} {rest : List Member} (h : s.Fits (m :: rest)) :
    s.Fits rest :=
  ⟨(List.nodup_cons.mp h.names).2, fun hs x hx => h.settable hs x (.tail _ hx)⟩

/-- Whether making an instance of a class makes an object of a shape. -/
inductive IsMade : Option ClassName → Shape → Prop
  | record (name : Text) (s : Shape) : IsMade (some (.record name)) s
  | key : IsMade (some .key) .ofKey

end Shape

namespace Workspace

theorem assign_object_on {i : ObjectId} {field : Text} {x : Value} {w u : Workspace}
    (h : (assign (.object i) field x).on w = (.ok (), u)) :
    u = { w with heap := w.heap.set i field x } := by
  rw [assign, on_bind_of_ok (on_get w)] at h
  split at h
  · cases h
  · cases h
    rfl

theorem assign_on {i : ObjectId} {field : Text} {w : Workspace} (x : Value)
    (h : (w.heap.object i).shape = .ofKey → field ∉ derivedFromKey) :
    (assign (.object i) field x).on w = (.ok (), { w with heap := w.heap.set i field x }) := by
  have allowed : ¬ ((w.heap.object i).isKey && derivedFromKey.contains field) = true := by
    simpa [Object.isKey] using h
  rw [assign, on_bind_of_ok (on_get w), if_neg allowed]
  rfl

theorem instantiate_on {c : Option ClassName} {s : Shape} (h : s.IsMade c) (w : Workspace) :
    (instantiate c s).on w =
      (.ok (.object w.heap.size), { w with heap := (w.heap.create s).2 }) := by
  cases h with
  | record name => rfl
  | key => rfl

/-- Whether an attempt makes a value with a property, however the objects that were there before
change later on. -/
def Makes (P : Heap → Value → Prop) (a : Attempt Workspace Value) : Prop :=
  ∀ w, ∃ x u, a.on w = (.ok x, u) ∧ u.heap.Extends w.heap ∧
    ∀ g, g.AgreesFrom w.heap.size u.heap → P g x

theorem makes_pure {P : Heap → Value → Prop} {x : Value} (h : ∀ g, P g x) :
    Makes P (pure x) :=
  fun w => ⟨x, w, rfl, .refl _, fun g _ => h g⟩

def assignEach (value : Member → Attempt Workspace Value) (v : Value) :
    List Member → Attempt Workspace Unit
  | [] => return ()
  | m :: rest => do
    let x ← value m
    assign v m.name x
    assignEach value v rest

theorem assignParts_eq (r : Record) (v : Value) (ms : List Member) :
    assignParts r v ms = assignEach (partValue r) v ms := by
  induction ms with
  | nil => rw [assignParts, assignEach]
  | cons m rest ih => rw [assignParts, assignEach, ih]

theorem fill_eq (r : Record) (v : Value) (ms : List Member) :
    fill r v ms = assignEach (memberValue r) v ms := by
  induction ms with
  | nil => rfl
  | cons m rest ih => rw [fill, assignEach, ih]

/-- Whether a workspace differs from another one in the named fields of an object, and in objects
that are new. -/
structure Filled (u w : Workspace) (i : ObjectId) (names : List Text) : Prop where
  size : w.heap.size ≤ u.heap.size
  others : ∀ j < w.heap.size, j ≠ i → u.heap.object j = w.heap.object j
  shape : (u.heap.object i).shape = (w.heap.object i).shape
  fields : ∀ field, field ∉ names → u.heap.get? i field = w.heap.get? i field

theorem Filled.trans {u t w : Workspace} {i : ObjectId} {names more : List Text}
    (hu : u.Filled t i more) (ht : t.Filled w i names) : u.Filled w i (names ++ more) := by
  refine ⟨ht.size.trans hu.size, fun j hj hne => ?_, hu.shape.trans ht.shape, fun field hf => ?_⟩
  · exact (hu.others j (hj.trans_le ht.size) hne).trans (ht.others j hj hne)
  · obtain ⟨hn, hm⟩ := not_or.mp (mt List.mem_append.mpr hf)
    exact (hu.fields field hm).trans (ht.fields field hn)

theorem filled_of_extends {u w : Workspace} (h : u.heap.Extends w.heap) {i : ObjectId}
    (hi : i < w.heap.size) : u.Filled w i [] := by
  have kept := h.kept i hi
  exact ⟨h.size, fun j hj _ => h.kept j hj, by rw [kept],
    fun _ _ => by rw [Heap.get?, kept, Heap.get?]⟩

theorem filled_assign {w : Workspace} {i : ObjectId} (hi : i < w.heap.size) (field : Text)
    (x : Value) : Filled { w with heap := w.heap.set i field x } w i [field] := by
  have same : (w.heap.set i field x).object i = (w.heap.object i).set field x :=
    Heap.object_set_self hi field x
  refine ⟨(Heap.size_set _ _ _ _).ge, fun j _ hne => Heap.object_set_of_ne _ _ _ hne, ?_, ?_⟩
  · show ((w.heap.set i field x).object i).shape = _
    rw [same]
    rfl
  · intro name hname
    have other : field ≠ name := fun h => hname (h ▸ .head _)
    show ((w.heap.set i field x).object i).get? name = _
    rw [same, Object.get?_set, if_neg other, Heap.get?]

variable {s : Shape} {ms : List Member} {value : Member → Attempt Workspace Value}
  {P : Member → Heap → Value → Prop}

theorem assignEach_on (fits : s.Fits ms) (hv : ∀ m ∈ ms, Makes (P m) (value m)) {w : Workspace}
    {i : ObjectId} (hi : i < w.heap.size) (hs : (w.heap.object i).shape = s) :
    ∃ u, (assignEach value (.object i) ms).on w = (.ok (), u) ∧
      u.Filled w i (ms.map Member.name) ∧
      ∀ g, g.AgreesFrom i u.heap → ∀ m ∈ ms, P m g (g.valueUnder m.name (.object i)) := by
  induction ms generalizing w with
  | nil => exact ⟨w, rfl, filled_of_extends (.refl _) hi, by simp⟩
  | cons m rest ih =>
    obtain ⟨x, t, made, grown, hx⟩ := hv m (.head _) w
    have hit : i < t.heap.size := hi.trans_le grown.size
    have settable : s = .ofKey → m.name ∉ derivedFromKey := fun h => fits.settable h m (.head _)
    have allowed : (t.heap.object i).shape = .ofKey → m.name ∉ derivedFromKey := by
      rwa [grown.kept i hi, hs]
    let t' : Workspace := { t with heap := t.heap.set i m.name x }
    have assigned : t'.Filled t i [m.name] := filled_assign hit m.name x
    have first : t'.Filled w i [m.name] := assigned.trans (filled_of_extends grown hi)
    obtain ⟨u, filled, done, hrest⟩ := ih (w := t') fits.tail (fun p hp => hv p (.tail _ hp))
      (hi.trans_le first.size) (first.shape.trans hs)
    have whole : u.Filled w i (m.name :: rest.map Member.name) := done.trans first
    have field : u.heap.get? i m.name = some x := by
      have fresh : m.name ∉ rest.map Member.name := (List.nodup_cons.mp fits.names).1
      rw [done.fields _ fresh, Heap.get?, Heap.object_set_self hit, Object.get?_set, if_pos rfl]
    refine ⟨u, ?_, whole, fun g hg => List.forall_mem_cons.mpr ⟨?_, hrest g hg⟩⟩
    · rw [assignEach, on_bind_of_ok made, on_bind_of_ok (assign_on x allowed)]
      exact filled
    · have found : g.object i = u.heap.object i := hg i le_rfl (hi.trans_le whole.size)
      have under : g.valueUnder m.name (.object i) = x := by
        rw [Heap.valueUnder_object (by rwa [found, whole.shape, hs]), Heap.get?, found, ← Heap.get?,
          field]
        rfl
      rw [under]
      -- what was made for the member lies behind the object, which alone has changed since
      refine hx g fun j hj hjt => ?_
      have hij : i < j := hi.trans_le hj
      have last : t.heap.size ≤ u.heap.size := assigned.size.trans done.size
      rw [hg j hij.le (hjt.trans_le last), (done.trans assigned).others j hjt hij.ne']

theorem makes_object {c : Option ClassName} (made : s.IsMade c) (fits : s.Fits ms)
    (hv : ∀ m ∈ ms, Makes (P m) (value m)) :
    Makes (fun g x => g.IsInstance s x ∧ ∀ m ∈ ms, P m g (g.valueUnder m.name x)) (do
      let v ← instantiate c s
      assignEach value v ms
      return v) := by
  intro w
  let t : Workspace := { w with heap := (w.heap.create s).2 }
  have grown : t.heap.Extends w.heap := Heap.extends_create _ _
  have created : t.heap.object w.heap.size = ⟨s, []⟩ := Heap.object_create _ _
  have inside : w.heap.size < t.heap.size := by simp [t, Heap.create, Heap.size]
  obtain ⟨u, filled, done, parts⟩ := assignEach_on fits hv inside (by rw [created])
  refine ⟨.object w.heap.size, u, ?_, ⟨grown.size.trans done.size, fun j hj => ?_⟩, fun g hg => ?_⟩
  · rw [on_bind_of_ok (instantiate_on made w), on_bind_of_ok filled, on_pure]
  · exact (done.others j (hj.trans inside) hj.ne).trans (grown.kept j hj)
  · refine ⟨?_, parts g hg⟩
    show (g.object w.heap.size).shape = s
    rw [hg _ le_rfl (inside.trans_le done.size), done.shape, created]

end Workspace
end RecordStore
