import RecordStore.Value.Attribute
import RecordStore.Proofs.Attempts
import RecordStore.Proofs.NamedEntries

/-!
# Visible objects

What can be seen of a value in a heap depends on the objects that lead on from it and on no others:
heaps that have the same visible objects show a value alike and give it the same attributes.
-/

set_option autoImplicit false

namespace RecordStore

theorem mem_of_lookupName_eq_some {α : Type} {name : Text} {entries : List (Text × α)} {a : α}
    (h : lookupName name entries = some a) : ∃ e ∈ entries, e.2 = a := by
  obtain ⟨e, found, rfl⟩ := Option.map_eq_some_iff.mp h
  exact ⟨e, List.mem_of_find?_eq_some found, rfl⟩

namespace Value

mutual

/-- Whether all objects in a value are visible. -/
def Within (visible : ObjectId → Prop) : Value → Prop
  | .object i => visible i
  | .choice _ _ v => Within visible v
  | .collection _ items => WithinEach visible items
  | _ => True

def WithinEach (visible : ObjectId → Prop) : List Value → Prop
  | [] => True
  | v :: vs => Within visible v ∧ WithinEach visible vs

end

variable {visible : ObjectId → Prop}

theorem withinEach_iff (vs : List Value) : WithinEach visible vs ↔ ∀ v ∈ vs, v.Within visible := by
  induction vs with
  | nil => simp [WithinEach]
  | cons v vs ih => rw [WithinEach, List.forall_mem_cons, ih]

mutual

theorem Within.shownWith_eq {f g : ObjectId → Except Fault Text} (h : ∀ i, visible i → f i = g i)
    {v : Value} (hv : v.Within visible) : shownWith f v = shownWith g v := by
  cases v with
  | object i => exact h i hv
  | choice _ _ v => rw [shownWith, shownWith, Within.shownWith_eq h (v := v) hv]
  | collection _ items =>
    have each : WithinEach visible items := hv
    rw [shownWith, shownWith, each.shownEach_eq h]
  | _ => rfl

theorem WithinEach.shownEach_eq {f g : ObjectId → Except Fault Text}
    (h : ∀ i, visible i → f i = g i)
    {vs : List Value} (hvs : WithinEach visible vs) : shownEach f vs = shownEach g vs := by
  cases vs with
  | nil => rfl
  | cons v vs =>
    rw [shownEach, shownEach, Within.shownWith_eq h hvs.1, WithinEach.shownEach_eq h hvs.2]

end

theorem within_ofKey? (k : Option Key) : (ofKey? k).Within visible := by
  cases k <;> trivial

theorem within_ofOption {α : Type} {f : α → Value} (h : ∀ a, (f a).Within visible) (o : Option α) :
    (ofOption f o).Within visible := by
  cases o with
  | none => trivial
  | some a => exact h a

theorem within_ofIdentity (i : Identity) : (ofIdentity i).Within visible := by
  cases i <;> trivial

theorem within_attributes {v : Value} (hv : v.Within visible) :
    ∀ e ∈ v.attributes, e.2.Within visible := by
  cases v with
  | choice _ _ w =>
    simp only [attributes, List.forall_mem_cons]
    exact ⟨trivial, hv, nofun⟩
  | key k =>
    simp only [attributes, Key.attributes, List.forall_mem_cons]
    exact ⟨trivial, within_ofIdentity _, within_ofKey? _, within_ofOption within_ofIdentity _,
      within_ofOption (f := .text) (fun _ => trivial) _, trivial, nofun⟩
  | _ =>
    simp [attributes, wholeAttributes, Moment.attributes, Date.attributes, Date.dayAttributes,
      Within]

end Value

namespace Heap

/-- Whether two heaps have the same visible objects, and these lead to visible objects only. -/
structure SeesAlike (visible : ObjectId → Prop) (h h' : Heap) : Prop where
  size : h'.size = h.size
  object : ∀ i, visible i → h'.object i = h.object i
  closed : ∀ i, visible i → ∀ e ∈ (h.object i).attributes, e.2.Within visible

namespace SeesAlike

variable {visible : ObjectId → Prop} {h h' : Heap} {v : Value} {i : ObjectId}

theorem get?_eq (s : SeesAlike visible h h') (hi : visible i) (field : Text) :
    h'.get? i field = h.get? i field := by
  rw [get?, s.object i hi]
  rfl

theorem get?_within (s : SeesAlike visible h h') (hi : visible i) {field : Text}
    (found : h.get? i field = some v) : v.Within visible := by
  rw [get?, Object.get?, Option.or_eq_some_iff] at found
  rcases found with found | ⟨-, default⟩
  · obtain ⟨e, he, rfl⟩ := mem_of_lookupName_eq_some found
    exact s.closed i hi e he
  · rw [Shape.default?] at default
    split at default <;> cases default
    trivial

theorem shownObject_eq (s : SeesAlike visible h h') (depth : Nat) (outer : List ObjectId)
    (hi : visible i) : h'.shownObject depth outer i = h.shownObject depth outer i := by
  induction depth generalizing outer i with
  | zero => rfl
  | succ depth ih =>
    have field (f : Text × Bool) (w : Value) (hw : (h.object i).value f.1 = .ok w) :
        w.shownWith (h'.shownObject depth (i :: outer)) =
          w.shownWith (h.shownObject depth (i :: outer)) := by
      have found : (h.object i).get? f.1 = some w := by
        rw [Object.value] at hw
        cases read : (h.object i).get? f.1 with
        | none =>
          rw [read] at hw
          cases hw
        | some v =>
          rw [read] at hw
          exact congrArg some (Except.ok.inj hw)
      exact (s.get?_within hi found).shownWith_eq fun j hj => ih _ hj
    have shown (f : Text × Bool) :
        ((h.object i).value f.1 >>= fun w =>
            w.shownWith (h'.shownObject depth (i :: outer)) >>= fun t => pure (f.1 ++ "=" ++ t)) =
          ((h.object i).value f.1 >>= fun w =>
            w.shownWith (h.shownObject depth (i :: outer)) >>= fun t => pure (f.1 ++ "=" ++ t)) :=
      bind_congr_of_ok fun w hw => by rw [field f w hw]
    rw [shownObject, shownObject, s.object i hi]
    simp only [shown]

theorem shown_eq (s : SeesAlike visible h h') (hv : v.Within visible) : h'.shown v = h.shown v := by
  rw [shown, shown, s.size]
  exact hv.shownWith_eq fun i hi => s.shownObject_eq _ _ hi

theorem classOf_eq (s : SeesAlike visible h h') (hv : v.Within visible) :
    h'.classOf v = h.classOf v := by
  cases v with
  | object i =>
    rw [classOf, classOf, className, className, s.object i hv]
  | _ => rfl

theorem typeName_eq (s : SeesAlike visible h h') (hv : v.Within visible) :
    h'.typeName v = h.typeName v :=
  congrArg ClassName.name (s.classOf_eq hv)

theorem rootWithin_eq (s : SeesAlike visible h h') (steps : Nat) (hv : v.Within visible) :
    h'.rootWithin steps v = h.rootWithin steps v := by
  induction steps generalizing v with
  | zero => rfl
  | succ steps ih =>
    cases v with
    | object i =>
      rw [rootWithin, rootWithin, s.get?_eq hv]
      split
      · rfl
      · rename_i found
        exact ih (s.get?_within hv found)
      · rfl
    | _ => rfl

theorem rootWithin_within (s : SeesAlike visible h h') (steps : Nat) (hv : v.Within visible)
    {w : Value} (found : h.rootWithin steps v = some w) : w.Within visible := by
  induction steps generalizing v with
  | zero => cases found
  | succ steps ih =>
    cases v with
    | object i =>
      rw [rootWithin] at found
      split at found
      · cases found
        exact hv
      · rename_i above
        exact ih (s.get?_within hv above) found
      · cases found
    | key k =>
      cases found
      trivial
    | _ => cases found

theorem derivedAttribute?_eq (s : SeesAlike visible h h') (hi : visible i) (name : Text) :
    h'.derivedAttribute? i name = h.derivedAttribute? i name := by
  simp only [derivedAttribute?, s.get?_eq hi, s.size]
  rw [s.rootWithin_eq (v := .object i) _ hi]

theorem derivedAttribute?_within (s : SeesAlike visible h h') (hi : visible i) {name : Text}
    (found : h.derivedAttribute? i name = some v) : v.Within visible := by
  have identity : ((h.get? i "id_or_name").getD .null).Within visible := by
    cases given : h.get? i "id_or_name" with
    | none => trivial
    | some w => exact s.get?_within hi given
  simp only [derivedAttribute?] at found
  split at found
  · cases found
    split
    · exact identity
    · exact identity
    · trivial
  split at found
  · cases found
    split
    · exact identity
    · trivial
  split at found
  · exact s.rootWithin_within (v := .object i) _ hi found
  · cases found

theorem attribute?_eq (s : SeesAlike visible h h') (name : Text) (hv : v.Within visible) :
    h'.attribute? name v = h.attribute? name v := by
  cases v with
  | object i =>
    rw [attribute?, attribute?, s.object i hv, s.derivedAttribute?_eq hv, s.get?_eq hv]
  | _ => rfl

theorem attribute?_within (s : SeesAlike visible h h') {name : Text} (hv : v.Within visible)
    {w : Value} (found : h.attribute? name v = some w) : w.Within visible := by
  have inside (found : lookupName name v.attributes = some w) : w.Within visible := by
    obtain ⟨e, he, rfl⟩ := mem_of_lookupName_eq_some found
    exact Value.within_attributes hv e he
  cases v with
  | object i =>
    rw [attribute?] at found
    split at found
    · rcases Option.or_eq_some_iff.mp found with derived | ⟨-, given⟩
      · exact s.derivedAttribute?_within hv derived
      · exact s.get?_within hv given
    · exact s.get?_within hv found
  | _ => exact inside found

end SeesAlike
end Heap

theorem Key.make_eq {visible : ObjectId → Prop} {h h' : Heap} (s : h.SeesAlike visible h')
    (parent : Option Key) (kind : Text) {id : Value} (hid : id.Within visible) :
    Key.make h' parent kind id = Key.make h parent kind id := by
  rw [Key.make, Key.make, badIdentity, badIdentity, s.shown_eq hid]

end RecordStore
