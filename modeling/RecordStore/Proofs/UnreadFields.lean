import RecordStore.Proofs.ObjectMaking

/-!
# Fields that are not read

The parent of an object and its properties are read from its own fields, from the objects that are
embedded in it, and from those that it refers to for its parent and that lie above them. A field of
an object that is none of these can change, and the parent and the properties stay.
-/

set_option autoImplicit false

namespace RecordStore

theorem Key.badIdentity_ne_ok {α : Type} (h : Heap) (id : Value) (a : α) :
    badIdentity h id ≠ .ok a := by
  simp [badIdentity, bind_eq_ok_iff]

theorem Key.make_eq_ok_iff (h : Heap) (parent : Option Key) (kind : Text) (id : Value) (k : Key) :
    make h parent kind id = .ok k ↔
      kind.isEmpty = false ∧ ∃ i, id.identity? = some i ∧ under parent kind i = k := by
  rw [make]
  by_cases empty : kind.isEmpty = true
  · simp [empty]
  · cases id.identity? <;> simp [empty, badIdentity_ne_ok]

namespace Heap

/-- Whether a value is what another one refers to for its parent, or lies above that. -/
inductive LiesAbove (h : Heap) (registry : Registry) (w : Value) : ClassMapping → Value → Prop
  | next {mapping : ClassMapping} {v : Value} {m : Member} {className : ClassName}
      (member : m ∈ mapping.members) (related : m.traits.related = some className)
      (provides : m.traits.providesParent = true) (found : h.valueUnder m.name v = w) :
      LiesAbove h registry w mapping v
  | further {mapping above : ClassMapping} {v : Value} {m : Member} {className : ClassName}
      (member : m ∈ mapping.members) (related : m.traits.related = some className)
      (provides : m.traits.providesParent = true)
      (required : registry.require className = .ok above)
      (rest : LiesAbove h registry w above (h.valueUnder m.name v)) :
      LiesAbove h registry w mapping v

/-- Whether a value is the embedded object that a member has, or is embedded in it. -/
inductive LiesWithin (h : Heap) (w : Value) : Value → Member → Prop
  | whole (t : Traits) (parts : List Member) : LiesWithin h w w (.embedded t parts)
  | part {x : Value} {t : Traits} {parts : List Member} {p : Member} (member : p ∈ parts)
      (rest : LiesWithin h w (h.valueUnder p.name x) p) : LiesWithin h w x (.embedded t parts)

theorem not_liesAbove_of_unrelated {h : Heap} {registry : Registry} {mapping : ClassMapping}
    {v w : Value} (unrelated : ∀ m ∈ mapping.members, m.traits.related.isSome = false) :
    ¬ h.LiesAbove registry w mapping v := by
  rintro (⟨member, related, -, -⟩ | ⟨member, related, -, -, -⟩) <;>
    exact Bool.noConfusion ((unrelated _ member).symm.trans (congrArg Option.isSome related))

theorem not_liesWithin_of_plain {h : Heap} {v w : Value} {m : Member}
    (plain : m.isEmbedded = false) : ¬ h.LiesWithin w v m := by
  rintro (_ | _) <;> cases plain

section Agreeing

variable {g h : Heap} {registry : Registry}
    {keyOf keyOf' : ClassMapping → Value → Except Fault Value}
  {mapping : ClassMapping} {v : Value}

/-- What comes of a value that a member has for the parent: an object of a class becomes its key. -/
def givenParent (registry : Registry) (keyOf : ClassMapping → Value → Except Fault Value)
    (className : ClassName) : Value → Except Fault Value
  | .null => .ok .null
  | .key k => .ok (.key k)
  | .text t => .ok (.text t)
  | w => do keyOf (← registry.require className) w

theorem parentValues_cons (h : Heap) (keyOf : ClassMapping → Value → Except Fault Value) (v : Value)
    {m : Member} {className : ClassName} (related : m.traits.related = some className)
    (provides : m.traits.providesParent = true) (rest : List Member) :
    h.parentValues registry keyOf v (m :: rest) = (do
      let first ← givenParent registry keyOf className (h.valueUnder m.name v)
      return first :: (← h.parentValues registry keyOf v rest)) := by
  rw [parentValues, related, provides]
  dsimp only
  cases h.valueUnder m.name v with
  | null | key k | text t => rfl
  | _ => exact (bind_assoc _ _ _).symm

theorem givenParent_of_agree {className : ClassName} {w y : Value}
    (keys : ∀ above, registry.require className = .ok above → keyOf above w = .ok y →
      keyOf' above w = .ok y)
    (hy : givenParent registry keyOf className w = .ok y) :
    givenParent registry keyOf' className w = .ok y := by
  unfold givenParent at hy ⊢
  split at hy
  · exact hy
  · exact hy
  · exact hy
  · obtain ⟨above, required, hy⟩ := (bind_eq_ok_iff _ _ _).mp hy
    exact (bind_eq_ok_iff _ _ _).mpr ⟨above, required, keys above required hy⟩

theorem parentValues_of_agree {ms : List Member}
    (reads : ∀ m ∈ ms, m.traits.related.isSome = true →
      g.valueUnder m.name v = h.valueUnder m.name v)
    (keys : ∀ m ∈ ms, ∀ className above, m.traits.related = some className →
      m.traits.providesParent = true → registry.require className = .ok above →
      ∀ y, keyOf above (h.valueUnder m.name v) = .ok y →
        keyOf' above (h.valueUnder m.name v) = .ok y)
    {vs : List Value} (hv : h.parentValues registry keyOf v ms = .ok vs) :
    g.parentValues registry keyOf' v ms = .ok vs := by
  induction ms generalizing vs with
  | nil => exact hv
  | cons m rest ih =>
    replace ih {vs : List Value} (hv : h.parentValues registry keyOf v rest = .ok vs) :
        g.parentValues registry keyOf' v rest = .ok vs :=
      ih (fun p hp => reads p (.tail _ hp)) (fun p hp => keys p (.tail _ hp)) hv
    by_cases given : ∃ className, m.traits.related = some className ∧ m.traits.providesParent = true
    · obtain ⟨className, related, provides⟩ := given
      rw [parentValues_cons _ _ _ related provides] at hv ⊢
      obtain ⟨first, hfirst, hv⟩ := (bind_eq_ok_iff _ _ _).mp hv
      obtain ⟨others, hothers, hv⟩ := (bind_eq_ok_iff _ _ _).mp hv
      rw [reads m (.head _) (by rw [related]; rfl)]
      have same := givenParent_of_agree (fun above required =>
        keys m (.head _) className above related provides required first) hfirst
      exact (bind_eq_ok_iff _ _ _).mpr
        ⟨first, same, (bind_eq_ok_iff _ _ _).mpr ⟨others, ih hothers, hv⟩⟩
    · have skipped (f : Heap) (keyOf : ClassMapping → Value → Except Fault Value) :
          f.parentValues registry keyOf v (m :: rest) = f.parentValues registry keyOf v rest := by
        rw [parentValues]
        split
        · rename_i className related provides
          exact absurd ⟨className, related, provides⟩ given
        · rfl
      rw [skipped] at hv ⊢
      exact ih hv

theorem parentWith_of_agree
    (reads : ∀ m ∈ mapping.members, m.traits.isParent = true ∨ m.traits.related.isSome = true →
      g.valueUnder m.name v = h.valueUnder m.name v)
    (keys : ∀ m ∈ mapping.members, ∀ className above, m.traits.related = some className →
      m.traits.providesParent = true → registry.require className = .ok above →
      ∀ y, keyOf above (h.valueUnder m.name v) = .ok y →
        keyOf' above (h.valueUnder m.name v) = .ok y)
    {o : Option Key} (ho : h.parentWith registry keyOf mapping v = .ok o) :
    g.parentWith registry keyOf' mapping v = .ok o := by
  obtain ⟨given, hgiven, ho⟩ := (bind_eq_ok_iff _ _ _).mp ho
  refine (bind_eq_ok_iff _ _ _).mpr ⟨given,
    parentValues_of_agree (fun m hm related => reads m hm (.inr related)) keys hgiven, ?_⟩
  cases hp : mapping.parent? with
  | none => simpa only [hp] using ho
  | some m =>
    have parent : m.traits.isParent = true := by simpa using List.find?_some hp
    have read := reads m (List.mem_of_find?_eq_some hp) (.inl parent)
    simpa only [hp, read] using ho

end Agreeing

variable {h : Heap} {i : ObjectId} {field : Text} (x : Value)

theorem get?_set_of_ne (hi : i < h.size) (j : ObjectId) {name : Text} (hn : name ≠ field) :
    (h.set i field x).get? j name = h.get? j name := by
  by_cases hj : j = i
  · subst hj
    rw [get?, object_set_self hi, Object.get?_set, if_neg hn.symm, get?]
  · rw [get?, object_set_of_ne _ _ _ hj, get?]

theorem shape_set (hi : i < h.size) (field : Text) (x : Value) :
    ((h.set i field x).object i).shape = (h.object i).shape := by
  rw [object_set_self hi]
  rfl

theorem classOf_set (hi : i < h.size) (field : Text) (x : Value) :
    (h.set i field x).classOf (.object i) = h.classOf (.object i) := by
  rw [classOf, classOf, Object.isKey, Object.isKey, className, className, shape_set hi]

theorem rootWithin_set (hi : i < h.size) (hf : field ≠ "parent") (steps : Nat) (v : Value) :
    (h.set i field x).rootWithin steps v = h.rootWithin steps v := by
  induction steps generalizing v with
  | zero => rfl
  | succ steps ih =>
    cases v with
    | object j => simp only [rootWithin, get?_set_of_ne x hi j hf.symm, ih]
    | _ => rfl

theorem valueUnder_set (hi : i < h.size) (hf : field ≠ "parent") {v : Value} (hv : v ≠ .object i)
    (name : Text) : (h.set i field x).valueUnder name v = h.valueUnder name v := by
  cases v with
  | object j =>
    have hj : j ≠ i := fun same => hv (congrArg Value.object same)
    simp only [valueUnder, attribute?, derivedAttribute?, rootWithin_set x hi hf, size_set, get?,
      object_set_of_ne h field x hj]
  | _ => rfl

mutual

theorem partProperties_set (hi : i < h.size) (hf : field ≠ "parent") {y : Value} {m : Member}
    (apart : ¬ h.LiesWithin (.object i) y m) :
    (h.set i field x).partProperties y m = h.partProperties y m := by
  cases m with
  | plain t => rw [partProperties, partProperties]
  | embedded t parts =>
    have other : y ≠ .object i := by
      rintro rfl
      exact apart (.whole t parts)
    rw [partProperties, partProperties]
    exact allParts_set hi hf (fun p _ => valueUnder_set x hi hf other p.name)
      fun p hp within => apart (.part hp within)

theorem allParts_set (hi : i < h.size) (hf : field ≠ "parent") {v : Value} {ms : List Member}
    (reads : ∀ m ∈ ms, (h.set i field x).valueUnder m.name v = h.valueUnder m.name v)
    (apart : ∀ m ∈ ms, ¬ h.LiesWithin (.object i) (h.valueUnder m.name v) m) :
    (h.set i field x).allParts v ms = h.allParts v ms := by
  cases ms with
  | nil => rw [allParts, allParts]
  | cons m rest =>
    rw [allParts, allParts, reads m (.head _), partProperties_set hi hf (apart m (.head _)),
      allParts_set hi hf (fun p hp => reads p (.tail _ hp)) fun p hp => apart p (.tail _ hp)]

end

theorem keyAt_set (hi : i < h.size) (hf : field ≠ "parent") {registry : Registry} {depth : Nat}
    {mapping : ClassMapping} {v y : Value} (other : v ≠ .object i)
    (apart : ¬ h.LiesAbove registry (.object i) mapping v)
    (hy : h.keyAt registry depth mapping v = .ok y) :
    (h.set i field x).keyAt registry depth mapping v = .ok y := by
  induction depth generalizing mapping v y with
  | zero => exact hy
  | succ depth ih =>
    rw [keyAt] at hy ⊢
    cases hp : mapping.primary? with
    | none => simpa only [hp] using hy
    | some m =>
      simp only [hp, valueUnder_set x hi hf other] at hy ⊢
      split at hy
      · exact hy
      · exact hy
      · exact hy
      · obtain ⟨parent, below, hy⟩ := (bind_eq_ok_iff _ _ _).mp hy
        obtain ⟨k, made, hy⟩ := (bind_eq_ok_iff _ _ _).mp hy
        refine (bind_eq_ok_iff _ _ _).mpr ⟨parent, ?_, (bind_eq_ok_iff _ _ _).mpr ⟨k, ?_, hy⟩⟩
        · refine parentWith_of_agree (fun p _ _ => valueUnder_set x hi hf other p.name)
            (fun p hp className above related provides required z hz => ih ?_ ?_ hz) below
          · exact fun found => apart (.next hp related provides found)
          · exact fun rest => apart (.further hp related provides required rest)
        · -- what cannot identify a record is shown with its objects, but a key has no trace of them
          exact (Key.make_eq_ok_iff _ _ _ _ _).mpr ((Key.make_eq_ok_iff _ _ _ _ _).mp made)

end Heap
end RecordStore
