import Mathlib.Data.List.Forall2
import RecordStore.Proofs.CompiledPaths
import RecordStore.Proofs.VisibleObjects
import RecordStore.Proofs.YieldedParts

/-!
# Paths that are projected

The value of a member is fixed by the key of the record, or it is made of what is stored. A
projection and a whole object do not always choose alike: they give the same for a path exactly
where both choose the same, or where what the one reads in the key is what the other reads in the
properties.
-/

set_option autoImplicit false

namespace RecordStore

open Attempt

/-- Where a value of a record comes from: it is fixed, or made of what is stored for a member. -/
inductive Origin where
  | fixed (x : Value)
  | stored (m : Member)

namespace Value

def IsBare (x : Value) : Prop := x.Within fun _ => False

def packed : List Value → Value
  | [x] => x
  | xs => .collection .tuple xs

theorem packed_injective {xs ys : List Value} (same : packed xs = packed ys)
    (count : xs.length = ys.length) : xs = ys := by
  match xs, ys with
  | [], [] => rfl
  | [x], [y] => exact congrArg (fun x => [x]) same
  | x :: x' :: xs, y :: y' :: ys =>
    simp only [packed, Value.collection.injEq, true_and] at same
    exact same

end Value

namespace Heap

variable {h g : Heap} {x y : Value} {m : Member}

theorem valueUnder_of_bare (hx : x.IsBare) (h g : Heap) (name : Text) :
    h.valueUnder name x = g.valueUnder name x := by
  cases x with
  | object i => exact hx.elim
  | _ => rfl

theorem isBare_valueUnder (hx : x.IsBare) (h : Heap) (name : Text) :
    (h.valueUnder name x).IsBare := by
  have under : h.valueUnder name x = (lookupName name x.attributes).getD .null := by
    cases x with
    | object i => exact hx.elim
    | _ => rfl
  rw [under]
  cases found : lookupName name x.attributes with
  | none => trivial
  | some y =>
    obtain ⟨e, he, rfl⟩ := mem_of_lookupName_eq_some found
    exact Value.within_attributes hx e he

theorem IsInstance.of_bare {s : Shape} (hx : x.IsBare) (hi : h.IsInstance s x) (g : Heap) :
    g.IsInstance s x := by
  cases x with
  | object i => exact hx.elim
  | _ => exact hi

theorem Alike.of_bare (ha : h.Alike x y m) (hx : x.IsBare) (hy : y.IsBare) (g : Heap) :
    g.Alike x y m := by
  induction ha with
  | refl x m => exact .refl x m
  | embedded own other _ ih =>
    refine .embedded (own.of_bare hx g) (other.of_bare hy g) fun p hp => ?_
    rw [valueUnder_of_bare hx g h, valueUnder_of_bare hy g h]
    exact ih p hp (isBare_valueUnder hx h p.name) (isBare_valueUnder hy h p.name)

end Heap

namespace Record

variable {r : Record} {h : Heap} {x y : Value} {m : Member}

theorem Yields.of_bare (hy : r.Yields h x m) (hx : x.IsBare) (g : Heap) : r.Yields g x m := by
  induction hy with
  | plain restored => exact .plain restored
  | absent t missing => exact .absent t missing
  | embedded present made fits belongs _ ih =>
    refine .embedded present made fits (belongs.of_bare hx g) fun p hp => ?_
    rw [Heap.valueUnder_of_bare hx g h]
    exact ih p hp (Heap.isBare_valueUnder hx h p.name)

variable (r)

/-- The origin of the value that a whole object has for one of its members. -/
def ownOrigin (m : Member) : Origin :=
  if m.traits.isPrimary then .fixed (m.keyValue r.key)
  else if m.traits.isParent then .fixed (m.parentValue r.key)
  else if m.traits.related.isSome then
    .fixed (if m.traits.providesParent then Value.ofKey? r.key.parent? else .null)
  else .stored m

def chosenOrigin (m : Member) : Origin :=
  if m.traits.isPrimary then .fixed (m.keyValue r.key)
  else if m.traits.isParent then .fixed (m.parentValue r.key)
  else .stored m

/-- Whether the record's key can be given out for a member that is projected to it. -/
def CanGive (m : Member) : Prop :=
  (m.traits.isPrimary = true → ∃ x, m.giveKey r.key = .ok x) ∧
    (m.traits.isPrimary = false → m.traits.isParent = true → ∃ x, m.giveParent r.key = .ok x)

def under (name : Text) : Origin → Origin
  | .fixed x => .fixed (Heap.empty.valueUnder name x)
  | .stored (.plain _) => .fixed .null
  | .stored (.embedded _ parts) =>
    if Workspace.isAbsent r parts then .fixed .null
    else (Member.find? name parts).elim (.fixed .null) .stored

def along : List Text → Origin → Origin
  | [], o => o
  | name :: rest, o => along rest (under r name o)

def wholeOrigin (mapping : ClassMapping) : List Text → Origin
  | [] => .fixed .null
  | name :: rest =>
    (Member.find? name mapping.members).elim (.fixed .null) fun m => along r rest (ownOrigin r m)

/-- Whether the same comes of two origins for a member, of which the first is that of a whole
object. Where just one of them is fixed, the properties of the record have to yield what it is fixed
to. -/
def Agrees (m : Member) : Origin → Origin → Prop
  | .fixed x, .fixed y => Heap.empty.Alike y x m
  | .fixed x, .stored p | .stored p, .fixed x => r.Yields .empty x p
  | .stored p, .stored q => p = q

end Record

namespace Origin

def Gives (o : Origin) (r : Record) (h : Heap) (y : Value) : Prop :=
  match o with
  | .fixed x => y = x
  | .stored m => r.Yields h y m

/-- Whether an origin is fixed to a value without objects, or is what is stored for a given
member. -/
def IsFor (o : Origin) (m : Member) : Prop :=
  match o with
  | .fixed x => x.IsBare
  | .stored p => p = m

variable {r : Record} {h : Heap} {x y : Value} {m : Member} {o c : Origin}

theorem alike_iff_agrees (ho : o.Gives r h x) (whole : o.IsFor m) (hc : c.Gives r h y)
    (chosen : c.IsFor m) : h.Alike y x m ↔ r.Agrees m o c := by
  cases o with
  | fixed v =>
    obtain rfl : x = v := ho
    have bare : x.IsBare := whole
    cases c with
    | fixed v =>
      obtain rfl : y = v := hc
      exact ⟨fun ha => ha.of_bare chosen bare _, fun ha => ha.of_bare chosen bare _⟩
    | stored p =>
      obtain rfl : p = m := chosen
      rw [Heap.alike_iff_yields hc]
      exact ⟨fun hy => hy.of_bare bare _, fun hy => hy.of_bare bare _⟩
  | stored p =>
    obtain rfl : p = m := whole
    cases c with
    | fixed v =>
      obtain rfl : y = v := hc
      have bare : y.IsBare := chosen
      have swap : h.Alike y x p ↔ h.Alike x y p := ⟨Heap.Alike.symm, Heap.Alike.symm⟩
      rw [swap, Heap.alike_iff_yields ho]
      exact ⟨fun hy => hy.of_bare bare _, fun hy => hy.of_bare bare _⟩
    | stored q =>
      obtain rfl : q = p := chosen
      exact ⟨fun _ => rfl, fun _ => (Heap.alike_iff_yields hc).mpr ho⟩

end Origin

theorem Member.isBare_keyValue (m : Member) (k : Key) : (m.keyValue k).IsBare := by
  rw [Member.keyValue]
  split
  · trivial
  split
  · exact Value.within_ofOption Value.within_ofIdentity _
  split
  · exact Value.within_ofOption (f := .text) (fun _ => trivial) _
  · trivial

theorem Member.isBare_parentValue (m : Member) (k : Key) : (m.parentValue k).IsBare := by
  rw [Member.parentValue]
  split
  · trivial
  split <;> trivial

namespace Record

variable {r : Record} {h : Heap} {x : Value} {m first : Member}

theorem ownOrigin_isFor (r : Record) (m : Member) : (r.ownOrigin m).IsFor m := by
  rw [ownOrigin]
  split
  · exact m.isBare_keyValue _
  split
  · exact m.isBare_parentValue _
  split
  · split
    · exact Value.within_ofKey? _
    · trivial
  · rfl

theorem chosenOrigin_isFor (r : Record) (m : Member) : (r.chosenOrigin m).IsFor m := by
  rw [chosenOrigin]
  split
  · exact m.isBare_keyValue _
  split
  · exact m.isBare_parentValue _
  · rfl

theorem gives_along {o : Origin} {path : List Text} (gives : o.Gives r h x) (own : o.IsFor first)
    (leads : ClassMapping.descend none (some first) path = .ok (some m)) :
    (r.along path o).Gives r h (h.valueAlong path x) ∧ (r.along path o).IsFor m := by
  induction path generalizing o x first with
  | nil =>
    cases leads
    exact ⟨gives, own⟩
  | cons name rest ih =>
    obtain ⟨t, parts, p, rfl, found, leads⟩ := ClassMapping.descend_cons_eq_ok leads
    rw [along, Heap.valueAlong]
    cases o with
    | fixed y =>
      obtain rfl : x = y := gives
      refine ih ?_ ?_ leads
      · exact Heap.valueUnder_of_bare own _ _ name
      · exact Heap.isBare_valueUnder own _ name
    | stored q =>
      obtain rfl : q = .embedded t parts := own
      rw [under]
      cases gives with
      | absent _ missing =>
        rw [if_pos missing]
        exact ih rfl trivial leads
      | embedded present _ _ _ each =>
        obtain ⟨member, named⟩ := Member.of_find?_eq_some found
        rw [if_neg (Bool.eq_false_iff.mp present), found]
        refine ih ?_ rfl leads
        rw [← named]
        exact each p member

end Record

namespace Member

theorem IsDistinct.descend {query : Option Text} {path : List Text} {first m : Member}
    (h : first.IsDistinct) (leads : ClassMapping.descend query (some first) path = .ok (some m)) :
    m.IsDistinct := by
  induction path generalizing first with
  | nil =>
    cases leads
    exact h
  | cons name rest ih =>
    obtain ⟨t, parts, p, rfl, found, leads⟩ := ClassMapping.descend_cons_eq_ok leads
    cases h with
    | embedded _ each => exact ih (each p (Member.of_find?_eq_some found).1) leads

end Member

namespace ClassMapping

variable {mapping : ClassMapping}

theorem exists_of_memberAt {path : List Text} {query : Option Text} {m : Member}
    (leads : mapping.memberAt path query = .ok (some m)) :
    ∃ name rest first, path = name :: rest ∧ Member.find? name mapping.members = some first ∧
      descend query (some first) rest = .ok (some m) := by
  cases path with
  | nil => cases leads
  | cons name rest =>
    rw [memberAt] at leads
    cases found : Member.find? name mapping.members with
    | none =>
      rw [found, descend] at leads
      cases leads
    | some first =>
      rw [found] at leads
      exact ⟨name, rest, first, rfl, found, leads⟩

theorem IsDistinct.memberAt {path : List Text} {query : Option Text} {m : Member}
    (hm : mapping.IsDistinct) (leads : mapping.memberAt path query = .ok (some m)) :
    m.IsDistinct := by
  obtain ⟨name, rest, first, -, found, leads⟩ := exists_of_memberAt leads
  exact (hm.members first (Member.of_find?_eq_some found).1).descend leads

end ClassMapping

namespace Workspace

variable {mapping : ClassMapping} {r : Record} {m : Member} {w u : Workspace} {v : Value}

theorem makes_ofExcept {P : Heap → Value → Prop} {x : Except Fault Value} {y : Value}
    (h : x = .ok y) (hy : ∀ g, P g y) : Makes P (Attempt.ofExcept x) := by
  rw [h]
  exact makes_pure hy

theorem ok_of_succeeds {x : Except Fault Value} (h : Succeeds (Attempt.ofExcept x)) :
    ∃ y, x = .ok y := by
  obtain ⟨w, y, u, h⟩ := h
  exact ⟨y, ((on_ofExcept_eq_ok_iff _ _ _ _).mp h).1⟩

theorem makes_memberValue_of_succeeds (hm : m.IsDistinct) (h : Succeeds (memberValue r m)) :
    Makes (fun g y => (r.ownOrigin m).Gives r g y) (memberValue r m) := by
  rw [memberValue] at h ⊢
  rw [Record.ownOrigin]
  by_cases primary : m.traits.isPrimary = true
  · simp only [if_pos primary] at h ⊢
    obtain ⟨x, gives⟩ := ok_of_succeeds h
    exact makes_ofExcept gives fun _ => (Member.keyValue_of_giveKey gives).symm
  by_cases parent : m.traits.isParent = true
  · simp only [if_neg primary, if_pos parent] at h ⊢
    obtain ⟨x, gives⟩ := ok_of_succeeds h
    exact makes_ofExcept gives fun _ => (Member.parentValue_of_giveParent gives).symm
  by_cases related : m.traits.related.isSome = true
  · simp only [if_neg primary, if_neg parent, if_pos related] at h ⊢
    exact makes_pure fun _ => rfl
  · simp only [if_neg primary, if_neg parent, if_neg related] at h ⊢
    exact makes_partValue_of_succeeds hm h

/-- A whole object has along each path what comes of the origin of the path. -/
theorem gives_of_loadFresh (hm : mapping.IsDistinct)
    (loaded : (loadFresh mapping r).on w = (.ok v, u)) {g : Heap} (hg : g.Extends u.heap)
    {path : List Text} (leads : mapping.memberAt path none = .ok (some m)) :
    (r.wholeOrigin mapping path).Gives r g (g.valueAlong path v) ∧
      (r.wholeOrigin mapping path).IsFor m := by
  have each : loadFresh mapping r = (do
      let v ← instantiate mapping.className mapping.shape
      assignEach (memberValue r) v mapping.members
      return v) := by
    simp only [loadFresh, fill_eq]
  rw [each] at loaded
  obtain ⟨made, fits, succeed⟩ := object_eq_ok (fun hP m _ => hP.keeps_memberValue r m)
    (fun key => hm.key (Option.some.inj key)) hm.names hm.nonempty loaded
  obtain ⟨_, _, again, -, held⟩ := makes_object made fits
    (fun m h => makes_memberValue_of_succeeds (hm.members m h) (succeed m h)) w
  rw [loaded] at again
  cases again
  obtain ⟨-, members⟩ := held g fun j _ hj => hg.kept j hj
  obtain ⟨name, rest, first, rfl, found, leads⟩ := ClassMapping.exists_of_memberAt leads
  obtain ⟨member, named⟩ := Member.of_find?_eq_some found
  have own := members first member
  rw [named] at own
  rw [Record.wholeOrigin, found]
  exact Record.gives_along own (r.ownOrigin_isFor first) leads

theorem makes_chosenValue (fixed : r.CanGive m)
    (h : m.traits.isPrimary = false → m.traits.isParent = false →
      Makes (fun g y => r.Yields g y m) (partValue r m)) :
    Makes (fun g y => (r.chosenOrigin m).Gives r g y) (chosenValue r m) := by
  rw [chosenValue, Record.chosenOrigin]
  by_cases primary : m.traits.isPrimary = true
  · obtain ⟨x, gives⟩ := fixed.1 primary
    simp only [if_pos primary]
    exact makes_ofExcept gives fun _ => (Member.keyValue_of_giveKey gives).symm
  by_cases parent : m.traits.isParent = true
  · obtain ⟨x, gives⟩ := fixed.2 (Bool.eq_false_iff.mpr primary) parent
    simp only [if_neg primary, if_pos parent]
    exact makes_ofExcept gives fun _ => (Member.parentValue_of_giveParent gives).symm
  · simp only [if_neg primary, if_neg parent]
    exact h (Bool.eq_false_iff.mpr primary) (Bool.eq_false_iff.mpr parent)

theorem canGive_of_succeeds (h : Succeeds (chosenValue r m)) : r.CanGive m := by
  rw [chosenValue] at h
  refine ⟨fun primary => ?_, fun primary parent => ?_⟩
  · rw [if_pos primary] at h
    exact ok_of_succeeds h
  · rw [if_neg (Bool.eq_false_iff.mp primary), if_pos parent] at h
    exact ok_of_succeeds h

theorem makes_chosenValue_of_succeeds (hm : m.IsDistinct) (h : Succeeds (chosenValue r m)) :
    Makes (fun g y => (r.chosenOrigin m).Gives r g y) (chosenValue r m) := by
  refine makes_chosenValue (canGive_of_succeeds h) fun primary parent =>
    makes_partValue_of_succeeds hm ?_
  simpa [chosenValue, primary, parent] using h

theorem makes_chosenValue_of_agrees {o : Origin} {h : Heap} {x : Value} (gives : o.Gives r h x)
    (fixed : r.CanGive m) (agrees : r.Agrees m o (r.chosenOrigin m)) :
    Makes (fun g y => (r.chosenOrigin m).Gives r g y) (chosenValue r m) := by
  refine makes_chosenValue fixed fun primary parent => ?_
  have chosen : r.chosenOrigin m = .stored m := by simp [Record.chosenOrigin, primary, parent]
  rw [chosen] at agrees
  cases o with
  | fixed x => exact makes_of_yields agrees
  | stored p =>
    obtain rfl : p = m := agrees
    exact makes_of_yields gives

theorem makes_chosenValues {P : Member → Heap → Value → Prop} {ms : List Member}
    (each : ∀ m ∈ ms, Makes (P m) (chosenValue r m)) (w : Workspace) :
    ∃ xs u, (chosenValues r (ms.map some)).on w = (.ok xs, u) ∧ u.heap.Extends w.heap ∧
      ∀ g, g.AgreesFrom w.heap.size u.heap → List.Forall₂ (fun m x => P m g x) ms xs := by
  induction ms generalizing w with
  | nil => exact ⟨[], w, rfl, .refl _, fun _ _ => .nil⟩
  | cons m rest ih =>
    obtain ⟨own, others⟩ := List.forall_mem_cons.mp each
    obtain ⟨x, t, made, grown, first⟩ := own w
    obtain ⟨xs, u, more, later, second⟩ := ih others t
    refine ⟨x :: xs, u, ?_, ⟨grown.size.trans later.size, fun j hj => ?_⟩, fun g hg => ?_⟩
    · rw [List.map_cons, chosenValues, on_bind_of_ok made, on_bind_of_ok more, on_pure]
    · rw [later.kept j (hj.trans_le grown.size), grown.kept j hj]
    · refine .cons (first g fun j hj hjt => ?_) (second g fun j hj => hg j (grown.size.trans hj))
      rw [hg j hj (hjt.trans_le later.size), later.kept j hjt]

theorem succeeds_of_chosenValues {ms : List Member} {xs : List Value}
    (h : (chosenValues r (ms.map some)).on w = (.ok xs, u)) :
    ∀ m ∈ ms, Succeeds (chosenValue r m) := by
  induction ms generalizing w u xs with
  | nil => nofun
  | cons m rest ih =>
    obtain ⟨x, t, made, h⟩ := (on_bind_eq_ok_iff _ _ _ _ _).mp h
    obtain ⟨others, t', more, -⟩ := (on_bind_eq_ok_iff _ _ _ _ _).mp h
    exact List.forall_mem_cons.mpr ⟨⟨w, x, t, made⟩, ih more⟩

theorem loadChosen_on (r : Record) (ms : List (Option Member)) (w : Workspace) :
    (loadChosen r ms).on w =
      (((chosenValues r ms).on w).1.map Value.packed, ((chosenValues r ms).on w).2) := by
  rw [loadChosen, on_bind]
  rcases (chosenValues r ms).on w with ⟨f | xs, u⟩
  · rfl
  · match xs with
    | [] | [x] | x :: y :: rest => rfl

abbrev Projection := List (List Text × Member)

variable {chosen : Projection}

theorem project_on (leads : ∀ e ∈ chosen, mapping.memberAt e.1 none = .ok (some e.2)) (r : Record)
    (w : Workspace) :
    (project mapping r (chosen.map (·.1))).on w =
      (((chosenValues r ((chosen.map (·.2)).map some)).on w).1.map Value.packed,
        ((chosenValues r ((chosen.map (·.2)).map some)).on w).2) := by
  have members : (chosen.map (·.1)).mapM (fun path => mapping.memberAt path none) =
      .ok ((chosen.map (·.2)).map some) := by
    induction chosen with
    | nil => rfl
    | cons e rest ih =>
      obtain ⟨first, others⟩ := List.forall_mem_cons.mp leads
      rw [List.map_cons, List.mapM_cons, first, ih others]
      rfl
  rw [project, members]
  exact loadChosen_on r _ w

theorem forall₂_alike_iff {h : Heap} {v : Value} {xs : List Value}
    (whole : ∀ e ∈ chosen, (r.wholeOrigin mapping e.1).Gives r h (h.valueAlong e.1 v) ∧
      (r.wholeOrigin mapping e.1).IsFor e.2)
    (values : List.Forall₂ (fun m x => (r.chosenOrigin m).Gives r h x) (chosen.map (·.2)) xs) :
    List.Forall₂ (fun x e => h.Alike x (h.valueAlong e.1 v) e.2) xs chosen ↔
      ∀ e ∈ chosen, r.Agrees e.2 (r.wholeOrigin mapping e.1) (r.chosenOrigin e.2) := by
  induction chosen generalizing xs with
  | nil =>
    cases values
    simp
  | cons e rest ih =>
    obtain ⟨⟨gives, own⟩, others⟩ := List.forall_mem_cons.mp whole
    cases values with
    | cons first more =>
      rw [List.forall₂_cons, List.forall_mem_cons, ih others more,
        Origin.alike_iff_agrees gives own first (r.chosenOrigin_isFor e.2)]

end Workspace

namespace Record

variable {mapping : ClassMapping} {r : Record} {m first : Member}

theorem agrees_member_iff {name : Text} (found : Member.find? name mapping.members = some m) :
    r.Agrees m (r.wholeOrigin mapping [name]) (r.chosenOrigin m) ↔
      m.traits.isPrimary = true ∨ m.traits.isParent = true ∨ m.traits.related.isSome = false ∨
        r.Yields .empty (if m.traits.providesParent then Value.ofKey? r.key.parent? else .null)
          m := by
  rw [wholeOrigin, found, Option.elim, along, ownOrigin, chosenOrigin]
  by_cases primary : m.traits.isPrimary = true
  · simp only [primary, true_or, iff_true]
    exact .refl _ _
  by_cases parent : m.traits.isParent = true
  · simp only [if_neg primary, parent, true_or, or_true, iff_true]
    exact .refl _ _
  by_cases related : m.traits.related.isSome = true
  · simp [Agrees, primary, parent, related]
  · simp [Agrees, primary, parent, related]

/-- Whether the embedded objects that a path leads through from a member on are there. -/
def Passes (r : Record) : Member → List Text → Prop
  | _, [] => True
  | .plain _, _ :: _ => False
  | .embedded _ parts, name :: rest =>
    Workspace.isAbsent r parts = false ∧ ∀ p, Member.find? name parts = some p → Passes r p rest

theorem along_of_passes {path : List Text}
    (leads : ClassMapping.descend none (some first) path = .ok (some m))
    (passes : r.Passes first path) : r.along path (.stored first) = .stored m := by
  induction path generalizing first with
  | nil =>
    cases leads
    rfl
  | cons name rest ih =>
    obtain ⟨t, parts, p, rfl, found, leads⟩ := ClassMapping.descend_cons_eq_ok leads
    obtain ⟨present, below⟩ := passes
    rw [along, under, if_neg (Bool.eq_false_iff.mp present), found]
    exact ih leads (below p found)

theorem agrees_of_passes {name : Text} {rest : List Text}
    (found : Member.find? name mapping.members = some first) (stored : Heap.isStored first = true)
    (leads : ClassMapping.descend none (some first) rest = .ok (some m))
    (passes : r.Passes first rest) (primary : m.traits.isPrimary = false)
    (parent : m.traits.isParent = false) :
    r.Agrees m (r.wholeOrigin mapping (name :: rest)) (r.chosenOrigin m) := by
  have own : r.ownOrigin first = .stored first := by
    simp only [Heap.isStored, Bool.and_eq_true, Bool.not_eq_true', Option.isNone_iff_eq_none]
      at stored
    simp [ownOrigin, stored]
  have chosen : r.chosenOrigin m = .stored m := by simp [chosenOrigin, primary, parent]
  rw [wholeOrigin, found, Option.elim, own, along_of_passes leads passes, chosen]
  rfl

end Record

namespace Workspace

variable {mapping : ClassMapping} {r : Record} {w u : Workspace} {v : Value} {chosen : Projection}

/-- Paths are projected to what they lead to on the whole object exactly where a projection and a
whole object agree on where each path's value comes from. A whole object takes null for what lies
below an embedded object without a part of its own, the key of the parent or null for the member of
a relation, and the property for a part that is marked as primary or as a parent; a projection takes
the property for the first two, and for the last the record's own key, which it has to encode if the
part is for tokens. -/
theorem project_alike_iff (hm : mapping.IsDistinct)
    (leads : ∀ e ∈ chosen, mapping.memberAt e.1 none = .ok (some e.2))
    (loaded : (loadWhole mapping r true).on w = (.ok v, u)) :
    (∃ xs t, (project mapping r (chosen.map (·.1))).on u = (.ok (Value.packed xs), t) ∧
      List.Forall₂ (fun x e => t.heap.Alike x (t.heap.valueAlong e.1 v) e.2) xs chosen) ↔
      ∀ e ∈ chosen, r.CanGive e.2 ∧
        r.Agrees e.2 (r.wholeOrigin mapping e.1) (r.chosenOrigin e.2) := by
  change (loadFresh mapping r).on w = _ at loaded
  rw [project_on leads]
  constructor
  · rintro ⟨xs, t, ran, alike⟩
    rcases values : (chosenValues r ((chosen.map (·.2)).map some)).on u with ⟨f | ys, t'⟩
    · rw [values] at ran
      cases ran
    rw [values] at ran
    obtain ⟨same, rfl⟩ := Prod.mk.inj ran
    have each : ∀ m ∈ chosen.map (·.2), Makes (fun g y => (r.chosenOrigin m).Gives r g y)
        (chosenValue r m) := by
      intro m h
      obtain ⟨e, he, rfl⟩ := List.mem_map.mp h
      exact makes_chosenValue_of_succeeds (hm.memberAt (leads e he))
        (succeeds_of_chosenValues values _ (List.mem_map_of_mem he))
    obtain ⟨zs, t, again, grown, gives⟩ := makes_chosenValues each u
    rw [values] at again
    cases again
    have given := gives t'.heap fun _ _ _ => rfl
    -- a row tells the values that it was packed of
    obtain rfl : ys = xs := by
      refine Value.packed_injective (Except.ok.inj same) ?_
      rw [← given.length_eq, alike.length_eq, List.length_map]
    have agree := (forall₂_alike_iff
      (fun e he => gives_of_loadFresh hm loaded grown (leads e he)) given).mp alike
    exact fun e he => ⟨canGive_of_succeeds
      (succeeds_of_chosenValues values _ (List.mem_map_of_mem he)), agree e he⟩
  · intro agree
    have each : ∀ m ∈ chosen.map (·.2), Makes (fun g y => (r.chosenOrigin m).Gives r g y)
        (chosenValue r m) := by
      intro m h
      obtain ⟨e, he, rfl⟩ := List.mem_map.mp h
      exact makes_chosenValue_of_agrees
        (gives_of_loadFresh hm loaded (.refl _) (leads e he)).1 (agree e he).1 (agree e he).2
    obtain ⟨xs, t, values, grown, gives⟩ := makes_chosenValues each u
    refine ⟨xs, t, by rw [values]; rfl, ?_⟩
    exact (forall₂_alike_iff (fun e he => gives_of_loadFresh hm loaded grown (leads e he))
      (gives t.heap fun _ _ _ => rfl)).mpr fun e he => (agree e he).2

def bookClasses : List NamedClass :=
  let field (name type : Text) (isPrimary : Bool) : NamedField :=
    ⟨name, type, none, none, none, isPrimary, false, false, false, false⟩
  let book : NamedField := ⟨"book", "Book", none, none, some "Book", false, false, false, true,
    false⟩
  [⟨"Book", none, true, [field "id" "int" true]⟩,
    ⟨"Chapter", none, true, [field "key" "Key" true, book, field "title" "str" false]⟩]

def bookOfChapter : Member :=
  .plain ⟨"book", .record ⟨"Book", [("id", false)]⟩, false, false, none, some (.record "Book"),
    true, false⟩

def chapters : ClassMapping :=
  ⟨.record "Chapter", ⟨"Chapter", [("key", false), ("book", false), ("title", false)]⟩, "Chapter",
    [.plain ⟨"key", .key, true, false, none, none, false, false⟩, bookOfChapter,
      .plain ⟨"title", .text, false, false, none, none, false, false⟩]⟩

theorem chapters_isDistinct : chapters.IsDistinct := by
  have registered : ∃ s ms after, Schema.ofDeclarations [] bookClasses = .ok s ∧
      s.membersOf (.record "Chapter") = .ok ms ∧
      Registry.empty.register (.record "Chapter") (s.shapeOf (.record "Chapter")) ms none =
        .ok (chapters, after) := ⟨_, _, _, rfl, rfl, rfl⟩
  obtain ⟨s, ms, after, declared, members, registered⟩ := registered
  exact Registry.register_isDistinct (Schema.ofDeclarations_isDistinct declared) members registered

def book : Key := .root "Book" (.number 4)

def chapter : Record := ⟨.child book "Chapter" (.number 1), [("title", .text "One")]⟩

/-- A whole chapter has its book, and projected it is without one. -/
theorem project_alike_chapter :
    ∃ v u, (loadWhole chapters chapter true).on ⟨.empty, .empty⟩ = (.ok v, u) ∧
      u.heap.valueAlong ["book"] v = .key book ∧
      (project chapters chapter [["book"]]).on u = (.ok .null, u) ∧
      ¬ ∃ xs t, (project chapters chapter [["book"]]).on u = (.ok (Value.packed xs), t) ∧
        List.Forall₂ (fun x e => t.heap.Alike x (t.heap.valueAlong e.1 v) e.2) xs
          ([(["book"], bookOfChapter)] : Projection) := by
  obtain ⟨v, u, loaded, has, projected⟩ : ∃ v u,
      (loadWhole chapters chapter true).on ⟨.empty, .empty⟩ = (.ok v, u) ∧
        u.heap.valueAlong ["book"] v = .key book ∧
        (project chapters chapter [["book"]]).on u = (.ok .null, u) := ⟨_, _, rfl, rfl, rfl⟩
  refine ⟨v, u, loaded, has, projected, ?_⟩
  have leads : ∀ e ∈ ([(["book"], bookOfChapter)] : Projection),
      chapters.memberAt e.1 none = .ok (some e.2) := List.forall_mem_singleton.mpr rfl
  refine (not_congr (project_alike_iff chapters_isDistinct leads loaded)).mpr fun agree => ?_
  have stored : chapter.Yields .empty (.key book) bookOfChapter := (agree _ (.head _)).2
  cases stored with
  | plain restored => cases restored

end Workspace
end RecordStore
