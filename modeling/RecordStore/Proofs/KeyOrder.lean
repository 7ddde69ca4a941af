import RecordStore.Key.Basic
import RecordStore.Proofs.SameKeys

/-!
# The order of keys is total

Ranks are totally ordered. Keys with an identity at every step have the same rank only if they name
the same record, so among such keys the order is total as well.
-/

set_option autoImplicit false

namespace RecordStore

theorem transCmp_on {α β : Type} (cmp : β → β → Ordering) [Std.TransCmp cmp] (f : α → β) :
    Std.TransCmp (fun a b => cmp (f a) (f b)) where
  eq_swap {_ _} := @Std.OrientedCmp.eq_swap _ cmp _ _ _
  isLE_trans {_ _ _} := @Std.TransCmp.isLE_trans _ cmp _ _ _ _

namespace Text

instance : Std.TransCmp order := transCmp_on (List.compareLex compare) points

instance : Std.LawfulEqCmp order where
  compare_self {_} := @Std.ReflCmp.compare_self _ (List.compareLex compare) _ _
  eq_of_compare {a b} h := by
    have hp : a.points = b.points :=
      @Std.LawfulEqCmp.eq_of_compare _ (List.compareLex compare) _ _ _ h
    cases a
    cases b
    exact congrArg mk hp

end Text

namespace Place

instance : Std.TransCmp order where
  eq_swap {a b} := by
    cases a <;> cases b
    · exact @Std.OrientedCmp.eq_swap _ compare _ _ _
    · rfl
    · rfl
    · exact @Std.OrientedCmp.eq_swap _ Text.order _ _ _
  isLE_trans {a b c} hab hbc := by
    -- a name never comes at or before a number
    cases a <;> cases b <;> cases c <;> first | (cases hab; done) | (cases hbc; done) | rfl | skip
    · exact @Std.TransCmp.isLE_trans _ compare _ _ _ _ hab hbc
    · exact @Std.TransCmp.isLE_trans _ Text.order _ _ _ _ hab hbc

instance : Std.LawfulEqCmp order where
  compare_self {a} := by
    cases a
    · exact @Std.ReflCmp.compare_self _ compare _ _
    · exact @Std.ReflCmp.compare_self _ Text.order _ _
  eq_of_compare {a b} h := by
    cases a <;> cases b
    · exact congrArg number (@Std.LawfulEqCmp.eq_of_compare _ compare _ _ _ h)
    · cases h
    · cases h
    · exact congrArg name (@Std.LawfulEqCmp.eq_of_compare _ Text.order _ _ _ h)

instance : Std.TransCmp orderStep :=
  have := transCmp_on Text.order (Prod.fst : Text × Place → Text)
  have := transCmp_on order (Prod.snd : Text × Place → Place)
  inferInstanceAs (Std.TransCmp (compareLex (fun a b : Text × Place => a.1.order b.1)
    (fun a b => order a.2 b.2)))

instance : Std.LawfulEqCmp orderStep where
  compare_self {_} := @Std.ReflCmp.compare_self _ orderStep _ _
  eq_of_compare {a b} h := by
    obtain ⟨hk, hi⟩ := Ordering.then_eq_eq.mp h
    exact Prod.ext (@Std.LawfulEqCmp.eq_of_compare _ Text.order _ _ _ hk)
      (@Std.LawfulEqCmp.eq_of_compare _ order _ _ _ hi)

end Place

namespace Key

instance : Std.TransCmp orderRank := inferInstanceAs (Std.TransCmp (List.compareLex _))

instance : Std.LawfulEqCmp orderRank := inferInstanceAs (Std.LawfulEqCmp (List.compareLex _))

instance : Std.TransCmp order := transCmp_on orderRank rank

/-- Whether a key has an identity at every step. -/
def IsComplete (k : Key) : Prop := ∀ s ∈ k.path, s.2 ≠ .unset

end Key

theorem Identity.normal_eq_of_place_eq {i j : Identity} (hi : i ≠ .unset) (hj : j ≠ .unset)
    (h : Place.ofIdentity i = Place.ofIdentity j) : i.normal = j.normal := by
  cases i <;> cases j <;> simp_all [Place.ofIdentity, normal]

@[simp] theorem Identity.place_normal (i : Identity) :
    Place.ofIdentity i.normal = Place.ofIdentity i := by
  cases i <;> rfl

namespace Key

theorem rank_root (kind : Text) (i : Identity) :
    (root kind i).rank = [(kind, Place.ofIdentity i)] := rfl

theorem rank_child (p : Key) (kind : Text) (i : Identity) :
    (child p kind i).rank = p.rank ++ [(kind, Place.ofIdentity i)] := by
  simp [rank, path]

theorem rank_ne_nil (k : Key) : k.rank ≠ [] := by
  cases k <;> simp [rank_root, rank_child]

@[simp] theorem rank_normal (k : Key) : k.normal.rank = k.rank := by
  induction k with
  | root kind id => simp [normal, rank_root]
  | child p kind id ih => simp [normal, rank_child, ih]

theorem isComplete_child {p : Key} {kind : Text} {i : Identity}
    (h : (child p kind i).IsComplete) : p.IsComplete ∧ i ≠ .unset :=
  ⟨fun s hs => h s (List.mem_append_left _ hs), h (kind, i) (List.mem_append_right _ (.head _))⟩

theorem normal_eq_of_rank_eq {a b : Key} (ha : a.IsComplete) (hb : b.IsComplete)
    (h : a.rank = b.rank) : a.normal = b.normal := by
  induction a generalizing b with
  | root k i =>
    cases b with
    | root l j =>
      simp only [rank_root, List.cons.injEq, Prod.mk.injEq, and_true] at h
      obtain ⟨rfl, hp⟩ := h
      have hi : i ≠ .unset := ha (k, i) (.head _)
      have hj : j ≠ .unset := hb (k, j) (.head _)
      simp only [normal, Identity.normal_eq_of_place_eq hi hj hp]
    | child q l j => simp [rank_root, rank_child, List.singleton_eq_append_iff, rank_ne_nil] at h
  | child p k i ih =>
    cases b with
    | root l j => simp [rank_root, rank_child, List.append_eq_singleton_iff, rank_ne_nil] at h
    | child q l j =>
      rw [rank_child, rank_child] at h
      obtain ⟨hr, hs⟩ := List.append_inj' h rfl
      simp only [List.cons.injEq, Prod.mk.injEq, and_true] at hs
      obtain ⟨rfl, hs⟩ := hs
      obtain ⟨hp, hi⟩ := isComplete_child ha
      obtain ⟨hq, hj⟩ := isComplete_child hb
      simp only [normal, ih hp hq hr, Identity.normal_eq_of_place_eq hi hj hs]

theorem order_eq_of_same {a b : Key} (h : a.same b = true) : order a b = .eq := by
  have hr : a.rank = b.rank := by rw [← rank_normal a, (same_iff a b).mp h, rank_normal]
  rw [order, hr]
  exact @Std.ReflCmp.compare_self _ orderRank _ _

theorem order_eq_iff {a b : Key} (ha : a.IsComplete) (hb : b.IsComplete) :
    order a b = .eq ↔ a.same b = true := by
  refine ⟨fun h => ?_, order_eq_of_same⟩
  rw [same_iff]
  exact normal_eq_of_rank_eq ha hb (@Std.LawfulEqCmp.eq_of_compare _ orderRank _ _ _ h)

end Key
end RecordStore
