import RecordStore.Proofs.KeyOrder
import RecordStore.Value.Comparison

/-!
# Ancestors in the order of keys

An ancestor is a key whose path the other path goes on from, so it comes first, and the keys below
it follow it without a gap. All ways to compare complete keys come from one total order.
-/

set_option autoImplicit false

namespace RecordStore

section Paths

variable {α : Type} {cmp : α → α → Ordering}

theorem isLE_of_prefix [Std.ReflCmp cmp] {p z : List α} (h : p <+: z) :
    (List.compareLex cmp p z).isLE = true := by
  induction p generalizing z with
  | nil => cases z <;> rfl
  | cons x p ih =>
    obtain ⟨rest, rfl⟩ := h
    rw [List.cons_append, List.compareLex_cons_cons, @Std.ReflCmp.compare_self _ cmp]
    exact ih (List.prefix_append p rest)

theorem prefix_of_between [Std.TransCmp cmp] [Std.LawfulEqCmp cmp] {p x z : List α} (h : p <+: z)
    (lower : (List.compareLex cmp p x).isLE = true)
    (upper : (List.compareLex cmp x z).isLE = true) : p <+: x := by
  induction p generalizing x z with
  | nil => exact List.nil_prefix
  | cons a p ih =>
    obtain ⟨rest, rfl⟩ := h
    cases x with
    | nil => cases lower
    | cons b x =>
      rw [List.compareLex_cons_cons, Ordering.isLE_then_iff_and] at lower
      rw [List.cons_append, List.compareLex_cons_cons, Ordering.isLE_then_iff_and] at upper
      have level : cmp a b = .eq := Std.OrientedCmp.isLE_antisymm lower.1 upper.1
      obtain rfl : a = b := Std.LawfulEqCmp.eq_of_compare level
      have behind := lower.2.resolve_left (by rw [level]; nofun)
      have before := upper.2.resolve_left (by rw [level]; nofun)
      exact List.cons_prefix_cons.mpr ⟨rfl, ih (List.prefix_append p rest) behind before⟩

end Paths

def Step.normal (s : Step) : Step := (s.1, s.2.normal)

def Place.identity : Place → Identity
  | .number n => .number n
  | .name t => .name t

theorem Identity.identity_place {i : Identity} (h : i ≠ .unset) :
    (Place.ofIdentity i).identity = i.normal := by
  cases i with
  | unset => exact absurd rfl h
  | _ => rfl

namespace Key

open Heap (keysHold)

variable {a b c : Key}

theorem path_normal (k : Key) : k.normal.path = k.path.map Step.normal := by
  induction k with
  | root kind id => rfl
  | child parent kind id ih =>
    rw [normal, path, path, List.map_append, ih]
    rfl

theorem path_ne_nil (k : Key) : k.path ≠ [] := by
  cases k <;> simp [path]

theorem path_injective (h : a.path = b.path) : a = b := by
  induction a generalizing b with
  | root k i =>
    cases b with
    | root l j =>
      cases h
      rfl
    | child q l j => simp [path, List.singleton_eq_append_iff, path_ne_nil] at h
  | child p k i ih =>
    cases b with
    | root l j => simp [path, List.append_eq_singleton_iff, path_ne_nil] at h
    | child q l j =>
      obtain ⟨above, step⟩ := List.append_inj' h rfl
      cases step
      rw [ih above]

theorem same_iff_path : a.same b = true ↔ a.path.map Step.normal = b.path.map Step.normal := by
  rw [same_iff, ← path_normal, ← path_normal]
  exact ⟨congrArg path, path_injective⟩

theorem isAncestorOf_iff_path :
    a.isAncestorOf b = true ↔ a.path.map Step.normal <+: b.path.map Step.normal := by
  induction b with
  | root kind id =>
    rw [isAncestorOf, same_iff_path]
    show _ = [] ++ [Step.normal (kind, id)] ↔ _ <+: [] ++ [Step.normal (kind, id)]
    rw [List.prefix_concat_iff, List.prefix_nil, List.map_eq_nil_iff, iff_self_or]
    exact fun none => absurd none a.path_ne_nil
  | child parent kind id ih =>
    rw [isAncestorOf, Bool.or_eq_true, same_iff_path, ih, path, List.map_append]
    exact List.prefix_concat_iff.symm

theorem isAncestorOf_self (k : Key) : k.isAncestorOf k = true :=
  isAncestorOf_iff_path.mpr (List.prefix_refl _)

theorem isAncestorOf_trans (hab : a.isAncestorOf b = true) (hbc : b.isAncestorOf c = true) :
    a.isAncestorOf c = true := by
  rw [isAncestorOf_iff_path] at *
  exact hab.trans hbc

theorem same_of_isAncestorOf (hab : a.isAncestorOf b = true) (hba : b.isAncestorOf a = true) :
    a.same b = true := by
  rw [isAncestorOf_iff_path] at hab hba
  exact same_iff_path.mpr (hab.eq_of_length (Nat.le_antisymm hab.length_le hba.length_le))

theorem rank_eq_map (k : Key) :
    k.rank = (k.path.map Step.normal).map fun s => (s.1, Place.ofIdentity s.2) := by
  simp [rank, Step.normal]

theorem path_eq_map (h : a.IsComplete) :
    a.path.map Step.normal = a.rank.map fun s => (s.1, s.2.identity) := by
  rw [rank, List.map_map]
  refine List.map_congr_left fun s hs => ?_
  exact congrArg (Prod.mk s.1) (Identity.identity_place (h s hs)).symm

theorem isAncestorOf_iff_rank (ha : a.IsComplete) (hb : b.IsComplete) :
    a.isAncestorOf b = true ↔ a.rank <+: b.rank := by
  rw [isAncestorOf_iff_path]
  constructor
  · intro h
    rw [rank_eq_map, rank_eq_map]
    exact h.map _
  · intro h
    rw [path_eq_map ha, path_eq_map hb]
    exact h.map _

theorem keysHold_eq (ha : a.IsComplete) (hb : b.IsComplete) (comparator : Comparator) :
    keysHold comparator a b = comparator.holds (some (order a b)) := by
  have level : a.same b = (order a b == .eq) := by
    rw [Bool.eq_iff_iff, ← order_eq_iff ha hb, beq_iff_eq]
  cases comparator <;> simp only [keysHold, level, precedes] <;> cases order a b <;> rfl

theorem less_iff : keysHold .less a b = true ↔ order a b = .lt := beq_iff_eq

theorem lessOrEqual_iff (ha : a.IsComplete) (hb : b.IsComplete) :
    keysHold .lessOrEqual a b = true ↔ (order a b).isLE = true := by
  rw [keysHold_eq ha hb]
  cases order a b <;> simp [Comparator.holds]

/-- Of two complete keys one comes first, unless they name one record, and all comparisons go by
this order. An ancestor of a key is a key from whose path the other path goes on. It comes at the
head of the keys below it, and no other key comes between these. -/
theorem order_blocks (ha : a.IsComplete) (hb : b.IsComplete) (hc : c.IsComplete) :
    [keysHold .less a b, keysHold .equal a b, keysHold .less b a].count true = 1 ∧
    (keysHold .less a b → keysHold .less b c → keysHold .less a c) ∧
    (keysHold .lessOrEqual a b ↔ keysHold .less a b ∨ keysHold .equal a b) ∧
    (keysHold .greater a b ↔ keysHold .less b a) ∧
    (keysHold .greaterOrEqual a b ↔ keysHold .lessOrEqual b a) ∧
    (a.isAncestorOf b ↔ a.path.map Step.normal <+: b.path.map Step.normal) ∧
    a.isAncestorOf a ∧
    (a.isAncestorOf b → b.isAncestorOf a → keysHold .equal a b) ∧
    (a.isAncestorOf b → b.isAncestorOf c → a.isAncestorOf c) ∧
    (a.isAncestorOf b → keysHold .lessOrEqual a b) ∧
    (a.isAncestorOf c → keysHold .lessOrEqual a b → keysHold .lessOrEqual b c →
      a.isAncestorOf b) := by
  have swapped : order b a = (order a b).swap := Std.OrientedCmp.eq_swap
  refine ⟨?_, fun hab hbc => ?_, ?_, ?_, ?_, isAncestorOf_iff_path, isAncestorOf_self a,
    same_of_isAncestorOf, isAncestorOf_trans, fun h => ?_, fun h lower upper => ?_⟩
  · rw [keysHold_eq ha hb, keysHold_eq ha hb, keysHold_eq hb ha, swapped]
    cases order a b <;> rfl
  · exact less_iff.mpr (Std.TransCmp.lt_trans (less_iff.mp hab) (less_iff.mp hbc))
  · rw [keysHold_eq ha hb, keysHold_eq ha hb, keysHold_eq ha hb]
    cases order a b <;> simp [Comparator.holds]
  · rw [keysHold_eq ha hb, keysHold_eq hb ha, swapped]
    cases order a b <;> simp [Comparator.holds]
  · rw [keysHold_eq ha hb, keysHold_eq hb ha, swapped]
    cases order a b <;> simp [Comparator.holds]
  · rw [lessOrEqual_iff ha hb]
    exact isLE_of_prefix ((isAncestorOf_iff_rank ha hb).mp h)
  · rw [lessOrEqual_iff ha hb] at lower
    rw [lessOrEqual_iff hb hc] at upper
    rw [isAncestorOf_iff_rank ha hc] at h
    exact (isAncestorOf_iff_rank ha hb).mpr (prefix_of_between h lower upper)

/-- An author whose number is written as a flag is above a book that comes before another of the
author's books. -/
theorem order_blocks_author :
    let author : Key := .root "Author" (.flag true)
    let book : Key := .child (.root "Author" (.number 1)) "Book" (.number 2)
    let other : Key := .child (.root "Author" (.number 1)) "Book" (.name "Dune")
    (author.IsComplete ∧ book.IsComplete ∧ other.IsComplete) ∧ author.isAncestorOf other ∧
      keysHold .lessOrEqual author book ∧ keysHold .lessOrEqual book other ∧
      author.isAncestorOf book := by
  intro author book other
  have author_complete : author.IsComplete := List.forall_mem_singleton.mpr nofun
  have above (i : Identity) (h : i ≠ .unset) :
      (Key.child (.root "Author" (.number 1)) "Book" i).IsComplete :=
    List.forall_mem_cons.mpr ⟨nofun, List.forall_mem_singleton.mpr h⟩
  have book_complete : book.IsComplete := above _ nofun
  have other_complete : other.IsComplete := above _ nofun
  have heads : author.isAncestorOf other := by decide
  have lower : keysHold .lessOrEqual author book := by decide
  have upper : keysHold .lessOrEqual book other := by decide
  obtain ⟨-, -, -, -, -, -, -, -, -, -, block⟩ :=
    order_blocks author_complete book_complete other_complete
  exact ⟨⟨author_complete, book_complete, other_complete⟩, heads, lower, upper,
    block heads lower upper⟩

end Key
end RecordStore
