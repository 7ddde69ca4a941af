import Mathlib.Data.List.Pairwise
import Mathlib.Data.List.Nodup
import RecordStore.Proofs.Scanning
import RecordStore.Proofs.StandingOrder

/-!
# The order of answers

Sorting by the last clause first, and keeping ties as they are each time, comes to one order: the
first clause that tells two records apart decides, and where none does their keys decide.
-/

set_option autoImplicit false

namespace RecordStore

theorem not_sublist_swap {α : Type} {l : List α} {a b : α} (hn : l.Nodup)
    (h : List.Sublist [a, b] l) : ¬ List.Sublist [b, a] l := by
  induction l with
  | nil => cases h
  | cons x l ih =>
    obtain ⟨hx, hl⟩ := List.nodup_cons.mp hn
    intro h'
    cases h with
    | cons _ h =>
      cases h' with
      | cons _ h' => exact ih hl h h'
      | cons_cons _ _ => exact hx (h.subset (.tail _ (.head _)))
    | cons_cons _ h =>
      cases h' with
      | cons _ h' => exact hx (h'.subset (.tail _ (.head _)))
      | cons_cons _ h' => exact hx (h'.subset (.head _))

/-- Items that a sort leaves level keep the order they had. -/
theorem mergeSort_refines {α : Type} (cmp : α → α → Ordering) [Std.TransCmp cmp]
    {R : α → α → Prop} {l : List α} (hn : l.Nodup) (hR : l.Pairwise R) :
    (l.mergeSort (fun a b => (cmp a b).isLE)).Pairwise
      (fun a b => cmp a b = .lt ∨ cmp a b = .eq ∧ R a b) := by
  have trans (a b c : α) : (cmp a b).isLE → (cmp b c).isLE → (cmp a c).isLE :=
    Std.TransCmp.isLE_trans
  have total (a b : α) : (cmp a b).isLE || (cmp b a).isLE := by
    rw [@Std.OrientedCmp.eq_swap _ cmp _ b _]
    cases cmp a b <;> rfl
  have sorted := List.pairwise_mergeSort trans total l
  have perm := List.mergeSort_perm l (fun a b => (cmp a b).isLE)
  have nodup := perm.nodup_iff.mpr hn
  rw [List.pairwise_iff_forall_sublist] at hR sorted ⊢
  intro a b hab
  have hle := sorted hab
  have hne : a ≠ b := by
    rintro rfl
    exact absurd (nodup.sublist hab) (by simp)
  cases hc : cmp a b with
  | lt => exact .inl rfl
  | gt => simp [hc] at hle
  | eq =>
    refine .inr ⟨rfl, ?_⟩
    have ha : a ∈ l := perm.subset (hab.subset (.head _))
    have hb : b ∈ l := perm.subset (hab.subset (.tail _ (.head _)))
    have : Std.Symm fun x y => List.Sublist [x, y] l ∨ List.Sublist [y, x] l := ⟨fun _ _ => Or.symm⟩
    have either : l.Pairwise fun x y => List.Sublist [x, y] l ∨ List.Sublist [y, x] l :=
      List.pairwise_iff_forall_sublist.mpr .inl
    rcases either.forall ha hb hne with h | h
    · exact hR h
    · have hba : (cmp b a).isLE := by
        rw [Std.OrientedCmp.eq_symm hc]
        rfl
      exact absurd (List.pair_sublist_mergeSort trans total hba h) (not_sublist_swap nodup hab)

namespace Direction

def turn : Direction → Ordering → Ordering
  | .ascending, o => o
  | .descending, o => o.swap

theorem transCmp_turn {α : Type} (d : Direction) (cmp : α → α → Ordering) [Std.TransCmp cmp] :
    Std.TransCmp (fun a b => d.turn (cmp a b)) := by
  cases d with
  | ascending => exact inferInstanceAs (Std.TransCmp cmp)
  | descending =>
    have h : (fun a b => Direction.descending.turn (cmp a b)) = fun a b => cmp b a := by
      funext a b
      exact (@Std.OrientedCmp.eq_swap _ cmp _ _ _).symm
    rw [h]
    infer_instance

end Direction

theorem not_lt_eq_isLE {α : Type} (cmp : α → α → Ordering) [Std.OrientedCmp cmp] (a b : α) :
    (!(cmp b a == .lt)) = (cmp a b).isLE := by
  rw [@Std.OrientedCmp.eq_swap _ cmp _ a _]
  cases cmp b a <;> rfl

theorem sortByStanding_eq_mergeSort {α : Type} (d : Direction) (standing : α → Standing)
    (items : List α) (h : ∀ a ∈ items, (standing a).IsPlain) :
    sortByStanding d standing items =
      items.mergeSort fun a b => (d.turn ((standing a).order (standing b))).isLE := by
  have ordered : items.all (fun a => (standing a).isOrdered) = true :=
    List.all_eq_true.mpr fun a ha => Standing.isOrdered_of_isPlain (h a ha)
  have precedes (a b : α) (ha : a ∈ items) (hb : b ∈ items) :
      (standing a).precedes (standing b) = ((standing a).order (standing b) == .lt) := by
    rw [Bool.eq_iff_iff, Standing.precedes_iff (h a ha) (h b hb), beq_iff_eq]
  rw [sortByStanding, if_pos ordered, ← List.map_id (List.mergeSort _ _),
    List.map_mergeSort (s := fun a b => (d.turn ((standing a).order (standing b))).isLE),
    List.map_id]
  intro a ha b hb
  cases d with
  | ascending =>
    rw [Standing.mayPrecede, precedes b a hb ha]
    exact not_lt_eq_isLE Standing.order _ _
  | descending =>
    rw [Standing.mayPrecede, precedes a b ha hb, not_lt_eq_isLE Standing.order]
    exact congrArg Ordering.isLE Std.OrientedCmp.eq_swap

namespace Record

variable (shown : Value → Except Fault Text)

/-- How records compare by sort clauses: the first clause that tells them apart decides, and where
none does their keys. None if a clause cannot compare them. -/
def compareBy? : List SortClause → Record → Record → Option Ordering
  | [], a, b => some (a.key.order b.key)
  | c :: rest, a, b =>
    ((a.standing shown c).compare? (b.standing shown c)).bind fun o =>
      if c.direction.turn o = .eq then compareBy? rest a b else some (c.direction.turn o)

def compareBy : List SortClause → Record → Record → Ordering
  | [], a, b => a.key.order b.key
  | c :: rest, a, b =>
    (c.direction.turn ((a.standing shown c).order (b.standing shown c))).then (compareBy rest a b)

def IsPlainFor (clauses : List SortClause) (r : Record) : Prop :=
  ∀ c ∈ clauses, (r.standing shown c).IsPlain

theorem compareBy?_eq {clauses : List SortClause} {a b : Record} (ha : a.IsPlainFor shown clauses)
    (hb : b.IsPlainFor shown clauses) :
    compareBy? shown clauses a b = some (compareBy shown clauses a b) := by
  induction clauses with
  | nil => rfl
  | cons c rest ih =>
    obtain ⟨hac, ha⟩ := List.forall_mem_cons.mp ha
    obtain ⟨hbc, hb⟩ := List.forall_mem_cons.mp hb
    simp only [compareBy?, compareBy, Standing.compare?_eq hac hbc, Option.bind_some, ih ha hb]
    cases c.direction.turn ((a.standing shown c).order (b.standing shown c)) <;> rfl

theorem compareBy_swap (clauses : List SortClause) (a b : Record) :
    compareBy shown clauses a b = (compareBy shown clauses b a).swap := by
  induction clauses with
  | nil => exact @Std.OrientedCmp.eq_swap _ Key.order _ _ _
  | cons c rest ih =>
    have := c.direction.transCmp_turn Standing.order
    simp only [compareBy, Ordering.swap_then, ih]
    congr 1
    exact @Std.OrientedCmp.eq_swap _ (fun s t : Standing => c.direction.turn (s.order t)) _ _ _

/-- Records with keys at every step, no two of which name the same record. -/
structure AreDistinct (rs : List Record) : Prop where
  apart : rs.Pairwise fun a b => a.key.same b.key = false
  complete : ∀ r ∈ rs, r.key.IsComplete

theorem AreDistinct.nodup {rs : List Record} (h : AreDistinct rs) : rs.Nodup :=
  h.apart.imp fun hab => by
    rintro rfl
    simp at hab

theorem sortByKey_pairwise {rs : List Record} (h : AreDistinct rs) :
    (rs.mergeSort (fun a b => !b.key.precedes a.key)).Pairwise
      fun a b => compareBy shown [] a b = .lt := by
  have := transCmp_on Key.order Record.key
  have hle : (fun a b : Record => !b.key.precedes a.key) =
      fun a b => (a.key.order b.key).isLE := by
    funext a b
    exact not_lt_eq_isLE Key.order a.key b.key
  rw [hle]
  refine (mergeSort_refines _ h.nodup h.apart).imp_of_mem fun {a b} ha hb hab => ?_
  rw [List.mem_mergeSort] at ha hb
  rcases hab with hlt | ⟨heq, hne⟩
  · exact hlt
  · rw [(Key.order_eq_iff (h.complete a ha) (h.complete b hb)).mp heq] at hne
    cases hne

/-- A record counts for a clause by one of its items, and none of the others is better. -/
def CountsByBest (r : Record) (c : SortClause) : Prop :=
  ∃ v, r.value? c.property = some v ∧ ∃ item ∈ itemsOf v,
    r.standing shown c = Standing.ofValue shown item ∧
      ∀ other ∈ itemsOf v, ∃ o,
        (Standing.ofValue shown item).compare? (Standing.ofValue shown other) = some o ∧
          (c.direction.turn o).isLE = true

theorem has_iff (r : Record) (property : Text) :
    r.has property = true ↔ ∃ v, r.value? property = some v ∧ itemsOf v ≠ [] := by
  cases h : r.value? property <;> simp [has, h]

theorem standing_spec {r : Record} {c : SortClause} (hh : r.has c.property = true)
    (hn : ∀ v, r.value? c.property = some v → ∀ item ∈ itemsOf v, item.IsPlain shown) :
    (r.standing shown c).IsPlain ∧ r.CountsByBest shown c := by
  obtain ⟨v, hv, hne⟩ := (has_iff r c.property).mp hh
  obtain ⟨first, rest, hi⟩ := List.exists_cons_of_ne_nil hne
  have plain : ∀ s ∈ Standing.ofValue shown first :: rest.map (Standing.ofValue shown),
      s.IsPlain := by
    rw [← List.map_cons, ← hi]
    intro s hs
    obtain ⟨item, hm, rfl⟩ := List.mem_map.mp hs
    exact Standing.isPlain_ofValue (hn v hv item hm)
  -- the standing is one of the items', and no item's is better
  have best : r.standing shown c ∈ (itemsOf v).map (Standing.ofValue shown) ∧
      ∀ s ∈ (itemsOf v).map (Standing.ofValue shown),
        (c.direction.turn ((r.standing shown c).order s)).isLE = true := by
    simp only [standing, standings, hv, hi, List.map_cons, Standing.extreme]
    cases c.direction with
    | ascending => exact Standing.least_spec plain
    | descending =>
      obtain ⟨hm, hle⟩ := Standing.greatest_spec plain
      refine ⟨hm, fun s hs => ?_⟩
      rw [Direction.turn, ← @Std.OrientedCmp.eq_swap _ Standing.order _ _ _]
      exact hle s hs
  rw [← List.map_cons, ← hi] at plain
  obtain ⟨item, hm, hs⟩ := List.mem_map.mp best.1
  refine ⟨plain _ best.1, v, hv, item, hm, hs.symm, fun other ho => ?_⟩
  have ho := List.mem_map_of_mem (f := Standing.ofValue shown) ho
  rw [Standing.compare?_eq (plain _ (List.mem_map_of_mem hm)) (plain _ ho), hs]
  exact ⟨_, rfl, best.2 _ ho⟩

end Record

namespace Selection

variable (shown : Value → Except Fault Text) (q : Selection)

/-- Records are arranged by the clauses and then by key. -/
theorem arrange_pairwise {rs : List Record} (h : Record.AreDistinct rs)
    (hp : ∀ r ∈ rs, r.IsPlainFor shown q.arrangement) :
    (q.arrange shown rs).Pairwise fun a b => Record.compareBy shown q.arrangement a b = .lt := by
  induction hq : q.arrangement generalizing q with
  | nil =>
    simp only [arrange, hq]
    exact Record.sortByKey_pairwise shown h
  | cons c rest ih =>
    let q' : Selection := { q with arrangement := rest }
    rw [hq] at hp
    have sorted := ih q' (fun r hr => (List.forall_mem_cons.mp (hp r hr)).2) rfl
    have perm := q'.arrange_perm shown rs
    have arranged : q.arrange shown rs =
        sortByStanding c.direction (Record.standing shown c) (q'.arrange shown rs) := by
      simp only [arrange, hq, List.foldr_cons, q']
    rw [arranged, sortByStanding_eq_mergeSort _ _ _ fun r hr =>
      (List.forall_mem_cons.mp (hp r (perm.subset hr))).1]
    have := c.direction.transCmp_turn Standing.order
    have := transCmp_on (fun s t : Standing => c.direction.turn (s.order t))
      (Record.standing shown c)
    refine (mergeSort_refines _ (perm.nodup_iff.mpr h.nodup) sorted).imp fun {a b} hab => ?_
    simp only [Record.compareBy]
    rcases hab with hlt | ⟨heq, hrest⟩
    · rw [hlt]
      rfl
    · rw [heq]
      exact hrest

end Selection
end RecordStore
