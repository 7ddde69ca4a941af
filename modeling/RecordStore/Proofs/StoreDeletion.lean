import RecordStore.Proofs.Scanning

/-!
# Deleting what a scan found

Reading a cursor to its end yields its items. Deleting keys takes away the records with these keys
and no others.
-/

set_option autoImplicit false

namespace RecordStore

open Attempt

namespace Cursor

variable {α β : Type}

/-- The items from a position on, up to the one before another. -/
def stretchOf (p : Nat × Option Nat) (items : List α) : List α :=
  (match p.2 with
    | none => items
    | some n => items.take n).drop p.1

theorem ofWindow_of_stretch {w : Window} {p : Nat × Option Nat} (h : stretch w = .ok p)
    (items : List α) : ofWindow w items = ofReads (stretchOf p items) := by
  rw [ofWindow, h]
  rfl

theorem stretchOf_map (p : Nat × Option Nat) (f : α → β) (items : List α) :
    stretchOf p (items.map f) = (stretchOf p items).map f := by
  rcases p with ⟨start, _ | n⟩
  · simp only [stretchOf, List.map_drop]
  · simp only [stretchOf, List.map_take, List.map_drop]

theorem stretchOf_sublist (p : Nat × Option Nat) (items : List α) :
    (stretchOf p items).Sublist items := by
  rcases p with ⟨start, _ | n⟩
  · exact List.drop_sublist start items
  · exact (List.drop_sublist start _).trans (List.take_sublist n items)

end Cursor

namespace Store

theorem read_eq_ok_iff (s t : Store) (n : Nat) :
    (read n).on s = (.ok (), t) ↔
      (∀ o ∈ s.outages.rows, o.1 ≠ n) ∧ { s with reads := s.reads + 1 } = t := by
  cases h : s.outages.rows with
  | none => simp [read, on_bind, h]
  | some o =>
    by_cases hn : o.1 = n
    · simp [read, on_bind, h, hn]
    · simp [read, on_bind, h, hn]

theorem read_on {s : Store} (h : s.outages.rows = none) (position : Nat) :
    (read position).on s = (.ok (), { s with reads := s.reads + 1 }) :=
  (read_eq_ok_iff s _ position).mpr ⟨by simp [h], rfl⟩

theorem receive_eq_ok_iff (s t : Store) (a r : Record) (n : Nat) :
    (receive ⟨.ok a, some n⟩).on s = (.ok r, t) ↔ (read n).on s = (.ok (), t) ∧ r = a := by
  show (read n >>= fun _ => pure a).on s = _ ↔ _
  rw [on_bind_eq_ok_iff]
  constructor
  · rintro ⟨⟨⟩, u, hread, hpure⟩
    cases hpure
    exact ⟨hread, rfl⟩
  · rintro ⟨hread, rfl⟩
    exact ⟨(), t, hread, rfl⟩

theorem drain_zipIdx_eq_ok_iff (s t : Store) (items rs : List Record) (n : Nat) :
    (drain ((items.zipIdx n).map fun (a, n) => ⟨.ok a, some n⟩)).on s = (.ok rs, t) ↔
      rs = items ∧ { s with reads := s.reads + items.length } = t ∧
        ∀ o ∈ s.outages.rows, o.1 < n ∨ n + items.length ≤ o.1 := by
  induction items generalizing s t rs n with
  | nil =>
    constructor
    · intro h
      cases h
      exact ⟨rfl, rfl, fun o _ => Nat.lt_or_ge o.1 n⟩
    · rintro ⟨rfl, rfl, -⟩
      rfl
  | cons a rest ih =>
    simp only [List.zipIdx_cons, List.map_cons, drain, on_bind_eq_ok_iff, receive_eq_ok_iff,
      read_eq_ok_iff, List.length_cons]
    constructor
    · rintro ⟨_, u, ⟨⟨hn, rfl⟩, rfl⟩, found, v, hfound, hpure⟩
      obtain ⟨rfl, rfl, hrest⟩ := (ih _ _ _ _).mp hfound
      cases hpure
      refine ⟨rfl, by simp only [Nat.add_assoc, Nat.add_comm 1], fun o ho => ?_⟩
      have hne := hn o ho
      have hle := hrest o ho
      omega
    · rintro ⟨rfl, rfl, hrows⟩
      refine ⟨a, _, ⟨⟨fun o ho => ?_, rfl⟩, rfl⟩, rest, _,
        (ih _ _ _ _).mpr ⟨rfl, rfl, fun o ho => ?_⟩, ?_⟩
      · have hle := hrows o ho
        omega
      · have hle := hrows o ho
        omega
      · simp only [on_pure, Nat.add_assoc, Nat.add_comm 1]

theorem drain_ofReads_eq_ok_iff (s t : Store) (items rs : List Record) :
    (drain (Cursor.ofReads items)).on s = (.ok rs, t) ↔
      rs = items ∧ { s with reads := s.reads + items.length } = t ∧
        ∀ o ∈ s.outages.rows, items.length ≤ o.1 := by
  have h := drain_zipIdx_eq_ok_iff s t items rs 0
  simp only [Nat.not_lt_zero, false_or, Nat.zero_add] at h
  exact h

theorem drain_on {s : Store} (h : s.outages.rows = none) (items : List Record) :
    (drain (Cursor.ofReads items)).on s = (.ok items, { s with reads := s.reads + items.length }) :=
  (drain_ofReads_eq_ok_iff s _ items items).mpr ⟨rfl, rfl, by simp [h]⟩

theorem foldl_remove_records (s : Store) (keys : List Key) :
    (keys.foldl remove s).records =
      s.records.filter fun r => keys.all fun k => !r.key.same k := by
  induction keys generalizing s with
  | nil => exact (List.filter_eq_self.mpr fun _ _ => rfl).symm
  | cons k rest ih =>
    rw [List.foldl_cons, ih]
    show (erase k s.records).filter _ = _
    rw [erase, List.filter_filter]
    simp only [List.all_cons, Bool.and_comm]

theorem removeAll_on (s : Store) (keys : List Key) :
    (removeAll (keys.map some)).on s = (.ok (), keys.foldl remove s) := by
  induction keys generalizing s with
  | nil => rfl
  | cons k rest ih =>
    rw [List.map_cons, removeAll, on_bind_of_ok (on_modify _ s)]
    exact ih (s.remove k)

theorem foldl_remove_outages (s : Store) (keys : List Key) :
    (keys.foldl remove s).outages = s.outages ∧ (keys.foldl remove s).current = s.current := by
  induction keys generalizing s with
  | nil => exact ⟨rfl, rfl⟩
  | cons k rest ih => exact ih (s.remove k)

theorem delete_on {s : Store} (h : s.IsUp .delete) (keys : List Key) :
    (delete (keys.map some) none).on s = (.ok (), keys.foldl remove (s.noted .delete none)) := by
  rw [delete, on_bind_of_ok (enter_on h none)]
  show (apply [] (keys.map some)).on (s.noted .delete none) = _
  rw [apply, on_bind_of_ok (on_modify _ _)]
  exact removeAll_on _ keys

theorem collect_on {s : Store} (hs : s.IsUp .scan) (hr : s.outages.rows = none)
    (shown : Value → Except Fault Text) (q : Selection) {w : Window} {p : Nat × Option Nat}
    (hp : Cursor.stretch w = .ok p) (h : CanScan shown { q with keysOnly := true } w s.records) :
    ∃ t : Store, t.records = s.records ∧ t.outages = s.outages ∧ t.current = s.current ∧
      (do
        let c ← scan shown { q with keysOnly := true } none w false
        let rs ← drain c
        return rs.map (fun r => some r.key) : Attempt Store (List (Option Key))).on s =
        (.ok (((Cursor.stretchOf p (q.answer shown s.records)).map Record.key).map some), t) := by
  have scanned := scan_on_of_canScan hs (admits_none s { q with keysOnly := true }) h false
  have given : given shown { q with keysOnly := true } false s.records =
      (q.answer shown s.records).map Record.bare := rfl
  rw [Cursor.ofWindow_of_stretch hp, given, Cursor.stretchOf_map] at scanned
  let asked := (s.noted .scan none).tick .scan
  let found := (Cursor.stretchOf p (q.answer shown s.records)).map Record.bare
  have drained := drain_on (s := asked) hr found
  refine ⟨{ asked with reads := asked.reads + found.length }, rfl, rfl, rfl, ?_⟩
  rw [on_bind_of_ok scanned, on_bind_of_ok drained, on_pure, List.map_map,
    List.map_map]
  rfl

end Store
end RecordStore
