import RecordStore.Proofs.StoreDeletion
import RecordStore.Proofs.StoreRuns
import RecordStore.Database.Execute

/-!
# Looking up and removing by keys

A look-up that comes to something finds the record of each of its keys, if there is one. A deletion
takes away the records of its keys, or marks them to be taken away in a transaction.
-/

set_option autoImplicit false

namespace RecordStore

open Attempt

namespace Store

theorem find?_congr (s : Store) {j k : Key} (h : j.same k = true) : s.find? j = s.find? k := by
  simp only [find?, Key.same_congr_right h]

theorem find?_eq_some {s : Store} {k : Key} {r : Record} (h : s.find? k = some r) :
    r ∈ s.records ∧ r.key.same k = true :=
  ⟨List.mem_of_find?_eq_some h, by simpa using List.find?_some h⟩

theorem find?_of_mem {rs : List Record} (hs : rs.Pairwise fun a b => a.key.same b.key = false)
    {r : Record} (hr : r ∈ rs) {k : Key} (hk : r.key.same k = true) :
    rs.find? (fun r => r.key.same k) = some r := by
  induction rs with
  | nil => cases hr
  | cons x rest ih =>
    obtain ⟨hx, hrest⟩ := List.pairwise_cons.mp hs
    rcases List.mem_cons.mp hr with rfl | hr
    · exact List.find?_cons_of_pos hk
    · have other : ¬ x.key.same k = true := by
        rw [← Key.same_congr_right hk, hx r hr]
        simp
      rw [List.find?_cons_of_neg (p := fun r : Record => r.key.same k) other]
      exact ih hrest hr

theorem eq_of_same {rs : List Record} (hs : rs.Pairwise fun a b => a.key.same b.key = false)
    {x y : Record} (hx : x ∈ rs) (hy : y ∈ rs) (h : x.key.same y.key = true) : x = y :=
  Option.some.inj ((find?_of_mem hs hx h).symm.trans (find?_of_mem hs hy (Key.same_self _)))

def Knows (s : Store) (found : List (Key × Record)) : Prop := ∀ p ∈ found, s.find? p.1 = some p.2

theorem Knows.add {s : Store} {found : List (Key × Record)} (h : s.Knows found) {k : Key}
    {r : Record} (hr : s.find? k = some r) :
    s.Knows (if found.any (fun p => p.1.same k) then
      found.map (fun p => if p.1.same k then (p.1, r) else p) else found ++ [(k, r)]) := by
  intro p hp
  split at hp
  · obtain ⟨q, hq, rfl⟩ := List.mem_map.mp hp
    by_cases hk : q.1.same k = true
    · rw [if_pos hk, s.find?_congr hk, hr]
    · rw [if_neg hk]
      exact h q hq
  · rcases List.mem_append.mp hp with hp | hp
    · exact h p hp
    · rw [List.mem_singleton.mp hp]
      exact hr

theorem keys_add (found : List (Key × Record)) (k : Key) (r : Record) :
    let added := if found.any (fun p => p.1.same k) then
      found.map (fun p => if p.1.same k then (p.1, r) else p) else found ++ [(k, r)]
    (∀ p ∈ found, ∃ q ∈ added, q.1 = p.1) ∧ ∃ q ∈ added, q.1.same k = true := by
  intro added
  have kept : ∀ p ∈ found, ∃ q ∈ added, q.1 = p.1 := by
    intro p hp
    simp only [added]
    split
    · refine ⟨_, List.mem_map_of_mem hp, ?_⟩
      split <;> rfl
    · exact ⟨p, List.mem_append_left _ hp, rfl⟩
  refine ⟨kept, ?_⟩
  by_cases hm : (found.any fun p => p.1.same k) = true
  · obtain ⟨p, hp, hk⟩ := List.any_eq_true.mp hm
    obtain ⟨q, hq, hqp⟩ := kept p hp
    exact ⟨q, hq, hqp ▸ hk⟩
  · refine ⟨(k, r), ?_, Key.same_self k⟩
    simp only [added, if_neg hm]
    exact List.mem_append_right _ (.head _)

theorem fetch_spec {s t : Store} {keys : List (Option Key)} {found out : List (Key × Record)}
    (hk : s.Knows found) (hf : (fetch keys found).on s = (.ok out, t)) :
    (∃ reads, t = { s with reads := reads }) ∧ s.Knows out ∧ (∀ p ∈ found, ∃ q ∈ out, q.1 = p.1) ∧
      ∀ k ∈ keys, ∃ j, k = some j ∧ ((s.find? j).isSome → ∃ q ∈ out, q.1.same j = true) := by
  induction keys generalizing s found with
  | nil =>
    cases hf
    exact ⟨⟨t.reads, rfl⟩, hk, fun p hp => ⟨p, hp, rfl⟩, by simp⟩
  | cons k rest ih =>
    cases k with
    | none => cases hf
    | some j =>
      rw [fetch, on_bind_of_ok (on_get s)] at hf
      cases hj : s.find? j with
      | none =>
        rw [hj] at hf
        obtain ⟨state, known, kept, all⟩ := ih hk hf
        refine ⟨state, known, kept, List.forall_mem_cons.mpr ⟨⟨j, rfl, ?_⟩, all⟩⟩
        simp [hj]
      | some r =>
        rw [hj] at hf
        dsimp only at hf
        rw [on_bind_of_ok (on_modify _ s)] at hf
        obtain ⟨before, q, hq, hqj⟩ := keys_add found j r
        have added : Knows { s with reads := s.reads + 1 } _ := hk.add hj
        obtain ⟨⟨reads, rfl⟩, known, kept, all⟩ := ih added hf
        refine ⟨⟨reads, rfl⟩, known, fun p hp => ?_, List.forall_mem_cons.mpr ⟨⟨j, rfl, ?_⟩, all⟩⟩
        · obtain ⟨x, hx, hxp⟩ := before p hp
          obtain ⟨y, hy, hyx⟩ := kept x hx
          exact ⟨y, hy, hyx.trans hxp⟩
        · intro _
          obtain ⟨y, hy, hyq⟩ := kept q hq
          exact ⟨y, hy, hyq ▸ hqj⟩

theorem Knows.recordOf?_eq {s : Store} {found : List (Key × Record)} (h : s.Knows found) {k : Key}
    (hk : (s.find? k).isSome → ∃ q ∈ found, q.1.same k = true) :
    Execution.recordOf? found (some k) = s.find? k ∧
      Execution.isFound found (some k) = (s.find? k).isSome := by
  cases hf : found.find? (fun p => p.1.same k) with
  | none =>
    have missing := List.find?_eq_none.mp hf
    have none : s.find? k = none := by
      rw [← Option.not_isSome_iff_eq_none]
      intro hs
      obtain ⟨q, hq, hqk⟩ := hk hs
      exact missing q hq hqk
    rw [none]
    exact ⟨by simp [Execution.recordOf?, hf], by simpa [Execution.isFound] using missing⟩
  | some p =>
    have hp := List.mem_of_find?_eq_some hf
    have hpk : p.1.same k = true := by simpa using List.find?_some hf
    rw [← s.find?_congr hpk, h p hp]
    exact ⟨by simp [Execution.recordOf?, hf], List.any_eq_true.mpr ⟨p, hp, hpk⟩⟩

/-- Whether two stores have the same records and the same transactions. -/
structure IsLike (t s : Store) : Prop where
  records : t.records = s.records
  transactions : t.transactions = s.transactions
  current : t.current = s.current

theorem lookup_spec {s t : Store} {keys : List (Option Key)} {transaction : Option Nat}
    {out : List (Key × Record)} (h : (lookup keys transaction).on s = (.ok out, t)) :
    t.IsLike s ∧ ∀ k ∈ keys, Execution.recordOf? out k = k.bind s.find? ∧
      Execution.isFound out k = (k.bind s.find?).isSome := by
  obtain ⟨_, _, entered, h⟩ := (on_bind_eq_ok_iff _ _ _ _ _).mp h
  obtain rfl := enter_eq_ok entered
  rw [on_bind_of_ok (on_modify _ _)] at h
  have nothing : Knows ((s.noted .get transaction).tick .get) [] := fun _ hp => by cases hp
  obtain ⟨⟨reads, rfl⟩, known, -, all⟩ := fetch_spec nothing h
  refine ⟨⟨rfl, rfl, rfl⟩, fun k hk => ?_⟩
  obtain ⟨j, rfl, found⟩ := all k hk
  exact known.recordOf?_eq found

def marked (s : Store) : List (Option Key) := (s.currentTransaction?.map (·.deletes)).getD []

/-- Whether a record has been removed, or has been marked for it. -/
def Loses (before after : Store) (r : Record) : Prop :=
  r ∈ before.records ∧
    ((∀ x ∈ after.records, x.key.same r.key = false) ∨
      ∃ k, some k ∈ after.marked.drop before.marked.length ∧ k.same r.key = true)

theorem IsLike.marked_eq {t s : Store} (h : t.IsLike s) : t.marked = s.marked := by
  have found : t.transaction? = s.transaction? := by
    funext n
    rw [transaction?, transaction?, h.transactions]
  rw [marked, marked, currentTransaction?, currentTransaction?, h.current, found]

theorem IsLike.loses_iff {t s : Store} (h : t.IsLike s) (after : Store) (r : Record) :
    t.Loses after r ↔ s.Loses after r := by
  rw [Loses, Loses, h.records, h.marked_eq]

theorem IsLike.not_loses {t s : Store} (h : t.IsLike s) (r : Record) : ¬ s.Loses t r := by
  rintro ⟨hm, gone | ⟨k, hk, -⟩⟩
  · have kept := gone r (h.records ▸ hm)
    rw [Key.same_self] at kept
    cases kept
  · rw [h.marked_eq, List.drop_length] at hk
    cases hk

theorem removeAll_eq_ok {s t : Store} {keys : List (Option Key)}
    (h : (removeAll keys).on s = (.ok (), t)) :
    ∃ ks : List Key, keys = ks.map some ∧ t = ks.foldl remove s := by
  induction keys generalizing s with
  | nil =>
    cases h
    exact ⟨[], rfl, rfl⟩
  | cons k rest ih =>
    cases k with
    | none => cases h
    | some k =>
      rw [removeAll, on_bind_of_ok (on_modify _ s)] at h
      obtain ⟨ks, rfl, rfl⟩ := ih h
      exact ⟨k :: ks, rfl, rfl⟩

theorem loses_foldl_remove_iff {s : Store} (hc : s.current = none) (keys : List Key) (r : Record) :
    s.Loses (keys.foldl remove s) r ↔ r ∈ s.records ∧ ∃ k ∈ keys, k.same r.key = true := by
  have unmarked : (keys.foldl remove s).marked = [] := by
    rw [marked, currentTransaction?, (foldl_remove_outages s keys).2, hc]
    rfl
  simp only [Loses, foldl_remove_records, unmarked, List.drop_nil, List.not_mem_nil, false_and,
    exists_false, or_false]
  refine and_congr_right fun hr => ⟨fun gone => ?_, ?_⟩
  · by_cases kept : (keys.all fun k => !r.key.same k) = true
    · have same := gone r (List.mem_filter.mpr ⟨hr, kept⟩)
      rw [Key.same_self] at same
      cases same
    · obtain ⟨k, hk, hs⟩ : ∃ k ∈ keys, r.key.same k = true := by simpa using kept
      exact ⟨k, hk, by rwa [Key.same_comm]⟩
  · rintro ⟨k, hk, hs⟩ x hx
    have spared := List.all_eq_true.mp (List.mem_filter.mp hx).2 k hk
    rw [Bool.not_eq_true'] at spared
    rw [← Key.same_congr_right hs]
    exact spared

theorem loses_update_iff {s : Store} {n : Nat} {going : Transaction} {keys : List (Option Key)}
    {f : Transaction → Transaction} (hc : s.current = some n)
    (found : s.transaction? n = some going) (hn : ∀ t, (f t).number = t.number)
    (hf : (f going).deletes = going.deletes ++ keys) (r : Record) :
    s.Loses (s.updateTransaction n f) r ↔
      r ∈ s.records ∧ ∃ k, some k ∈ keys ∧ k.same r.key = true := by
  have before : s.marked = going.deletes := by
    rw [marked, currentTransaction?, hc, Option.bind_some, found]
    rfl
  have after : (s.updateTransaction n f).marked = going.deletes ++ keys := by
    rw [marked, currentTransaction?, show (s.updateTransaction n f).current = some n from hc,
      Option.bind_some, transaction?_update f hn, found, ← hf]
    rfl
  rw [Loses, after, before, List.drop_left]
  refine and_congr_right fun hr => or_iff_right fun gone => ?_
  have same := gone r hr
  rw [Key.same_self] at same
  cases same

theorem delete_loses_iff {s t : Store} {keys : List (Option Key)}
    (h : (delete keys s.current).on s = (.ok (), t)) (r : Record) :
    s.Loses t r ↔ r ∈ s.records ∧ ∃ k, some k ∈ keys ∧ k.same r.key = true := by
  obtain ⟨_, _, entered, h⟩ := (on_bind_eq_ok_iff _ _ _ _ _).mp h
  obtain rfl := enter_eq_ok entered
  have like : (s.noted .delete s.current).IsLike s := ⟨rfl, rfl, rfl⟩
  rw [← like.loses_iff]
  cases hc : s.current with
  | none =>
    rw [hc] at h
    change (removeAll keys).on (s.noted .delete none) = _ at h
    obtain ⟨ks, rfl, rfl⟩ := removeAll_eq_ok h
    rw [loses_foldl_remove_iff (s := s.noted .delete none) hc]
    show r ∈ s.records ∧ _ ↔ _
    simp
  | some n =>
    rw [hc] at h
    obtain ⟨going, _, hactive, h⟩ := (on_bind_eq_ok_iff _ _ _ _ _).mp h
    obtain ⟨rfl, found⟩ := active_eq_ok hactive
    cases h
    refine loses_update_iff (s := s.noted .delete (some n)) hc found (fun _ => ?_) ?_ r
    · rfl
    · rfl

end Store
end RecordStore
