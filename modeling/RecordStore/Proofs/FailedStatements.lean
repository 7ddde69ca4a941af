import RecordStore.Proofs.Executing

/-!
# Statements that fail

A statement that fails leaves the records as they were, whatever it failed at, but for one case: a
deletion by keys of which one is missing, where the keys are not looked up before they are deleted.
Then the records of the keys before the missing one are gone.
-/

set_option autoImplicit false

namespace RecordStore

open Attempt

namespace Attempt

variable {σ α β : Type} {P : σ → Prop}

/-- An attempt keeps a property of the state wherever it fails. -/
structure Spares (P : σ → Prop) (a : Attempt σ α) : Prop where
  failed : ∀ s f t, P s → a.on s = (.error f, t) → P t

theorem Keeps.spares {a : Attempt σ α} (h : Keeps P a) : Spares P a :=
  ⟨fun _ _ _ hs failed => h.of_on hs failed⟩

theorem spares_bind {a : Attempt σ α} {f : α → Attempt σ β} (ha : Keeps P a)
    (hf : ∀ s x t, a.on s = (.ok x, t) → Spares P (f x)) : Spares P (a >>= f) := by
  constructor
  intro s e u hs failed
  rw [on_bind] at failed
  rcases ran : a.on s with ⟨e' | x, t⟩
  · rw [ran] at failed
    cases failed
    exact ha.of_on hs ran
  · rw [ran] at failed
    exact (hf s x t ran).failed t e u (ha.of_on hs ran) failed

theorem spares_bind_of_total {a : Attempt σ α} {f : α → Attempt σ β} (ha : Spares P a)
    (hf : ∀ x s, ∃ y t, (f x).on s = (.ok y, t)) : Spares P (a >>= f) := by
  constructor
  intro s e u hs failed
  rw [on_bind] at failed
  rcases ran : a.on s with ⟨e' | x, t⟩
  · rw [ran] at failed
    cases failed
    exact ha.failed s _ _ hs ran
  · obtain ⟨y, v, done⟩ := hf x t
    rw [ran] at failed
    dsimp only at failed
    rw [done] at failed
    cases failed

theorem spares_get_bind {f : σ → Attempt σ β} (hf : ∀ s, P s → Spares P (f s)) :
    Spares P (get >>= f) := by
  constructor
  intro s e t hs failed
  rw [on_bind_of_ok (on_get s)] at failed
  exact (hf s hs).failed s e t hs failed

end Attempt

namespace Store

def Holding (rs : List Record) (s : Store) : Prop := s.records = rs ∧ s.current = none

theorem Holding.uncounted (rs : List Record) : Uncounted (Holding rs) := fun _ _ _ _ h => h

theorem enter_fails {s : Store} {request : Request} (h : ¬s.IsUp request)
    (transaction : Option Nat) :
    ∃ f, (enter request transaction).on s = (.error f, s.noted request transaction) := by
  cases found : s.outages.requests.find? (fun o => o.1 = request) with
  | none =>
    rw [List.find?_eq_none] at found
    exact absurd (fun o ho => by simpa using found o ho) h
  | some o =>
    refine ⟨o.2, ?_⟩
    simp only [enter, on_bind, on_get, on_set, found]
    rfl

theorem removeAll_missing_on (s : Store) (before : List Key) (rest : List (Option Key)) :
    (removeAll (before.map some ++ none :: rest)).on s =
      (.error missingKey, (before.foldl remove s).tick .delete) := by
  induction before generalizing s with
  | nil => rfl
  | cons k before ih =>
    rw [List.map_cons, List.cons_append, removeAll, on_bind_of_ok (on_modify _ s)]
    exact ih (s.remove k)

theorem spares_delete (rs : List Record) (keys : List Key) :
    Spares (Holding rs) (delete (keys.map some) none) := by
  refine spares_bind ((Holding.uncounted rs).keeps_enter _ _) fun _ _ _ _ =>
    ⟨fun t f u _ failed => ?_⟩
  have applied : (apply [] (keys.map some)).on t = (.ok (), keys.foldl remove t) := by
    rw [apply, on_bind_of_ok (on_modify _ _)]
    exact removeAll_on t keys
  exact absurd (applied.symm.trans failed) (by simp)

end Store

namespace Execution

variable (e : Execution) {rs : List Record}

def Holding (rs : List Record) : Database → Prop := Database.Has (Store.Holding rs)

theorem spares_request {α : Type} {a : Attempt Store α} (h : Spares (Store.Holding rs) a) :
    Spares (Holding rs) (e.request a) := by
  constructor
  intro d f after hd failed
  simp only [request, Database.onStore, on_mapFault, on_zoom] at failed
  rcases ran : a.on d.store with ⟨g | x, t⟩
  · rw [ran] at failed
    cases failed
    exact h.failed _ _ _ hd ran
  · rw [ran] at failed
    cases failed

theorem spares_delete (keys : List Key) :
    Spares (Holding rs) (e.delete (keys.map some) none) := by
  refine spares_bind_of_total (e.spares_request (Store.spares_delete rs keys)) fun _ d => ?_
  simp only [Database.onWorkspace, on_bind, on_zoom, Workspace.evictAll_on, on_pure]
  exact ⟨_, _, rfl⟩

theorem delete_refused {d after : Database} {f : Fault} (hd : Holding rs d)
    (down : ¬d.store.IsUp .delete) (keys : List (Option Key))
    (failed : (e.delete keys none).on d = (.error f, after)) : Holding rs after := by
  obtain ⟨g, entered⟩ := Store.enter_fails down none
  have stopped : (Store.delete keys none).on d.store = (.error g, d.store.noted .delete none) := by
    rw [Store.delete, on_bind, entered]
  simp only [delete, request, Database.onStore, on_bind, on_mapFault, on_zoom, stopped] at failed
  cases failed
  exact hd

theorem spares_scan (q : Selection) : Spares (Holding rs) (e.scan q) := by
  have uncounted := Store.Holding.uncounted rs
  refine spares_get_bind fun d hd => ?_
  dsimp only
  rw [e.transactionFor_eq_none q hd.2, hd.2]
  split
  · exact (keeps_bind (e.keeps_request (uncounted.keeps_count _ _ _ _)) fun _ =>
      keeps_pure _).spares
  split
  · refine spares_bind (e.keeps_request (keeps_bind (uncounted.keeps_scan _ _ _ _ _) fun c =>
      keeps_bind (uncounted.keeps_drain c) fun _ => keeps_pure _)) fun d keys _ collected => ?_
    obtain ⟨t, collected, -⟩ := (e.request_eq_ok_iff _ _ _ _).mp collected
    obtain ⟨c, _, -, collected⟩ := (on_bind_eq_ok_iff _ _ _ _ _).mp collected
    obtain ⟨found, _, -, collected⟩ := (on_bind_eq_ok_iff _ _ _ _ _).mp collected
    cases collected
    have present : found.map (fun r => some r.key) = (found.map Record.key).map some := by
      rw [List.map_map]
      rfl
    rw [present]
    exact e.spares_delete _
  · exact (keeps_bind (e.keeps_request (uncounted.keeps_scan _ _ _ _ _)) fun c =>
      e.keeps_openRows c).spares

theorem split_at_missing (keys : List (Option Key)) :
    (∃ ks : List Key, keys = ks.map some) ∨
      ∃ (before : List Key) (rest : List (Option Key)), keys = before.map some ++ none :: rest := by
  induction keys with
  | nil => exact .inl ⟨[], rfl⟩
  | cons k keys ih =>
    cases k with
    | none => exact .inr ⟨[], keys, rfl⟩
    | some k =>
      rcases ih with ⟨ks, rfl⟩ | ⟨before, rest, rfl⟩
      · exact .inl ⟨k :: ks, rfl⟩
      · exact .inr ⟨k :: before, rest, rfl⟩

theorem exists_filter_isFound (found : List (Key × Record)) (keys : List (Option Key)) :
    ∃ ks : List Key, keys.filter (isFound found) = ks.map some := by
  rcases split_at_missing (keys.filter (isFound found)) with present | ⟨before, rest, split⟩
  · exact present
  · have kept : none ∈ keys.filter (isFound found) := by
      rw [split]
      exact List.mem_append_right _ List.mem_cons_self
    cases (List.mem_filter.mp kept).2

/-- Whether keys are deleted without having been looked up. -/
def deletesUnseen (d : Database) : Bool :=
  e.statement.isDelete &&
    !e.statement.flag "slow_but_more_accurate_delete" d.settings.query.accurateDelete

theorem lookup_fails {keys : List (Option Key)} {d after : Database} {f : Fault} (hd : Holding rs d)
    (h : e.deletesUnseen d = true → d.store.IsUp .delete → none ∉ keys)
    (failed : (e.lookup keys).on d = (.error f, after)) : Holding rs after := by
  have looked := e.keeps_request ((Store.Holding.uncounted rs).keeps_lookup keys none)
  rw [lookup, on_bind_of_ok (on_get d)] at failed
  dsimp only at failed
  rw [hd.2] at failed
  split at failed
  · split at failed
    · refine Spares.failed (spares_bind looked fun _ found _ _ => ?_) d f after hd failed
      obtain ⟨ks, present⟩ := exists_filter_isFound found keys
      rw [present]
      exact e.spares_delete ks
    · rename_i deletes unseen
      by_cases up : d.store.IsUp .delete
      · have present := h (by simp [deletesUnseen, deletes, unseen]) up
        rcases split_at_missing keys with ⟨ks, rfl⟩ | ⟨before, rest, rfl⟩
        · exact (e.spares_delete ks).failed d f after hd failed
        · exact absurd (List.mem_append_right _ List.mem_cons_self) present
      · exact e.delete_refused hd up keys failed
  · refine (keeps_bind looked fun found => keeps_bind (keeps_ofExcept _) fun rs => ?_).spares.failed
      d f after hd failed
    split
    · exact keeps_pure _
    · exact e.keeps_openRows _

theorem lookup_stumbles {d : Database} (hn : d.store.current = none) (up : d.store.IsUp .delete)
    (unseen : e.deletesUnseen d = true) (before : List Key) (rest : List (Option Key)) :
    ∃ f after, (e.lookup (before.map some ++ none :: rest)).on d = (.error f, after) ∧
      after.store.records =
        d.store.records.filter fun r => before.all fun k => !r.key.same k := by
  obtain ⟨deletes, unseen⟩ := Bool.and_eq_true_iff.mp unseen
  have unseen : e.statement.flag "slow_but_more_accurate_delete"
      d.settings.query.accurateDelete = false := by simpa using unseen
  let removed := (before.foldl Store.remove (d.store.noted .delete none)).tick .delete
  have stopped : (Store.delete (before.map some ++ none :: rest) none).on d.store =
      (.error missingKey, removed) := by
    rw [Store.delete, on_bind_of_ok (Store.enter_on up none)]
    show (Store.apply [] _).on _ = _
    rw [Store.apply, on_bind_of_ok (on_modify _ _)]
    exact Store.removeAll_missing_on _ before rest
  have records : removed.records =
      d.store.records.filter fun r => before.all fun k => !r.key.same k :=
    Store.foldl_remove_records (d.store.noted .delete none) before
  refine ⟨Fault.wrapped .executing e.candidate.query missingKey, { d with store := removed }, ?_,
    records⟩
  rw [lookup, on_bind_of_ok (on_get d)]
  simp only [deletes, unseen, if_true, Bool.false_eq_true, if_false, hn, delete, request,
    Database.onStore, on_bind, on_mapFault, on_zoom, stopped]
  rfl

end Execution

namespace Statement

/-- What a statement is compiled to and the window that it is carried out in, once nothing can be
refused before the store is asked. -/
structure IsCarriedOut (s : Statement) (d : Database) (range : Range) (parameters : Parameters)
    (now : Moment) (e : Execution) (native : NativeQuery) : Prop where
  compiles : s.CompilesTo d parameters now e.candidate e.plan native
  written : native.CanWrite d.shown
  asked : range.isEmpty = .ok false
  window_eq : range.window d.settings.query.largest e.candidate.query = .ok e.window
  countable : (e.plan.form = .count && !e.window.isTrivial) = false

/-- The keys that a deletion removes before it meets one that is missing. -/
def RemovesUpTo (s : Statement) (d : Database) (range : Range) (parameters : Parameters)
    (now : Moment) (before : List Key) : Prop :=
  ∃ e kind rest,
    s.IsCarriedOut d range parameters now e (.lookup kind (before.map some ++ none :: rest)) ∧
      e.deletesUnseen d = true ∧ d.store.IsUp .delete

end Statement

namespace Database

variable {d after : Database} {s : Statement} {parameters : Parameters} {now : Moment}
  {range : Range} {f : Fault}

theorem execute_on_carriedOut {e : Execution} {native : NativeQuery}
    (h : s.IsCarriedOut d range parameters now e native) :
    (execute s range parameters now).on d = (e.run native).on (d.compiled native) :=
  (execute_on_written h.compiles h.written range).trans
    (carryOut_on_window h.asked h.window_eq h.countable)

theorem execute_stops (h : (execute s range parameters now).on d = (.error f, after)) :
    (∃ latest, after = { d with latest := latest }) ∨
      ∃ e native, s.IsCarriedOut d range parameters now e native ∧
        (e.run native).on (d.compiled native) = (.error f, after) := by
  -- each stage fails with nothing done but the note, or the next one goes on
  cases candidate : s.candidateIn d with
  | error g =>
    simp only [execute, on_bind, on_get, on_ofExcept, candidate] at h
    cases h
    exact .inl ⟨_, rfl⟩
  | ok c =>
  cases planned : c.plan with
  | error g =>
    simp only [execute, on_bind, on_get, on_ofExcept, candidate, planned] at h
    cases h
    exact .inl ⟨_, rfl⟩
  | ok plan =>
  cases compiled : c.compile (d.bindings parameters now) plan with
  | error g =>
    simp only [execute, on_bind, on_get, on_ofExcept, candidate, planned, compiled] at h
    cases h
    exact .inl ⟨_, rfl⟩
  | ok native =>
  have compiles : s.CompilesTo d parameters now c plan native := ⟨candidate, planned, compiled⟩
  by_cases written : native.CanWrite d.shown
  case neg =>
    obtain ⟨g, -, unwritten⟩ := execute_on_unwritten compiles written range
    cases unwritten.symm.trans h
    exact .inl ⟨_, rfl⟩
  rw [execute_on_written compiles written, carryOut, on_bind, on_ofExcept] at h
  cases asked : range.isEmpty with
  | error g =>
    rw [asked] at h
    cases h
    exact .inl ⟨_, rfl⟩
  | ok empty =>
  cases empty with
  | true =>
    rw [asked] at h
    cases h
  | false =>
  rw [asked] at h
  dsimp only at h
  rw [if_neg (by simp), on_bind, on_ofExcept] at h
  cases windowed : range.window d.settings.query.largest c.query with
  | error g =>
    rw [windowed] at h
    cases h
    exact .inl ⟨_, rfl⟩
  | ok w =>
  rw [windowed] at h
  dsimp only at h
  split at h
  · cases h
    exact .inl ⟨_, rfl⟩
  · rename_i countable
    exact .inr ⟨⟨c, plan, w⟩, native,
      ⟨compiles, written, asked, windowed, by simpa using countable⟩, h⟩

theorem execute_fails (h : (execute s range parameters now).on d = (.error f, after)) :
    after.store = d.store ∨
      ∃ e native, s.IsCarriedOut d range parameters now e native ∧
        (e.run native).on (d.compiled native) = (.error f, after) := by
  rcases execute_stops h with ⟨latest, rfl⟩ | ran
  · exact .inl rfl
  · exact .inr ran

/-- A statement that fails leaves the records as they are, unless it is a deletion by keys that are
not looked up first, and one of them is missing. Then the records of the keys before that one are
removed, and it fails there. -/
theorem execute_fails_records (hn : d.store.current = none) :
    (∀ before, s.RemovesUpTo d range parameters now before →
      ∃ f after, (execute s range parameters now).on d = (.error f, after) ∧
        after.store.records =
          d.store.records.filter fun r => before.all fun k => !r.key.same k) ∧
    ((¬∃ before, s.RemovesUpTo d range parameters now before) →
      ∀ f after, (execute s range parameters now).on d = (.error f, after) →
        after.store.records = d.store.records) := by
  constructor
  · rintro before ⟨e, kind, rest, out, unseen, up⟩
    rw [execute_on_carriedOut out]
    exact e.lookup_stumbles (d := d.compiled _) hn up unseen before rest
  · intro complete f after failed
    rcases execute_fails failed with untouched | ⟨e, native, out, failed⟩
    · rw [untouched]
    · have holds : Execution.Holding d.store.records (d.compiled native) := ⟨rfl, hn⟩
      cases native with
      | selection q => exact ((e.spares_scan q).failed _ f after holds failed).1
      | lookup kind keys =>
        refine (e.lookup_fails holds (fun unseen up missing => ?_) failed).1
        rcases Execution.split_at_missing keys with ⟨ks, rfl⟩ | ⟨before, rest, rfl⟩
        · simp at missing
        · exact complete ⟨before, e, kind, rest, out, unseen, up⟩

def authorList : Database :=
  List.foldl DatabaseAction.step (start .default)
    [.register (.record "Author") ⟨"Author", [("id", false), ("name", false)]⟩
        [.plain ⟨"id", .integer, true, false, none, none, false, false⟩,
          .plain ⟨"name", .text, false, false, none, none, false, false⟩] none,
      .store (.put ⟨.root "Author" (.number 1), [("name", .text "Ann")]⟩ none)]

def removeAuthors : Statement where
  candidate := some (.record "Author")
  filter := .compare .equal (.field ["id"]) (.parameter (some "ids") none)
  ordering := []
  results := []
  sources := []
  grouping := []
  having := .absent
  aliasName := none
  kind := .delete
  text := none
  extensions := []

def authorAndNone : Parameters := [(.name "ids", .collection .list [.integer 1, .null])]

def noon : Moment := ⟨⟨2024, 1, 1⟩, 12, 0, 0, 0, false, none⟩

/-- The author is gone although the deletion fails. -/
theorem execute_fails_records_author :
    ∃ f after,
      (execute removeAuthors ⟨none, none⟩ authorAndNone noon).on authorList = (.error f, after) ∧
        authorList.store.records ≠ [] ∧ after.store.records = [] := by
  have removes : removeAuthors.RemovesUpTo authorList ⟨none, none⟩ authorAndNone noon
      [.root "Author" (.number 1)] :=
    ⟨⟨_, _, _⟩, "Author", [],
      ⟨⟨rfl, rfl, rfl⟩, (NativeQuery.text_isOk_iff _ _).mp ⟨_, rfl⟩, rfl, rfl, rfl⟩, rfl,
      List.forall_mem_nil _⟩
  obtain ⟨f, after, failed, records⟩ := (execute_fails_records rfl).1 _ removes
  exact ⟨f, after, failed, List.cons_ne_nil _ _, records⟩

end Database
end RecordStore
