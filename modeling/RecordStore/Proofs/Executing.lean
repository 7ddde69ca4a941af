import RecordStore.Proofs.DatabaseRuns
import RecordStore.Proofs.FilterLeaves
import RecordStore.Proofs.ScanResults
import RecordStore.Proofs.StoreDeletion
import RecordStore.Proofs.WholeRanges

/-!
# Executing statements

What comes of a statement once it is compiled, and how the selection and the deletion that are
written alike are compiled alike.
-/

set_option autoImplicit false

namespace RecordStore

/-- What a statement is checked and compiled to. -/
structure Statement.CompilesTo (s : Statement) (d : Database) (parameters : Parameters)
    (now : Moment) (c : Candidate) (plan : ResultPlan) (native : NativeQuery) : Prop where
  candidateIn_eq : s.candidateIn d = .ok c
  plan_eq : c.plan = .ok plan
  compile_eq : c.compile (d.bindings parameters now) plan = .ok native

/-- Whether the executor and the store take a range. -/
def Range.Accepted (r : Range) (largest : Bound) (query : Option Text) : Prop :=
  r.isEmpty = .ok true ∨
    r.isEmpty = .ok false ∧
      ∃ w, r.window largest query = .ok w ∧ ∃ p, Cursor.stretch w = .ok p

theorem Range.accepted_whole (first stop : Option Nat) {largest : Nat}
    (hl : largest ≤ Cursor.farthest) (query : Option Text) :
    (whole first stop).Accepted (.integer largest) query := by
  have hempty := isEmpty_whole first stop
  cases hn : hasNone first stop with
  | true =>
    rw [hn] at hempty
    exact .inl hempty
  | false =>
    rw [hn] at hempty
    obtain ⟨w, hw, hstart, hstop⟩ := window_whole first stop largest query
    exact .inr ⟨hempty, w, hw, _,
      Cursor.stretch_integer hstart hstop (Cursor.isNear_of_le hl (first.getD 0) stop)⟩

/-- Whether a result gives out rows made of some records, or is one that has no rows. -/
def Result.Streams (records : List Record) : Result → Prop
  | .rows r _ => ∃ token query, r = Rows.start (Cursor.ofReads records) token query
  | .nothing => records = []
  | .number _ => False

namespace Database

/-- Whether a database is another one without the records and the objects of some keys. -/
structure IsWithout (after before : Database) (keys : List Key) : Prop where
  records : after.store.records =
    before.store.records.filter fun r => keys.all fun k => !r.key.same k
  outages : after.store.outages = before.store.outages
  current : after.store.current = none
  heap : after.workspace.heap = before.workspace.heap
  identities : after.workspace.identities =
    keys.foldl IdentityMap.evict before.workspace.identities
  registry : after.registry = before.registry
  settings : after.settings = before.settings

def compiled (d : Database) (native : NativeQuery) : Database := { d with latest := some native }

def scanned (d : Database) : Database :=
  { d with
    store := (d.store.noted .scan none).tick .scan
    connections := (d.connections.issue d.scope).2 }

variable {d : Database} {s : Statement} {parameters : Parameters} {now : Moment} {c : Candidate}
  {plan : ResultPlan} {native : NativeQuery} {range : Range}

def carryOut (c : Candidate) (plan : ResultPlan) (native : NativeQuery) (range : Range)
    (largest : Bound) : Attempt Database Result := do
  if ← Attempt.ofExcept range.isEmpty then
    return (if (⟨c, plan, .all⟩ : Execution).wantsNumber then .number 0 else .nothing)
  else
    let w ← Attempt.ofExcept (range.window largest c.query)
    if plan.form = .count && !w.isTrivial then
      throw (.unsupportedFeature .windowedCount c.query)
    else (⟨c, plan, w⟩ : Execution).run native

theorem execute_on_compiled (h : s.CompilesTo d parameters now c plan native) (range : Range) :
    (execute s range parameters now).on d =
      (Attempt.ofExcept (native.text d.shown) >>= fun _ =>
        carryOut c plan native range d.settings.query.largest).on (d.compiled native) := by
  simp only [execute, carryOut, Attempt.on_bind, Attempt.on_get, Attempt.on_ofExcept,
    h.candidateIn_eq, h.plan_eq, h.compile_eq, Attempt.on_set]
  rfl

theorem execute_on_written (h : s.CompilesTo d parameters now c plan native)
    (written : native.CanWrite d.shown) (range : Range) :
    (execute s range parameters now).on d =
      (carryOut c plan native range d.settings.query.largest).on (d.compiled native) := by
  obtain ⟨t, ht⟩ := (native.text_isOk_iff d.shown).mpr written
  rw [execute_on_compiled h, ht]
  exact Attempt.on_bind_of_ok (Attempt.on_ofExcept _ _) _

/-- A query that cannot be written is noted as the latest, and nothing else is done. -/
theorem execute_on_unwritten (h : s.CompilesTo d parameters now c plan native)
    (unwritten : ¬native.CanWrite d.shown) (range : Range) :
    ∃ f, native.text d.shown = .error f ∧
      (execute s range parameters now).on d = (.error f, d.compiled native) := by
  cases ht : native.text d.shown with
  | ok t => exact absurd ((native.text_isOk_iff d.shown).mp ⟨t, ht⟩) unwritten
  | error f =>
    refine ⟨f, rfl, ?_⟩
    rw [execute_on_compiled h, Attempt.on_bind, Attempt.on_ofExcept, ht]

theorem execute_on_empty (h : s.CompilesTo d parameters now c plan native)
    (written : native.CanWrite d.shown) (hr : range.isEmpty = .ok true) :
    (execute s range parameters now).on d =
      (.ok (if (⟨c, plan, .all⟩ : Execution).wantsNumber then .number 0 else .nothing),
        d.compiled native) := by
  rw [execute_on_written h written, carryOut, hr, Attempt.on_bind_of_ok (Attempt.on_ofExcept _ _)]
  rfl

theorem carryOut_on_window (hr : range.isEmpty = .ok false) {largest : Bound} {w : Window}
    (hw : range.window largest c.query = .ok w)
    (hf : (plan.form = .count && !w.isTrivial) = false) :
    (carryOut c plan native range largest).on d =
      ((⟨c, plan, w⟩ : Execution).run native).on d := by
  rw [carryOut, hr, Attempt.on_bind_of_ok (Attempt.on_ofExcept _ _), if_neg (by simp), hw,
    Attempt.on_bind_of_ok (Attempt.on_ofExcept _ _), hf, if_neg (by simp)]

theorem execute_on_window (h : s.CompilesTo d parameters now c plan native)
    (written : native.CanWrite d.shown) (hr : range.isEmpty = .ok false) {w : Window}
    (hw : range.window d.settings.query.largest c.query = .ok w) (hf : plan.form ≠ .count) :
    (execute s range parameters now).on d =
      ((⟨c, plan, w⟩ : Execution).run native).on (d.compiled native) :=
  (execute_on_written h written range).trans (carryOut_on_window hr hw (by simp [hf]))

end Database

namespace Statement

def asSelect (s : Statement) : Statement := { s with kind := .select }

end Statement

namespace Candidate

def asSelect (c : Candidate) : Candidate := { c with statement := c.statement.asSelect }

variable (c : Candidate)

theorem plan_asSelect : c.asSelect.plan = c.plan := by
  have alike : Alike c.asSelect c := ⟨rfl, rfl, rfl⟩
  simp only [plan, readResults_alike alike]
  rfl

theorem compileFilter_asSelect (b : Bindings) (d : Draft) :
    c.asSelect.compileFilter b d = c.compileFilter b d :=
  have alike : Alike c.asSelect c := ⟨rfl, rfl, rfl⟩
  compileFilter_alike alike rfl b d

theorem compile_asSelect {c : Candidate} {b : Bindings} {plan : ResultPlan} {q : Selection}
    (h : c.compile b plan = .ok (.selection q)) :
    c.asSelect.compile b plan =
      .ok (.selection { q with keysOnly := plan.form = .keysOnly }) := by
  obtain ⟨filtered, hf, h⟩ := (bind_eq_ok_iff _ _ _).mp h
  obtain ⟨ordered, ho, h⟩ := (bind_eq_ok_iff _ _ _).mp h
  have hf' : c.asSelect.compileFilter b c.asSelect.start = .ok filtered := by
    rw [compileFilter_asSelect]
    exact hf
  have ho' : c.asSelect.compileOrdering filtered = .ok ordered := ho
  rw [compile, hf']
  show (c.asSelect.compileOrdering filtered >>= fun ordered => pure _) = _
  rw [ho']
  have hk : ordered.freeze (plan.form = .keysOnly || c.statement.isDelete) = .selection q :=
    Except.ok.inj h
  cases hks : ordered.keys with
  | some ks => simp [Draft.freeze, hks] at hk
  | none =>
    simp only [Draft.freeze, hks, NativeQuery.selection.injEq] at hk
    subst hk
    show Except.ok (ordered.freeze (plan.form = .keysOnly || false)) = _
    rw [Draft.freeze, hks, Bool.or_false]

end Candidate

namespace Statement

theorem withAlias_asSelect (s : Statement) (settings : QuerySettings) :
    s.asSelect.withAlias settings = (s.withAlias settings).asSelect := by
  rcases s with ⟨_, _, _, _, _, _, _, _ | name, _, _, _⟩
  · rfl
  · by_cases hn : name.isEmpty = true
    · simp only [asSelect, withAlias, if_pos hn]
    · simp only [asSelect, withAlias, if_neg hn]

theorem candidateIn_eq_ok_iff (s : Statement) (d : Database) (c : Candidate) :
    s.candidateIn d = .ok c ↔
      s.kind ≠ .update ∧ ∃ name m, s.candidate = some name ∧ d.registry.get? name = some m ∧
        c = ⟨s.withAlias d.settings.query, m⟩ := by
  rw [candidateIn]
  by_cases hu : s.kind = .update
  · simp [hu]
  rw [if_neg hu]
  cases hc : s.candidate with
  | none => simp
  | some name =>
    cases hm : d.registry.get? name with
    | none => simp [hm]
    | some m => simp [hm, hu, eq_comm]

theorem candidateIn_asSelect {s : Statement} {d : Database} {c : Candidate}
    (h : s.candidateIn d = .ok c) : s.asSelect.candidateIn d = .ok c.asSelect := by
  obtain ⟨-, name, m, hc, hm, rfl⟩ := (candidateIn_eq_ok_iff s d c).mp h
  refine (candidateIn_eq_ok_iff _ d _).mpr ⟨by simp [asSelect], name, m, hc, hm, ?_⟩
  rw [withAlias_asSelect]
  rfl

theorem CompilesTo.asSelect {s : Statement} {d : Database} {parameters : Parameters}
    {now : Moment} {c : Candidate} {plan : ResultPlan} {q : Selection}
    (h : s.CompilesTo d parameters now c plan (.selection q)) :
    s.asSelect.CompilesTo d parameters now c.asSelect plan
      (.selection { q with keysOnly := plan.form = .keysOnly }) where
  candidateIn_eq := candidateIn_asSelect h.candidateIn_eq
  plan_eq := c.plan_asSelect.trans h.plan_eq
  compile_eq := Candidate.compile_asSelect h.compile_eq

end Statement

namespace Statement

theorem withAlias_kind (s : Statement) (settings : QuerySettings) :
    (s.withAlias settings).kind = s.kind ∧ (s.withAlias settings).results = s.results := by
  rcases s with ⟨_, _, _, _, _, _, _, _ | name, _, _, _⟩
  · exact ⟨rfl, rfl⟩
  · by_cases hn : name.isEmpty = true
    · simp only [withAlias, if_pos hn, and_self]
    · simp only [withAlias, if_neg hn, and_self]

variable {s : Statement} {d : Database} {parameters : Parameters} {now : Moment} {c : Candidate}
  {plan : ResultPlan} {native : NativeQuery}

theorem CompilesTo.congr {d' : Database} (h : s.CompilesTo d parameters now c plan native)
    (hr : d'.registry = d.registry) (hs : d'.settings = d.settings)
    (hh : d'.workspace.heap = d.workspace.heap) :
    s.CompilesTo d' parameters now c plan native where
  candidateIn_eq := by
    have hc := h.candidateIn_eq
    rw [candidateIn] at hc ⊢
    rwa [hr, hs]
  plan_eq := h.plan_eq
  compile_eq := by
    have hb : d'.bindings parameters now = d.bindings parameters now := by
      simp only [Database.bindings, Database.heap, hr, hh]
    rw [hb]
    exact h.compile_eq

theorem CompilesTo.of_execute {s : Statement} {d after : Database} {range : Range}
    {parameters : Parameters} {now : Moment} {result : Result}
    (h : (Database.execute s range parameters now).on d = (.ok result, after)) :
    ∃ c plan native, s.CompilesTo d parameters now c plan native ∧
      native.CanWrite d.shown := by
  obtain ⟨_, _, hd, h⟩ := (Attempt.on_bind_eq_ok_iff _ _ _ _ _).mp h
  cases hd
  obtain ⟨c, _, made, h⟩ := (Attempt.on_bind_eq_ok_iff _ _ _ _ _).mp h
  obtain ⟨hc, rfl⟩ := (Attempt.on_ofExcept_eq_ok_iff _ _ _ _).mp made
  obtain ⟨plan, _, planned, h⟩ := (Attempt.on_bind_eq_ok_iff _ _ _ _ _).mp h
  obtain ⟨hp, rfl⟩ := (Attempt.on_ofExcept_eq_ok_iff _ _ _ _).mp planned
  obtain ⟨native, _, compiled, h⟩ := (Attempt.on_bind_eq_ok_iff _ _ _ _ _).mp h
  obtain ⟨hn, rfl⟩ := (Attempt.on_ofExcept_eq_ok_iff _ _ _ _).mp compiled
  obtain ⟨_, _, -, h⟩ := (Attempt.on_bind_eq_ok_iff _ _ _ _ _).mp h
  obtain ⟨t, _, written, -⟩ := (Attempt.on_bind_eq_ok_iff _ _ _ _ _).mp h
  obtain ⟨ht, -⟩ := (Attempt.on_ofExcept_eq_ok_iff _ _ _ _).mp written
  exact ⟨c, plan, native, ⟨hc, hp, hn⟩, (native.text_isOk_iff d.shown).mp ⟨t, ht⟩⟩

end Statement

namespace Candidate

def isCountCall (c : Candidate) : Expr → Bool
  | .call name _ args => c.isCount name args
  | _ => false

theorem readResults_form_ne_count (c : Candidate) {form : Option ResultForm}
    {projection : List (List Text × Member)} {results : List Expr} {plan : ResultPlan}
    (hn : ∀ x ∈ results, c.isCountCall x = false) (hf : form ≠ some .count)
    (h : c.readResults form projection results = .ok plan) : plan.form ≠ .count := by
  induction results generalizing form projection with
  | nil =>
    cases h
    cases form with
    | none => simp
    | some f => simpa using hf
  | cons x rest ih =>
    obtain ⟨hx, hrest⟩ := List.forall_mem_cons.mp hn
    cases x with
    | call name receiver args =>
      have hx : c.isCount name args = false := hx
      simp [readResults, hx] at h
    | field path =>
      simp only [readResults, if_neg hf] at h
      have kept : (some (form.getD .keysOnly) : Option ResultForm) ≠ some .count := by
        cases form with
        | none => simp
        | some f => simpa using hf
      split at h
      · exact ih hrest kept h
      · obtain ⟨m, -, h⟩ := (bind_eq_ok_iff _ _ _).mp h
        refine ih hrest ?_ h
        split
        · simp
        · exact kept
    | _ => cases h

theorem plan_form_ne_count {c : Candidate} {plan : ResultPlan}
    (hn : ∀ x ∈ c.statement.results, c.isCountCall x = false) (h : c.plan = .ok plan) :
    plan.form ≠ .count := by
  simp only [Candidate.plan] at h
  split at h
  · cases h
  split at h
  · cases h
  obtain ⟨_, -, h⟩ := (bind_eq_ok_iff _ _ _).mp h
  exact c.readResults_form_ne_count hn (by simp) h

end Candidate

namespace Statement.CompilesTo

variable {s : Statement} {d : Database} {parameters : Parameters} {now : Moment} {c : Candidate}
  {plan : ResultPlan} {native : NativeQuery}

theorem statement_eq (h : s.CompilesTo d parameters now c plan native) :
    c.statement = s.withAlias d.settings.query := by
  obtain ⟨-, name, m, -, -, rfl⟩ := (s.candidateIn_eq_ok_iff d c).mp h.candidateIn_eq
  rfl

theorem statement_kind (h : s.CompilesTo d parameters now c plan native) :
    c.statement.kind = s.kind := by
  rw [h.statement_eq]
  exact (s.withAlias_kind d.settings.query).1

theorem form_ne_count (h : s.CompilesTo d parameters now c plan native)
    (hn : ∀ x ∈ s.results, c.isCountCall x = false) : plan.form ≠ .count := by
  refine Candidate.plan_form_ne_count ?_ h.plan_eq
  rw [h.statement_eq, (s.withAlias_kind d.settings.query).2]
  exact hn

end Statement.CompilesTo

namespace IdentityMap

theorem contains_evict (m : IdentityMap) (k j : Key) :
    (m.evict k).contains j = true → m.contains j = true ∧ k.same j = false := by
  intro h
  obtain ⟨e, he, hj⟩ := List.any_eq_true.mp h
  obtain ⟨hm, hk⟩ := List.mem_filter.mp he
  refine ⟨List.any_eq_true.mpr ⟨e, hm, hj⟩, ?_⟩
  rw [← Key.same_congr_right hj, Key.same_comm]
  simpa using hk

theorem contains_foldl_evict (m : IdentityMap) (keys : List Key) {k : Key} (hk : k ∈ keys) :
    (keys.foldl evict m).contains k = false := by
  have kept (keys : List Key) (m : IdentityMap) (h : (keys.foldl evict m).contains k = true) :
      m.contains k = true := by
    induction keys generalizing m with
    | nil => exact h
    | cons j rest ih => exact (contains_evict m j k (ih _ h)).1
  induction keys generalizing m with
  | nil => cases hk
  | cons j rest ih =>
    rcases List.mem_cons.mp hk with rfl | hk
    · by_contra h
      have hc := contains_evict m k k (kept rest _ (by simpa using h))
      simp at hc
    · exact ih (m.evict j) hk

end IdentityMap

theorem Workspace.evictAll_on (w : Workspace) (keys : List Key) :
    (keys.forM Workspace.evict).on w =
      (.ok (), { w with identities := keys.foldl IdentityMap.evict w.identities }) := by
  induction keys generalizing w with
  | nil => rfl
  | cons k rest ih =>
    have evicted : (Workspace.evict k).on w =
      (.ok (), { w with identities := w.identities.evict k }) :=
      rfl
    show (Workspace.evict k >>= fun _ => rest.forM Workspace.evict).on w = _
    rw [Attempt.on_bind_of_ok evicted]
    exact ih _

namespace Execution

variable (e : Execution) {d : Database}

theorem request_on {α : Type} {a : Attempt Store α} {x : α} {t : Store}
    (h : a.on d.store = (.ok x, t)) : (e.request a).on d = (.ok x, { d with store := t }) := by
  simp only [request, Database.onStore, Attempt.on_mapFault, Attempt.on_zoom, h]
  rfl

theorem request_on_error {α : Type} {a : Attempt Store α} {f : Fault} {t : Store}
    (h : a.on d.store = (.error f, t)) :
    (e.request a).on d =
      (.error (f.wrapped .executing e.candidate.query), { d with store := t }) := by
  simp only [request, Database.onStore, Attempt.on_mapFault, Attempt.on_zoom, h]
  rfl

theorem request_eq_ok_iff {α : Type} (a : Attempt Store α) (d after : Database)
    (x : α) :
    (e.request a).on d = (.ok x, after) ↔
      ∃ t, a.on d.store = (.ok x, t) ∧ { d with store := t } = after := by
  simp only [request, Database.onStore, Attempt.on_mapFault, Attempt.on_zoom]
  rcases a.on d.store with ⟨f | y, t⟩
  · simp [Except.mapError]
  · simp [Except.mapError]

theorem transactionFor_eq_none (q : Selection) (h : d.store.current = none) :
    e.transactionFor q d = none := by
  simp only [transactionFor, h]
  split <;> rfl

theorem openRows_on (cursor : Cursor Record) :
    (e.openRows cursor).on d =
      (.ok (.rows (Rows.start cursor (some d.connections.cancelled.length) e.candidate.query)
        (e.reader d.settings.query)), { d with connections := (d.connections.issue d.scope).2 }) :=
  rfl

theorem scan_select_on (q : Selection) (hd : d.Sound) (hn : d.store.current = none)
    (hs : e.statement.isDelete = false) (hf : e.plan.form ≠ .count) {p : Nat × Option Nat}
    (hp : Cursor.stretch e.window = .ok p)
    (h : Store.CanScan d.shown q e.window d.store.records) :
    (e.scan q).on d =
      (.ok (.rows
        (Rows.start (Cursor.ofReads
            (Cursor.stretchOf p (Store.given d.shown q false d.store.records)))
          (some d.connections.cancelled.length) e.candidate.query)
        (e.reader d.settings.query)), d.scanned) := by
  have scanned := e.request_on (Store.scan_on_of_canScan (Store.Sound.isUp hd .scan)
    (Store.admits_none d.store q) h false)
  rw [Cursor.ofWindow_of_stretch hp] at scanned
  rw [scan, Attempt.on_bind_of_ok (Attempt.on_get d)]
  simp only [e.transactionFor_eq_none q hn, if_neg hf, hs]
  exact (Attempt.on_bind_of_ok scanned _).trans (e.openRows_on _)

theorem scan_on_of_problem {e : Execution} {q : Selection} (hd : d.Sound)
    (hn : d.store.current = none) (hf : e.plan.form ≠ .count) {f : Fault}
    (problem : q.problem? d.shown d.store.records = some f) :
    (e.scan q).on d = (.error (f.wrapped .executing e.candidate.query),
      { d with store := (d.store.noted .scan none).tick .scan }) := by
  have failed (q : Selection) (problem : q.problem? d.shown d.store.records = some f) :
      (Store.scan d.shown q none e.window false).on d.store =
        (.error f, (d.store.noted .scan none).tick .scan) := by
    rw [Store.scan_on (Store.Sound.isUp hd .scan) (Store.admits_none d.store q), Store.scanned,
      Selection.matching, problem]
    rfl
  rw [scan, Attempt.on_bind_of_ok (Attempt.on_get d)]
  simp only [e.transactionFor_eq_none q hn, if_neg hf]
  by_cases hs : e.statement.isDelete = true
  · have keys := failed { q with keysOnly := true }
      ((q.problem?_keysOnly d.shown _ _).trans problem)
    rw [if_pos hs, Attempt.on_bind, e.request_on_error (by rw [Attempt.on_bind, keys])]
  · rw [if_neg hs, Attempt.on_bind, e.request_on_error (failed q problem)]

theorem delete_on_of_ok {keys : List Key} {transaction : Option Nat} {t : Store}
    (h : (Store.delete (keys.map some) transaction).on d.store = (.ok (), t)) :
    (e.delete (keys.map some) transaction).on d =
      (.ok (.number keys.length),
        { d with
          store := t
          workspace := { d.workspace with
            identities := keys.foldl IdentityMap.evict d.workspace.identities } }) := by
  have keysOf : (keys.map some).filterMap id = keys := by simp
  rw [delete, Attempt.on_bind_of_ok (e.request_on h), keysOf]
  simp only [Database.onWorkspace, Attempt.on_bind, Attempt.on_zoom, Workspace.evictAll_on,
    Attempt.on_pure, List.length_map]

theorem delete_on (hu : d.store.IsUp .delete) (keys : List Key) :
    (e.delete (keys.map some) none).on d =
      (.ok (.number keys.length),
        { d with
          store := keys.foldl Store.remove (d.store.noted .delete none)
          workspace := { d.workspace with
            identities := keys.foldl IdentityMap.evict d.workspace.identities } }) :=
  e.delete_on_of_ok (Store.delete_on hu keys)

theorem scan_delete_on (q : Selection) (hd : d.Sound) (hn : d.store.current = none)
    (hs : e.statement.isDelete = true) (hf : e.plan.form ≠ .count) {p : Nat × Option Nat}
    (hp : Cursor.stretch e.window = .ok p)
    (h : Store.CanScan d.shown { q with keysOnly := true } e.window d.store.records)
    {keys : List Key} (hk : keys = (Cursor.stretchOf p (q.answer d.shown d.store.records)).map
      Record.key) :
    ∃ after, (e.scan q).on d = (.ok (.number keys.length), after) ∧ after.IsWithout d keys := by
  have hrows : d.store.outages.rows = none := by
    rw [hd.steady]
  obtain ⟨t, hrecords, houtages, hcurrent, collected⟩ :=
    Store.collect_on (Store.Sound.isUp hd .scan) hrows d.shown q hp h
  rw [← hk] at collected
  have hu : t.IsUp .delete := by
    rw [Store.IsUp, houtages]
    exact Store.Sound.isUp hd .delete
  have deleted := e.delete_on (d := { d with store := t }) hu keys
  have ran : (e.scan q).on d = (e.delete (keys.map some) none).on { d with store := t } := by
    rw [scan, Attempt.on_bind_of_ok (Attempt.on_get d)]
    simp only [e.transactionFor_eq_none q hn, if_neg hf, hs, if_true]
    rw [Attempt.on_bind_of_ok (e.request_on collected), hn]
  refine ⟨_, ran.trans deleted, ?_⟩
  obtain ⟨ho, hc⟩ := Store.foldl_remove_outages (t.noted .delete none) keys
  refine ⟨?_, ho.trans houtages, hc.trans (hcurrent.trans hn), rfl, rfl, rfl, rfl⟩
  rw [Store.foldl_remove_records]
  show t.records.filter _ = _
  rw [hrecords]

end Execution

namespace Database

theorem execute_select_on {d : Database} {s : Statement} {parameters : Parameters} {now : Moment}
    {c : Candidate} {plan : ResultPlan} {q : Selection} {range : Range} {w : Window}
    {p : Nat × Option Nat} (hd : d.Sound) (hn : d.store.current = none)
    (hc : s.CompilesTo d parameters now c plan (.selection q))
    (hs : c.statement.isDelete = false) (hf : plan.form ≠ .count) (he : range.isEmpty = .ok false)
    (hw : range.window d.settings.query.largest c.query = .ok w) (hp : Cursor.stretch w = .ok p)
    (h : Store.CanScan d.shown q w d.store.records) :
    (execute s range parameters now).on d =
      (.ok (.rows
        (Rows.start (Cursor.ofReads
            (Cursor.stretchOf p (Store.given d.shown q false d.store.records)))
          (some d.connections.cancelled.length) c.query)
        ((⟨c, plan, w⟩ : Execution).reader d.settings.query)),
        (d.compiled (.selection q)).scanned) := by
  let e : Execution := ⟨c, plan, w⟩
  have ran := execute_on_window hc h.canWrite he hw hf
  exact ran.trans (e.scan_select_on (d := d.compiled (.selection q)) q hd hn hs hf hp h)

theorem written_of_execute {d after : Database} {s : Statement} {parameters : Parameters}
    {now : Moment} {c : Candidate} {plan : ResultPlan} {native : NativeQuery} {range : Range}
    {result : Result} (hc : s.CompilesTo d parameters now c plan native)
    (h : (execute s range parameters now).on d = (.ok result, after)) :
      native.CanWrite d.shown := by
  by_contra unwritten
  obtain ⟨f, -, failed⟩ := execute_on_unwritten hc unwritten range
  cases failed.symm.trans h

theorem canScan_of_execute {d after : Database} {s : Statement} {parameters : Parameters}
    {now : Moment} {c : Candidate} {plan : ResultPlan} {q : Selection} {range : Range} {w : Window}
    {result : Result} (hd : d.Sound) (hn : d.store.current = none)
    (hc : s.CompilesTo d parameters now c plan (.selection q)) (hf : plan.form ≠ .count)
    (he : range.isEmpty = .ok false) (hw : range.window d.settings.query.largest c.query = .ok w)
    {p : Nat × Option Nat} (hp : Cursor.stretch w = .ok p)
    (h : (execute s range parameters now).on d = (.ok result, after)) :
    Store.CanScan d.shown q w d.store.records := by
  have written := written_of_execute hc h
  refine Store.canScan_of_stretch written ?_ hp
  cases problem : q.problem? d.shown d.store.records with
  | none => rfl
  | some f =>
    rw [execute_on_window hc written he hw hf] at h
    have stopped := Execution.scan_on_of_problem (e := ⟨c, plan, w⟩)
      (d := d.compiled (.selection q)) hd hn hf problem
    cases stopped.symm.trans h

end Database
end RecordStore
