import RecordStore.Proofs.BulkDeletion
import RecordStore.Proofs.Counting
import RecordStore.Proofs.TransactionTurns

/-!
# Deletions with a result clause

A deletion has no rows to give out, so its result clause should not matter. It does where the
deletion scans and is asked for the number of rows: then the number is all that comes of it.
-/

set_option autoImplicit false

namespace RecordStore

open Attempt

namespace Candidate

variable {c : Candidate}

theorem readResults_form_eq_count {form : Option ResultForm}
    {projection : List (List Text × Member)} {results : List Expr} {plan : ResultPlan}
    (h : c.readResults form projection results = .ok plan)
    (hc : form = some .count ∨ ∃ x ∈ results, c.isCountCall x = true) : plan.form = .count := by
  induction results generalizing form projection with
  | nil =>
    cases h
    rcases hc with rfl | ⟨x, hx, -⟩
    · rfl
    · cases hx
  | cons x rest ih =>
    cases x with
    | call name receiver args =>
      simp only [readResults] at h
      split at h
      · cases h
      split at h
      · cases h
      exact ih h (.inl rfl)
    | field path =>
      have later : form = some .count ∨ ∃ x ∈ rest, c.isCountCall x = true := by
        refine hc.imp_right ?_
        rintro ⟨y, hy, counts⟩
        rcases List.mem_cons.mp hy with rfl | hy
        · cases counts
        · exact ⟨y, hy, counts⟩
      simp only [readResults] at h
      split at h
      · cases h
      rename_i unlike
      have later := later.resolve_left unlike
      split at h
      · exact ih h (.inr later)
      · obtain ⟨m, -, h⟩ := (bind_eq_ok_iff _ _ _).mp h
        exact ih h (.inr later)
    | _ => cases h

theorem plan_form_eq_count_iff {plan : ResultPlan} (h : c.plan = .ok plan) :
    plan.form = .count ↔ ∃ x ∈ c.statement.results, c.isCountCall x = true := by
  constructor
  · intro counts
    by_contra none
    refine plan_form_ne_count (fun x hx => ?_) h counts
    by_contra call
    exact none ⟨x, hx, by simpa using call⟩
  · intro counts
    rw [c.plan_eq] at h
    obtain ⟨_, -, h⟩ := (bind_eq_ok_iff _ _ _).mp h
    exact readResults_form_eq_count h (.inr counts)

def resultless (c : Candidate) : Candidate :=
  { c with statement := { c.statement with results := [] } }

theorem plan_resultless {plan : ResultPlan} (h : c.plan = .ok plan) :
    c.resultless.plan = .ok ⟨.whole, []⟩ := by
  rw [c.plan_eq] at h
  obtain ⟨_, checked, -⟩ := (bind_eq_ok_iff _ _ _).mp h
  rw [c.resultless.plan_eq]
  change (c.checkClauses >>= fun _ => (.ok ⟨.whole, []⟩ : Except Fault ResultPlan)) = _
  rw [checked]
  rfl

theorem compile_resultless (hs : c.statement.isDelete = true) (b : Bindings)
    (plan plan' : ResultPlan) : c.resultless.compile b plan' = c.compile b plan := by
  have alike : Alike c.resultless c := ⟨rfl, rfl, rfl⟩
  have deletes : c.resultless.statement.isDelete = true := hs
  refine compile_alike alike rfl rfl b ?_
  rw [hs, deletes, Bool.or_true, Bool.or_true]

end Candidate

namespace Statement

variable {s : Statement} {d : Database} {parameters : Parameters} {now : Moment} {c : Candidate}
  {plan : ResultPlan} {native : NativeQuery}

def resultless (s : Statement) : Statement := { s with results := [] }

theorem withAlias_resultless (s : Statement) (settings : QuerySettings) :
    s.resultless.withAlias settings = (s.withAlias settings).resultless := by
  rcases s with ⟨_, _, _, _, _, _, _, _ | name, _, _, _⟩
  · rfl
  · by_cases hn : name.isEmpty = true
    · simp only [resultless, withAlias, if_pos hn]
    · simp only [resultless, withAlias, if_neg hn]

theorem CompilesTo.isDelete (h : s.CompilesTo d parameters now c plan native)
    (hk : s.kind = .delete) : c.statement.isDelete = true := by
  simp [Statement.isDelete, h.statement_kind, hk]

theorem CompilesTo.resultless (h : s.CompilesTo d parameters now c plan native)
    (hk : s.kind = .delete) :
    s.resultless.CompilesTo d parameters now c.resultless ⟨.whole, []⟩ native where
  candidateIn_eq := by
    obtain ⟨known, name, m, hc, hm, rfl⟩ := (candidateIn_eq_ok_iff s d c).mp h.candidateIn_eq
    refine (candidateIn_eq_ok_iff _ d _).mpr ⟨known, name, m, hc, hm, ?_⟩
    rw [withAlias_resultless]
    rfl
  plan_eq := Candidate.plan_resultless h.plan_eq
  compile_eq := (Candidate.compile_resultless (h.isDelete hk) _ plan _).trans h.compile_eq

theorem CompilesTo.form_eq_count_iff (h : s.CompilesTo d parameters now c plan native) :
    plan.form = .count ↔ ∃ x ∈ s.results, c.isCountCall x = true := by
  rw [Candidate.plan_form_eq_count_iff h.plan_eq, h.statement_eq,
    (s.withAlias_kind d.settings.query).2]

end Statement

theorem Selection.stored_of_answer_iff (q : Selection) {rs : List Record}
    (apart : rs.Pairwise fun a b => a.key.same b.key = false) (shown : Value → Except Fault Text)
    (r : Record) :
    (r ∈ rs ∧ ∃ k, some k ∈ ((q.answer shown rs).map Record.key).map some ∧ k.same r.key = true) ↔
      r ∈ q.answer shown rs := by
  constructor
  · rintro ⟨hr, k, hk, same⟩
    obtain ⟨x, hx, rfl⟩ : ∃ x ∈ q.answer shown rs, x.key = k := by simpa using hk
    have stored := ((q.mem_answer_iff shown rs x).mp hx).1
    rwa [← Store.eq_of_same apart stored hr same]
  · intro hr
    have key : some r.key ∈ ((q.answer shown rs).map Record.key).map some :=
      List.mem_map_of_mem (List.mem_map_of_mem hr)
    exact ⟨((q.mem_answer_iff shown rs r).mp hr).1, r.key, key, Key.same_self _⟩

namespace Store

variable {s : Store}

theorem InTurn.checkTransaction_on (h : s.InTurn) {q : Selection} {transaction : Option Nat}
    (ht : ∀ n, transaction = some n → s.current = some n ∧ q.ancestor.isSome = true) :
    (checkTransaction q transaction).on s = (.ok (), s) := by
  cases transaction with
  | none => rfl
  | some n =>
    obtain ⟨current, below⟩ := ht n rfl
    obtain ⟨t, found, going⟩ := h.going_of_current current
    have placed : (q.ancestor.isNone && s.requiresAncestor) = false := by
      cases hq : q.ancestor with
      | none => simp [hq] at below
      | some k => rfl
    rw [checkTransaction, on_bind_of_ok (active_on found going), on_bind_of_ok (on_get s), placed]
    rfl

theorem InTurn.taken_eq (h : s.InTurn) (shown : Value → Except Fault Text) {q : Selection}
    {transaction : Option Nat}
    (ht : ∀ n, transaction = some n → s.current = some n ∧ q.ancestor.isSome = true) :
    s.taken shown q transaction = q.matching shown s.records := by
  rw [taken, h.checkTransaction_on ht]
  rfl

theorem InTurn.collect_on (h : s.InTurn) {shown : Value → Except Fault Text} {q : Selection}
    {transaction : Option Nat}
    (ht : ∀ n, transaction = some n → s.current = some n ∧ q.ancestor.isSome = true)
    (scannable : CanScan shown q .all s.records) :
    ∃ t : Store, (do
        let c ← scan shown { q with keysOnly := true } transaction .all false
        let rs ← drain c
        return rs.map (fun r => some r.key) : Attempt Store (List (Option Key))).on s =
        (.ok (((q.answer shown s.records).map Record.key).map some), t) ∧ t.IsLike s ∧
          t.InTurn := by
  have keys := scannable.withKeysOnly true
  have scanned : (scan shown { q with keysOnly := true } transaction .all false).on s = _ :=
    scan_all_on (h.sound.isUp .scan) keys.canWrite
  rw [h.taken_eq shown (q := { q with keysOnly := true }) ht,
    Selection.matching_eq_ok_iff.mpr ⟨keys.compared, rfl⟩] at scanned
  let asked := (s.noted .scan transaction).tick .scan
  let found := (q.answer shown s.records).map Record.bare
  have rows : asked.outages.rows = none := congrArg Outages.rows h.sound.steady
  refine ⟨{ asked with reads := asked.reads + found.length }, ?_, ⟨rfl, rfl, rfl⟩,
    InTurn.stable.uncounted s _ _ _ h⟩
  have read := drain_on rows found
  rw [on_bind_of_ok scanned]
  refine (on_bind_of_ok read _).trans ?_
  rw [on_pure, List.map_map, List.map_map]
  rfl

theorem InTurn.collect_on_of_problem (h : s.InTurn) {shown : Value → Except Fault Text}
    {q : Selection} {transaction : Option Nat}
    (ht : ∀ n, transaction = some n → s.current = some n ∧ q.ancestor.isSome = true)
    (written : NativeQuery.CanWrite shown (.selection q)) {f : Fault}
    (problem : q.problem? shown s.records = some f) :
    (do let c ← scan shown { q with keysOnly := true } transaction .all false
        let rs ← drain c
        return rs.map (fun r => some r.key) : Attempt Store (List (Option Key))).on s =
      (.error f, (s.noted .scan transaction).tick .scan) := by
  have stops := (q.problem?_keysOnly shown true s.records).trans problem
  have scanned : (scan shown { q with keysOnly := true } transaction .all false).on s = _ :=
    scan_all_on (h.sound.isUp .scan) written
  rw [h.taken_eq shown (q := { q with keysOnly := true }) ht, Selection.matching, stops] at scanned
  rw [on_bind, scanned]
  rfl

theorem InTurn.delete_current_on (h : s.InTurn) (keys : List Key) :
    ∃ t, (delete (keys.map some) s.current).on s = (.ok (), t) ∧
      (keys = [] → t.IsLike s) := by
  have up : s.IsUp .delete := h.sound.isUp .delete
  cases current : s.current with
  | none =>
    refine ⟨_, delete_on up keys, ?_⟩
    rintro rfl
    exact ⟨rfl, rfl, rfl⟩
  | some n =>
    obtain ⟨t, found, going⟩ := h.going_of_current current
    have noted : (s.noted .delete (some n)).transaction? n = some t := found
    let gathering (t : Transaction) : Transaction :=
      { t with
        puts := (keys.map some).foldl (fun puts k => erasePut k puts) t.puts
        deletes := t.deletes ++ keys.map some }
    refine ⟨(s.noted .delete (some n)).updateTransaction n gathering, ?_, ?_⟩
    · rw [delete, on_bind_of_ok (enter_on up _)]
      show (deleteIn n (keys.map some)).on _ = _
      rw [deleteIn, on_bind_of_ok (active_on noted going)]
      rfl
    · rintro rfl
      refine ⟨rfl, ?_, rfl⟩
      have same (x : Transaction) : (if x.number = n then gathering x else x) = x := by
        have unchanged : gathering x = x := by simp [gathering]
        rw [unchanged, ite_self]
      exact (List.map_congr_left fun x _ => same x).trans (List.map_id _)

end Store

namespace Execution

variable {e : Execution} {d : Database}

def deleteAnswer (e : Execution) (q : Selection) (d : Database) : Attempt Database Result := do
  let keys ← e.request do
    let c ← Store.scan d.shown { q with keysOnly := true } (e.transactionFor q d) e.window false
    let rs ← Store.drain c
    return rs.map (fun r => some r.key)
  e.delete keys d.store.current

theorem scan_delete_on_eq (hs : e.statement.isDelete = true) (hf : e.plan.form ≠ .count)
    (q : Selection) (d : Database) : (e.scan q).on d = (e.deleteAnswer q d).on d := by
  rw [scan, on_bind_of_ok (on_get d)]
  simp only [if_neg hf, hs, if_true]
  rfl

/-- A deletion is run by what its statement says beside the result clause, unless it scans and is
asked for the number of rows. -/
theorem run_resultless {c : Candidate} {plan : ResultPlan} {native : NativeQuery} {w : Window}
    (hs : c.statement.isDelete = true)
    (hf : plan.form ≠ .count ∨ ∃ kind keys, native = .lookup kind keys) (d : Database) :
    ((⟨c, plan, w⟩ : Execution).run native).on d =
      ((⟨c.resultless, ⟨.whole, []⟩, w⟩ : Execution).run native).on d := by
  have bare : (⟨c.resultless, ⟨.whole, []⟩, w⟩ : Execution).statement.isDelete = true := hs
  have own : (⟨c, plan, w⟩ : Execution).statement.isDelete = true := hs
  cases native with
  | selection q =>
    have unlike : plan.form ≠ .count := hf.resolve_right (by simp)
    have own := scan_delete_on_eq own unlike q d
    have bare := scan_delete_on_eq bare (by simp) q d
    exact own.trans bare.symm
  | lookup kind keys =>
    change (lookup _ keys).on d = (lookup _ keys).on d
    rw [lookup, lookup, on_bind_of_ok (on_get d), on_bind_of_ok (on_get d)]
    simp only [own, bare, if_true]
    rfl

theorem transactionFor_eq_some {q : Selection} {n : Nat} (h : e.transactionFor q d = some n) :
    d.store.current = some n ∧ q.ancestor.isSome = true := by
  rw [transactionFor] at h
  split at h
  · rename_i placed
    exact ⟨h, (Bool.and_eq_true_iff.mp placed).1⟩
  · cases h

variable (turn : d.store.InTurn) (whole : e.window = .all) (q : Selection)
include turn whole

theorem scan_count_on (hf : e.plan.form = .count) :
    ∃ after, (e.scan q).on d =
        (((q.matching d.shown d.store.records).map fun rs => .number rs.length).mapError
          (Fault.wrapped .executing e.candidate.query), after) ∧
      after.store.IsLike d.store := by
  have taken := turn.taken_eq d.shown fun n => transactionFor_eq_some (e := e) (q := q) (n := n)
  have counted : (Store.count d.shown q (e.transactionFor q d) .all).on d.store = _ :=
    Store.count_all_on (turn.sound.isUp .count) d.shown
  have asked : (e.scan q).on d =
      (e.request (Store.count d.shown q (e.transactionFor q d) .all) >>= fun n =>
        pure (.number n)).on d := by
    rw [scan, on_bind_of_ok (on_get d)]
    simp only [if_pos hf, whole]
  rw [taken] at counted
  rw [asked, on_bind]
  cases matched : q.matching d.shown d.store.records with
  | error f =>
    rw [matched] at counted
    rw [e.request_on_error counted]
    exact ⟨_, rfl, rfl, rfl, rfl⟩
  | ok rs =>
    obtain ⟨-, rfl⟩ := Selection.matching_eq_ok_iff.mp matched
    have length : (Store.given d.shown q false d.store.records).length =
        (q.answer d.shown d.store.records).length := by
      rw [← List.length_map Record.key, Store.given_map_key, List.length_map]
    rw [matched, length] at counted
    rw [e.request_on counted]
    exact ⟨_, rfl, rfl, rfl, rfl⟩

theorem deleteAnswer_on_of_problem (written : NativeQuery.CanWrite d.shown (.selection q))
    {f : Fault} (problem : q.problem? d.shown d.store.records = some f) :
    ∃ after, (e.deleteAnswer q d).on d = (.error (f.wrapped .executing e.candidate.query), after) ∧
      after.store.IsLike d.store := by
  have collected := turn.collect_on_of_problem
    (fun n => transactionFor_eq_some (e := e) (q := q) (n := n)) written problem
  rw [deleteAnswer, whole, on_bind, e.request_on_error collected]
  exact ⟨_, rfl, rfl, rfl, rfl⟩

theorem deleteAnswer_on (scannable : Store.CanScan d.shown q .all d.store.records) :
    ∃ after, (e.deleteAnswer q d).on d =
        (.ok (.number (q.answer d.shown d.store.records).length), after) ∧
      (∀ r, d.store.Loses after.store r ↔ r ∈ q.answer d.shown d.store.records) ∧
      (q.answer d.shown d.store.records = [] → after.store.IsLike d.store) := by
  obtain ⟨asked, collected, like, turn'⟩ :=
    turn.collect_on (fun n => transactionFor_eq_some (e := e) (q := q) (n := n)) scannable
  obtain ⟨t, deleted, idle⟩ :=
    turn'.delete_current_on ((q.answer d.shown d.store.records).map Record.key)
  rw [like.current] at deleted
  have ran : (e.deleteAnswer q d).on d =
      (e.delete (((q.answer d.shown d.store.records).map Record.key).map some) d.store.current).on
        { d with store := asked } := by
    rw [deleteAnswer, whole, on_bind_of_ok (e.request_on collected)]
  have ran := ran.trans (e.delete_on_of_ok (d := { d with store := asked }) deleted)
  rw [List.length_map] at ran
  refine ⟨_, ran, fun r => ?_, fun none => (idle (by simp [none])).trans like⟩
  rw [← like.current] at deleted
  rw [← like.loses_iff]
  exact (Store.delete_loses_iff deleted r).trans
    (like.records ▸ q.stored_of_answer_iff turn.sound.apart d.shown r)

end Execution

namespace Database

variable {d : Database} {s : Statement} {parameters : Parameters} {now : Moment} {c : Candidate}
  {plan : ResultPlan} {native : NativeQuery}

/-- A deletion comes to the same with its result clause as without one, unless it scans and is asked
for the number of rows. Then it gives the same number or the same fault, but it leaves the records
and the transactions alone. They are what the other leaves only if nothing is selected, or if the
scan cannot be made and both fail. -/
theorem execute_delete_results (hd : d.Reachable) (hk : s.kind = .delete)
    (hc : s.CompilesTo d parameters now c plan native) :
    let own := (execute s ⟨none, none⟩ parameters now).on d
    let bare := (execute s.resultless ⟨none, none⟩ parameters now).on d
    ((∀ x ∈ s.results, c.isCountCall x = false) ∨ (∃ kind keys, native = .lookup kind keys) →
      own = bare) ∧
    ∀ q, native = .selection q → (∃ x ∈ s.results, c.isCountCall x = true) →
      let selected := q.answer d.shown d.store.records
      own.1 = bare.1 ∧ own.2.store.IsLike d.store ∧
        (Store.CanScan d.shown q .all d.store.records →
          own.1 = .ok (.number selected.length) ∧
            (∀ r, d.store.Loses bare.2.store r ↔ r ∈ selected) ∧
            (bare.2.store.IsLike own.2.store ↔ selected = [])) ∧
        (¬Store.CanScan d.shown q .all d.store.records →
          (∃ f, own.1 = .error f) ∧ bare.2.store.IsLike d.store) := by
  intro own bare
  -- both statements come to the same query, so both fail where it cannot be written
  by_cases written : native.CanWrite d.shown
  case neg =>
    obtain ⟨f, text, own_eq⟩ := execute_on_unwritten hc written ⟨none, none⟩
    obtain ⟨g, text', bare_eq⟩ := execute_on_unwritten (hc.resultless hk) written ⟨none, none⟩
    obtain rfl : f = g := Except.error.inj (text.symm.trans text')
    refine ⟨fun _ => own_eq.trans bare_eq.symm, ?_⟩
    rintro q rfl - selected
    have like : (d.compiled (.selection q)).store.IsLike d.store := ⟨rfl, rfl, rfl⟩
    rw [show own = _ from own_eq, show bare = _ from bare_eq]
    exact ⟨rfl, like, fun h => absurd h.canWrite written, fun _ => ⟨⟨f, rfl⟩, like⟩⟩
  have own_eq : own = ((⟨c, plan, .all⟩ : Execution).run native).on (d.compiled native) :=
    execute_on_whole (e := ⟨c, plan, .all⟩) rfl hc written
  have bare_eq : bare = ((⟨c.resultless, ⟨.whole, []⟩, .all⟩ : Execution).run native).on
      (d.compiled native) :=
    execute_on_whole (e := ⟨c.resultless, ⟨.whole, []⟩, .all⟩) rfl (hc.resultless hk) written
  have deletes := hc.isDelete hk
  rw [own_eq, bare_eq]
  refine ⟨fun h => Execution.run_resultless deletes (h.imp_left hc.form_ne_count) _, ?_⟩
  rintro q rfl counts selected
  have turn : d.store.InTurn := Reachable.has Store.InTurn.stable hd Store.InTurn.start
  let compiled := d.compiled (.selection q)
  obtain ⟨counted, own, like⟩ := Execution.scan_count_on (e := ⟨c, plan, .all⟩)
    (d := compiled) turn rfl q (hc.form_eq_count_iff.mpr counts)
  have bare := Execution.scan_delete_on_eq (e := ⟨c.resultless, ⟨.whole, []⟩, .all⟩) deletes
    (by simp) q compiled
  simp only [Execution.run]
  rw [own, bare]
  cases problem : q.problem? d.shown d.store.records with
  | some f =>
    have failing : q.matching compiled.shown compiled.store.records = .error f := by
      rw [Selection.matching]
      rw [show q.problem? compiled.shown compiled.store.records = _ from problem]
    obtain ⟨stopped, deleted, idle⟩ := Execution.deleteAnswer_on_of_problem
      (e := ⟨c.resultless, ⟨.whole, []⟩, .all⟩) (d := compiled) turn rfl q written problem
    rw [failing, deleted]
    refine ⟨rfl, like, fun h => ?_, fun _ => ⟨⟨_, rfl⟩, idle⟩⟩
    cases problem.symm.trans h.compared
  | none =>
    have scannable : Store.CanScan d.shown q .all d.store.records :=
      Store.canScan_of_stretch written problem rfl
    have matched : q.matching compiled.shown compiled.store.records = .ok selected :=
      Selection.matching_eq_ok_iff.mpr ⟨problem, rfl⟩
    obtain ⟨emptied, deleted, lost, idle⟩ := Execution.deleteAnswer_on
      (e := ⟨c.resultless, ⟨.whole, []⟩, .all⟩) (d := compiled) turn rfl q scannable
    rw [matched, deleted]
    refine ⟨rfl, like, fun _ => ⟨rfl, lost, fun same => ?_, fun none => (idle none).trans ?_⟩,
      fun failing => absurd scannable failing⟩
    · rw [List.eq_nil_iff_forall_not_mem]
      intro r hr
      exact (same.trans like).not_loses r ((lost r).mpr hr)
    · exact ⟨like.records.symm, like.transactions.symm, like.current.symm⟩

def countDone : Statement := { deleteDone with results := [Statement.countCall] }

/-- Two tasks are done. Both deletions say so, but only the one without a result clause loses
them. -/
theorem execute_delete_results_tasks :
    let noted (s : Statement) := (execute s ⟨none, none⟩ [] noon).on tasks
    (noted countDone).1 = .ok (.number 2) ∧ (noted countDone.resultless).1 = .ok (.number 2) ∧
      (noted countDone).2.store.records = tasks.store.records ∧
      ∃ r, tasks.store.Loses (noted countDone.resultless).2.store r := by
  intro noted
  let q : Selection := ⟨"Task", [⟨"done", .equal, .flag true⟩], [], none, true⟩
  have compiled : countDone.CompilesTo tasks [] noon _ _ (.selection q) := ⟨rfl, rfl, rfl⟩
  obtain ⟨-, counting⟩ := execute_delete_results (d := tasks) ⟨_, _, rfl⟩ rfl compiled
  obtain ⟨same, kept, made, -⟩ := counting _ rfl ⟨_, .head _, rfl⟩
  have scannable : Store.CanScan tasks.shown q .all tasks.store.records :=
    Store.canScan_of_stretch (p := (0, none)) ⟨List.forall_mem_singleton.mpr ⟨_, rfl⟩, nofun⟩ rfl
      rfl
  obtain ⟨own, lost, -⟩ := made scannable
  have two : (q.answer tasks.shown tasks.store.records).length = 2 :=
    (q.answer_perm tasks.shown tasks.store.records).length_eq
  rw [two] at own
  obtain ⟨r, hr⟩ := List.exists_mem_of_length_pos (two ▸ Nat.zero_lt_two)
  exact ⟨own, same.symm.trans own, kept.records, r, (lost r).mpr hr⟩

end Database
end RecordStore
