import RecordStore.Proofs.FailedStatements
import RecordStore.Proofs.RangeSlices

/-!
# Counting what is selected

The number of rows is asked for by a result clause that stands for it. It comes to something where
the selection without a result clause does, and is the number of its rows.
-/

set_option autoImplicit false

namespace RecordStore

open Attempt

namespace Statement

variable {s : Statement} {d : Database} {parameters : Parameters} {now : Moment}

def selecting (s : Statement) (results : List Expr) : Statement :=
  { s with kind := .select, results := results }

def countCall : Expr := .call "count" .absent []

def counting (s : Statement) : Statement := s.selecting [countCall]

def listing (s : Statement) : Statement := s.selecting []

def compiledIn (s : Statement) (d : Database) (parameters : Parameters) (now : Moment) :
    Except Fault (Candidate × ResultPlan × NativeQuery) := do
  let c ← s.candidateIn d
  let plan ← c.plan
  return (c, plan, ← c.compile (d.bindings parameters now) plan)

theorem compiledIn_eq_ok_iff {c : Candidate} {plan : ResultPlan} {native : NativeQuery} :
    s.compiledIn d parameters now = .ok (c, plan, native) ↔
      s.CompilesTo d parameters now c plan native := by
  constructor
  · intro h
    obtain ⟨c, hc, h⟩ := (bind_eq_ok_iff _ _ _).mp h
    obtain ⟨plan, hp, h⟩ := (bind_eq_ok_iff _ _ _).mp h
    obtain ⟨native, hn, h⟩ := (bind_eq_ok_iff _ _ _).mp h
    cases h
    exact ⟨hc, hp, hn⟩
  · rintro ⟨hc, hp, hn⟩
    simp only [compiledIn, hc, hp, hn, bind, Except.bind]
    rfl

end Statement

theorem Database.execute_on_refused {d : Database} {s : Statement} {parameters : Parameters}
    {now : Moment} {f : Fault} (h : s.compiledIn d parameters now = .error f) (range : Range) :
    (execute s range parameters now).on d = (.error f, d) := by
  simp only [execute, on_bind, on_get, on_ofExcept]
  rcases (bind_eq_error_iff _ _ _).mp h with failed | ⟨c, found, h⟩
  · rw [failed]
  rcases (bind_eq_error_iff _ _ _).mp h with failed | ⟨plan, planned, h⟩
  · simp only [found, failed]
  rcases (bind_eq_error_iff _ _ _).mp h with failed | ⟨native, -, h⟩
  · simp only [found, planned, failed]
  · cases h

namespace Candidate

def selecting (c : Candidate) (results : List Expr) : Candidate :=
  { c with statement := c.statement.selecting results }

variable (c : Candidate)

/-- What is ruled out whatever the result clause is. -/
def checkClauses : Except Fault Unit :=
  if !c.statement.grouping.isEmpty then .error (.unsupportedFeature .grouping c.query)
  else if !c.statement.having.isAbsent then .error (.unsupportedFeature .having c.query)
  else c.statement.sources.forM c.checkSource

theorem plan_eq :
    c.plan = c.checkClauses >>= fun _ => c.readResults none [] c.statement.results := by
  change (if !c.statement.grouping.isEmpty then _ else if !c.statement.having.isAbsent then _ else
    c.statement.sources.forM c.checkSource >>= fun _ =>
      c.readResults none [] c.statement.results) = _
  by_cases grouped : (!c.statement.grouping.isEmpty) = true
  · rw [checkClauses, if_pos grouped, if_pos grouped]
    rfl
  by_cases having : (!c.statement.having.isAbsent) = true
  · rw [checkClauses, if_neg grouped, if_neg grouped, if_pos having, if_pos having]
    rfl
  · rw [checkClauses, if_neg grouped, if_neg grouped, if_neg having, if_neg having]

theorem plan_selecting (results : List Expr) :
    (c.selecting results).plan =
      c.checkClauses >>= fun _ => (c.selecting results).readResults none [] results :=
  (c.selecting results).plan_eq

theorem plan_listing :
    (c.selecting []).plan = c.checkClauses >>= fun _ => .ok ⟨.whole, []⟩ :=
  c.plan_selecting []

theorem plan_counting :
    (c.selecting [Statement.countCall]).plan = c.checkClauses >>= fun _ => .ok ⟨.count, []⟩ :=
  c.plan_selecting [Statement.countCall]

theorem compile_selecting (b : Bindings) {form form' : ResultForm} (h : form ≠ .keysOnly)
    (h' : form' ≠ .keysOnly) (results results' : List Expr)
    (projection projection' : List (List Text × Member)) :
    (c.selecting results).compile b ⟨form, projection⟩ =
      (c.selecting results').compile b ⟨form', projection'⟩ := by
  have alike : Alike (c.selecting results) (c.selecting results') := ⟨rfl, rfl, rfl⟩
  refine compile_alike alike rfl rfl b ?_
  rw [decide_eq_false h, decide_eq_false h']
  rfl

end Candidate

namespace Statement

theorem withAlias_selecting (s : Statement) (results : List Expr) (settings : QuerySettings) :
    (s.selecting results).withAlias settings = (s.withAlias settings).selecting results := by
  rcases s with ⟨_, _, _, _, _, _, _, _ | name, _, _, _⟩
  · rfl
  · by_cases hn : name.isEmpty = true
    · simp only [selecting, withAlias, if_pos hn]
    · simp only [selecting, withAlias, if_neg hn]

theorem candidateIn_selecting (s : Statement) (d : Database) (results : List Expr) :
    (s.selecting results).candidateIn d =
      (s.listing.candidateIn d).map fun c => c.selecting results := by
  have unmapped : (s.selecting results).unmapped = s.listing.unmapped := rfl
  simp only [candidateIn, withAlias_selecting, listing, unmapped]
  simp only [selecting]
  cases s.candidate with
  | none => rfl
  | some name =>
    dsimp only
    cases d.registry.get? name <;> rfl

theorem compiledIn_counting (s : Statement) (d : Database) (parameters : Parameters)
    (now : Moment) :
    s.counting.compiledIn d parameters now =
      (s.listing.compiledIn d parameters now).map fun (c, _, native) =>
        (c.selecting [countCall], ⟨.count, []⟩, native) := by
  rw [compiledIn, compiledIn, counting, candidateIn_selecting s d [countCall], listing,
    candidateIn_selecting s d []]
  cases s.listing.candidateIn d with
  | error f => rfl
  | ok c =>
    change ((c.selecting [countCall]).plan >>= fun plan => _) =
      ((c.selecting []).plan >>= fun plan => _).map _
    rw [c.plan_counting, c.plan_listing]
    cases c.checkClauses with
    | error f => rfl
    | ok _ =>
      change ((c.selecting [countCall]).compile (d.bindings parameters now) ⟨.count, []⟩ >>=
        fun native => _) =
        ((c.selecting []).compile (d.bindings parameters now) ⟨.whole, []⟩ >>= fun native => _).map
          _
      have counts : ResultForm.count ≠ .keysOnly := nofun
      have whole : ResultForm.whole ≠ .keysOnly := nofun
      rw [c.compile_selecting _ counts whole [countCall] [] [] []]
      cases (c.selecting []).compile (d.bindings parameters now) ⟨.whole, []⟩ <;> rfl

end Statement

namespace Store

variable {s : Store} {q : Selection} {transaction : Option Nat}

theorem checkTransaction_congr {t : Store} (ht : t.transactions = s.transactions)
    (hr : t.requiresAncestor = s.requiresAncestor) :
    (checkTransaction q transaction).on t = (((checkTransaction q transaction).on s).1, t) := by
  cases transaction with
  | none => rfl
  | some n =>
    have same : t.transaction? n = s.transaction? n := by
      rw [transaction?, ht]
      rfl
    simp only [checkTransaction, active, on_bind, on_get, same]
    cases s.transaction? n with
    | none => rfl
    | some going =>
      by_cases active : going.isActive = true
      · simp only [active, if_true, on_pure, hr]
        by_cases refused : (q.ancestor.isNone && s.requiresAncestor) = true
        · simp only [refused, if_true, on_throw]
        · simp only [refused, if_false, Bool.false_eq_true, on_pure]
      · simp only [active]
        rfl

/-- What a request for the records of a selection is checked to, and what it compares. -/
def taken (s : Store) (shown : Value → Except Fault Text) (q : Selection)
    (transaction : Option Nat) : Except Fault (List Record) :=
  ((checkTransaction q transaction).on s).1 >>= fun _ => q.matching shown s.records

theorem scan_all_on (up : s.IsUp .scan) {shown : Value → Except Fault Text}
    (written : NativeQuery.CanWrite shown (.selection q)) :
    (scan shown q transaction .all false).on s =
      ((s.taken shown q transaction).map fun _ => Cursor.ofReads (given shown q false s.records),
        (s.noted .scan transaction).tick .scan) := by
  have checked : (checkTransaction q transaction).on ((s.noted .scan transaction).tick .scan) =
      (((checkTransaction q transaction).on s).1, (s.noted .scan transaction).tick .scan) :=
    checkTransaction_congr rfl rfl
  have noted : note shown q .all = .ok () :=
    (note_eq_ok_iff shown q .all).mpr ⟨written, Window.canWrite_all⟩
  rw [scan, on_bind_of_ok (enter_on up transaction), on_bind_of_ok (on_modify _ _), on_bind,
    checked, taken]
  cases ((checkTransaction q transaction).on s).1 with
  | error f => rfl
  | ok _ =>
    show (Attempt.ofExcept (scanned shown q .all false s.records)).on _ = _
    rw [on_ofExcept]
    congr 1
    show scanned shown q .all false s.records = (q.matching shown s.records).map _
    cases matched : q.matching shown s.records with
    | error f =>
      rw [scanned, matched]
      rfl
    | ok found =>
      exact CanScan.scanned ⟨(Selection.matching_eq_ok_iff.mp matched).1, noted⟩ false

theorem count_all_on (up : s.IsUp .count) (shown : Value → Except Fault Text) :
    (count shown q transaction .all).on s =
      ((s.taken shown q transaction).map fun _ => (given shown q false s.records).length,
        (s.noted .count transaction).tick .count) := by
  have checked : (checkTransaction q transaction).on ((s.noted .count transaction).tick .count) =
      (((checkTransaction q transaction).on s).1, (s.noted .count transaction).tick .count) :=
    checkTransaction_congr rfl rfl
  have whole : (given shown q false s.records).length = (q.answer shown s.records).length := by
    rw [← List.length_map Record.key, given_map_key, List.length_map]
  rw [count, on_bind_of_ok (enter_on up transaction), on_bind_of_ok (on_modify _ _), whole, taken]
  change (checkTransaction q transaction >>= fun _ => _).on _ = _
  rw [on_bind, checked]
  cases ((checkTransaction q transaction).on s).1 with
  | error f => rfl
  | ok _ =>
    show (Attempt.ofExcept (q.matching shown s.records) >>= fun selected => pure selected.length).on
      _ = ((q.matching shown s.records).map _, _)
    rw [on_bind, on_ofExcept]
    cases matched : q.matching shown s.records with
    | error f => rfl
    | ok found =>
      rw [← (Selection.matching_eq_ok_iff.mp matched).2]
      rfl

end Store

namespace Execution

variable {d : Database} {c : Candidate} {result : Result} {last : Database} {f : Fault}

theorem scan_select_on_eq {e : Execution} (selects : e.statement.isDelete = false)
    (form : e.plan.form ≠ .count) (q : Selection) (d : Database) :
    (e.scan q).on d =
      (e.request (Store.scan d.shown q (e.transactionFor q d) e.window false) >>= e.openRows).on
        d := by
  rw [scan, on_bind_of_ok (on_get d)]
  simp only [if_neg form, selects]
  rfl

theorem lookup_select_on_eq {e : Execution} (selects : e.statement.isDelete = false)
    (form : e.plan.form ≠ .count) (keys : List (Option Key)) (d : Database) :
    (e.lookup keys).on d =
      (e.request (Store.lookup keys d.store.current) >>= fun found =>
        Attempt.ofExcept (cut e.window (keys.filterMap (recordOf? found))) >>= fun rs =>
          e.openRows (Cursor.ofList rs)).on d := by
  rw [lookup, on_bind_of_ok (on_get d)]
  simp only [if_neg form, selects]
  rfl

def counting (c : Candidate) : Execution := ⟨c.selecting [Statement.countCall], ⟨.count, []⟩, .all⟩

def listing (c : Candidate) : Execution := ⟨c.selecting [], ⟨.whole, []⟩, .all⟩

theorem request_on_eq {α : Type} (e : Execution) (a : Attempt Store α) (d : Database) :
    (e.request a).on d = ((a.on d.store).1.mapError (Fault.wrapped .executing e.candidate.query),
      { d with store := (a.on d.store).2 }) := rfl

/-- Whether a count comes to what a result gives out, or to the same fault. -/
def Tallies (counted listed : Except Fault Result × Database) : Prop :=
  (∃ f, counted.1 = .error f ∧ listed.1 = .error f) ∨
    ∃ result records reader, listed.1 = .ok result ∧ result.Yields listed.2.store reader records ∧
      counted.1 = .ok (.number records.length)

theorem counting_scan (steady : d.store.outages = ⟨[], none⟩) {q : Selection}
    (written : NativeQuery.CanWrite d.shown (.selection q)) :
    Tallies (((counting c).scan q).on d) (((listing c).scan q).on d) := by
  have up (request : Request) : d.store.IsUp request := by
    rw [Store.IsUp, steady]
    exact List.forall_mem_nil _
  let transaction := (listing c).transactionFor q d
  have counted : ((counting c).scan q).on d =
      ((counting c).request (Store.count d.shown q transaction .all) >>= fun n =>
        pure (.number n)).on d := by
    rw [scan, on_bind_of_ok (on_get d)]
    dsimp only
    rw [if_pos (show (counting c).plan.form = .count from rfl)]
    rfl
  have form : (listing c).plan.form ≠ .count := by simp [listing]
  have listed : ((listing c).scan q).on d =
      ((listing c).request (Store.scan d.shown q transaction .all false) >>=
        (listing c).openRows).on d := scan_select_on_eq rfl form q d
  rw [counted, listed, on_bind, on_bind, request_on_eq, request_on_eq,
    Store.count_all_on (up .count), Store.scan_all_on (up .scan) written]
  cases d.store.taken d.shown q transaction with
  | error f => exact .inl ⟨_, rfl, rfl⟩
  | ok _ =>
    have rows : d.store.outages.rows = none := by rw [steady]
    refine .inr ⟨_, Store.given d.shown q false d.store.records, _, rfl, ⟨rfl, _, _, _, rfl, ?_⟩,
      rfl⟩
    refine ⟨_, (Store.drain_ofReads_eq_ok_iff _ _ _ _).mpr ⟨rfl, rfl, fun o ho => ?_⟩⟩
    cases rows.symm.trans ho

theorem counting_lookup (keys : List (Option Key)) :
    Tallies (((counting c).lookup keys).on d) (((listing c).lookup keys).on d) := by
  have counted : ((counting c).lookup keys).on d =
      ((listing c).request (Store.lookup keys d.store.current) >>= fun found =>
        pure (.number (keys.filterMap (recordOf? found)).length)).on d := by
    have selects : (counting c).statement.isDelete = false := rfl
    rw [lookup, on_bind_of_ok (on_get d)]
    simp only [selects]
    rfl
  have form : (listing c).plan.form ≠ .count := by simp [listing]
  have listed : ((listing c).lookup keys).on d =
      ((listing c).request (Store.lookup keys d.store.current) >>= fun found =>
        (listing c).openRows (Cursor.ofList (keys.filterMap (recordOf? found)))).on d :=
    lookup_select_on_eq rfl form keys d
  rw [counted, listed, on_bind, on_bind]
  rcases ((listing c).request (Store.lookup keys d.store.current)).on d with ⟨f | found, t⟩
  · exact .inl ⟨f, rfl, rfl⟩
  · exact .inr ⟨_, _, _, rfl, ⟨rfl, _, _, _, rfl, _, Store.drain_ofList _ _⟩, rfl⟩

theorem counting_run (steady : d.store.outages = ⟨[], none⟩) {native : NativeQuery}
    (written : native.CanWrite d.shown) :
    Tallies (((counting c).run native).on d) (((listing c).run native).on d) := by
  cases native with
  | selection q => exact counting_scan steady written
  | lookup kind keys => exact counting_lookup keys

theorem Tallies.spec {counted listed : Except Fault Result × Database}
    (h : Tallies counted listed) :
    ((∃ result, counted.1 = .ok result) ↔ ∃ result, listed.1 = .ok result) ∧
      ∀ result, listed.1 = .ok result →
        ∃ records reader, result.Yields listed.2.store reader records ∧
          counted.1 = .ok (.number records.length) := by
  rcases h with ⟨f, counted, listed⟩ | ⟨result, records, reader, listed, yields, counted⟩
  · rw [counted, listed]
    simp
  · rw [counted, listed]
    refine ⟨by simp, fun other same => ?_⟩
    obtain rfl := Except.ok.inj same
    exact ⟨records, reader, yields, rfl⟩

end Execution

namespace Database

theorem execute_on_whole {d : Database} {s : Statement} {parameters : Parameters} {now : Moment}
    {e : Execution} {native : NativeQuery} (hw : e.window = .all)
    (h : s.CompilesTo d parameters now e.candidate e.plan native)
    (written : native.CanWrite d.shown) :
    (execute s ⟨none, none⟩ parameters now).on d = (e.run native).on (d.compiled native) := by
  obtain ⟨c, plan, w⟩ := e
  obtain rfl : w = .all := hw
  exact execute_on_carriedOut ⟨h, written, rfl, rfl, by simp [Window.isTrivial, Window.all]⟩

/-- Without a range, the number of rows is counted where the selection of whole objects comes to
something, and it is the number of records that the selection gives out. -/
theorem execute_counting (d : Database) (s : Statement) (parameters : Parameters) (now : Moment)
    (steady : d.store.outages = ⟨[], none⟩) :
    let counted := (execute s.counting ⟨none, none⟩ parameters now).on d
    let listed := (execute s.listing ⟨none, none⟩ parameters now).on d
    ((∃ result, counted.1 = .ok result) ↔ ∃ result, listed.1 = .ok result) ∧
      ∀ result, listed.1 = .ok result →
        ∃ records reader, result.Yields listed.2.store reader records ∧
          counted.1 = .ok (.number records.length) := by
  apply Execution.Tallies.spec
  have counting := s.compiledIn_counting d parameters now
  cases listing : s.listing.compiledIn d parameters now with
  | error f =>
    rw [listing] at counting
    rw [execute_on_refused counting, execute_on_refused listing]
    exact .inl ⟨f, rfl, rfl⟩
  | ok compiled =>
    obtain ⟨c, plan, native⟩ := compiled
    rw [listing] at counting
    have counting := Statement.compiledIn_eq_ok_iff.mp counting
    have listing := Statement.compiledIn_eq_ok_iff.mp listing
    have own : c.selecting [] = c := by
      obtain ⟨-, _, m, -, -, rfl⟩ :=
        (Statement.candidateIn_eq_ok_iff _ d c).mp listing.candidateIn_eq
      rw [Statement.listing, Statement.withAlias_selecting]
      rfl
    have whole : plan = ⟨.whole, []⟩ := by
      have planned := listing.plan_eq
      rw [← own, c.plan_listing] at planned
      obtain ⟨_, -, planned⟩ := (bind_eq_ok_iff _ _ _).mp planned
      exact (Except.ok.inj planned).symm
    rw [whole, ← own] at listing
    by_cases written : native.CanWrite d.shown
    · rw [execute_on_whole (e := Execution.counting c) rfl counting written,
        execute_on_whole (e := Execution.listing c) rfl listing written]
      have steady : (d.compiled native).store.outages = ⟨[], none⟩ := steady
      exact Execution.counting_run steady written
    · -- the query is the same in both cases, and it is written before it is carried out
      obtain ⟨f, unwritten, counted⟩ := execute_on_unwritten counting written ⟨none, none⟩
      obtain ⟨g, unwritten', listed⟩ := execute_on_unwritten listing written ⟨none, none⟩
      cases unwritten.symm.trans unwritten'
      rw [counted, listed]
      exact .inl ⟨f, rfl, rfl⟩

def authorsInTransaction : Database := DatabaseAction.step authorList (.store .begin)

/-- An author that is asked for twice, beside one that is not there, is counted as it is listed. -/
theorem execute_counting_authors :
    let ids : Parameters :=
      [(.name "ids", .collection .list [.integer 1, .integer 2, .integer 1])]
    let counted := (execute removeAuthors.counting ⟨none, none⟩ ids noon).on authorsInTransaction
    let listed := (execute removeAuthors.listing ⟨none, none⟩ ids noon).on authorsInTransaction
    ∃ result records reader, listed.1 = .ok result ∧
      result.Yields listed.2.store reader records ∧ counted.1 = .ok (.number records.length) ∧
        records.length = 1 := by
  intro ids counted listed
  have steady : authorsInTransaction.store.outages = ⟨[], none⟩ := rfl
  obtain ⟨-, agree⟩ :=
    execute_counting authorsInTransaction removeAuthors ids noon steady
  obtain ⟨records, reader, yields, count⟩ := agree _ rfl
  have one : counted.1 = .ok (.number 1) := rfl
  refine ⟨_, records, reader, rfl, yields, count, ?_⟩
  exact Result.number.inj (Except.ok.inj (count.symm.trans one))

end Database
end RecordStore
