import RecordStore.Proofs.RowFaults
import RecordStore.Proofs.TransactionTurns

/-!
# Sessions with transactions

Whatever is asked of a database and of the transactions that were ever begun in it, its store goes
through them in turn. While one goes on, nothing that is asked for in it is in the records, and once
it is rolled back nothing of it is left. No statement fails because of a transaction.
-/

set_option autoImplicit false

namespace RecordStore

open Attempt Store

/-- What can be asked of a database and of the transactions that were begun in it. -/
inductive SessionAction where
  | handle (number : Nat) (a : HandleAction)
  | database (a : DatabaseAction)

/-- Whether an action writes nothing past the transactions, and does not end a given one. -/
def StoreAction.spares (number : Nat) : StoreAction → Bool
  | .put _ none | .delete _ none | .clear => false
  | .commit n | .rollback n => n ≠ number
  | _ => true

def HandleAction.ends : HandleAction → Bool
  | .commit | .rollback => true
  | _ => false

def DatabaseAction.spares (number : Nat) : DatabaseAction → Bool
  | .store a => a.spares number
  | .settle n _ => n ≠ number
  | _ => true

namespace SessionAction

def perform : SessionAction → Attempt Database Unit
  | .handle number a => Database.onStore (a.perform number)
  | .database a => a.perform

def step (d : Database) (a : SessionAction) : Database := (a.perform.on d).2

def spares (number : Nat) : SessionAction → Bool
  | .handle n a => !a.ends || n ≠ number
  | .database a => a.spares number

section Runs

variable {P : Store → Prop} (hP : Store.Stable P)
include hP

theorem has_step {d : Database} (h : d.Has P) (a : SessionAction) : (a.step d).Has P := by
  cases a with
  | handle number a => exact (Database.keeps_onStore (a.keeps_perform hP number)).after d h
  | database a => exact Database.has_step hP h a

theorem has_run {d : Database} (h : d.Has P) (session : List SessionAction) :
    (session.foldl step d).Has P := by
  induction session generalizing d with
  | nil => exact h
  | cons a rest ih => exact ih (has_step hP h a)

end Runs
end SessionAction

namespace Store

namespace Buffers

variable {before : Store} {number : Nat}

theorem uncounted : Uncounted (Buffers before number) := fun _ _ _ _ h =>
  ⟨h.records, h.outages, h.current, h.active⟩

theorem keeps_delete (keys : List (Option Key)) (n : Nat) :
    Keeps (Buffers before number) (Store.delete keys (some n)) :=
  keeps_bind (uncounted.keeps_enter .delete (some n)) fun _ =>
    keeps_bind (keeps_active n) fun _ => keeps_modify fun _ h => h.update n fun _ => ⟨rfl, rfl⟩

theorem keeps_gathering (n : Nat) {a : HandleAction} (ha : a.ends = false) :
    Keeps (Buffers before number) (a.perform n) := by
  cases a with
  | put r =>
    exact keeps_bind (keeps_active n) fun _ =>
      keeps_modify fun _ h => h.update n fun _ => ⟨rfl, rfl⟩
  | delete keys =>
    exact keeps_bind (keeps_active n) fun _ =>
      keeps_modify fun _ h => h.update n fun _ => ⟨rfl, rfl⟩
  | putByStore r => exact keeps_bind (keeps_buffers_put r n) fun _ => keeps_pure _
  | deleteByStore keys => exact keeps_delete keys n
  | _ => cases ha

theorem writes : Writes (Buffers before number) (some number) where
  uncounted := uncounted
  current _ h := h.current
  delete keys := keeps_delete keys number
  allocate := keeps_buffers_allocate
  put r := keeps_buffers_put r number

variable {s : Store} (h : Buffers before number s) (turn : s.InTurn)
include h

theorem current_ne {n : Nat} (other : n ≠ number) : s.current ≠ some n := by
  rw [h.current]
  exact fun same => other (Option.some.inj same).symm

include turn

theorem after_commit {n : Nat} (other : n ≠ number) :
    Buffers before number ((commit n).on s).2 := by
  rw [turn.commit_on_other (h.current_ne other)]
  exact h

theorem after_rollback {n : Nat} (other : n ≠ number) :
    Buffers before number ((rollback n).on s).2 := by
  rw [turn.rollback_on_other (h.current_ne other)]
  exact h

theorem storeStep {a : StoreAction} (spares : a.spares number = true) :
    Buffers before number (a.step s) := by
  cases a with
  | put r transaction =>
    cases transaction with
    | none => cases spares
    | some n => exact (keeps_bind (keeps_buffers_put r n) fun _ => keeps_pure _).after s h
  | delete keys transaction =>
    cases transaction with
    | none => cases spares
    | some n => exact (keeps_delete keys n).after s h
  | begin =>
    have going : s.current ≠ none := by
      rw [h.current]
      nofun
    show Buffers before number ((Store.begin >>= fun _ => pure ()).on s).2
    rw [on_bind, InTurn.begin_on_going going]
    exact h
  | commit n => exact h.after_commit turn (of_decide_eq_true spares)
  | rollback n => exact h.after_rollback turn (of_decide_eq_true spares)
  | clear => cases spares
  | _ => exact (uncounted.keeps_perform rfl).after s h

theorem handleStep {n : Nat} {a : HandleAction} (spares : a.ends = true → n ≠ number) :
    Buffers before number ((a.perform n).on s).2 := by
  cases a with
  | commit => exact h.after_commit turn (spares rfl)
  | rollback => exact h.after_rollback turn (spares rfl)
  | _ => exact (keeps_gathering n rfl).after s h

end Buffers

namespace InTurn

theorem buffers {s : Store} (h : s.InTurn) {n : Nat} (current : s.current = some n) :
    Buffers s n s :=
  ⟨rfl, rfl, current, h.going_of_current current⟩

theorem faults (transaction : Option Nat) :
    Store.Faults (fun s => s.InTurn ∧ s.current = transaction) transaction Store.Stumbles where
  toDeletes := (stable.toEdited.writes transaction).toDeletes
  enter request joined := blames_of_ok fun _ h =>
    ⟨_, _, enter_on (h.1.sound.isUp request) joined⟩
  read position := blames_of_ok fun s h =>
    have steady : s.outages.rows = none := by rw [h.1.sound.steady]
    ⟨_, _, read_on steady position⟩
  active n same := blames_of_ok fun s h => by
    obtain ⟨t, found, going⟩ := h.1.going_of_current (h.2.trans same)
    exact ⟨t, s, active_on found going⟩
  misused u := ⟨u, rfl⟩

end InTurn
end Store

namespace Database

theorem settle_on_other {d : Database} (turn : d.store.InTurn) {n : Nat}
    (other : d.store.current ≠ some n) (work : Except Fault Unit) :
    (settle n work).on d = (work, d) := by
  cases work with
  | error f =>
    rw [settle, on_bind, onStore, on_zoom, turn.rollback_on_other other]
    rfl
  | ok done =>
    rw [settle, on_bind_of_ok (on_get d)]
    cases found : d.store.transaction? n with
    | none => rfl
    | some t =>
      dsimp only
      rw [turn.ended_of_other found other]
      rfl

end Database

namespace SessionAction

variable {before : Store} {number : Nat} {d : Database}

theorem spared_step (h : d.Has (Buffers before number)) (turn : d.Has InTurn) {a : SessionAction}
    (spares : a.spares number = true) : (a.step d).Has (Buffers before number) := by
  have held : Buffers before number d.store := h
  cases a with
  | handle n a =>
    refine held.handleStep turn fun ends => ?_
    rw [SessionAction.spares, ends] at spares
    exact of_decide_eq_true spares
  | database a =>
    cases a with
    | put v =>
      exact (keeps_bind (Database.keeps_putIn Buffers.writes v) fun _ => keeps_pure _).after d h
    | store a => exact held.storeStep turn spares
    | settle n work =>
      have other : n ≠ number := of_decide_eq_true spares
      show ((Database.settle n work).on d).2.Has (Buffers before number)
      rw [Database.settle_on_other turn (held.current_ne other)]
      exact h
    | _ => exact (Database.keeps_perform Buffers.writes.toDeletes rfl).after d h

theorem spared_run (h : d.Has (Buffers before number)) (turn : d.Has InTurn)
    {session : List SessionAction} (spares : ∀ a ∈ session, a.spares number = true) :
    (session.foldl step d).Has (Buffers before number) := by
  induction session generalizing d with
  | nil => exact h
  | cons a rest ih =>
    obtain ⟨first, others⟩ := List.forall_mem_cons.mp spares
    exact ih (spared_step h turn first) (has_step InTurn.stable turn a) others

end SessionAction

namespace Database

/-- How a database treats its transactions. -/
structure LifeCycle (d : Database) : Prop where
  /-- At most one transaction goes on, and it is the current one. -/
  going : ∀ t ∈ d.store.transactions, t.isActive = true ↔ d.store.current = some t.number
  known : ∀ n, d.store.current = some n → n ∈ d.store.begun
  distinct : d.store.begun.Nodup
  begins : (∃ n t, begin.on d.store = (.ok n, t)) ↔ d.store.current = none
  begun : ∀ n t, begin.on d.store = (.ok n, t) →
    t.records = d.store.records ∧ t.current = some n ∧ n ∉ d.store.begun
  /-- A transaction that has ended takes nothing more. -/
  ended : ∀ t ∈ d.store.transactions, t.isActive = false → ∀ a : HandleAction,
    ((a.perform t.number).on d.store).1 = a.whenEnded t.number ∧
      ((a.perform t.number).on d.store).2.IsLike d.store
  spent : ∀ t ∈ d.store.transactions, t.isActive = false →
    (rollback t.number).on d.store = (.ok (), d.store)
  /-- While a transaction goes on, nothing that is asked for in it is in the records. -/
  holds : ∀ n, d.store.current = some n → ∀ later : List SessionAction,
    (∀ a ∈ later, a.spares n = true) →
      let last := later.foldl SessionAction.step d
      last.store.records = d.store.records ∧ last.store.current = some n
  /-- Once a transaction is rolled back, nothing that was asked for in it is left. -/
  drops : ∀ n, d.store.current = some n → ∀ later : List SessionAction,
    (∀ a ∈ later, a.spares n = true) →
      ∃ t, (rollback n).on (later.foldl SessionAction.step d).store = (.ok (), t) ∧
        t.records = d.store.records ∧ t.current = none
  /-- No statement fails because a transaction has ended or goes on. What it fails with is that it
  is turned down, that a value is misused by it or by the store, or that a bound cannot be shown. -/
  executes : ∀ (s : Statement) range parameters now f after,
    (execute s range parameters now).on d = (.error f, after) → s.FailsWith range f
  /-- Nor do its rows, whatever is left of them and whatever is asked for in the meantime. -/
  reads : ∀ (s : Statement) range parameters now rows reader after,
    (execute s range parameters now).on d = (.ok (.rows rows reader), after) →
      ∀ (later : List SessionAction) (left : Rows Record Value) f p,
        left.pending ⊆ rows.pending → left.query = rows.query →
          (Rows.pull reader.maker).on (left, later.foldl SessionAction.step after) = (.error f, p) →
            s.RowFailsWith f

section InTurn

variable {d after : Database} (turn : d.store.InTurn) {s : Statement} {range : Range}
  {parameters : Parameters} {now : Moment} {f : Fault}
include turn

theorem execute_failsWith
    (failed : (execute s range parameters now).on d = (.error f, after)) : s.FailsWith range f :=
  (blames_execute (InTurn.faults d.store.current) s range parameters now).fault d f after
    ⟨turn, rfl⟩ failed

theorem rows_failWith {rows left : Rows Record Value} {reader : RowReader}
    (ran : (execute s range parameters now).on d = (.ok (.rows rows reader), after))
    (later : List SessionAction) (pending : left.pending ⊆ rows.pending)
    (query : left.query = rows.query) {p : Rows Record Value × Database}
    (failed : (Rows.pull reader.maker).on (left, later.foldl SessionAction.step after) =
      (.error f, p)) : s.RowFailsWith f := by
  have executed : after.Has InTurn :=
    (keeps_execute InTurn.stable.toEdited s range parameters now).of_on turn ran
  have sound := (SessionAction.has_run InTurn.stable executed later).sound
  exact pull_failsWith ran pending query sound failed

theorem buffers_of_spared {n : Nat} (current : d.store.current = some n)
    {later : List SessionAction} (spares : ∀ a ∈ later, a.spares n = true) :
    d.store.Buffers n (later.foldl SessionAction.step d).store :=
  SessionAction.spared_run (turn.buffers current) turn spares

theorem lifeCycle_of_inTurn : d.LifeCycle where
  going := turn.going_iff
  known := turn.current_begun
  distinct := turn.distinct
  begins := turn.begin_iff.1
  begun := turn.begin_iff.2
  ended _ ht ended a := a.perform_on_other turn (turn.current_ne_of_ended ht ended)
  spent _ ht ended := turn.rollback_on_other (turn.current_ne_of_ended ht ended)
  holds _ current _ spares :=
    have held := buffers_of_spared turn current spares
    ⟨held.records, held.current⟩
  drops _ current _ spares :=
    have rolled := (buffers_of_spared turn current spares).rollback_on
    ⟨_, rolled.1, rolled.2.1, rolled.2.2.2⟩
  executes _ _ _ _ _ _ failed := execute_failsWith turn failed
  reads _ _ _ _ _ _ _ ran later _ _ _ pending query failed :=
    rows_failWith turn ran later pending query failed

end InTurn

/-- A database goes through its transactions one after the other. -/
theorem session_lifeCycle (settings : Settings) (session : List SessionAction) :
    (session.foldl SessionAction.step (start settings)).LifeCycle := by
  have new : (start settings).Has InTurn := InTurn.start settings.storage
  exact lifeCycle_of_inTurn (SessionAction.has_run InTurn.stable new session)

def aNote : Record := ⟨.root "Note" (.number 1), []⟩

def twoTurns : List SessionAction :=
  [.database (.store .begin), .handle 1 .commit, .database (.store .begin), .handle 2 (.put aNote),
    .handle 1 (.put aNote)]

theorem session_lifeCycle_twoTurns :
    let d := twoTurns.foldl SessionAction.step (start .default)
    d.store.current = some 2 ∧ (¬∃ n t, begin.on d.store = (.ok n, t)) ∧
      ((HandleAction.put aNote).perform 1 |>.on d.store).1 =
        .error (.refused (.endedTransaction 1)) ∧
        ∃ t, (rollback 2).on d.store = (.ok (), t) ∧ t.records = [] := by
  have cycle := session_lifeCycle .default twoTurns
  have current : (twoTurns.foldl SessionAction.step (start .default)).store.current = some 2 := rfl
  refine ⟨current, fun begun => ?_, ?_, ?_⟩
  · cases (cycle.begins.mp begun).symm.trans current
  · exact (cycle.ended ⟨1, false, [], []⟩ (.head _) rfl (.put aNote)).1
  · obtain ⟨t, rolled, same, -⟩ := cycle.drops 2 current [] (List.forall_mem_nil _)
    exact ⟨t, rolled, same⟩

end Database
end RecordStore
