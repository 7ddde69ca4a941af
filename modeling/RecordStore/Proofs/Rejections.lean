import RecordStore.Proofs.FailedStatements
import RecordStore.Proofs.RangeSlices
import RecordStore.Proofs.RequestFaults

/-!
# Statements that are turned down

A statement that is invalid, or asks for what the store does not support, is turned down before the
store is asked for anything: nothing that is carried out fails with such a fault of its own. Nor is
the store asked for anything in a range where no row can lie.
-/

set_option autoImplicit false

namespace RecordStore

open Attempt

def Fault.isRejection : Fault → Bool
  | .invalid _ _ | .unsupportedOperator _ _ _ | .unsupportedFeature _ _ => true
  | _ => false

/-- A fault that is named by its statement turns it down only if it did before. -/
theorem Fault.wrapped_eq {stage : Stage} {query : Option Text} {f : Fault}
    (h : (f.wrapped stage query).isRejection = true) : f.wrapped stage query = f := by
  rw [wrapped] at h ⊢
  by_cases own : f.isOfQuery = true
  · rw [if_pos own]
  · rw [if_neg own] at h
    cases h

namespace Outages

def Raises (o : Outages) (f : Fault) : Prop :=
  (∃ request, (request, f) ∈ o.requests) ∨ ∃ position, o.rows = some (position, f)

/-- Whether a fault turns nothing down, unless the store is told to raise it. -/
def Excuses (o : Outages) (f : Fault) : Prop := f.isRejection = true → o.Raises f

theorem Excuses.of_raises {o : Outages} {f : Fault} (h : o.Raises f) : o.Excuses f := fun _ => h

theorem excuses_misuse (o : Outages) (u : Misuse) : o.Excuses (.misuse u) := nofun

theorem excuses_of_misuses {α : Type} {x : Except Fault α} (h : Misuses x) (o : Outages) (f : Fault)
    (failed : x = .error f) : o.Excuses f := by
  obtain ⟨u, rfl⟩ := h f failed
  exact o.excuses_misuse u

theorem excuses_refused (o : Outages) (r : Refusal) : o.Excuses (.refused r) := nofun

end Outages

namespace Store

variable {o : Outages}

def Told (o : Outages) (s : Store) : Prop := s.outages = o

theorem told_stable (o : Outages) : Stable (Told o) where
  uncounted _ _ _ _ h := h
  write _ _ h := h
  remove _ _ h := h
  number _ _ h := h
  gather _ _ _ _ h := h
  opened _ h _ := h
  finish s number h := (s.finish_outages number).trans h
  clear _ h := h

theorem blames_enter (request : Request) (transaction : Option Nat) :
    Blames (Told o) o.Excuses (enter request transaction) := by
  constructor
  intro s f t told failed
  cases found : s.outages.requests.find? (fun p => p.1 = request) with
  | none =>
    simp only [enter, on_bind, on_get, on_set, found] at failed
    cases failed
  | some p =>
    have raised : (p.1, p.2) ∈ o.requests := told ▸ List.mem_of_find?_eq_some found
    simp only [enter, on_bind, on_get, on_set, found] at failed
    cases failed
    exact .of_raises (.inl ⟨p.1, raised⟩)

theorem blames_active (number : Nat) : Blames (Told o) o.Excuses (active number) := by
  apply blames_get_bind
  intro s _
  cases s.transaction? number with
  | none => exact blames_throw (o.excuses_refused _)
  | some t =>
    show Blames (Told o) o.Excuses (if t.isActive = true then pure t else throw _)
    split
    · exact blames_pure t
    · exact blames_throw (o.excuses_refused _)

theorem blames_read (position : Nat) : Blames (Told o) o.Excuses (Store.read position) := by
  apply blames_bind (told_stable o).uncounted.keeps_countRead (blames_modify _)
  intro _ _ _ _ _
  apply blames_get_bind
  intro s told
  cases rows : s.outages.rows with
  | none => exact blames_pure _
  | some p =>
    dsimp only
    split
    · exact blames_throw (.of_raises (.inr ⟨p.1, told ▸ rows⟩))
    · exact blames_pure _

end Store

namespace Execution

variable {o : Outages} (e : Execution)

def Told (o : Outages) : Database → Prop := Database.Has (Store.Told o)

theorem misuses_cut (w : Window) (rs : List Record) : Misuses (cut w rs) := by
  rw [cut]
  split
  · exact misuses_ok _
  · exact misuses_bind w.misuses_stop fun stop => Slice.misuses_apply _ rs

theorem faults_told (numeric : e.window.IsNumeric) (o : Outages) (transaction : Option Nat) :
    e.Faults (fun s => Store.Told o s ∧ s.current = transaction) transaction o.Excuses
      o.Excuses where
  toDeletes := ((Store.told_stable o).toEdited.writes transaction).toDeletes
  enter request joined := (Store.blames_enter request joined).mono fun _ hs => hs.1
  read position := (Store.blames_read position).mono fun _ hs => hs.1
  active number _ := (Store.blames_active number).mono fun _ hs => hs.1
  misused := o.excuses_misuse
  wrapped f excused rejected := by
    -- the statement is named where a request fails, and that turns nothing down
    have same := Fault.wrapped_eq rejected
    rw [same] at rejected ⊢
    exact excused rejected
  numeric := numeric
  cut rs := o.excuses_of_misuses (misuses_cut e.window rs)

theorem blames_run (numeric : e.window.IsNumeric) (native : NativeQuery) :
    Blames (Told o) o.Excuses (e.run native) := by
  constructor
  intro d f after told failed
  have faults := e.faults_told numeric o d.store.current
  exact (faults.blames_run native).fault d f after ⟨told, rfl⟩ failed

end Execution

namespace Database

/-- A statement that is turned down has done no more than note down what it was compiled to, unless
it is the store that is told to turn it down. The same goes for a statement that is compiled for a
range where no row can lie: it counts none, removes none and gives out none, or the log cannot show
what it was compiled to, and it fails for that. -/
theorem execute_rejected (d : Database) (s : Statement) (range : Range) (parameters : Parameters)
    (now : Moment) :
    (∀ f after, (execute s range parameters now).on d = (.error f, after) →
      f.isRejection = true → ¬d.store.outages.Raises f →
        ∃ latest, after = { d with latest := latest }) ∧
    ∀ c plan native, s.CompilesTo d parameters now c plan native → range.isEmpty = .ok true →
      (execute s range parameters now).on d =
        ((native.text d.shown).map fun _ =>
          if plan.form = .count || s.isDelete then .number 0 else .nothing,
          { d with latest := some native }) := by
  constructor
  · intro f after failed rejected untold
    rcases execute_stops failed with stopped | ⟨e, native, out, failed⟩
    · exact stopped
    · have told : Execution.Told d.store.outages (d.compiled native) := rfl
      have numeric := Range.isNumeric_window out.window_eq
      exact absurd ((e.blames_run numeric native).fault _ f after told failed rejected) untold
  · intro c plan native compiles nowhere
    have deletes : c.statement.isDelete = s.isDelete := by
      rw [Statement.isDelete, Statement.isDelete, compiles.statement_kind]
    by_cases written : native.CanWrite d.shown
    · obtain ⟨t, text⟩ := (native.text_isOk_iff d.shown).mpr written
      rw [execute_on_empty compiles written nowhere, Execution.wantsNumber, Execution.statement,
        deletes, text]
      rfl
    · obtain ⟨f, text, failed⟩ := execute_on_unwritten compiles written range
      rw [failed, text]
      rfl

def removeEither : Statement :=
  { removeAuthors with filter := .either removeAuthors.filter removeAuthors.filter }

/-- Authors cannot be removed on one of two conditions, and none are between two equal bounds. -/
theorem execute_rejected_authors :
    (∃ f after latest,
      (execute removeEither ⟨none, none⟩ authorAndNone noon).on authorList = (.error f, after) ∧
        f.isRejection = true ∧ after = { authorList with latest := latest }) ∧
      ∃ latest,
        (execute removeAuthors ⟨some 3, some 3⟩ authorAndNone noon).on authorList =
          (.ok (.number 0), { authorList with latest := latest }) := by
  constructor
  · have failed : (execute removeEither ⟨none, none⟩ authorAndNone noon).on authorList =
        (.error (.unsupportedFeature .disjunction none), authorList) := rfl
    have untold : ¬authorList.store.outages.Raises (.unsupportedFeature .disjunction none) := by
      rintro (⟨_, listed⟩ | ⟨_, row⟩)
      · cases listed
      · cases row
    obtain ⟨latest, same⟩ := (execute_rejected authorList removeEither ⟨none, none⟩ authorAndNone
      noon).1 _ _ failed rfl untold
    exact ⟨_, _, latest, failed, rfl, same⟩
  · have compiles : removeAuthors.CompilesTo authorList authorAndNone noon _ _ _ := ⟨rfl, rfl, rfl⟩
    exact ⟨_, (execute_rejected authorList removeAuthors ⟨some 3, some 3⟩ authorAndNone
      noon).2 _ _ _ compiles rfl⟩

end Database
end RecordStore
