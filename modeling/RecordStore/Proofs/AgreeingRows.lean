import RecordStore.Proofs.AgreeingRequests
import RecordStore.Proofs.Pulling

/-!
# Rows that agree

A result that is read over databases that are alike but for what a veil hides has the same rows in
both, unless rows are asked for that the identity map has hidden objects for.
-/

set_option autoImplicit false

namespace RecordStore

open Attempt

variable {u : Veil}

/-- Whether nothing that a result still has to make needs a hidden object. -/
structure RowReader.Spares (u : Veil) (reader : RowReader) (c : Cursor Record) : Prop where
  stored : ∀ x, c.Gives x → x.Within u.visible
  plain : reader.form.asksIdentities = true → ∀ x, c.Gives x → ¬u.written x.key

theorem RowReader.Spares.mono {reader : RowReader} {c c' : Cursor Record} (h : reader.Spares u c)
    (hc : c' ⊆ c) : reader.Spares u c' where
  stored x := fun ⟨d, hd, ho⟩ => h.stored x ⟨d, hc hd, ho⟩
  plain asks x := fun ⟨d, hd, ho⟩ => h.plain asks x ⟨d, hc hd, ho⟩

/-- Whether the same result is read over two databases that are alike. -/
structure Rows.AlikeUnder (u : Veil) (reader : RowReader) (p p' : Rows Record Value × Database) :
    Prop where
  rows : p'.1 = p.1
  database : p.2.AlikeUnder u p'.2
  pending : reader.Spares u p.1.pending
  ready : ∀ v ∈ p.1.ready, u.Shows v

namespace RowReader

variable {reader : RowReader}

theorem agrees_receive (d : Delivery Record) :
    Agrees (Database.AlikeUnder u) (fun r => d.outcome = .ok r) (reader.maker.receive d)
      (reader.maker.receive d) := by
  have read : Agrees (Database.AlikeUnder u) (fun _ => True) (d.read.forM reader.maker.read)
      (d.read.forM reader.maker.read) := by
    cases d.read with
    | none => exact agrees_pure trivial
    | some n => exact Database.agrees_onStore (Store.agrees_read n)
  exact agrees_bind read fun _ _ => agrees_ofExcept fun r given => given

theorem agrees_make (hr : reader.Within u.visible) {c : Cursor Record} (hc : reader.Spares u c)
    {r : Record} (given : c.Gives r) :
    Agrees (Database.AlikeUnder u) u.Shows (reader.maker.make r) (reader.maker.make r) :=
  Database.agrees_onWorkspace
    (RowReader.agrees_load hr (hc.stored r given) fun asks => hc.plain asks r given)

end RowReader

namespace Rows

variable {reader : RowReader}

theorem agrees_pull (hr : reader.Within u.visible) :
    Agrees (AlikeUnder u reader) (fun _ => True) (pull reader.maker) (pull reader.maker) := by
  constructor
  rintro ⟨r, d⟩ ⟨r', d'⟩ ⟨same, database, pending, ready⟩
  obtain rfl : r = r' := same.symm
  by_cases ended : (r.isExhausted || r.isDisconnected) = true
  · exact .of_ok (pull_over ended) (pull_over ended) ⟨rfl, database, pending, ready⟩ trivial
  have ended : (r.isExhausted || r.isDisconnected) = false := Bool.eq_false_iff.mpr ended
  have cancelled : r.isCancelled reader.maker d' = r.isCancelled reader.maker d := by
    rw [isCancelled.eq_def, isCancelled.eq_def]
    cases r.token with
    | none => rfl
    | some t => exact congrArg (·.isCancelled t) database.connections
  by_cases cut : r.isCancelled reader.maker d = true
  · refine .of_ok (pull_cut ended cut) (pull_cut ended (cancelled.trans cut))
      ⟨rfl, database, pending.mono r.disconnect_pending, ?_⟩ trivial
    show ∀ v ∈ r.disconnect.ready, u.Shows v
    rw [r.disconnect_ready]
    exact ready
  have goes : r.Goes reader.maker d := ⟨ended, Bool.eq_false_iff.mpr cut⟩
  have goes' : r.Goes reader.maker d' := ⟨ended, cancelled.trans goes.valid⟩
  cases left : r.pending with
  | nil =>
    exact .of_ok (pull_nil goes left) (pull_nil goes' left) ⟨rfl, database, pending, ready⟩ trivial
  | cons x rest =>
    have pending : reader.Spares u (x :: rest) := by
      rw [← left]
      exact pending
    have others := pending.mono (List.subset_cons_self x rest)
    obtain ⟨t, t', state, ⟨f, read, read'⟩ | ⟨a, outcome, read, read'⟩⟩ :=
      ((reader.agrees_receive x).starting d d' database).cases
    · exact .of_error (pull_failed goes left read) (pull_failed goes' left read')
        ⟨rfl, state, others.mono (List.nil_subset _), ready⟩
    · have given : Cursor.Gives (x :: rest) a := ⟨x, List.mem_cons_self, outcome⟩
      obtain ⟨w, w', state, ⟨f, made, made'⟩ | ⟨v, shown, made, made'⟩⟩ :=
        ((RowReader.agrees_make hr pending given).starting t t' state).cases
      · exact .of_error (pull_unmade goes left read made) (pull_unmade goes' left read' made')
          ⟨rfl, state, others, ready⟩
      · refine .of_ok (pull_made goes left read made) (pull_made goes' left read' made')
          ⟨rfl, state, others, fun y hy => ?_⟩ trivial
        rcases List.mem_append.mp hy with hy | hy
        · exact ready y hy
        · rw [List.mem_singleton.mp hy]
          exact shown

theorem agrees_pullMany (hr : reader.Within u.visible) (n : Nat) :
    Agrees (AlikeUnder u reader) (fun _ => True) (pullMany reader.maker n)
      (pullMany reader.maker n) := by
  induction n with
  | zero => exact agrees_pure trivial
  | succ n ih =>
    rw [pullMany]
    refine agrees_bind (agrees_pull hr) fun more _ => ?_
    split
    · exact ih
    · exact agrees_pure trivial

theorem agrees_rows_bind {β : Type} {S : β → Prop}
    {f : Rows Record Value → Reading Database Record Value β}
    (hf : ∀ r, (∀ v ∈ r.ready, u.Shows v) → Agrees (AlikeUnder u reader) S (f r) (f r)) :
    Agrees (AlikeUnder u reader) S (get >>= fun p => f p.1) (get >>= fun p => f p.1) := by
  refine agrees_get_bind fun p p' h => ?_
  rw [h.rows]
  exact hf p.1 h.ready

theorem agrees_row? (hr : reader.Within u.visible) (n : Nat) :
    Agrees (AlikeUnder u reader) (fun v => ∀ x ∈ v, u.Shows x) (row? reader.maker n)
      (row? reader.maker n) := by
  have fill : Agrees (AlikeUnder u reader) (fun _ => True) (fillTo reader.maker n)
      (fillTo reader.maker n) :=
    agrees_rows_bind (f := fun r => pullMany reader.maker (n + 1 - r.ready.length)) fun r _ =>
      agrees_pullMany hr _
  refine agrees_bind fill fun _ _ => agrees_rows_bind (f := fun r => pure r.ready[n]?) ?_
  exact fun r ready => agrees_pure fun x hx => ready x (List.mem_of_getElem? hx)

theorem agrees_rowsFrom (hr : reader.Within u.visible) (position n : Nat) :
    Agrees (AlikeUnder u reader) (fun vs => ∀ v ∈ vs, u.Shows v)
      (rowsFrom reader.maker position n) (rowsFrom reader.maker position n) := by
  induction n generalizing position with
  | zero => exact agrees_pure (List.forall_mem_nil _)
  | succ n ih =>
    rw [rowsFrom]
    refine agrees_bind (agrees_row? hr position) fun found shown => ?_
    cases found with
    | none => exact agrees_pure (List.forall_mem_nil _)
    | some v =>
      refine agrees_bind (ih (position + 1)) fun rest others => agrees_pure ?_
      exact List.forall_mem_cons.mpr ⟨shown v rfl, others⟩

theorem agrees_toList (hr : reader.Within u.visible) :
    Agrees (AlikeUnder u reader) (fun vs => ∀ v ∈ vs, u.Shows v) (toList reader.maker)
      (toList reader.maker) := by
  have bounded : Agrees (AlikeUnder u reader) (fun _ => True)
      (bound (σ := Database) (α := Record) (β := Value)) bound :=
    agrees_rows_bind (f := fun r => pure (r.ready.length + r.pending.length)) fun r _ =>
      agrees_pure trivial
  exact agrees_bind bounded fun n _ => agrees_rowsFrom hr 0 (n + 1)

end Rows

def RowReader.readAll (reader : RowReader) (rows : Rows Record Value) :
    Attempt Database (List Value) :=
  (Rows.toList reader.maker).zoom (fun d => (rows, d)) (fun _ p => p.2)

theorem RowReader.agrees_readAll {reader : RowReader} (hr : reader.Within u.visible)
    {rows : Rows Record Value} (started : rows.ready = [])
    (pending : reader.Spares u rows.pending) :
    Agrees (Database.AlikeUnder u) (fun vs => ∀ v ∈ vs, u.Shows v) (reader.readAll rows)
      (reader.readAll rows) := by
  have ready : ∀ v ∈ rows.ready, u.Shows v := by
    rw [started]
    exact List.forall_mem_nil _
  exact agrees_zoom (Rows.agrees_toList hr) (fun _ _ h => ⟨rfl, h, pending, ready⟩)
    fun _ _ _ _ _ h => h.database

end RecordStore
