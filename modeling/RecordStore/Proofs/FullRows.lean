import RecordStore.Proofs.AgreeingRows
import RecordStore.Proofs.WholeRows

/-!
# Results that are read to their ends

Where a result could be read to its end, it has a row for each item that its cursor still had to
give out.
-/

set_option autoImplicit false

namespace RecordStore

open Attempt

variable {σ α β : Type} {m : RowMaker σ α β} {r r' : Rows α β} {s s' : σ}

namespace Rows

theorem pull_eq_ok {more : Bool} (h : (pull m).on (r, s) = (.ok more, r', s')) :
    (more = true ∧ ∃ d rest a t b, r.pending = d :: rest ∧ (m.receive d).on s = (.ok a, t) ∧
        (m.make a).on t = (.ok b, s') ∧
          r' = { r with pending := rest, ready := r.ready ++ [b] }) ∨
      (more = false ∧ r'.ready = r.ready ∧ r'.pending.length ≤ r.pending.length ∧
        (r.IsOpen → r.isCancelled m s = false → r.pending = [])) := by
  rw [pull_on] at h
  split at h
  · rename_i ended
    cases h
    refine .inr ⟨rfl, rfl, Nat.le_refl _, fun isOpen => ?_⟩
    rw [isOpen.unexhausted, isOpen.connected] at ended
    cases ended
  split at h
  · rename_i cut
    cases h
    refine .inr ⟨rfl, ?_, ?_, fun _ valid => ?_⟩
    · rw [disconnect]
      split <;> rfl
    · rw [disconnect]
      split
      · exact Nat.le_refl _
      · exact Nat.zero_le _
    · rw [cut] at valid
      cases valid
  cases left : r.pending with
  | nil =>
    rw [left] at h
    cases h
    exact .inr ⟨rfl, rfl, Nat.zero_le _, fun _ _ => rfl⟩
  | cons d rest =>
    rw [left] at h
    dsimp only at h
    split at h
    · cases h
    · rename_i a t received
      split at h
      · rename_i b u made
        cases h
        exact .inl ⟨rfl, d, rest, a, t, b, rfl, received, made, rfl⟩
      · cases h

/-- Whether a result has gone on: rows were added at the end, each for an item of its cursor. -/
structure GoesOn (r r' : Rows α β) : Prop where
  ready : r.ready <+: r'.ready
  total : r'.ready.length + r'.pending.length ≤ r.ready.length + r.pending.length

theorem GoesOn.refl (r : Rows α β) : r.GoesOn r := ⟨List.prefix_rfl, Nat.le_refl _⟩

theorem GoesOn.trans {r₁ r₂ r₃ : Rows α β} (h : r₁.GoesOn r₂) (h' : r₂.GoesOn r₃) : r₁.GoesOn r₃ :=
  ⟨h.ready.trans h'.ready, Nat.le_trans h'.total h.total⟩

theorem goesOn_pull {more : Bool} (h : (pull m).on (r, s) = (.ok more, r', s')) :
    r.GoesOn r' ∧ (more = true → r'.ready.length = r.ready.length + 1) := by
  rcases pull_eq_ok h with ⟨rfl, d, rest, a, t, b, left, -, -, rfl⟩ | ⟨rfl, ready, pending, -⟩
  · refine ⟨⟨List.prefix_append _ _, ?_⟩, fun _ => List.length_append⟩
    simp only [left, List.length_append, List.length_cons, List.length_nil]
    omega
  · refine ⟨⟨⟨[], ?_⟩, ?_⟩, nofun⟩
    · rw [ready, List.append_nil]
    · rw [ready]
      omega

end Rows

/-- Whether a value is among the rows of a result, or an item is still to come that it is made
of. -/
def Rows.Brings (r : Rows α β) (P : σ → Prop) (token : Option Nat) (s : σ) (a : α) (v : β) : Prop :=
  v ∈ r.ready ∨ (r.token = token ∧ r.IsOpen ∧ P s ∧ r.pending.Gives a)

namespace RowMaker.Runs

variable {P : σ → Prop} {token : Option Nat} {a : α} {v : β}

theorem keeps_receive (h : m.Runs P token) (d : Delivery α) : Attempt.Keeps P (m.receive d) := by
  refine RecordStore.keeps_receive m (fun n => ⟨fun s hs => ?_⟩) d
  obtain ⟨t, read, ht⟩ := h.reads n s hs
  rw [read]
  exact ht

theorem outcome_of_receive {d : Delivery α} {t : σ}
    (received : (m.receive d).on s = (.ok a, t)) : d.outcome = .ok a := by
  obtain ⟨_, u, -, received⟩ := (on_bind_eq_ok_iff _ _ _ _ _).mp received
  exact ((on_ofExcept_eq_ok_iff _ _ _ _).mp received).1

variable (h : m.Runs P token)
  (hv : ∀ s b t, P s → (m.make a).on s = (.ok b, t) → b = v)
include h hv

theorem brings_pull (brings : r.Brings P token s a v) {more : Bool}
    (ran : (Rows.pull m).on (r, s) = (.ok more, r', s')) :
    r'.Brings P token s' a v ∧ (more = false → v ∈ r'.ready) := by
  rcases brings with there | ⟨same, isOpen, hs, x, hx, outcome⟩
  · have kept := (Rows.goesOn_pull ran).1.ready.subset there
    exact ⟨.inl kept, fun _ => kept⟩
  rcases Rows.pull_eq_ok ran with ⟨rfl, d, rest, b, t, w, left, received, made, rfl⟩ |
    ⟨-, -, -, ended⟩
  · refine ⟨?_, nofun⟩
    have ht := (h.keeps_receive d).after s hs
    rw [received] at ht
    have hs' := (h.makes b).after t ht
    rw [made] at hs'
    rw [left] at hx
    rcases List.mem_cons.mp hx with rfl | hx
    · have item : b = a := Except.ok.inj ((outcome_of_receive received).symm.trans outcome)
      subst item
      have row := hv t w s' ht made
      subst row
      exact .inl (List.mem_append_right _ (.head _))
    · exact .inr ⟨same, ⟨isOpen.unexhausted, isOpen.connected⟩, hs', x, hx, outcome⟩
  · have valid : r.isCancelled m s = false := by
      rw [Rows.isCancelled, same]
      cases token with
      | none => rfl
      | some k => exact h.valid s k hs rfl
    rw [ended isOpen valid] at hx
    cases hx

theorem brings_pullMany (n : Nat) (brings : r.Brings P token s a v) {more : Bool}
    (ran : (Rows.pullMany m n).on (r, s) = (.ok more, r', s')) :
    r.GoesOn r' ∧ r'.Brings P token s' a v ∧ (more = false → v ∈ r'.ready) ∧
      (more = true → r'.ready.length = r.ready.length + n) := by
  induction n generalizing r s with
  | zero =>
    cases ran
    exact ⟨.refl _, brings, nofun, fun _ => rfl⟩
  | succ n ih =>
    obtain ⟨one, ⟨r₁, s₁⟩, first, ran⟩ := (on_bind_eq_ok_iff _ _ _ _ _).mp ran
    obtain ⟨goes, longer⟩ := Rows.goesOn_pull first
    obtain ⟨brings, ended⟩ := h.brings_pull hv brings first
    cases one with
    | false =>
      cases ran
      exact ⟨goes, brings, ended, nofun⟩
    | true =>
      obtain ⟨others, brings, ended, long⟩ := ih brings ran
      refine ⟨goes.trans others, brings, ended, fun all => ?_⟩
      rw [long all, longer rfl]
      omega

theorem brings_row? (n : Nat) (brings : r.Brings P token s a v) {found : Option β}
    (ran : (Rows.row? m n).on (r, s) = (.ok found, r', s')) :
    r.GoesOn r' ∧ r'.Brings P token s' a v ∧ r'.ready[n]? = found ∧
      (found = none → v ∈ r'.ready) := by
  obtain ⟨more, ⟨r₁, s₁⟩, filled, ran⟩ := (on_bind_eq_ok_iff _ _ _ _ _).mp ran
  cases ran
  obtain ⟨goes, brings, ended, long⟩ := h.brings_pullMany hv _ brings filled
  refine ⟨goes, brings, rfl, fun missing => ?_⟩
  cases more with
  | false => exact ended rfl
  | true =>
    have long := long rfl
    rw [List.getElem?_eq_none_iff] at missing
    omega

theorem brings_rowsFrom (position n : Nat) (brings : r.Brings P token s a v)
    (reached : position ≤ r.ready.length)
    (enough : r.ready.length + r.pending.length < position + n) {vs : List β}
    (ran : (Rows.rowsFrom m position n).on (r, s) = (.ok vs, r', s')) :
    r.GoesOn r' ∧ (v ∈ r'.ready.take position ∨ v ∈ vs) := by
  induction n generalizing r s position vs with
  | zero => omega
  | succ n ih =>
    obtain ⟨found, ⟨r₁, s₁⟩, first, ran⟩ := (on_bind_eq_ok_iff _ _ _ _ _).mp ran
    obtain ⟨goes, brings, at_, missing⟩ := h.brings_row? hv position brings first
    cases found with
    | none =>
      cases ran
      refine ⟨goes, .inl ?_⟩
      rw [List.take_of_length_le (List.getElem?_eq_none_iff.mp at_)]
      exact missing rfl
    | some b =>
      obtain ⟨rest, ⟨r₂, s₂⟩, others, ran⟩ := (on_bind_eq_ok_iff _ _ _ _ _).mp ran
      cases ran
      obtain ⟨hlt, -⟩ := List.getElem?_eq_some_iff.mp at_
      have total := goes.total
      obtain ⟨more, there⟩ := ih (position + 1) brings hlt (by omega) others
      refine ⟨goes.trans more, ?_⟩
      rcases there with there | there
      · have row : r'.ready[position]? = some b := by
          obtain ⟨tail, joined⟩ := more.ready
          rw [← joined, List.getElem?_append_left hlt]
          exact at_
        rw [List.take_add_one, row] at there
        rcases List.mem_append.mp there with there | there
        · exact .inl there
        · rw [List.mem_singleton.mp there]
          exact .inr (.head _)
      · exact .inr (.tail _ there)

theorem mem_toList (same : r.token = token) (isOpen : r.IsOpen) (hs : P s)
    (given : r.pending.Gives a) {vs : List β}
    (ran : (Rows.toList m).on (r, s) = (.ok vs, r', s')) : v ∈ vs := by
  have bounded : (Rows.bound (σ := σ)).on (r, s) =
      (.ok (r.ready.length + r.pending.length), (r, s)) := rfl
  rw [Rows.toList, on_bind_of_ok bounded] at ran
  obtain ⟨-, there⟩ := h.brings_rowsFrom hv 0 _ (.inr ⟨same, isOpen, hs, given⟩) (Nat.zero_le _)
    (by omega) ran
  rcases there with there | there
  · cases there
  · exact there

end RowMaker.Runs

namespace RowReader

variable {reader : RowReader}

theorem load_on_of_holds (asks : reader.form.asksIdentities = true) {w : Workspace} {r : Record}
    {v : Value} (h : w.Holds r.key v) : (reader.load r).on w = (.ok v, w) := by
  obtain ⟨mapping, form⟩ := reader
  cases form with
  | chosen ms => cases asks
  | identity => exact Workspace.loadIdentity_on_of_holds h mapping
  | whole ignoreIdentities =>
    cases ignoreIdentities with
    | true => cases asks
    | false => exact Workspace.loadWhole_on_of_holds h mapping

theorem keeps_holds_load (asks : reader.form.asksIdentities = true) (k : Key) (v : Value)
    (r : Record) : Keeps (fun w : Workspace => w.Holds k v) (reader.load r) := by
  obtain ⟨mapping, form⟩ := reader
  cases form with
  | chosen ms => cases asks
  | identity => exact Workspace.keeps_holds_loadIdentity k v mapping r
  | whole ignoreIdentities => exact Workspace.keeps_holds_loadWhole k v mapping r ignoreIdentities

end RowReader

/-- Whether an execution has opened a result and done nothing to the objects. -/
structure Rows.IsOpened (before after : Database) (rows : Rows Record Value) : Prop where
  workspace : after.workspace = before.workspace
  isOpen : rows.IsOpen
  valid : ∃ token, rows.token = some token ∧ after.connections.isCancelled token = false

theorem RowReader.mem_readAll {reader : RowReader} (asks : reader.form.asksIdentities = true)
    {before d last : Database} {rows : Rows Record Value} (opened : rows.IsOpened before d)
    (sound : d.Sound) {r : Record} {v : Value} (holds : before.workspace.Holds r.key v)
    (given : rows.pending.Gives r) {vs : List Value}
    (ran : (reader.readAll rows).on d = (.ok vs, last)) : v ∈ vs := by
  obtain ⟨token, same, valid⟩ := opened.valid
  obtain ⟨⟨rows', d'⟩, ran, -⟩ := (on_zoom_eq_ok_iff _ _ _ _ _ _).mp ran
  have runs := runs_holding (reader.keeps_holds_load asks r.key v) token
  have holds : d.workspace.Holds r.key v := by
    rw [opened.workspace]
    exact holds
  have row (t : Database) (b : Value) (t' : Database)
      (ht : t.Sound ∧ t.connections.isCancelled token = false ∧ t.workspace.Holds r.key v)
      (made : (Database.onWorkspace (reader.load r)).on t = (.ok b, t')) : b = v := by
    rw [Database.onWorkspace, on_zoom, load_on_of_holds asks ht.2.2] at made
    cases made
    rfl
  exact runs.mem_toList row same opened.isOpen ⟨sound, valid, holds⟩ given ran

namespace Execution

variable {e : Execution} {d after : Database} {rows : Rows Record Value} {reader : RowReader}

theorem openRows_isOpened {before : Database} {c : Cursor Record}
    (same : d.workspace = before.workspace)
    (h : (e.openRows c).on d = (.ok (.rows rows reader), after)) : rows.IsOpened before after := by
  rw [openRows_on] at h
  cases h
  exact ⟨same, ⟨rfl, rfl⟩, _, rfl, d.connections.isCancelled_issue d.scope⟩

theorem delete_ne_rows {keys : List (Option Key)} {transaction : Option Nat}
    (h : (e.delete keys transaction).on d = (.ok (.rows rows reader), after)) : False := by
  obtain ⟨_, _, -, h⟩ := (on_bind_eq_ok_iff _ _ _ _ _).mp h
  obtain ⟨_, _, -, h⟩ := (on_bind_eq_ok_iff _ _ _ _ _).mp h
  cases h

theorem run_rows {native : NativeQuery}
    (h : (e.run native).on d = (.ok (.rows rows reader), after)) :
    ∃ t c, (e.openRows c).on { d with store := t } = (.ok (.rows rows reader), after) ∧
      ∃ items, c = Cursor.ofWindow e.window items ∨ c = Cursor.ofList items := by
  cases native with
  | selection q =>
    rw [run, scan, on_bind_of_ok (on_get d)] at h
    dsimp only at h
    split at h
    · obtain ⟨n, _, -, h⟩ := (on_bind_eq_ok_iff _ _ _ _ _).mp h
      cases h
    split at h
    · obtain ⟨keys, _, -, h⟩ := (on_bind_eq_ok_iff _ _ _ _ _).mp h
      exact (delete_ne_rows h).elim
    · obtain ⟨c, _, requested, h⟩ := (on_bind_eq_ok_iff _ _ _ _ _).mp h
      obtain ⟨t, scanned, rfl⟩ := (e.request_eq_ok_iff _ _ _ _).mp requested
      exact ⟨t, c, h, _, .inl (Store.scan_spec scanned).2⟩
  | lookup kind keys =>
    rw [run, lookup, on_bind_of_ok (on_get d)] at h
    dsimp only at h
    split at h
    · split at h
      · obtain ⟨found, _, -, h⟩ := (on_bind_eq_ok_iff _ _ _ _ _).mp h
        exact (delete_ne_rows h).elim
      · exact (delete_ne_rows h).elim
    · obtain ⟨found, _, requested, h⟩ := (on_bind_eq_ok_iff _ _ _ _ _).mp h
      obtain ⟨t, -, rfl⟩ := (e.request_eq_ok_iff _ _ _ _).mp requested
      obtain ⟨rs, _, made, h⟩ := (on_bind_eq_ok_iff _ _ _ _ _).mp h
      obtain ⟨-, rfl⟩ := (on_ofExcept_eq_ok_iff _ _ _ _).mp made
      split at h
      · cases h
      · exact ⟨t, _, h, rs, .inr rfl⟩

theorem run_isOpened {native : NativeQuery}
    (h : (e.run native).on d = (.ok (.rows rows reader), after)) : rows.IsOpened d after := by
  obtain ⟨t, c, opened, -⟩ := run_rows h
  exact openRows_isOpened (d := { d with store := t }) rfl opened

end Execution

theorem Database.execute_isOpened {d after : Database} {s : Statement} {range : Range}
    {parameters : Parameters} {now : Moment} {rows : Rows Record Value} {reader : RowReader}
    (h : (execute s range parameters now).on d = (.ok (.rows rows reader), after)) :
    rows.IsOpened d after := by
  obtain ⟨c, plan, native, compiles, -⟩ := Statement.CompilesTo.of_execute h
  rcases execute_eq_ok compiles h with ⟨-, -, number | nothing⟩ | ⟨w, -, ran⟩
  · cases number
  · cases nothing
  · obtain ⟨workspace, isOpen, valid⟩ := Execution.run_isOpened ran
    exact ⟨workspace, isOpen, valid⟩

end RecordStore
