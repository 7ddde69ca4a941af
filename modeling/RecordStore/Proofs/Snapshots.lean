import RecordStore.Proofs.Rejections
import RecordStore.Proofs.ScanResults

/-!
# Cursors as snapshots

A cursor gives out what the store held when it was scanned, whatever is asked of the store while the
cursor is read. Each record that it gives out is counted as one read.
-/

set_option autoImplicit false

namespace RecordStore

open Attempt

/-- What happens while a cursor is read: the cursor is advanced, or the store is asked for something
else. -/
inductive CursorEvent where
  | advance
  | request (a : StoreAction)

def CursorEvent.advances : CursorEvent → Nat
  | .advance => 1
  | .request _ => 0

/-- A cursor that is being read, with its store and with what it has given out so far. -/
structure OpenScan where
  cursor : Cursor Record
  store : Store
  taken : List (Except Fault Record)

namespace OpenScan

def advance (r : OpenScan) : OpenScan :=
  match (Store.next r.cursor).on r.store with
  | (.ok (outcome, rest), s) => ⟨rest, s, r.taken ++ outcome.toList⟩
  | (.error _, s) => { r with store := s }

def step (r : OpenScan) : CursorEvent → OpenScan
  | .advance => r.advance
  | .request a => { r with store := a.step r.store }

def run (r : OpenScan) (events : List CursorEvent) : OpenScan := events.foldl step r

def atOnce (r : OpenScan) : OpenScan := r.run (List.replicate r.cursor.length .advance)

end OpenScan

namespace Delivery

def outcomeIn (o : Outages) (d : Delivery Record) : Except Fault Record :=
  match d.read, o.rows with
  | some n, some (position, f) => if position = n then .error f else d.outcome
  | _, _ => d.outcome

theorem receive_on (s : Store) (d : Delivery Record) :
    (Store.receive d).on s =
      (d.outcomeIn s.outages, { s with reads := s.reads + d.read.toList.length }) := by
  obtain ⟨outcome, _ | n⟩ := d
  · exact Attempt.on_ofExcept outcome s
  · show (Store.read n >>= fun _ => Attempt.ofExcept outcome).on s = _
    cases hr : s.outages.rows with
    | none => simp [Store.read, on_bind, hr, outcomeIn]
    | some p =>
      by_cases hp : p.1 = n
      · simp [Store.read, on_bind, hr, outcomeIn, hp]
      · simp [Store.read, on_bind, hr, outcomeIn, hp]

theorem outcomeIn_of_up {o : Outages} (h : o.rows = none) (d : Delivery Record) :
    d.outcomeIn o = d.outcome := by
  rw [outcomeIn, h]
  split <;> simp_all

theorem outcome_of_outcomeIn {o : Outages} {d : Delivery Record} {r : Record}
    (h : d.outcomeIn o = .ok r) : d.outcome = .ok r := by
  unfold outcomeIn at h
  split at h
  · split at h
    · cases h
    · exact h
  · exact h

end Delivery

namespace Cursor

theorem after_sublist {α β : Type} (outcome : Except Fault β) (rest : Cursor α) :
    (Cursor.after outcome rest).Sublist rest := by
  cases outcome with
  | ok b => exact List.Sublist.refl rest
  | error f => exact List.nil_sublist rest

/-- What a cursor gives out: its deliveries, up to the first that fails. -/
def outcomes (o : Outages) : Cursor Record → List (Except Fault Record)
  | [] => []
  | d :: rest =>
    match d.outcomeIn o with
    | .ok r => .ok r :: outcomes o rest
    | .error f => [.error f]

theorem outcomes_cons (o : Outages) (d : Delivery Record) (rest : Cursor Record) :
    outcomes o (d :: rest) = d.outcomeIn o :: outcomes o (Cursor.after (d.outcomeIn o) rest) := by
  rw [outcomes]
  cases d.outcomeIn o with
  | ok r => rfl
  | error f => rfl

theorem length_outcomes_le (o : Outages) (c : Cursor Record) :
    (outcomes o c).length ≤ c.length := by
  induction c with
  | nil => exact Nat.le_refl 0
  | cons d rest ih =>
    rw [outcomes]
    cases d.outcomeIn o with
    | ok r => exact Nat.succ_le_succ ih
    | error f => exact Nat.succ_le_succ (Nat.zero_le _)

theorem outcomes_ofReads {o : Outages} (h : o.rows = none) (rs : List Record) :
    outcomes o (ofReads rs) = rs.map .ok := by
  have from_position (n : Nat) :
      outcomes o ((rs.zipIdx n).map fun p => ⟨.ok p.1, some p.2⟩) = rs.map .ok := by
    induction rs generalizing n with
    | nil => rfl
    | cons r rest ih =>
      rw [List.zipIdx_cons, List.map_cons, outcomes, Delivery.outcomeIn_of_up h]
      exact congrArg _ (ih (n + 1))
  exact from_position 0

def IsRead (c : Cursor Record) : Prop := ∀ d ∈ c, ∀ r, d.outcome = .ok r → d.read.isSome = true

theorem isRead_ofWindow (w : Window) (rs : List Record) : IsRead (ofWindow w rs) := by
  intro d hd r hr
  rw [ofWindow] at hd
  cases stretched : stretch w with
  | error f =>
    rw [stretched] at hd
    rw [List.mem_singleton.mp hd] at hr
    cases hr
  | ok p =>
    rw [stretched] at hd
    obtain ⟨p, -, rfl⟩ := List.mem_map.mp hd
    rfl

end Cursor

namespace OpenScan

variable (r : OpenScan)

theorem advance_nil (h : r.cursor = []) : r.advance = r := by
  obtain ⟨c, s, taken⟩ := r
  obtain rfl : c = [] := h
  show (⟨[], s, taken ++ []⟩ : OpenScan) = _
  rw [List.append_nil]

theorem advance_cons {d : Delivery Record} {rest : Cursor Record} (h : r.cursor = d :: rest) :
    r.advance =
      ⟨Cursor.after (d.outcomeIn r.store.outages) rest,
        { r.store with reads := r.store.reads + d.read.toList.length },
        r.taken ++ [d.outcomeIn r.store.outages]⟩ := by
  have taken : (Store.next (d :: rest)).on r.store =
      (.ok (some ((Store.receive d).on r.store).1,
        Cursor.after ((Store.receive d).on r.store).1 rest),
        ((Store.receive d).on r.store).2) := by
    rw [Store.next, on_bind_of_ok (on_observing _ _)]
    rfl
  rw [advance, h, taken, Delivery.receive_on]
  rfl

def toCome : List (Except Fault Record) := r.cursor.outcomes r.store.outages

/-- Advancing takes the next of what is to come. Nothing that is asked of the store meanwhile
changes what is to come. -/
theorem step_toCome (e : CursorEvent) :
    (r.step e).taken = r.taken ++ r.toCome.take e.advances ∧
      (r.step e).toCome = r.toCome.drop e.advances := by
  cases e with
  | request a =>
    have told : (a.step r.store).outages = r.store.outages :=
      (Store.told_stable r.store.outages).step rfl a
    refine ⟨(List.append_nil _).symm, ?_⟩
    show r.cursor.outcomes (a.step r.store).outages = _
    rw [told]
    rfl
  | advance =>
    show r.advance.taken = _ ∧ r.advance.toCome = _
    cases h : r.cursor with
    | nil =>
      have none_left : r.toCome = [] := by
        rw [toCome, h]
        rfl
      rw [r.advance_nil h, none_left]
      exact ⟨(List.append_nil _).symm, rfl⟩
    | cons d rest =>
      rw [r.advance_cons h, toCome, toCome, h, Cursor.outcomes_cons]
      exact ⟨rfl, rfl⟩

theorem run_toCome (events : List CursorEvent) :
    let n := (events.map CursorEvent.advances).sum
    (r.run events).taken = r.taken ++ r.toCome.take n ∧
      (r.run events).toCome = r.toCome.drop n := by
  induction events generalizing r with
  | nil => exact ⟨(List.append_nil _).symm, rfl⟩
  | cons e rest ih =>
    obtain ⟨now, next⟩ := r.step_toCome e
    obtain ⟨later, left⟩ := ih (r.step e)
    rw [now, next, List.append_assoc, ← List.take_add] at later
    rw [next, List.drop_drop] at left
    exact ⟨later, left⟩

theorem length_advance_le : r.advance.cursor.length ≤ r.cursor.length - 1 := by
  cases h : r.cursor with
  | nil => rw [r.advance_nil h, h]; exact Nat.le_refl 0
  | cons d rest =>
    rw [r.advance_cons h]
    exact (Cursor.after_sublist _ rest).length_le

theorem atOnce_spec : r.atOnce.cursor = [] ∧ r.atOnce.taken = r.taken ++ r.toCome := by
  constructor
  · have ended (n : Nat) (p : OpenScan) (h : p.cursor.length ≤ n) :
        (p.run (List.replicate n .advance)).cursor = [] := by
      induction n generalizing p with
      | zero => exact List.eq_nil_of_length_eq_zero (Nat.le_zero.mp h)
      | succ n ih =>
        have shorter := p.length_advance_le
        exact ih p.advance (by omega)
    exact ended _ r (Nat.le_refl _)
  · have enough : r.toCome.length ≤ r.cursor.length := Cursor.length_outcomes_le _ _
    have taken := (r.run_toCome (List.replicate r.cursor.length .advance)).1
    rw [List.map_replicate, List.sum_replicate_nat, CursorEvent.advances, Nat.mul_one,
      List.take_of_length_le enough] at taken
    exact taken

theorem cursor_step_subset (e : CursorEvent) : (r.step e).cursor ⊆ r.cursor := by
  cases e with
  | request a => exact List.Subset.refl _
  | advance =>
    show r.advance.cursor ⊆ _
    cases h : r.cursor with
    | nil =>
      rw [r.advance_nil h, h]
      exact List.Subset.refl _
    | cons d rest =>
      rw [r.advance_cons h]
      exact List.subset_cons_of_subset d (Cursor.after_sublist _ rest).subset

theorem cursor_run_subset (events : List CursorEvent) : (r.run events).cursor ⊆ r.cursor := by
  induction events generalizing r with
  | nil => exact List.Subset.refl _
  | cons e rest ih => exact List.Subset.trans (ih (r.step e)) (r.cursor_step_subset e)

theorem advance_reads (h : r.cursor.IsRead) :
    r.advance = r ∨
      ∃ outcome, r.advance.taken = r.taken ++ [outcome] ∧
        ∀ record, outcome = .ok record →
          r.advance.store = { r.store with reads := r.store.reads + 1 } := by
  cases hc : r.cursor with
  | nil => exact .inl (r.advance_nil hc)
  | cons d rest =>
    refine .inr ⟨d.outcomeIn r.store.outages, by rw [r.advance_cons hc], fun record given => ?_⟩
    obtain ⟨n, hn⟩ := Option.isSome_iff_exists.mp
      (h d (hc ▸ List.mem_cons_self) record (Delivery.outcome_of_outcomeIn given))
    rw [r.advance_cons hc, hn]
    rfl

end OpenScan

/-- A cursor that a scan returned gives out the same, and in the same order, as if it had been read
to its end at once, whatever is asked of the store between one record and the next: a cursor that
was advanced so many times has given out so much of that. What it is to give out are the records
that were selected when the store was scanned, from the start of the window to its stop. Each
advance that gives out a record counts one read and leaves the rest of the store alone. -/
theorem Store.scan_snapshot {s t : Store} {shown : Value → Except Fault Text} {q : Selection}
    {transaction : Option Nat} {w : Window} {keysOnly : Bool} {c : Cursor Record}
    (scanned : (scan shown q transaction w keysOnly).on s = (.ok c, t))
    (events : List CursorEvent) :
    let opened : OpenScan := ⟨c, t, []⟩
    let later := opened.run events
    opened.atOnce.cursor = [] ∧
      (∀ p, Cursor.stretch w = .ok p → s.outages.rows = none →
        opened.atOnce.taken =
          (Cursor.stretchOf p (given shown q keysOnly s.records)).map .ok) ∧
      later.taken = opened.atOnce.taken.take (events.map CursorEvent.advances).sum ∧
      (later.advance = later ∨
        ∃ outcome, later.advance.taken = later.taken ++ [outcome] ∧
          ∀ record, outcome = .ok record →
            later.advance.store = { later.store with reads := later.store.reads + 1 }) := by
  intro opened later
  obtain ⟨-, rfl⟩ := scan_spec scanned
  obtain ⟨ended, all⟩ := opened.atOnce_spec
  have read : later.cursor.IsRead := fun d hd =>
    Cursor.isRead_ofWindow _ _ d (opened.cursor_run_subset events hd)
  refine ⟨ended, fun p hp up => ?_, ?_, later.advance_reads read⟩
  · have told : t.outages = s.outages :=
      ((told_stable s.outages).uncounted.keeps_scan shown q transaction w keysOnly).of_on rfl
        scanned
    rw [all]
    show Cursor.outcomes t.outages (Cursor.ofWindow w (given shown q keysOnly s.records)) = _
    rw [Cursor.ofWindow_of_stretch hp, Cursor.outcomes_ofReads (told ▸ up)]
  · rw [all]
    exact (opened.run_toCome events).1

/-- The books of the shelf, of which one is replaced after the scan. Later all are forgotten. -/
theorem Store.scan_snapshot_shelf :
    ∃ c t,
      (scan (fun _ => .ok Text.empty) ⟨"Book", [], [], none, false⟩ none .all false).on shelf =
        (.ok c, t) ∧
      (OpenScan.run ⟨c, t, []⟩
        [.request (.put ⟨.root "Book" (.number 1), [("rank", .integer 9)]⟩ none), .advance,
          .request .clear, .advance]).taken =
        ((given (fun _ => .ok Text.empty) ⟨"Book", [], [], none, false⟩ false
          shelf.records).take 2).map .ok := by
  have up : shelf.IsUp .scan := Sound.isUp (Reachable.sound ⟨_, _, rfl⟩) .scan
  have scannable : CanScan (fun _ => .ok Text.empty) ⟨"Book", [], [], none, false⟩ .all
      shelf.records := canScan_of_comparable ⟨nofun, nofun⟩ nofun nofun
  have scanned := scan_on_of_canScan up (admits_none shelf ⟨"Book", [], [], none, false⟩)
    scannable false
  obtain ⟨-, all, taken, -⟩ := scan_snapshot scanned
    [.request (.put ⟨.root "Book" (.number 1), [("rank", .integer 9)]⟩ none), .advance,
      .request .clear, .advance]
  refine ⟨_, _, scanned, ?_⟩
  rw [taken, all (0, none) rfl rfl, List.map_take]
  rfl

end RecordStore
