import RecordStore.Proofs.StillRows

/-!
# Reads of a result

A read asks a result for something, or one of the walks along it. Where no row can come, a list
gives the same answer.
-/

set_option autoImplicit false

namespace RecordStore

open Attempt

variable {σ α β γ : Type}

/-- What can be read of a result. -/
inductive RowsRead (β : Type) where
  /-- Begins a walk. -/
  | walk
  | next (walk : Nat)
  | length
  | isNonempty
  | row (i : Bound)
  | slice (s : Slice)
  | toList
  | reversed
  | contains (b : β)
  | index (b : β) (start stop : Option Bound)
  | count (b : β)

inductive RowsReply (β : Type) where
  | begun
  | row (b : Option β)
  | number (n : Nat)
  | truth (b : Bool)
  | rows (bs : List β)
  | position (i : Bound)

/-- What a walk along a list gives, and where it stands then. -/
def Walk.along (items : List β) (w : Walk) : Option β × Walk :=
  if w.isOver then (none, w)
  else (items[w.position]?, Course.stepped w items[w.position]?)

namespace RowsRead

open RowsSession

def perform (m : RowMaker σ α β) : RowsRead β → Attempt (RowsSession σ α β) (RowsReply β)
  | .walk => do
    modify fun q => { q with walks := q.walks ++ [Walk.start] }
    return .begun
  | .next i => do
    let q ← get
    match q.walks[i]? with
    | none => return .row none
    | some w =>
      let (found, w) ← onRows (w.next m)
      modify fun q => { q with walks := q.walks.set i w }
      return .row (← Attempt.ofExcept found)
  | .length => .number <$> onRows (Rows.length m)
  | .isNonempty => .truth <$> onRows (Rows.isNonempty m)
  | .row i => (fun b => .row (some b)) <$> onRows (Rows.row m i)
  | .slice s => .rows <$> onRows (Rows.slice m s)
  | .toList => .rows <$> onRows (Rows.toList m)
  | .reversed => .rows <$> onRows (Rows.reversed m)
  | .contains b => .truth <$> onRows (Rows.contains m b)
  | .index b start stop => .position <$> onRows (Rows.index m b start stop)
  | .count b => .number <$> onRows (Rows.count m b)

def ofList (same : β → β → Except Fault Bool) (items : List β) (walks : List Walk) :
    RowsRead β → Except Fault (RowsReply β) × List Walk
  | .walk => (.ok .begun, walks ++ [Walk.start])
  | .next i =>
    match walks[i]? with
    | none => (.ok (.row none), walks)
    | some w => (.ok (.row (w.along items).1), walks.set i (w.along items).2)
  | .length => (.ok (.number items.length), walks)
  | .isNonempty => (.ok (.truth (decide (0 < items.length))), walks)
  | .row i => ((itemAtBound items i).map fun b => .row (some b), walks)
  | .slice s => ((s.apply items).map .rows, walks)
  | .toList => (.ok (.rows items), walks)
  | .reversed => (.ok (.rows items.reverse), walks)
  | .contains b => ((items.anyM fun a => same a b).map .truth, walks)
  | .index b start stop => ((indexIn same b items start stop).map .position, walks)
  | .count b => (((items.mapM fun a => same a b).map (·.count true)).map .number, walks)

/-- Whether a read is answered as a list of the ready rows answers it, and changes nothing else. -/
def AnswersStill (m : RowMaker σ α β) (read : RowsRead β) (q : RowsSession σ α β) : Prop :=
  ∃ r, (read.perform m).on q =
      ((read.ofList (m.same q.world) q.rows.ready q.walks).1,
        ⟨r, (read.ofList (m.same q.world) q.rows.ready q.walks).2, q.world⟩) ∧
    r.IsStill m q.world ∧ r.ready = q.rows.ready

section Still

variable {m : RowMaker σ α β} {q : RowsSession σ α β} (still : q.rows.IsStill m q.world)
include still

theorem next_stillAt (w : Walk) :
    Rows.StillAt m (w.next m) (.ok (.ok (w.along q.rows.ready).1, (w.along q.rows.ready).2)) q.rows
      q.world := by
  unfold Walk.next Walk.along
  split
  · exact ⟨q.rows, rfl, still, rfl⟩
  · obtain ⟨r, ran, still, ready⟩ := (Rows.fromReady_row? w.position).stillAt q.rows q.world still
    refine ⟨r, on_tryCatch_of_ok ?_ _, still, ready⟩
    rw [on_bind_of_ok ran]
    cases q.rows.ready[w.position]? <;> rfl

theorem answersStill_onRows {read : RowsRead β} {x : Reading σ α β γ}
    {f : σ → List β → Except Fault γ} {g : γ → RowsReply β} (hx : Rows.FromReady m x f)
    (performs : read.perform m = g <$> onRows x)
    (listed : read.ofList (m.same q.world) q.rows.ready q.walks =
      ((f q.world q.rows.ready).map g, q.walks)) : read.AnswersStill m q := by
  obtain ⟨r, ran, still, ready⟩ := hx.stillAt q.rows q.world still
  refine ⟨r, ?_, still, ready⟩
  rw [performs, listed, on_map, onRows, on_zoom, ran]

theorem answersStill_next (i : Nat) : (RowsRead.next i).AnswersStill m q := by
  cases walk : q.walks[i]? with
  | none =>
    refine ⟨q.rows, ?_, still, rfl⟩
    simp only [perform, ofList, walk]
    rw [on_bind_of_ok (on_get q), walk]
    rfl
  | some w =>
    obtain ⟨r, ran, still, ready⟩ := next_stillAt still w
    have stepped : (onRows (w.next m)).on q =
        (.ok (.ok (w.along q.rows.ready).1, (w.along q.rows.ready).2), { q with rows := r }) := by
      rw [onRows, on_zoom, ran]
    refine ⟨r, ?_, still, ready⟩
    simp only [perform, ofList, walk]
    rw [on_bind_of_ok (on_get q), walk]
    dsimp only
    rw [on_bind_of_ok stepped]
    rfl

theorem answersStill (read : RowsRead β) : read.AnswersStill m q := by
  cases read with
  | walk => exact ⟨q.rows, rfl, still, rfl⟩
  | next i => exact answersStill_next still i
  | length => exact answersStill_onRows still Rows.fromReady_length rfl rfl
  | isNonempty => exact answersStill_onRows still (Rows.fromReady_fillTo 0) rfl rfl
  | row i => exact answersStill_onRows still (Rows.fromReady_row i) rfl rfl
  | slice s => exact answersStill_onRows still (Rows.fromReady_slice s) rfl rfl
  | toList => exact answersStill_onRows still Rows.fromReady_toList rfl rfl
  | reversed => exact answersStill_onRows still Rows.fromReady_reversed rfl rfl
  | contains b => exact answersStill_onRows still (Rows.fromReady_contains b) rfl rfl
  | index b start stop =>
    exact answersStill_onRows still (Rows.fromReady_index b start stop) rfl rfl
  | count b => exact answersStill_onRows still (Rows.fromReady_count b) rfl rfl

end Still
end RowsRead

end RecordStore
