import Mathlib.Data.List.Basic
import RecordStore.Proofs.WholeRows

/-!
# Ranges as slices

A selection in a range gives out the rows of the whole selection between the bounds of the range,
whether the store cuts them or they are cut afterwards. The store can cut at the positions that it
can count to; rows behind these can only be cut afterwards.
-/

set_option autoImplicit false

namespace RecordStore

open Attempt Cursor

namespace Cursor

variable {α : Type}

theorem length_stretchOf_le (p : Nat × Option Nat) (items : List α) :
    (stretchOf p items).length ≤ items.length :=
  (stretchOf_sublist p items).length_le

theorem stretchOf_min {items : List α} {m : Nat} (h : items.length ≤ m) (start : Nat)
    (stop : Option Nat) :
    stretchOf (min start m, stop.map (min · m)) items = stretchOf (start, stop) items := by
  have dropped (l : List α) (hl : l.length ≤ m) : l.drop (min start m) = l.drop start := by
    by_cases hs : start ≤ m
    · rw [Nat.min_eq_left hs]
    · rw [List.drop_eq_nil_of_le (by omega), List.drop_eq_nil_of_le (by omega)]
  cases stop with
  | none => exact dropped items h
  | some n =>
    have taken : items.take (min n m) = items.take n := by
      by_cases hn : n ≤ m
      · rw [Nat.min_eq_left hn]
      · rw [List.take_of_length_le (by omega), List.take_of_length_le (by omega)]
    show (items.take (min n m)).drop _ = (items.take n).drop start
    rw [taken]
    exact dropped _ (Nat.le_trans (List.length_take_le' n items) h)

theorem stretchOf_of_hasNone {first stop : Option Nat} (h : Range.hasNone first stop = true)
    (items : List α) : stretchOf (first.getD 0, stop) items = [] := by
  cases stop with
  | none => cases h
  | some n =>
    have hn : n ≤ first.getD 0 := of_decide_eq_true h
    show (items.take n).drop (first.getD 0) = []
    have hl := List.length_take_le n items
    exact List.drop_eq_nil_of_le (by omega)

end Cursor

namespace Range

def consecutive (first : Option Nat) : List Nat → List (Option Nat × Option Nat)
  | [] => [(first, none)]
  | n :: rest => (first, some n) :: consecutive (some n) rest

theorem flatten_consecutive {α : Type} (items : List α) (first : Option Nat) {cuts : List Nat}
    (h : (first.getD 0 :: cuts).Pairwise (· ≤ ·)) :
    ((consecutive first cuts).map fun r => stretchOf (r.1.getD 0, r.2) items).flatten =
      items.drop (first.getD 0) := by
  induction cuts generalizing first with
  | nil => simp [consecutive, stretchOf]
  | cons n rest ih =>
    have hn : first.getD 0 ≤ n := List.rel_of_pairwise_cons h (List.mem_cons_self ..)
    have joined := List.take_append_drop (n - first.getD 0) (items.drop (first.getD 0))
    rw [List.drop_drop, Nat.add_sub_cancel' hn, ← List.drop_take] at joined
    rw [consecutive, List.map_cons, List.flatten_cons, ih (some n) h.of_cons]
    exact joined

end Range

namespace Slice

theorem filterMap_range' {α : Type} (items : List α) (start n : Nat) :
    (List.range' start n).filterMap (items[·]?) = (items.drop start).take n := by
  induction n generalizing start with
  | zero => simp
  | succ n ih =>
    rw [List.range'_succ]
    by_cases h : start < items.length
    · rw [List.filterMap_cons_some (List.getElem?_eq_getElem h), ih, List.drop_eq_getElem_cons h,
        List.take_succ_cons]
    · rw [List.filterMap_cons_none (List.getElem?_eq_none (by omega)), ih,
        List.drop_eq_nil_of_le (by omega), List.drop_eq_nil_of_le (by omega), List.take_nil,
          List.take_nil]

theorem bound_integer (n start : Nat) : bound n 0 n start = (min start n : Nat) := by
  simp only [bound]
  omega

theorem positions_integer (start : Nat) (stop : Option Nat) (n : Nat) :
    positions ⟨some (.integer start), stop.map fun n : Nat => .integer n, none⟩ n =
      .ok (List.range' (min start n) ((stop.map (min · n)).getD n - min start n)) := by
  have hpart (b : Option Nat) : part (b.map fun n : Nat => Bound.integer n) =
      .ok (b.map fun n : Nat => (n : Int)) := by
    cases b <;> rfl
  let last : Int := ((stop.map fun n : Nat => (n : Int)).map (bound n 0 n)).getD n
  have hlast : last = ((stop.map (min · n)).getD n : Nat) := by
    cases stop with
    | none => rfl
    | some b => exact bound_integer n b
  refine (bind_eq_ok_iff _ _ _).mpr ⟨none, rfl, ?_⟩
  refine (bind_eq_ok_iff _ _ _).mpr ⟨some start, rfl, ?_⟩
  refine (bind_eq_ok_iff _ _ _).mpr ⟨_, hpart stop, ?_⟩
  show Except.ok ((List.range (steps (bound n 0 n start) last 1)).map
    fun k : Nat => (bound n 0 n start + k * 1).toNat) = _
  rw [hlast, bound_integer, steps, if_pos Int.one_pos, List.range'_eq_map_range]
  congr 1
  have hsteps (last : Nat) : (((last : Int) - (min start n : Nat) + 1 - 1) / 1).toNat =
      last - min start n := by
    omega
  rw [hsteps]
  refine List.map_congr_left fun k _ => ?_
  omega

theorem apply_integer {α : Type} (start : Nat) (stop : Option Nat) (items : List α) :
    Slice.apply ⟨some (.integer start), stop.map fun n : Nat => .integer n, none⟩ items =
      .ok (stretchOf (start, stop) items) := by
  refine (bind_eq_ok_iff _ _ _).mpr ⟨_, positions_integer start stop items.length, ?_⟩
  rw [filterMap_range', ← stretchOf_min (Nat.le_refl items.length) start stop]
  congr 1
  cases stop with
  | none => exact List.take_of_length_le (by simp)
  | some b => exact List.drop_take.symm

theorem misuses_part (b : Option Bound) : Misuses (part b) := by
  cases b with
  | none => exact misuses_ok _
  | some b =>
    rw [part, Option.mapM_some]
    cases b.position? with
    | none => exact misuses_error _
    | some n => exact misuses_ok _

theorem misuses_apply {α : Type} (s : Slice) (items : List α) : Misuses (s.apply items) := by
  refine misuses_bind (misuses_bind (misuses_part s.step) fun step => ?_) fun ps => misuses_ok _
  dsimp only
  split
  · exact misuses_error _
  refine misuses_bind (misuses_part s.start) fun first => ?_
  exact misuses_bind (misuses_part s.stop) fun last => misuses_ok _

end Slice

namespace Store

theorem length_given_le (shown : Value → Except Fault Text) (q : Selection) (keysOnly : Bool)
    (rs : List Record) : (given shown q keysOnly rs).length ≤ rs.length := by
  have answered : (q.answer shown rs).length ≤ rs.length := by
    rw [(q.answer_perm shown rs).length_eq]
    exact List.length_filter_le _ rs
  rw [given]
  split
  · rwa [List.length_map]
  · exact answered

theorem drain_ofList (s : Store) (items : List Record) :
    (drain (ofList items)).on s = (.ok items, s) := by
  induction items with
  | nil => rfl
  | cons a rest ih =>
    show (receive ⟨.ok a, none⟩ >>= fun r => do return r :: (← drain (ofList rest))).on s = _
    have received : (receive ⟨.ok a, none⟩).on s = (.ok a, s) := rfl
    rw [on_bind_of_ok received, on_bind_of_ok ih, on_pure]

theorem scan_on_window {s t : Store} {shown : Value → Except Fault Text} {q : Selection}
    {transaction : Option Nat} {keysOnly : Bool} {c : Cursor Record}
    (h : (scan shown q transaction .all keysOnly).on s = (.ok c, t)) :
    ∃ items, ∀ w : Window, w.CanWrite →
      (scan shown q transaction w keysOnly).on s = (.ok (ofWindow w items), t) := by
  obtain ⟨_, entered, henter, h⟩ := (on_bind_eq_ok_iff _ _ _ _ _).mp h
  obtain ⟨_, ticked, hmodify, h⟩ := (on_bind_eq_ok_iff _ _ _ _ _).mp h
  obtain ⟨_, checked, hcheck, h⟩ := (on_bind_eq_ok_iff _ _ _ _ _).mp h
  rw [on_bind_of_ok (on_get checked)] at h
  obtain ⟨hscanned, rfl⟩ := (on_ofExcept_eq_ok_iff _ _ _ _).mp h
  obtain ⟨⟨compared, noted⟩, -⟩ := scanned_eq_ok_iff.mp hscanned
  refine ⟨given shown q keysOnly checked.records, fun w hw => ?_⟩
  have scannable : CanScan shown q w checked.records :=
    ⟨compared, (note_eq_ok_iff shown q w).mpr ⟨((note_eq_ok_iff shown q .all).mp noted).1, hw⟩⟩
  rw [scan, on_bind_of_ok henter, on_bind_of_ok hmodify, on_bind_of_ok hcheck,
    on_bind_of_ok (on_get checked), scannable.scanned, on_ofExcept]

end Store

/-- Whether a cursor that is read to its end gives out some records. -/
def Store.Delivers (s : Store) (c : Cursor Record) (records : List Record) : Prop :=
  ∃ t, (Store.drain c).on s = (.ok records, t)

def Result.Yields (s : Store) (reader : RowReader) (records : List Record) : Result → Prop
  | .rows r made =>
    made = reader ∧ ∃ c token query, r = Rows.start c token query ∧ s.Delivers c records
  | .nothing => records = []
  | .number _ => False

/-- Whether a result has rows of which the first is a fault, so that reading it fails. -/
def Result.FailsFirst (d : Database) (f : Fault) : Result → Prop
  | .rows r reader => (∃ token query, r = Rows.start [⟨.error f, none⟩] token query) ∧
      ((Rows.pull reader.maker).on (r, d)).1 = .error (f.wrapped .reading r.query)
  | _ => False

theorem Result.failsFirst_start {d : Database} {token : Nat}
    (valid : d.connections.isCancelled token = false) (f : Fault) (query : Option Text)
    (reader : RowReader) :
    (Result.rows (Rows.start [⟨.error f, none⟩] (some token) query) reader).FailsFirst d f := by
  have goes : (Rows.start [⟨.error f, none⟩] (some token) query).Goes reader.maker d := ⟨rfl, valid⟩
  exact ⟨⟨_, _, rfl⟩, congrArg Prod.fst (Rows.pull_failed goes rfl rfl)⟩

theorem Result.FailsFirst.not_yields {d : Database} {f : Fault} {result : Result}
    (h : result.FailsFirst d f) (s : Store) (reader : RowReader) (records : List Record) :
    ¬result.Yields s reader records := by
  cases result with
  | rows r made =>
    obtain ⟨⟨token, query, rfl⟩, -⟩ := h
    rintro ⟨-, c, token, query, started, t, drained⟩
    obtain rfl : [⟨.error f, none⟩] = c := congrArg Rows.pending started
    cases drained
  | nothing => cases h
  | number n => cases h

theorem Execution.cut_integer {w : Window} {start : Nat} {stop : Option Nat}
    (hs : w.start = .integer start) (ht : w.stop = .ok (stop.map fun n : Nat => .integer n))
    (items : List Record) : cut w items = .ok (stretchOf (start, stop) items) := by
  rw [cut]
  by_cases hw : w.isTrivial = true
  · obtain ⟨offset, limit⟩ := w
    obtain ⟨ho, hl⟩ : offset = none ∧ limit = none := by
      simpa [Window.isTrivial] using hw
    subst ho hl
    have hzero : (Bound.integer 0).unlessZero = .integer start := hs
    rw [Bound.unlessZero_integer, Bound.integer.injEq] at hzero
    obtain rfl : start = 0 := by omega
    obtain rfl : stop = none := by
      simpa using (Except.ok.inj ht).symm
    rfl
  · rw [if_neg hw, hs, ht]
    exact Slice.apply_integer start stop items

namespace NativeQuery

def within (w : Window) (items : List Record) : NativeQuery → Except Fault (Cursor Record)
  | .selection _ => .ok (ofWindow w items)
  | .lookup _ _ => (Execution.cut w items).map ofList

def CanNote (w : Window) : NativeQuery → Prop
  | .selection _ => w.CanWrite
  | .lookup _ _ => True

/-- Whether items can be cut at positions. The store has to count to them; what is looked up is cut
afterwards. -/
def CutsAt (start : Nat) (stop : Option Nat) : NativeQuery → Prop
  | .selection _ => IsNear start stop
  | .lookup _ _ => True

/-- Whether the items in a range can be given out where a number is the largest. -/
def Reaches (largest : Nat) (first stop : Option Nat) (native : NativeQuery) : Prop :=
  Range.hasNone first stop = true ∨
    native.CutsAt (min (first.getD 0) largest) (stop.map (min · largest))

theorem reaches_of_le {largest : Nat} (h : largest ≤ farthest) (first stop : Option Nat)
    (native : NativeQuery) : native.Reaches largest first stop := by
  cases native with
  | selection q => exact .inr (isNear_of_le h _ _)
  | lookup kind keys => exact .inr trivial

theorem delivers_within {native : NativeQuery} {s : Store} {items records : List Record}
    {whole : Cursor Record} (hall : native.within .all items = .ok whole)
    (hd : s.Delivers whole records) {w : Window} {start : Nat} {stop : Option Nat}
    (hs : w.start = .integer start) (ht : w.stop = .ok (stop.map fun n : Nat => .integer n)) :
    records = items ∧
      (native.CutsAt start stop → native.CanNote w ∧ ∃ c, native.within w items = .ok c ∧
        s.Delivers c (stretchOf (start, stop) items)) ∧
      (¬native.CutsAt start stop → ∃ f, stretch w = .error f ∧
        (w.CanWrite → native.CanNote w) ∧
        native.within w items = .ok [⟨.error f, none⟩]) := by
  cases native with
  | selection q =>
    obtain rfl := Except.ok.inj hall
    obtain ⟨t, hd⟩ := hd
    obtain ⟨rfl, -, hrows⟩ := (Store.drain_ofReads_eq_ok_iff s t items records).mp hd
    refine ⟨rfl, fun near => ?_, fun far => ?_⟩
    · have hp := stretch_integer hs ht near
      refine ⟨Window.canWrite_of_stretch hp, _, rfl, ?_⟩
      rw [ofWindow_of_stretch hp]
      refine ⟨_, (Store.drain_ofReads_eq_ok_iff s _ _ _).mpr ⟨rfl, rfl, fun o ho => ?_⟩⟩
      exact Nat.le_trans (length_stretchOf_le _ _) (hrows o ho)
    · cases hp : stretch w with
      | ok p => exact absurd (isNear_of_stretch hs ht hp) far
      | error f =>
        refine ⟨f, rfl, id, ?_⟩
        rw [within, ofWindow, hp]
  | lookup kind keys =>
    obtain rfl := Except.ok.inj hall
    obtain ⟨t, hd⟩ := hd
    rw [Store.drain_ofList] at hd
    cases hd
    refine ⟨rfl, fun _ => ⟨trivial, _,
      (map_eq_ok_iff _ _ _).mpr ⟨_, Execution.cut_integer hs ht items, rfl⟩, s,
      Store.drain_ofList s _⟩, fun far => absurd trivial far⟩

end NativeQuery

namespace Execution

variable {e : Execution} {d after : Database} {result : Result}

theorem run_on_window {c : Candidate} {plan : ResultPlan} {native : NativeQuery}
    (hs : c.statement.isDelete = false) (hf : plan.form ≠ .count)
    (h : ((⟨c, plan, .all⟩ : Execution).run native).on d = (.ok result, after)) :
    after.connections = (d.connections.issue d.scope).2 ∧
    ∃ items, ∀ w cursor, native.CanNote w → native.within w items = .ok cursor →
      ((⟨c, plan, w⟩ : Execution).run native).on d =
        (.ok (.rows (Rows.start cursor (some d.connections.cancelled.length) c.query)
          ((⟨c, plan, .all⟩ : Execution).reader d.settings.query)), after) := by
  cases native with
  | selection q =>
    rw [run, scan, on_bind_of_ok (on_get d)] at h
    simp only [if_neg hf, Execution.statement, hs] at h
    obtain ⟨cursor, scanned, hr, ho⟩ := (on_bind_eq_ok_iff _ _ _ _ _).mp h
    obtain ⟨t, hscan, rfl⟩ := (request_eq_ok_iff _ _ _ _ _).mp hr
    obtain ⟨items, hitems⟩ := Store.scan_on_window hscan
    rw [openRows_on] at ho
    cases ho
    refine ⟨rfl, items, fun w cursor written hw => ?_⟩
    obtain rfl := Except.ok.inj hw
    have windowed := (request_eq_ok_iff ⟨c, plan, w⟩ _ d _ _).mpr ⟨t, hitems w written, rfl⟩
    rw [run, scan, on_bind_of_ok (on_get d)]
    simp only [if_neg hf, Execution.statement, hs]
    exact (on_bind_of_ok windowed _).trans (openRows_on _ _)
  | lookup kind keys =>
    rw [run, lookup, on_bind_of_ok (on_get d)] at h
    simp only [if_neg hf, Execution.statement, hs] at h
    obtain ⟨found, fetched, hr, h⟩ := (on_bind_eq_ok_iff _ _ _ _ _).mp h
    obtain ⟨rs, _, hcut, ho⟩ := (on_bind_eq_ok_iff _ _ _ _ _).mp h
    obtain ⟨-, rfl⟩ := (on_ofExcept_eq_ok_iff _ _ _ _).mp hcut
    obtain ⟨t, hfetch, rfl⟩ := (request_eq_ok_iff _ _ _ _ _).mp hr
    rw [openRows_on] at ho
    cases ho
    refine ⟨rfl, keys.filterMap (recordOf? found), fun w cursor _ hw => ?_⟩
    obtain ⟨kept, hkept, rfl⟩ := (map_eq_ok_iff _ _ _).mp hw
    have cutting (d : Database) : (ofExcept (cut w (keys.filterMap (recordOf? found)))).on d =
        (.ok kept, d) := by
      rw [on_ofExcept, hkept]
    have looked := (request_eq_ok_iff ⟨c, plan, w⟩ _ d _ _).mpr ⟨t, hfetch, rfl⟩
    rw [run, lookup, on_bind_of_ok (on_get d)]
    simp only [if_neg hf, Execution.statement, hs]
    exact (on_bind_of_ok looked _).trans ((on_bind_of_ok (cutting _) _).trans (openRows_on _ _))

end Execution

namespace Database

variable {d after : Database} {s : Statement} {parameters : Parameters} {now : Moment}
  {c : Candidate} {plan : ResultPlan} {native : NativeQuery} {result : Result} {reader : RowReader}
  {records : List Record} {m : Nat}

/-- A selection in a range gives out its part of the whole selection, unless the store cannot count
to where the range begins or ends. -/
theorem execute_part (hs : c.statement.isDelete = false) (hf : plan.form ≠ .count)
    (hc : s.CompilesTo d parameters now c plan native)
    (hm : d.settings.query.largest = .integer m)
    (hx : (execute s ⟨none, none⟩ parameters now).on d = (.ok result, after))
    (hy : result.Yields after.store reader records) (hl : records.length ≤ m)
    (first stop : Option Nat) :
    (native.Reaches m first stop → ∃ ranged last,
      (execute s (.whole first stop) parameters now).on d = (.ok ranged, last) ∧
        ranged.Yields last.store reader (stretchOf (first.getD 0, stop) records)) ∧
    (¬native.Reaches m first stop → ∃ w f,
      (Range.whole first stop).window (.integer m) c.query = .ok w ∧ stretch w = .error f ∧
        (w.CanWrite → ∃ ranged last,
          (execute s (.whole first stop) parameters now).on d = (.ok ranged, last) ∧
            ranged.FailsFirst last f)) := by
  have written := written_of_execute hc hx
  have hempty := Range.isEmpty_whole first stop
  cases hn : Range.hasNone first stop with
  | true =>
    rw [hn] at hempty
    have uncounted : (⟨c, plan, .all⟩ : Execution).wantsNumber = false := by
      rw [Execution.wantsNumber, decide_eq_false hf]
      exact hs
    have ran := execute_on_empty hc written hempty
    rw [uncounted] at ran
    exact ⟨fun _ => ⟨_, _, ran, stretchOf_of_hasNone hn records⟩, fun far => absurd (.inl hn) far⟩
  | false =>
    rw [hn] at hempty
    rw [execute_on_window hc written rfl rfl hf] at hx
    obtain ⟨issued, items, hitems⟩ := Execution.run_on_window hs hf hx
    obtain ⟨w, hw, hstart, hstop⟩ := Range.window_whole first stop m c.query
    obtain ⟨whole, hwhole⟩ : ∃ whole, native.within .all items = .ok whole := by
      cases native <;> exact ⟨_, rfl⟩
    have noted : native.CanNote .all := by
      cases native with
      | selection q => exact Window.canWrite_all
      | lookup kind keys => trivial
    -- the whole selection was opened on the same items, so these are its records
    cases (hitems .all whole noted hwhole).symm.trans hx
    obtain ⟨rfl, cursor, token, query, hstarted, hd⟩ := hy
    obtain rfl : whole = cursor := congrArg Rows.pending hstarted
    obtain ⟨rfl, part, rest⟩ := NativeQuery.delivers_within hwhole hd hstart hstop
    have ran := execute_on_window hc written hempty (hm ▸ hw) hf
    have unmet : native.Reaches m first stop ↔
        native.CutsAt (min (first.getD 0) m) (stop.map (min · m)) := by
      simp [NativeQuery.Reaches, hn]
    rw [unmet]
    refine ⟨fun near => ?_, fun far => ?_⟩
    · obtain ⟨noted, cursor, hcursor, reads⟩ := part near
      rw [stretchOf_min hl] at reads
      exact ⟨_, _, ran.trans (hitems w cursor noted hcursor), rfl, cursor, _, _, rfl, reads⟩
    · obtain ⟨f, stretched, notes, failing⟩ := rest far
      refine ⟨w, f, hw, stretched, fun written =>
        ⟨_, _, ran.trans (hitems w _ (notes written) failing), Result.failsFirst_start ?_ f _ _⟩⟩
      rw [issued]
      exact d.connections.isCancelled_issue d.scope

/-- A selection in a range gives out the part of the whole selection that lies in the range if the
range is empty, if the store can count to it, and always where keys are looked up. Otherwise the
first row cannot be read, for the fault that the store finds in its window. Consecutive ranges that
can be counted to give out the whole selection, each row once. -/
theorem execute_parts (hk : s.kind = .select) (hc : s.CompilesTo d parameters now c plan native)
    (hcount : ∀ x ∈ s.results, c.isCountCall x = false)
    (hm : d.settings.query.largest = .integer m)
    (hx : (execute s ⟨none, none⟩ parameters now).on d = (.ok result, after))
    (hy : result.Yields after.store reader records) (hl : records.length ≤ m) :
    (∀ first stop,
      (native.Reaches m first stop → ∃ ranged last,
        (execute s (.whole first stop) parameters now).on d = (.ok ranged, last) ∧
          ranged.Yields last.store reader (stretchOf (first.getD 0, stop) records)) ∧
      (¬native.Reaches m first stop → ∃ w f,
        (Range.whole first stop).window (.integer m) c.query = .ok w ∧ stretch w = .error f ∧
          (w.CanWrite → ∃ ranged last,
            (execute s (.whole first stop) parameters now).on d = (.ok ranged, last) ∧
              ranged.FailsFirst last f))) ∧
    ∀ cuts, cuts.Pairwise (· ≤ ·) →
      (∀ r ∈ Range.consecutive none cuts, native.Reaches m r.1 r.2) →
      ∃ parts,
        List.Forall₂ (fun r part => ∃ ranged last,
            (execute s (.whole r.1 r.2) parameters now).on d = (.ok ranged, last) ∧
              ranged.Yields last.store reader part)
          (Range.consecutive none cuts) parts ∧
        parts.flatten = records := by
  have hs : c.statement.isDelete = false := by
    simp [Statement.isDelete, hc.statement_kind, hk]
  have hf : plan.form ≠ .count := hc.form_ne_count hcount
  have part := execute_part hs hf hc hm hx hy hl
  refine ⟨part, fun cuts hcuts hreach => ?_⟩
  refine ⟨(Range.consecutive none cuts).map fun r => stretchOf (r.1.getD 0, r.2) records, ?_, ?_⟩
  · rw [List.forall₂_map_right_iff, List.forall₂_same]
    exact fun r hr => (part r.1 r.2).1 (hreach r hr)
  · have sorted : (0 :: cuts).Pairwise (· ≤ ·) :=
      List.pairwise_cons.mpr ⟨fun n _ => Nat.zero_le n, hcuts⟩
    exact Range.flatten_consecutive records none sorted

theorem execute_answer {q : Selection} (hd : d.Sound) (hn : d.store.current = none)
    (hc : s.CompilesTo d parameters now c plan (.selection q)) (hs : c.statement.isDelete = false)
    (hf : plan.form ≠ .count) (h : Store.CanScan d.shown q .all d.store.records) :
    ∃ result after reader, (execute s ⟨none, none⟩ parameters now).on d = (.ok result, after) ∧
      result.Yields after.store reader (Store.given d.shown q false d.store.records) := by
  have ran : (execute s ⟨none, none⟩ parameters now).on d = _ :=
    execute_select_on (w := .all) (p := (0, none)) hd hn hc hs hf rfl rfl rfl h
  have steady : d.store.outages.rows = none := by
    rw [hd.steady]
  refine ⟨_, _, _, ran, rfl, _, _, _, rfl, _,
    (Store.drain_ofReads_eq_ok_iff _ _ _ _).mpr ⟨rfl, rfl, ?_⟩⟩
  intro o ho
  cases steady.symm.trans ho

def authors (largest : Nat) : Database :=
  List.foldl DatabaseAction.step
    (start { Settings.default with
      query := { QuerySettings.default with largestRange := .integer largest } })
    [.register (.record "Author") ⟨"Author", [("id", false), ("name", false)]⟩
        [.plain ⟨"id", .integer, true, false, none, none, false, false⟩,
          .plain ⟨"name", .text, false, false, none, none, false, false⟩] none,
      .store (.put ⟨.root "Author" (.number 3), [("name", .text "Cal")]⟩ none),
      .store (.put ⟨.root "Author" (.number 1), [("name", .text "Ann")]⟩ none),
      .store (.put ⟨.root "Author" (.number 2), [("name", .text "Bob")]⟩ none)]

def byName : Statement where
  candidate := some (.record "Author")
  filter := .absent
  ordering := [⟨["name"], .text "descending"⟩]
  results := []
  sources := []
  grouping := []
  having := .absent
  aliasName := none
  kind := .select
  text := none
  extensions := []

theorem byName_on (largest : Nat) :
    ∃ c plan q result after reader records,
      byName.CompilesTo (authors largest) [] ⟨⟨2024, 1, 1⟩, 12, 0, 0, 0, false, none⟩ c plan
        (.selection q) ∧ c.statement.isDelete = false ∧ plan.form ≠ .count ∧
      (execute byName ⟨none, none⟩ [] ⟨⟨2024, 1, 1⟩, 12, 0, 0, 0, false, none⟩).on
        (authors largest) =
        (.ok result, after) ∧
      result.Yields after.store reader records ∧ records.length ≤ 3 := by
  have compiled : byName.CompilesTo (authors largest) [] ⟨⟨2024, 1, 1⟩, 12, 0, 0, 0, false, none⟩
      _ _
      (.selection _) := ⟨rfl, rfl, rfl⟩
  have sound : (authors largest).Sound := Reachable.sound ⟨_, _, rfl⟩
  have named (k : Key) (t : Text) : ∀ x ∈ [SortClause.mk "name" .descending],
      ∀ v ∈ (⟨k, [("name", .text t)]⟩ : Record).value? x.property,
        ∀ item ∈ Record.itemsOf v, item.IsComparable (authors largest).shown := by
    intro x hx v hv item hi
    obtain rfl := List.mem_singleton.mp hx
    obtain rfl : Value.text t = v := Option.some.inj hv
    obtain rfl := List.mem_singleton.mp hi
    trivial
  have scannable : Store.CanScan (authors largest).shown
      ⟨"Author", [], [⟨"name", .descending⟩], none, false⟩ .all (authors largest).store.records :=
    Store.canScan_of_comparable ⟨nofun, nofun⟩ nofun (List.forall_mem_cons.mpr
      ⟨named (.root "Author" (.number 3)) "Cal", List.forall_mem_cons.mpr
        ⟨named (.root "Author" (.number 1)) "Ann",
          List.forall_mem_singleton.mpr (named (.root "Author" (.number 2)) "Bob")⟩⟩)
  obtain ⟨result, after, reader, ran, yields⟩ :=
    execute_answer sound rfl compiled rfl (by decide) scannable
  exact ⟨_, _, _, result, after, reader, _, compiled, rfl, by decide, ran, yields,
    Store.length_given_le _ _ _ _⟩

theorem execute_parts_authors :
    ∃ result after reader records,
      (execute byName ⟨none, none⟩ [] ⟨⟨2024, 1, 1⟩, 12, 0, 0, 0, false, none⟩).on (authors 1000) =
        (.ok result, after) ∧
      result.Yields after.store reader records ∧
      ∃ parts : List (List Record),
        List.Forall₂ (fun r part => ∃ ranged last,
            (execute byName (.whole r.1 r.2) [] ⟨⟨2024, 1, 1⟩, 12, 0, 0, 0, false, none⟩).on
              (authors 1000) = (.ok ranged, last) ∧ ranged.Yields last.store reader part)
          [(none, some 1), (some 1, some 2), (some 2, none)] parts ∧
        parts.flatten = records := by
  obtain ⟨c, plan, q, result, after, reader, records, compiled, -, -, ran, yields, few⟩ :=
    byName_on 1000
  have largest : (authors 1000).settings.query.largest = .integer 1000 := rfl
  have near : (1000 : Nat) ≤ farthest := by decide
  obtain ⟨-, consecutive⟩ := execute_parts rfl compiled (by simp [byName]) largest ran yields
    (Nat.le_trans few (by decide))
  obtain ⟨parts, given, joined⟩ := consecutive [1, 2] (by decide)
    fun r _ => NativeQuery.reaches_of_le near r.1 r.2 _
  exact ⟨result, after, reader, records, ran, yields, parts, given, joined⟩

/-- Where larger numbers are allowed than a cursor can count to, the first row of a range that
begins there fails, where the range has no rows. -/
theorem execute_beyond_farthest :
    ∃ result after reader records,
      (execute byName ⟨none, none⟩ [] ⟨⟨2024, 1, 1⟩, 12, 0, 0, 0, false, none⟩).on
        (authors (2 ^ 63)) =
        (.ok result, after) ∧
      result.Yields after.store reader records ∧ records.length ≤ 2 ^ 63 ∧
      ∃ ranged last,
        (execute byName (.whole (some (2 ^ 63)) none) []
            ⟨⟨2024, 1, 1⟩, 12, 0, 0, 0, false, none⟩).on (authors (2 ^ 63)) = (.ok ranged, last) ∧
          ranged.FailsFirst last (.misuse (.number ("Indices for islice() " ++
            "must be None or an integer: 0 <= x <= sys.maxsize."))) ∧
          ¬ranged.Yields last.store reader (stretchOf (2 ^ 63, none) records) := by
  obtain ⟨c, plan, q, result, after, reader, records, compiled, select, form, ran, yields, few⟩ :=
    byName_on (2 ^ 63)
  have short : records.length ≤ 2 ^ 63 := Nat.le_trans few (by decide)
  have far : ¬NativeQuery.Reaches (2 ^ 63) (some (2 ^ 63)) none (.selection q) := by
    rintro (none | ⟨near, -⟩)
    · cases none
    · revert near
      decide
  obtain ⟨w, f, window, stretched, fails⟩ :=
    (execute_part select form compiled rfl ran yields short (some (2 ^ 63)) none).2 far
  cases window
  cases stretched
  have written : Window.CanWrite ⟨some (.integer (2 ^ 63)), none⟩ := ⟨⟨_, rfl⟩, nofun⟩
  obtain ⟨ranged, last, partly, first⟩ := fails written
  exact ⟨result, after, reader, records, ran, yields, short, ranged, last, partly, first,
    first.not_yields _ _ _⟩

end Database
end RecordStore
