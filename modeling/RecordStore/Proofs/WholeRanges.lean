import Mathlib.Algebra.Order.Ring.Cast
import Mathlib.Algebra.Order.Ring.Rat
import Mathlib.Data.Int.Cast.Lemmas
import RecordStore.Proofs.Attempts
import RecordStore.Store.Cursor

/-!
# Ranges of whole numbers

A range whose bounds are whole numbers that are not negative becomes a window, and the store cuts
the rows at the same positions, as far as the largest number lets it.
-/

set_option autoImplicit false

namespace RecordStore
namespace Bound

theorem isBelow_integer (m n : Int) : (integer m).isBelow (.integer n) = .ok (decide (m < n)) := by
  have hlt : ((m : Rat) < n) ↔ m < n := Rat.intCast_lt_intCast
  have heq : ((m : Rat) = n) ↔ m = n := Rat.intCast_inj
  simp only [isBelow, quantity?, Quantity.compare?]
  by_cases h : m < n
  · simp [hlt, h]
  · by_cases he : m = n
    · simp [he]
    · simp [hlt, heq, h, he]

theorem isZero_integer (n : Int) : (integer n).isZero = decide (n = 0) := by
  have hlt : ((n : Rat) < 0) ↔ n < 0 := Int.cast_lt_zero
  have heq : ((n : Rat) = 0) ↔ n = 0 := Int.cast_eq_zero
  simp only [isZero, quantity?, Quantity.compare?, Option.any_some]
  by_cases he : n = 0
  · simp [he]
  · by_cases h : n < 0
    · simp [hlt, h, he]
    · simp [hlt, heq, h, he]

theorem least_integer (m n : Nat) :
    (integer m).least (.integer n) = .ok (.integer (min n m : Nat)) := by
  rw [least, isBelow_integer]
  by_cases h : n < m
  · have hm : min n m = n := Nat.min_eq_left (Nat.le_of_lt h)
    have hz : decide ((n : Int) < m) = true := decide_eq_true (by omega)
    rw [hm, hz]
    rfl
  · have hm : min n m = m := Nat.min_eq_right (Nat.le_of_not_lt h)
    have hz : decide ((n : Int) < m) = false := decide_eq_false (by omega)
    rw [hm, hz]
    rfl

theorem add_integer (m n : Int) : (integer m).add (.integer n) = .ok (.integer (m + n)) := rfl

theorem subtract_integer (m n : Int) :
    (integer m).subtract (.integer n) = .ok (.integer (m - n)) := rfl

theorem unlessZero_integer (n : Int) : (integer n).unlessZero = .integer n := by
  rw [unlessZero, isZero_integer]
  by_cases h : n = 0
  · simp [h]
    rfl
  · simp [h]

end Bound

namespace Cursor

/-- Whether a cursor can count to the positions where a window starts and stops. -/
def IsNear (start : Nat) (stop : Option Nat) : Prop :=
  (start : Int) ≤ farthest ∧ ∀ n ∈ stop, (n : Int) ≤ farthest

theorem isNear_of_le {largest : Nat} (hl : largest ≤ farthest) (start : Nat) (stop : Option Nat) :
    IsNear (min start largest) (stop.map (min · largest)) := by
  refine ⟨by omega, fun n hn => ?_⟩
  obtain ⟨m, -, rfl⟩ := Option.mem_map.mp hn
  omega

variable {w : Window} {start : Nat} {stop : Option Nat}

theorem stretch_integer (hs : w.start = .integer start)
    (ht : w.stop = .ok (stop.map fun n : Nat => .integer n)) (hn : IsNear start stop) :
    stretch w = .ok (start, stop) := by
  refine (bind_eq_ok_iff _ _ _).mpr ⟨_, ht, ?_⟩
  have hposition : isPosition start = true := by
    simp [isPosition, hn.1]
  cases stop with
  | none => simp [hs, Bound.position?, hposition]; rfl
  | some n =>
    have hlast := hn.2 n rfl
    have hplace : isPosition n = true := by
      simp [isPosition, hlast]
    have hbad : ¬ (farthest < (n : Int) ∨ (n : Int) < -farthest - 1) := by
      rw [farthest] at hlast ⊢
      omega
    simp [hs, Bound.position?, hposition, hplace, if_neg hbad]
    rfl

theorem isNear_of_stretch (hs : w.start = .integer start)
    (ht : w.stop = .ok (stop.map fun n : Nat => .integer n)) {p : Nat × Option Nat}
    (h : stretch w = .ok p) : IsNear start stop := by
  obtain ⟨_, hstop, h⟩ := (bind_eq_ok_iff _ _ _).mp h
  obtain rfl := Except.ok.inj (ht.symm.trans hstop)
  simp only [hs, Bound.position?, Option.any_map, Option.any_some] at h
  split at h
  · cases h
  split at h
  · cases h
  case isFalse hplace =>
    simp only [isPosition, Bool.or_eq_true, not_or, Bool.not_eq_true', Bool.not_eq_false] at hplace
    refine ⟨by simpa using hplace.1, ?_⟩
    rintro n ⟨⟩
    simpa using hplace.2

end Cursor

namespace Range

def whole (first stop : Option Nat) : Range :=
  ⟨first.map fun n : Nat => .integer n, stop.map fun n : Nat => .integer n⟩

def hasNone : Option Nat → Option Nat → Bool
  | _, none => false
  | first, some stop => stop ≤ first.getD 0

theorem equalsZero_integer (n : Int) : (Bound.integer n).equalsZero = .ok (decide (n = 0)) :=
  congrArg Except.ok (Bound.isZero_integer n)

theorem isEmpty_whole (first stop : Option Nat) :
    (whole first stop).isEmpty = .ok (hasNone first stop) := by
  cases stop with
  | none => cases first <;> rfl
  | some b =>
    cases first with
    | none =>
      show (Bound.integer b).equalsZero = .ok (decide (b ≤ 0))
      rw [equalsZero_integer]
      congr 2
      exact propext (by omega)
    | some a =>
      show (do
        if ← (Bound.integer b).equalsZero then return true
        else
          let rest ← (Bound.integer b).subtract (.integer a)
          return rest.isZero || (← rest.isBelow 0)) = Except.ok (decide (b ≤ a))
      rw [equalsZero_integer, Bound.subtract_integer]
      by_cases hb : (b : Int) = 0
      · have h : b ≤ a := by omega
        rw [decide_eq_true hb, decide_eq_true h]
        rfl
      · rw [decide_eq_false hb]
        show (do return (Bound.integer (b - a)).isZero || (← (Bound.integer (b - a)).isBelow 0)) = _
        rw [Bound.isZero_integer]
        show ((Bound.integer (b - a)).isBelow (.integer 0) >>= fun below => _) = _
        rw [Bound.isBelow_integer]
        show Except.ok (decide ((b : Int) - a = 0) || decide ((b : Int) - a < 0)) = _
        rw [← Bool.decide_or]
        congr 2
        exact propext (by omega)

theorem isNegative_whole (n : Option Nat) :
    isNegative (n.map fun n : Nat => Bound.integer n) = .ok false := by
  cases n with
  | none => rfl
  | some n =>
    show (Bound.integer n).isBelow (.integer 0) = _
    rw [Bound.isBelow_integer]
    have h : ¬ (n : Int) < 0 := by omega
    simp [h]

theorem window_whole (first stop : Option Nat) (largest : Nat) (query : Option Text) :
    ∃ w, (whole first stop).window (.integer largest) query = .ok w ∧
      w.start = .integer (min (first.getD 0) largest : Nat) ∧
      w.stop = .ok ((stop.map (min · largest)).map fun n : Nat => .integer n) := by
  -- what the bounds of the window come to
  let offset : Option Nat := if first.getD 0 = 0 then none else some (min (first.getD 0) largest)
  let limit : Option Int := stop.map fun n => (min n largest : Nat) - (offset.getD 0 : Nat)
  have hoffset : ((whole first stop).first.filter (!·.isZero)).mapM (Bound.integer largest).least =
      .ok (offset.map fun n : Nat => .integer n) := by
    cases first with
    | none => rfl
    | some n =>
      have hz : (Bound.integer n).isZero = decide (n = 0) := by
        rw [Bound.isZero_integer]
        exact decide_eq_decide.mpr (by omega)
      by_cases h : n = 0
      · subst h
        rfl
      · simp [whole, Option.filter, offset, hz, h, Bound.least_integer]
  have hoff : offset.getD 0 = min (first.getD 0) largest := by
    by_cases h : first.getD 0 = 0
    · simp [offset, h]
    · simp [offset, h]
  have hstart : Window.start ⟨offset.map fun n : Nat => .integer n, limit.map .integer⟩ =
      .integer (min (first.getD 0) largest : Nat) := by
    by_cases h : first.getD 0 = 0
    · simp only [Window.start, offset, if_pos h, h]
      rw [Nat.zero_min]
      exact Bound.unlessZero_integer 0
    · simp only [Window.start, offset, if_neg h]
      exact Bound.unlessZero_integer _
  refine ⟨⟨offset.map fun n : Nat => .integer n, limit.map .integer⟩, ?_, hstart, ?_⟩
  · refine (bind_eq_ok_iff _ _ _).mpr ⟨false, isNegative_whole first, ?_⟩
    simp only [Bool.false_eq_true, if_false]
    refine (bind_eq_ok_iff _ _ _).mpr ⟨false, isNegative_whole stop, ?_⟩
    simp only [Bool.false_eq_true, if_false]
    refine (bind_eq_ok_iff _ _ _).mpr ⟨_, hoffset,
      (bind_eq_ok_iff _ _ _).mpr ⟨limit.map .integer, ?_, rfl⟩⟩
    cases stop with
    | none => rfl
    | some n =>
      simp only [whole, Option.map_some, Option.mapM_some, Bound.least_integer]
      cases hs : offset with
      | none => simp [limit, hs]
      | some a => simp [limit, hs]; rfl
  · rw [Window.stop, hstart]
    cases stop with
    | none => rfl
    | some n =>
      have hsum : ((min (first.getD 0) largest : Nat) : Int) +
          ((min n largest : Nat) - (offset.getD 0 : Nat)) = (min n largest : Nat) := by
        rw [hoff]
        omega
      have hlim : limit = some ((min n largest : Nat) - (offset.getD 0 : Nat) : Int) := rfl
      simp only [hlim, Option.map_some, Option.mapM_some, Bound.add_integer, hsum]
      rfl

end Range

/-! All that can be wrong about a window is that its bounds are no positions, or no numbers. -/

namespace Bound

theorem misuses_toDouble (b : Bound) : Misuses b.toDouble := by
  cases b with
  | real x => exact misuses_ok x
  | _ =>
    simp only [toDouble]
    split
    · exact misuses_error _
    · split
      · exact misuses_error _
      · exact misuses_ok _

theorem misuses_toDecimal (b : Bound) : Misuses b.toDecimal := by
  cases b with
  | decimal d => exact misuses_ok d
  | _ =>
    simp only [toDecimal]
    split
    · exact misuses_error _
    · exact misuses_ok _

theorem misuses_combine (whole : Int → Int → Int)
    (decimal : Decimal → Decimal → Except Decimal.Signal Decimal) (real : Double → Double → Double)
    (a b : Bound) : Misuses (combine whole decimal real a b) := by
  rw [combine]
  split
  · exact misuses_ok _
  split
  · refine misuses_bind a.misuses_toDecimal fun x => misuses_bind b.misuses_toDecimal fun y => ?_
    cases decimal x y with
    | error signal => exact misuses_error _
    | ok d => exact misuses_ok _
  · exact misuses_bind a.misuses_toDouble fun x => misuses_bind b.misuses_toDouble fun y =>
      misuses_ok _

theorem misuses_isBelow (a b : Bound) : Misuses (a.isBelow b) := by
  rw [isBelow]
  split
  · split
    · exact misuses_ok _
    · split
      · exact misuses_error _
      · exact misuses_ok _
  · exact misuses_error _

theorem misuses_least (a b : Bound) : Misuses (a.least b) := by
  refine misuses_bind (b.misuses_isBelow a) fun below => ?_
  cases below <;> exact misuses_ok _

theorem misuses_equalsZero (b : Bound) : Misuses b.equalsZero := by
  unfold equalsZero
  split
  · exact misuses_error _
  · exact misuses_ok _

end Bound

theorem Range.misuses_isEmpty (r : Range) : Misuses r.isEmpty := by
  have behind (a b : Bound) : Misuses (do
      if ← b.equalsZero then return true
      else
        let rest ← b.subtract a
        return rest.isZero || (← rest.isBelow 0) : Except Fault Bool) := by
    refine misuses_bind b.misuses_equalsZero fun zero => ?_
    cases zero with
    | true => exact misuses_ok _
    | false =>
      exact misuses_bind (Bound.misuses_combine _ _ _ b a) fun rest =>
        misuses_bind (rest.misuses_isBelow 0) fun _ => misuses_ok _
  obtain ⟨first, stop⟩ := r
  cases stop with
  | none => exact misuses_ok _
  | some b =>
    cases first with
    | none => exact b.misuses_equalsZero
    | some a => exact behind a b

theorem Window.misuses_stop (w : Window) : Misuses w.stop := by
  rw [stop]
  cases w.limit with
  | none => exact misuses_ok _
  | some b => exact misuses_bind (Bound.misuses_combine _ _ _ w.start b) fun _ => misuses_ok _

theorem Cursor.misuses_stretch (w : Window) : Misuses (stretch w) := by
  refine misuses_bind w.misuses_stop fun stop => ?_
  dsimp only
  split
  · exact misuses_error _
  split
  · exact misuses_error _
  · exact misuses_ok _

end RecordStore
