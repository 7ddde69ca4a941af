import Mathlib.Algebra.Group.Nat.Defs
import RecordStore.Key.Basic
import RecordStore.Key.Token
import RecordStore.Proofs.Attempts

/-!
# Keys of one record

Keys that differ only in flags and numbers name the same record. This is an equivalence, and no
question that a query asks of a key tells such keys apart, nor does it matter to whether a key can
be written: it can unless one of its numbers is too long.
-/

set_option autoImplicit false

namespace RecordStore

theorem Numeral.isLongerThan_iff (digits n : Nat) :
    isLongerThan digits n = true ↔ 10 ^ digits ≤ n := by
  induction digits, n using isLongerThan.induct with
  | case1 digits => simp [isLongerThan]
  | case2 n => simp [isLongerThan]
  | case3 digits n ih => rw [isLongerThan, ih, Nat.le_div_iff_mul_le (by decide), pow_succ]

theorem Text.numeral_eq_ok_iff (n : Int) (t : Text) :
    Text.numeral n = .ok t ↔ n.natAbs < 10 ^ Numeral.maxDigits ∧ Text.ofInt n = t := by
  rw [← Nat.not_le, ← Numeral.isLongerThan_iff, numeral]
  cases Numeral.isLongerThan Numeral.maxDigits n.natAbs <;> simp

/-- Whether an identity is no number or one that is not too long to be written. -/
def Identity.IsShort : Identity → Prop
  | .number n => n.natAbs < 10 ^ Numeral.maxDigits
  | _ => True

namespace Identity

theorem text_isOk_iff (i : Identity) : (∃ t, i.text = .ok t) ↔ i.IsShort := by
  cases i <;> simp [text, IsShort, Text.numeral_eq_ok_iff]

theorem isShort_normal (i : Identity) : i.normal.IsShort ↔ i.IsShort := by
  cases i with
  | flag b =>
    refine iff_of_true ?_ trivial
    have one : (ofFlag b).natAbs ≤ 1 := by cases b <;> decide
    exact Nat.lt_of_le_of_lt one (Nat.one_lt_pow (by decide) (by decide))
  | _ => rfl

end Identity

namespace Key

def IsShort : Key → Prop
  | .root _ i => i.IsShort
  | .child p _ i => p.IsShort ∧ i.IsShort

theorem isShort_iff (k : Key) : k.IsShort ↔ ∀ s ∈ k.path, s.2.IsShort := by
  induction k with
  | root kind i => simp [IsShort, path]
  | child p kind i ih => simp [IsShort, path, ih, or_imp, forall_and]

theorem pathText_isOk_iff (k : Key) : (∃ t, k.pathText = .ok t) ↔ k.IsShort := by
  have step (s : Step) : (∃ t, stepText s = .ok t) ↔ s.2.IsShort := by
    rw [← Identity.text_isOk_iff]
    simp [stepText, bind_isOk_iff, pure, Except.pure]
  simp [isShort_iff, ← step, ← mapM_isOk_iff, pathText, bind_isOk_iff, pure, Except.pure]

theorem map_pathText {α : Type} {k : Key} (h : k.IsShort) (a : α) :
    k.pathText.map (fun _ => a) = .ok a := by
  obtain ⟨t, ht⟩ := k.pathText_isOk_iff.mpr h
  rw [ht]
  rfl

theorem forM_numbers_stepJson (s : Step) :
    (stepJson s).numbers.forM (fun n => discard (Text.numeral n)) =
      (stepText s).map fun _ => () := by
  obtain ⟨kind, id⟩ := s
  cases id with
  | number n =>
    have text : stepText (kind, .number n) = Text.numeral n >>= fun t =>
        .ok (kind ++ "(" ++ t ++ ")") :=
      rfl
    have numbers : (stepJson (kind, .number n)).numbers = [n] := by
      simp [stepJson, Identity.json, Json.numbers, Json.numbersEach]
    rw [numbers, text]
    cases h : Text.numeral n <;> simp [h] <;> rfl
  | _ => rfl

theorem forM_numbers_steps (steps : List Step) :
    (Json.numbersEach (steps.map stepJson)).forM (fun n => discard (Text.numeral n)) =
      (steps.mapM stepText).map fun _ => () := by
  induction steps with
  | nil => rfl
  | cons s rest ih =>
    rw [List.map_cons, Json.numbersEach, List.forM_eq_forM, List.forM_append, ← List.forM_eq_forM,
      forM_numbers_stepJson, ih, List.mapM_cons]
    cases stepText s <;> cases rest.mapM stepText <;> rfl

theorem encode_eq (k : Key) : k.encode = k.pathText.map fun _ => k.token := by
  rw [encode, tokenOf, pathText]
  show ((Json.numbersEach (k.path.map stepJson)).forM _ >>= _) = _
  rw [forM_numbers_steps]
  cases k.path.mapM stepText <;> rfl

theorem text_isOk_iff (k : Key) : (∃ t, k.text = .ok t) ↔ k.IsShort := by
  induction k with
  | root kind i =>
    rw [IsShort, ← Identity.text_isOk_iff]
    simp [text, bind_isOk_iff, pure, Except.pure]
  | child p kind i ih =>
    rw [IsShort, ← Identity.text_isOk_iff, ← ih]
    simp [text, bind_isOk_iff, pure, Except.pure, and_comm]

theorem same_iff (a b : Key) : a.same b = true ↔ a.normal = b.normal := by
  simp [same]

@[simp] theorem same_self (a : Key) : a.same a = true := by
  simp [same]

theorem same_comm (a b : Key) : a.same b = b.same a := by
  simp [same, eq_comm]

theorem same_trans {a b c : Key} (hab : a.same b = true) (hbc : b.same c = true) :
    a.same c = true := by
  rw [same_iff] at *
  exact hab.trans hbc

theorem same_congr_left {a b : Key} (h : a.same b = true) (c : Key) : a.same c = b.same c := by
  simp only [same, (same_iff a b).mp h]

theorem same_congr_right {a b : Key} (h : a.same b = true) (c : Key) : c.same a = c.same b := by
  simp only [same, (same_iff a b).mp h]

theorem kind_eq_of_same {a b : Key} (h : a.same b = true) : a.kind = b.kind := by
  have normal (k : Key) : k.normal.kind = k.kind := by cases k <;> rfl
  rw [← normal a, (same_iff a b).mp h, normal]

theorem isAncestorOf_congr_left {a b : Key} (h : a.same b = true) (c : Key) :
    a.isAncestorOf c = b.isAncestorOf c := by
  induction c with
  | root kind id => exact same_congr_left h _
  | child parent kind id ih =>
    simp only [isAncestorOf, ih, same_congr_left h]

theorem isShort_normal (k : Key) : k.normal.IsShort ↔ k.IsShort := by
  induction k with
  | root kind i => exact i.isShort_normal
  | child p kind i ih => exact and_congr ih i.isShort_normal

theorem isShort_congr {a b : Key} (h : a.same b = true) : a.IsShort ↔ b.IsShort := by
  rw [← a.isShort_normal, (same_iff a b).mp h, b.isShort_normal]

theorem isShort_of_isAncestorOf {a b : Key} (h : a.isAncestorOf b = true) (short : b.IsShort) :
    a.IsShort := by
  induction b with
  | root kind i => exact (isShort_congr h).mpr short
  | child p kind i ih =>
    rcases Bool.or_eq_true_iff.mp h with same | above
    · exact (isShort_congr same).mpr short
    · exact ih above short.1

end Key
end RecordStore
