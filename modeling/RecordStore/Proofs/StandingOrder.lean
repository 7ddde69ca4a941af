import Mathlib.Algebra.Order.Ring.Rat
import RecordStore.Value.Rank
import RecordStore.Proofs.KeyOrder

/-!
# The order of stored values is total

Values of all types stand in one total order, except for numbers that are not a number, times of
zones that vary, and values that cannot be shown where they are ordered by how they are shown. The
order is spelled out by parts: the tier first, and then what the tier is ordered by.
-/

set_option autoImplicit false

namespace RecordStore

/-- Where a quantity lies: below all fractions, at a fraction, or above all of them. -/
def Quantity.place : Quantity → Int × Rat
  | .exact q => (0, q)
  | .negativeInfinity => (-1, 0)
  | .positiveInfinity => (1, 0)
  | .undefined | .scaled _ _ => (2, 0)

def Quantity.IsPlain : Quantity → Prop
  | .exact _ | .negativeInfinity | .positiveInfinity => True
  | .undefined | .scaled _ _ => False

namespace Quantity

def comparePlaces (a b : Int × Rat) : Ordering :=
  compareLex (compareOn Prod.fst) (compareOn Prod.snd) a b

instance : Std.TransCmp comparePlaces := inferInstanceAs (Std.TransCmp (compareLex _ _))

theorem compare?_eq {a b : Quantity} (ha : a.IsPlain) (hb : b.IsPlain) :
    a.compare? b = some (comparePlaces a.place b.place) := by
  cases a <;> cases b <;> first | exact ha.elim | exact hb.elim | rfl

end Quantity

theorem Double.isPlain_quantity {x : Double} (h : x.isNaN = false) : x.quantity.IsPlain := by
  unfold Double.isNaN at h
  unfold Double.quantity
  cases hp : x.parts with
  | nan => simp [hp] at h
  | infinite negative => cases negative <;> exact trivial
  | finite negative m scale =>
    dsimp only
    split <;> exact trivial

instance : Std.TransCmp Bytes.order := inferInstanceAs (Std.TransCmp (List.compareLex _))

namespace Moment

def IsFixed (m : Moment) : Prop := ∃ offset, m.zone = some (.fixed offset)

theorem order?_of_isFixed {a b : Moment} (ha : a.IsFixed) (hb : b.IsFixed) :
    a.order? b = some (compare a.instant b.instant) := by
  obtain ⟨_, ha⟩ := ha
  obtain ⟨_, hb⟩ := hb
  simp [order?, sharesZone, offset, ha, hb, Zone.offset]

theorem same_of_isFixed {a b : Moment} (ha : a.IsFixed) (hb : b.IsFixed) :
    a.same b = (compare a.instant b.instant == .eq) := by
  have settled {m : Moment} (h : m.IsFixed) : m.isSettled = true := by
    obtain ⟨_, h⟩ := h
    simp [isSettled, offset, refolded, h, Zone.offset, Zone.refolded]
  simp [same, order?_of_isFixed ha hb, settled ha, settled hb]

theorem isFixed_anchored {m : Moment} (h : ∀ zone ∈ m.zone, zone.isFixed = true) :
    m.anchored.IsFixed := by
  cases hz : m.zone with
  | none => exact ⟨0, by simp [anchored, hz]⟩
  | some zone =>
    cases zone with
    | fixed offset => exact ⟨offset, by simp [anchored, hz]⟩
    | varying => cases h _ hz

end Moment

namespace Standing

def flagPart : Standing → Bool
  | .flag b => b
  | _ => false

def numberPart : Standing → Int × Rat
  | .number q => q.place
  | _ => (0, 0)

def textPart : Standing → Text
  | .text t | .other (.ok t) => t
  | _ => Text.empty

def binaryPart : Standing → Bytes
  | .binary bs => bs
  | _ => []

def keyPart : Standing → Rank
  | .key r => r
  | _ => []

def timePart : Standing → Int
  | .time m => m.instant
  | _ => 0

def order : Standing → Standing → Ordering :=
  compareLex (compareOn tier) <| compareLex (compareOn flagPart) <|
    compareLex (fun a b => Quantity.comparePlaces a.numberPart b.numberPart) <|
    compareLex (fun a b => a.textPart.order b.textPart) <|
    compareLex (fun a b => a.binaryPart.order b.binaryPart) <|
    compareLex (fun a b => Key.orderRank a.keyPart b.keyPart) (compareOn timePart)

instance : Std.TransCmp order :=
  have := transCmp_on Quantity.comparePlaces numberPart
  have := transCmp_on Text.order textPart
  have := transCmp_on Bytes.order binaryPart
  have := transCmp_on Key.orderRank keyPart
  inferInstanceAs (Std.TransCmp (compareLex _ _))

/-- Whether the order leaves nothing open about a standing. -/
def IsPlain : Standing → Prop
  | .number q => q.IsPlain
  | .time m => m.IsFixed
  | .other (.error _) => False
  | _ => True

theorem compare?_eq {a b : Standing} (ha : a.IsPlain) (hb : b.IsPlain) :
    a.compare? b = some (order a b) := by
  -- standings of two tiers are told apart by the first part
  rcases a with _ | _ | _ | _ | _ | _ | _ | ⟨_ | _⟩ <;>
    rcases b with _ | _ | _ | _ | _ | _ | _ | ⟨_ | _⟩ <;>
      first | exact ha.elim | exact hb.elim | rfl | skip
  -- and of standings of one tier all parts but one are alike
  all_goals simp only [compare?, order, compareLex, compareOn, tier, flagPart, numberPart, textPart,
    binaryPart, keyPart, timePart, Std.ReflCmp.compare_self, Ordering.eq_then, Ordering.then_eq]
  · exact Quantity.compare?_eq ha hb
  · exact Moment.order?_of_isFixed ha hb

theorem holds_eq {a b : Standing} (ha : a.IsPlain) (hb : b.IsPlain) (c : Comparator) :
    a.holds c b = c.holds (some (order a b)) := by
  rw [← compare?_eq ha hb]
  unfold holds
  split
  · rename_i m n
    rw [Moment.same_of_isFixed ha hb, compare?, Moment.order?_of_isFixed ha hb]
    cases compare m.instant n.instant <;> rfl
  · rfl

theorem holds_text (c : Comparator) (t u : Text) :
    (Standing.text t).holds c (.text u) = c.holds (some (t.order u)) := by
  cases c <;> rfl

theorem precedes_iff {a b : Standing} (ha : a.IsPlain) (hb : b.IsPlain) :
    a.precedes b = true ↔ order a b = .lt := by
  rw [precedes, compare?_eq ha hb]
  cases order a b <;> simp [Comparator.holds]

theorem isOrdered_of_isPlain {s : Standing} (h : s.IsPlain) : s.isOrdered = true := by
  rcases s with _ | _ | _ | _ | _ | _ | _ | ⟨_ | _⟩
  · rfl
  · rfl
  · simp [isOrdered, Quantity.compare?_eq h h]
  · rfl
  · rfl
  · rfl
  · obtain ⟨offset, h⟩ := h
    simp [isOrdered, h, Zone.isFixed]
  · exact h.elim
  · rfl

/-- Whether nothing keeps a standing from being compared with others. -/
def IsComparable : Standing → Prop
  | .time m => m.offset.isSome = true
  | .other (.error _) => False
  | _ => True

theorem fault?_eq_none {s : Standing} (h : s.IsComparable) : s.fault? = none := by
  rcases s with _ | _ | _ | _ | _ | _ | _ | ⟨_ | _⟩ <;> first | exact h.elim | rfl

theorem clash?_eq_none {s t : Standing} (hs : s.IsComparable) (ht : t.IsComparable) :
    s.clash? t = none := by
  unfold clash?
  split
  · rename_i a b
    have ordered : (a.order? b).isSome = true := by
      rw [Moment.order?]
      split
      · rfl
      · rw [hs, ht]
        rfl
    rw [if_pos ordered]
  · rfl

theorem isComparable_extreme (direction : Direction) {s : Standing} {rest : List Standing}
    (hs : s.IsComparable) (hrest : ∀ x ∈ rest, x.IsComparable) :
    (s.extreme direction rest).IsComparable := by
  have better {p : Standing → Standing → Bool} :
      (rest.foldl (fun m x => if p x m then x else m) s).IsComparable := by
    induction rest generalizing s with
    | nil => exact hs
    | cons x rest ih =>
      obtain ⟨hx, hrest⟩ := List.forall_mem_cons.mp hrest
      rw [List.foldl_cons]
      split
      · exact ih hx hrest
      · exact ih hs hrest
  cases direction with
  | ascending => exact better
  | descending => exact better (p := fun x m => m.precedes x)

theorem extremeClash?_eq_none (direction : Direction) {s : Standing} {rest : List Standing}
    (hs : s.IsComparable) (hrest : ∀ x ∈ rest, x.IsComparable) :
    extremeClash? direction s rest = none := by
  induction rest generalizing s with
  | nil => rfl
  | cons x rest ih =>
    obtain ⟨hx, hrest⟩ := List.forall_mem_cons.mp hrest
    have best : (s.extreme direction [x]).IsComparable :=
      isComparable_extreme direction hs (List.forall_mem_singleton.mpr hx)
    rw [extremeClash?, clash?_eq_none hx hs, ih best hrest]
    rfl

theorem clashAmong?_eq_none {standings : List Standing} (h : ∀ s ∈ standings, s.IsComparable) :
    clashAmong? standings = none := by
  induction standings with
  | nil => rfl
  | cons s rest ih =>
    obtain ⟨hs, hrest⟩ := List.forall_mem_cons.mp h
    have others : rest.findSome? s.clash? = none :=
      List.findSome?_eq_none_iff.mpr fun t ht => clash?_eq_none hs (hrest t ht)
    rw [clashAmong?, others, ih hrest]
    rfl

end Standing

def Value.IsPlain (shown : Value → Except Fault Text) : Value → Prop
  | .real x => x.isNaN = false
  | .moment m => ∀ zone ∈ m.zone, zone.isFixed = true
  | .null | .flag _ | .integer _ | .text _ | .bytes _ | .byteArray _ | .blob _ | .date _ | .key _ =>
    True
  | v => ∃ t, shown v = .ok t

theorem Standing.isPlain_ofValue {shown : Value → Except Fault Text} {v : Value}
    (h : v.IsPlain shown) : (ofValue shown v).IsPlain := by
  have ofShown {v : Value} (h : ∃ t, shown v = .ok t) : (other (shown v)).IsPlain := by
    obtain ⟨t, h⟩ := h
    rw [h]
    exact trivial
  cases v with
  | real x => exact Double.isPlain_quantity h
  | moment m => exact Moment.isFixed_anchored h
  | date d => exact Moment.isFixed_anchored nofun
  | decimal d | choice type member value | object i | collection c items => exact ofShown h
  | _ => exact trivial

def Value.IsComparable (shown : Value → Except Fault Text) : Value → Prop
  | .moment m => ∀ zone ∈ m.zone, zone.offset.isSome = true
  | .null | .flag _ | .integer _ | .real _ | .text _ | .bytes _ | .byteArray _ | .blob _ | .date _
  | .key _ => True
  | v => ∃ t, shown v = .ok t

theorem Standing.isComparable_ofValue {shown : Value → Except Fault Text} {v : Value}
    (h : v.IsComparable shown) : (ofValue shown v).IsComparable := by
  have ofShown {v : Value} (h : ∃ t, shown v = .ok t) : (other (shown v)).IsComparable := by
    obtain ⟨t, h⟩ := h
    rw [h]
    exact trivial
  cases v with
  | moment m =>
    show m.anchored.offset.isSome = true
    rw [Moment.anchored, Moment.offset]
    cases hz : m.zone with
    | none => rfl
    | some zone => exact h zone hz
  | date d => rfl
  | decimal d | choice type member value | object i | collection c items => exact ofShown h
  | _ => exact trivial

theorem Value.isComparable_of_isPlain {shown : Value → Except Fault Text} {v : Value}
    (h : v.IsPlain shown) : v.IsComparable shown := by
  cases v with
  | moment m =>
    intro zone hz
    have fixed := h zone hz
    cases zone with
    | fixed offset => rfl
    | varying => cases fixed
  | real x => exact trivial
  | _ => exact h

theorem foldl_better {α : Type} (cmp : α → α → Ordering) [Std.TransCmp cmp] (better : α → α → Bool)
    (P : α → Prop) (hb : ∀ a b, P a → P b → (better a b = true ↔ cmp a b = .lt)) (s : α)
    (rest : List α) (hP : ∀ x ∈ s :: rest, P x) :
    rest.foldl (fun m x => if better x m then x else m) s ∈ s :: rest ∧
      ∀ x ∈ s :: rest, (cmp (rest.foldl (fun m x => if better x m then x else m) s) x).isLE := by
  induction rest generalizing s with
  | nil => simp [@Std.ReflCmp.compare_self _ cmp _ _]
  | cons y rest ih =>
    obtain ⟨hs, hy, hrest⟩ : P s ∧ P y ∧ ∀ x ∈ rest, P x := by simpa using hP
    rw [List.foldl_cons]
    by_cases hys : better y s = true
    · rw [if_pos hys]
      obtain ⟨hm, hle⟩ := ih y (List.forall_mem_cons.mpr ⟨hy, hrest⟩)
      have hyl : (cmp y s).isLE := by rw [(hb y s hy hs).mp hys]; rfl
      exact ⟨.tail _ hm, List.forall_mem_cons.mpr
        ⟨Std.TransCmp.isLE_trans (hle y (.head _)) hyl, hle⟩⟩
    · rw [if_neg hys]
      obtain ⟨hm, hle⟩ := ih s (List.forall_mem_cons.mpr ⟨hs, hrest⟩)
      have hsy : (cmp s y).isLE := by
        by_contra hn
        exact hys ((hb y s hy hs).mpr (Std.OrientedCmp.lt_of_not_isLE hn))
      have hms := hle s (.head _)
      refine ⟨by grind, List.forall_mem_cons.mpr ⟨hms, List.forall_mem_cons.mpr ⟨?_, ?_⟩⟩⟩
      · exact Std.TransCmp.isLE_trans hms hsy
      · exact fun x hx => hle x (.tail _ hx)

namespace Standing

theorem least_spec {s : Standing} {rest : List Standing} (h : ∀ x ∈ s :: rest, x.IsPlain) :
    s.least rest ∈ s :: rest ∧ ∀ x ∈ s :: rest, (order (s.least rest) x).isLE :=
  foldl_better order precedes IsPlain (fun _ _ => precedes_iff) s rest h

theorem greatest_spec {s : Standing} {rest : List Standing} (h : ∀ x ∈ s :: rest, x.IsPlain) :
    s.greatest rest ∈ s :: rest ∧ ∀ x ∈ s :: rest, (order x (s.greatest rest)).isLE :=
  foldl_better (fun a b => order b a) (fun a b => precedes b a) IsPlain
    (fun _ _ ha hb => precedes_iff hb ha) s rest h

end Standing
end RecordStore
