import Mathlib.Algebra.Order.Ring.Cast
import RecordStore.Store.Record
import RecordStore.Value.Comparison
import RecordStore.Proofs.StandingOrder

/-!
# Comparing by order values

The order value of a value is a pair: the tier of its type, and what it is compared by within the
tier. Pairs are compared by the rules that hold for values of all types, and the comparison comes to
what a condition of a scan comes to. It fails for values that cannot be shown where they stand by
how they are shown, and for times whose zone has no offset. Times of zones that vary can be
compared, but not in one way; all other values but numbers that are not a number are in a total
order.
-/

set_option autoImplicit false

namespace RecordStore

instance : Std.LawfulEqCmp Bytes.order := inferInstanceAs (Std.LawfulEqCmp (List.compareLex _))

theorem compare_map {α β : Type} [LinearOrder α] [LinearOrder β] {f : α → β} (hf : StrictMono f)
    (a b : α) : compare (f a) (f b) = compare a b := by
  rw [← cmp_eq_compare, ← cmp_eq_compare]
  exact hf.cmp_map_eq a b

theorem Quantity.comparePlaces_exact (m n : Int) :
    comparePlaces (place (.exact m)) (place (.exact n)) = compare m n := by
  show Ordering.then .eq (compare (m : Rat) (n : Rat)) = compare m n
  rw [Ordering.eq_then]
  exact compare_map Int.cast_strictMono m n

namespace Comparator

theorem less_holds_iff (o : Ordering) : less.holds (some o) = true ↔ o = .lt := by
  cases o <;> simp [holds]

theorem equal_holds_iff (o : Ordering) : equal.holds (some o) = true ↔ o = .eq := by
  cases o <;> simp [holds]

theorem lessOrEqual_holds_iff (o : Ordering) :
    lessOrEqual.holds (some o) = true ↔ o.isLE = true := by
  cases o <;> simp [holds]

end Comparator

theorem Double.isNaN_of_isPlain {x : Double} (h : x.quantity.IsPlain) : x.isNaN = false := by
  unfold Double.quantity at h
  unfold Double.isNaN
  cases hp : x.parts with
  | nan => simp [hp, Quantity.IsPlain] at h
  | _ => rfl

def Value.tuple (items : List Value) : Value := .collection .tuple items

namespace Heap

/-- Whether every comparison of two values holds as an ordering of them says. -/
def ComparesAs (h : Heap) (x y : Value) (o : Ordering) : Prop :=
  ∀ comparator : Comparator, h.holds comparator x y = .ok (comparator.holds (some o))

variable {h : Heap} {x y : Value} {o p : Ordering}

theorem comparesAs_iff :
    h.ComparesAs x y o ↔ h.same x y = .ok (o == .eq) ∧ ∀ comparator, comparator ≠ .equal →
      h.inOrder comparator x y = .ok (comparator.holds (some o)) := by
  constructor
  · intro compared
    refine ⟨?_, fun comparator ordered => ?_⟩
    · have level := compared .equal
      rw [holds] at level
      rw [level]
      cases o <;> rfl
    · have held := compared comparator
      cases comparator with
      | equal => exact absurd rfl ordered
      | _ => exact held
  · rintro ⟨level, ordered⟩ comparator
    cases comparator with
    | equal =>
      rw [holds, level]
      cases o <;> rfl
    | _ => exact ordered _ nofun

theorem comparesAs_text (s t : Text) : h.ComparesAs (.text s) (.text t) (s.order t) := by
  refine comparesAs_iff.mpr ⟨?_, fun _ _ => rfl⟩
  have level : decide (s = t) = (s.order t == .eq) := by
    rw [Bool.eq_iff_iff, decide_eq_true_iff, beq_iff_eq]
    exact Std.LawfulEqCmp.compare_eq_iff_eq.symm
  simp [same, Value.sameWith, Value.sameAtom, Value.quantity?, Value.content?, level]

theorem comparesAs_bytes (xs ys : Bytes) :
    h.ComparesAs (.bytes xs) (.bytes ys) (Bytes.order xs ys) := by
  refine comparesAs_iff.mpr ⟨?_, fun _ _ => rfl⟩
  have level : (xs == ys) = (Bytes.order xs ys == .eq) := by
    rw [Bool.eq_iff_iff, beq_iff_eq, beq_iff_eq]
    exact Std.LawfulEqCmp.compare_eq_iff_eq.symm
  simp [same, Value.sameWith, Value.sameAtom, Value.quantity?, Value.content?, level]

theorem same_quantity {q r : Quantity} (hx : x.quantity? = some (.ok q))
    (hy : y.quantity? = some (.ok r)) :
    h.same x y = .ok (q.compare? r == some .eq || x.isOneNaN y) := by
  have level : Value.sameAtom x y = .ok (q.compare? r == some .eq || x.isOneNaN y) := by
    simp only [Value.sameAtom, hx, hy]
    rfl
  cases x <;> cases y <;>
    first | (cases hx; done) | (cases hy; done) | simpa [same, Value.sameWith] using level

theorem inOrder_quantity {q r : Quantity} (hx : x.quantity? = some (.ok q))
    (hy : y.quantity? = some (.ok r))
    (ordered : (q.compare? r).isSome = true ∨ isDecimal x = false ∧ isDecimal y = false)
    (comparator : Comparator) :
    h.inOrder comparator x y = .ok (comparator.holds (q.compare? r)) := by
  have atoms : h.inOrder comparator x y = (compareAtom x y).map comparator.holds := by
    cases x <;> first | (cases hx; done) | rfl
  have compared : compareAtom x y = .ok (q.compare? r) := by
    simp only [compareAtom, hx, hy, bind, Except.bind]
    cases found : q.compare? r with
    | some o => rfl
    | none =>
      rw [found] at ordered
      obtain ⟨left, right⟩ := ordered.resolve_left (by simp)
      simp [left, right, pure, Except.pure]
  rw [atoms, compared]
  rfl

theorem comparesAs_whole {m n : Int} (hx : x.quantity? = some (.ok (.exact m)))
    (hy : y.quantity? = some (.ok (.exact n))) : h.ComparesAs x y (compare m n) := by
  have compared : (Quantity.exact m).compare? (.exact n) = some (compare m n) := by
    rw [← Quantity.comparePlaces_exact]
    exact Quantity.compare?_eq trivial trivial
  have apart : x.isOneNaN y = false := by
    cases x with
    | real a =>
      cases y with
      | real b =>
        have plain : a.quantity.IsPlain := by
          rw [Except.ok.inj (Option.some.inj hx)]
          trivial
        rw [Value.isOneNaN, Double.isOneNaN, Double.isNaN_of_isPlain plain]
        rfl
      | _ => rfl
    | _ => rfl
  refine comparesAs_iff.mpr ⟨?_, fun comparator _ => ?_⟩
  · rw [same_quantity hx hy, compared, apart, Bool.or_false]
    rfl
  · rw [inOrder_quantity hx hy (.inl (by rw [compared]; rfl)), compared]

theorem comparesAs_flag (a b : Bool) : h.ComparesAs (.flag a) (.flag b) (compare a b) := by
  have level : compare (Identity.ofFlag a) (Identity.ofFlag b) = compare a b := by
    cases a <;> cases b <;> rfl
  rw [← level]
  exact comparesAs_whole rfl rfl

theorem same_tuple (xs ys : List Value) :
    h.same (.tuple xs) (.tuple ys) =
      Value.sameItems (h.sameObject (h.size * h.size + 1)) xs ys := by
  simp [same, Value.tuple, Value.sameWith, Collection.isOrdered]

theorem same_tuple_cons (x y : Value) (xs ys : List Value) :
    h.same (.tuple (x :: xs)) (.tuple (y :: ys)) =
      h.same x y >>= fun level => if level then h.same (.tuple xs) (.tuple ys) else .ok false := by
  rw [same_tuple, same_tuple, Value.sameItems]
  rfl

theorem comparesAs_tuple_nil : h.ComparesAs (.tuple []) (.tuple []) .eq :=
  comparesAs_iff.mpr ⟨by rw [same_tuple, Value.sameItems]; rfl, fun _ _ => rfl⟩

theorem comparesAs_tuple_cons {xs ys : List Value} (first : h.ComparesAs x y o)
    (others : o = .eq → h.ComparesAs (.tuple xs) (.tuple ys) p) :
    h.ComparesAs (.tuple (x :: xs)) (.tuple (y :: ys)) (o.then p) := by
  obtain ⟨level, ordered⟩ := comparesAs_iff.mp first
  rw [comparesAs_iff, same_tuple_cons, level]
  cases o with
  | eq =>
    obtain ⟨level', ordered'⟩ := comparesAs_iff.mp (others rfl)
    refine ⟨level', fun comparator asks => ?_⟩
    show (h.same x y >>= fun level => _) = _
    rw [level]
    exact ordered' comparator asks
  | lt | gt =>
    refine ⟨rfl, fun comparator asks => ?_⟩
    show (h.same x y >>= fun level => _) = _
    rw [level]
    exact ordered comparator asks

theorem comparesAs_tuple_map {α β : Type} {f : α → Value} {g : α → β} {cmp : β → β → Ordering}
    (items : ∀ a b, h.ComparesAs (f a) (f b) (cmp (g a) (g b))) (as bs : List α) :
    h.ComparesAs (.tuple (as.map f)) (.tuple (bs.map f))
      (List.compareLex cmp (as.map g) (bs.map g)) := by
  induction as generalizing bs with
  | nil =>
    cases bs with
    | nil => exact comparesAs_tuple_nil
    | cons b bs =>
      refine comparesAs_iff.mpr ⟨?_, fun _ _ => rfl⟩
      simp [same_tuple, Value.sameItems, List.compareLex]
  | cons a as ih =>
    cases bs with
    | nil =>
      refine comparesAs_iff.mpr ⟨?_, fun _ _ => rfl⟩
      simp [same_tuple, Value.sameItems, List.compareLex]
    | cons b bs =>
      simp only [List.map_cons, List.compareLex_cons_cons]
      exact comparesAs_tuple_cons (items a b) fun _ => ih bs

/-- What comes of a comparison of two items of tuples, behind items that are level. -/
def itemHolds (h : Heap) (comparator : Comparator) (x y : Value) : Except Fault Bool := do
  if ← h.same x y then return comparator.holds (some .eq) else h.holds comparator x y

theorem ComparesAs.itemHolds_eq (compared : h.ComparesAs x y o) (comparator : Comparator) :
    h.itemHolds comparator x y = .ok (comparator.holds (some o)) := by
  obtain ⟨level, -⟩ := comparesAs_iff.mp compared
  rw [itemHolds, level, compared comparator]
  cases o <;> rfl

theorem holds_pair (comparator : Comparator) (i j : Int) (x y : Value) :
    h.holds comparator (.tuple [.integer i, x]) (.tuple [.integer j, y]) =
      if i = j then h.itemHolds comparator x y else
        .ok (comparator.holds (some (compare i j))) := by
  obtain ⟨level, ordered⟩ := comparesAs_iff.mp
    (comparesAs_whole (h := h) (x := .integer i) (y := .integer j) rfl rfl)
  have alike : (compare i j == .eq) = decide (i = j) := by
    rw [Bool.eq_iff_iff, beq_iff_eq, compare_eq_iff_eq, decide_eq_true_iff]
  rw [alike] at level
  by_cases first : i = j
  · rw [if_pos first, itemHolds]
    rw [decide_eq_true first] at level
    cases comparator with
    | equal =>
      rw [holds, same_tuple_cons, level]
      show h.same (.tuple [x]) (.tuple [y]) = _
      rw [same_tuple_cons, holds]
      rcases h.same x y with f | _ | _
      · rfl
      · rfl
      · exact comparesAs_tuple_nil .equal
    | _ =>
      show (h.same (.integer i) (.integer j) >>= fun level => _) = _
      rw [level]
      rfl
  · rw [if_neg first]
    rw [decide_eq_false first] at level
    cases comparator with
    | equal =>
      have apart : compare i j ≠ .eq := mt compare_eq_iff_eq.mp first
      rw [holds, same_tuple_cons, level]
      cases order : compare i j with
      | eq => exact absurd order apart
      | lt => rfl
      | gt => rfl
    | _ =>
      show (h.same (.integer i) (.integer j) >>= fun level => _) = _
      rw [level]
      exact ordered _ nofun

end Heap

namespace Key

open Heap (comparesAs_whole comparesAs_text comparesAs_tuple_nil comparesAs_tuple_cons
  comparesAs_tuple_map)

def sortItem (s : Step) : Value :=
  match s.2 with
  | .number n => .tuple [.text s.1, .integer 0, .integer n, .text Text.empty]
  | .flag b => .tuple [.text s.1, .integer 0, .flag b, .text Text.empty]
  | .name t => .tuple [.text s.1, .integer 1, .integer 0, .text t]
  | .unset => .tuple [.text s.1, .integer 1, .integer 0, .text Text.empty]

def sortKey (k : Key) : Value := .tuple (k.path.map sortItem)

variable {h : Heap}

theorem comparesAs_item {k l s t : Text} {i j : Int} {x y : Value} {o : Ordering}
    (within : h.ComparesAs x y o) :
    h.ComparesAs (.tuple [.text k, .integer i, x, .text s])
      (.tuple [.text l, .integer j, y, .text t])
      ((k.order l).then ((compare i j).then (o.then (s.order t)))) := by
  have last : h.ComparesAs (.tuple [.text s]) (.tuple [.text t]) ((s.order t).then .eq) :=
    comparesAs_tuple_cons (comparesAs_text s t) fun _ => comparesAs_tuple_nil
  rw [Ordering.then_eq] at last
  refine comparesAs_tuple_cons (comparesAs_text k l) fun _ => ?_
  refine comparesAs_tuple_cons (comparesAs_whole rfl rfl) fun _ => ?_
  exact comparesAs_tuple_cons within fun _ => last

theorem sortItem_cases (s : Step) :
    (∃ n x, x.quantity? = some (.ok (.exact (n : Int))) ∧ Place.ofIdentity s.2 = .number n ∧
      sortItem s = .tuple [.text s.1, .integer 0, x, .text Text.empty]) ∨
    ∃ t, Place.ofIdentity s.2 = .name t ∧
      sortItem s = .tuple [.text s.1, .integer 1, .integer 0, .text t] := by
  obtain ⟨kind, id⟩ := s
  cases id with
  | unset => exact .inr ⟨_, rfl, rfl⟩
  | number n => exact .inl ⟨n, .integer n, rfl, rfl, rfl⟩
  | flag b => exact .inl ⟨Identity.ofFlag b, .flag b, rfl, rfl, rfl⟩
  | name t => exact .inr ⟨t, rfl, rfl⟩

theorem comparesAs_sortItem (s t : Step) :
    h.ComparesAs (sortItem s) (sortItem t)
      (Place.orderStep (s.1, .ofIdentity s.2) (t.1, .ofIdentity t.2)) := by
  rw [Place.orderStep]
  obtain ⟨m, x, hx, place, item⟩ | ⟨u, place, item⟩ := sortItem_cases s <;>
    obtain ⟨n, y, hy, place', item'⟩ | ⟨v, place', item'⟩ := sortItem_cases t <;>
    rw [place, place', item, item']
  · have level : Text.empty.order Text.empty = .eq := rfl
    have compared := comparesAs_item (k := s.1) (l := t.1) (s := Text.empty) (t := Text.empty)
      (i := 0) (j := 0) (comparesAs_whole (h := h) hx hy)
    simpa [Place.order, level] using compared
  · exact comparesAs_item (comparesAs_whole hx (y := .integer 0) (n := 0) rfl)
  · exact comparesAs_item (comparesAs_whole (x := .integer 0) (m := 0) rfl hy)
  · exact comparesAs_item (comparesAs_whole (x := .integer 0) (y := .integer 0) (m := 0) rfl rfl)

theorem comparesAs_sortKey (k l : Key) :
    h.ComparesAs k.sortKey l.sortKey (orderRank k.rank l.rank) :=
  comparesAs_tuple_map comparesAs_sortItem k.path l.path

end Key

/-- The order value of a value, given how messages show values without an order of their own. -/
def Value.orderValue (shown : Value → Except Fault Text) : Value → Except Fault Value
  | .null => .ok (.tuple [.integer 0, .integer 0])
  | .flag b => .ok (.tuple [.integer 1, .flag b])
  | .integer n => .ok (.tuple [.integer 2, .integer n])
  | .real x => .ok (.tuple [.integer 2, .real x])
  | .text t => .ok (.tuple [.integer 3, .text t])
  | .blob bs | .bytes bs | .byteArray bs => .ok (.tuple [.integer 4, .bytes bs])
  | .key k => .ok (.tuple [.integer 5, k.sortKey])
  | .moment m => .ok (.tuple [.integer 6, .moment m.anchored])
  | .date d => .ok (.tuple [.integer 6, .moment d.midnight.anchored])
  | v => do
    let t ← shown v
    return .tuple [.integer 7, .text t]

namespace Standing

/-- Whether a value is what a standing is compared by within its tier. -/
inductive ComparedBy : Standing → Value → Prop
  | null : ComparedBy .null (.integer 0)
  | flag (b : Bool) : ComparedBy (.flag b) (.flag b)
  | integer (n : Int) : ComparedBy (.number (.exact n)) (.integer n)
  | real (x : Double) : ComparedBy (.number x.quantity) (.real x)
  | text (t : Text) : ComparedBy (.text t) (.text t)
  | binary (bs : Bytes) : ComparedBy (.binary bs) (.bytes bs)
  | key (k : Key) : ComparedBy (.key k.rank) k.sortKey
  | time (m : Moment) : ComparedBy (.time m) (.moment m)
  | other (t : Text) : ComparedBy (.other (.ok t)) (.text t)

open Heap

theorem orderValue_of_fault {shown : Value → Except Fault Text} {v : Value} {f : Fault}
    (h : (ofValue shown v).fault? = some f) : v.orderValue shown = .error f := by
  have unshown {w : Except Fault Text} (h : (other w).fault? = some f) : w = .error f := by
    cases w with
    | ok t => cases h
    | error g => rw [Option.some.inj h]
  cases v with
  | decimal d | choice type member value | object i | collection c items =>
    show (shown _ >>= fun t => _) = _
    rw [unshown h]
    rfl
  | _ => cases h

theorem orderValue_of_shown {shown : Value → Except Fault Text} {v : Value}
    (h : (ofValue shown v).fault? = none) :
    ∃ x, v.orderValue shown = .ok (.tuple [.integer (ofValue shown v).tier, x]) ∧
      (ofValue shown v).ComparedBy x ∧ ∀ a, x = .real a ↔ v = .real a := by
  have readable {w : Except Fault Text} (h : (other w).fault? = none) : ∃ t, w = .ok t := by
    cases w with
    | ok t => exact ⟨t, rfl⟩
    | error f => cases h
  cases v with
  | null => exact ⟨_, rfl, .null, by simp⟩
  | flag b => exact ⟨_, rfl, .flag b, by simp⟩
  | integer n => exact ⟨_, rfl, .integer n, by simp⟩
  | real x => exact ⟨_, rfl, .real x, by simp⟩
  | text t => exact ⟨_, rfl, .text t, by simp⟩
  | blob bs | bytes bs | byteArray bs => exact ⟨_, rfl, .binary bs, by simp⟩
  | key k => exact ⟨_, rfl, .key k, by simp [Key.sortKey, Value.tuple]⟩
  | moment m => exact ⟨_, rfl, .time m.anchored, by simp⟩
  | date d => exact ⟨_, rfl, .time d.midnight.anchored, by simp⟩
  | decimal d | choice type member value | object i | collection c items =>
    obtain ⟨t, ht⟩ := readable h
    show ∃ x, (shown _ >>= fun t => _) = _ ∧ ComparedBy (.other (shown _)) x ∧ _
    rw [ht]
    exact ⟨_, rfl, .other t, by simp⟩

variable {h : Heap}

/-- What comes of a comparison of the standings of two values, of which one may be a number that is
not a number. -/
def compared (comparator : Comparator) (isOneNaN : Bool) (s t : Standing) : Except Fault Bool :=
  match if comparator = .equal then none else s.clash? t with
  | some f => .error f
  | none => .ok (if isOneNaN then comparator.holds (some .eq) else s.holds comparator t)

theorem compared_of_comparesAs {s t : Standing} {x y : Value} {o : Ordering}
    (level : ∀ comparator, compared comparator false s t = .ok (comparator.holds (some o)))
    (by_part : h.ComparesAs x y o) (apart : x.isOneNaN y = false) (comparator : Comparator) :
    h.itemHolds comparator x y = compared comparator (x.isOneNaN y) s t := by
  rw [by_part.itemHolds_eq, apart, level]

theorem itemHolds_number {x y : Value} {q r : Quantity} (hx : x.quantity? = some (.ok q))
    (hy : y.quantity? = some (.ok r)) (apart : isDecimal x = false ∧ isDecimal y = false)
    (comparator : Comparator) :
    h.itemHolds comparator x y = compared comparator (x.isOneNaN y) (.number q) (.number r) := by
  have held : compared comparator (x.isOneNaN y) (.number q) (.number r) = .ok (
      if x.isOneNaN y then comparator.holds (some .eq) else comparator.holds (q.compare? r)) := by
    cases comparator <;> rfl
  have ordered := inOrder_quantity (h := h) hx hy (.inr apart)
  rw [itemHolds, same_quantity hx hy, held]
  cases one : x.isOneNaN y with
  | true =>
    rw [Bool.or_true]
    rfl
  | false =>
    rw [Bool.or_false]
    cases level : (q.compare? r == some .eq) with
    | true =>
      rw [beq_iff_eq.mp level]
      rfl
    | false =>
      show h.holds comparator x y = _
      cases comparator with
      | equal =>
        rw [Heap.holds, same_quantity hx hy, one, level]
        cases found : q.compare? r with
        | none => rfl
        | some o =>
          rw [found] at level
          cases o with
          | eq => cases level
          | lt => rfl
          | gt => rfl
      | _ => exact ordered _

theorem itemHolds_moment (m n : Moment) (comparator : Comparator) :
    h.itemHolds comparator (.moment m) (.moment n) =
      compared comparator false (.time m) (.time n) := by
  have level : h.same (.moment m) (.moment n) = .ok (m.same n) := by
    simp [same, Value.sameWith, Value.sameAtom, Value.quantity?, Value.content?]
  have ordered (comparator : Comparator) : h.inOrder comparator (.moment m) (.moment n) =
      (m.order? n).elim (.error (.misuse .type)) fun o => .ok (comparator.holds (some o)) := by
    show (compareAtom (.moment m) (.moment n)).map comparator.holds = _
    simp only [compareAtom, Value.quantity?, Value.content?]
    cases m.order? n <;> rfl
  rw [itemHolds, level, compared]
  cases same : m.same n with
  | true =>
    have found : m.order? n = some .eq := by
      rw [Moment.same, Bool.and_eq_true, beq_iff_eq] at same
      exact same.1
    cases comparator <;>
      simp [clash?, Standing.holds, compare?, found, same, Comparator.holds] <;> rfl
  | false =>
    show h.holds comparator (.moment m) (.moment n) = _
    cases comparator with
    | equal => simp [Heap.holds, level, same, Standing.holds]
    | _ =>
      simp only [Heap.holds, ordered, clash?, Standing.holds, compare?]
      cases m.order? n <;> rfl

theorem itemHolds_of_comparedBy {s t : Standing} {x y : Value} (hs : s.ComparedBy x)
    (ht : t.ComparedBy y) (level : s.tier = t.tier) (comparator : Comparator) :
    h.itemHolds comparator x y = compared comparator (x.isOneNaN y) s t := by
  cases hs with
  | null =>
    cases ht with
    | null =>
      exact compared_of_comparesAs (by rintro (_ | _) <;> rfl) (comparesAs_whole rfl rfl) rfl _
    | _ => cases level
  | flag a =>
    cases ht with
    | flag b => exact compared_of_comparesAs (by rintro (_ | _) <;> rfl) (comparesAs_flag a b) rfl _
    | _ => cases level
  | integer m =>
    cases ht with
    | integer n => exact itemHolds_number rfl rfl ⟨rfl, rfl⟩ _
    | real y => exact itemHolds_number rfl rfl ⟨rfl, rfl⟩ _
    | _ => cases level
  | real x =>
    cases ht with
    | integer n => exact itemHolds_number rfl rfl ⟨rfl, rfl⟩ _
    | real y => exact itemHolds_number rfl rfl ⟨rfl, rfl⟩ _
    | _ => cases level
  | text a =>
    cases ht with
    | text b => exact compared_of_comparesAs (by rintro (_ | _) <;> rfl) (comparesAs_text a b) rfl _
    | _ => cases level
  | binary as =>
    cases ht with
    | binary bs =>
      exact compared_of_comparesAs (by rintro (_ | _) <;> rfl) (comparesAs_bytes as bs) rfl _
    | _ => cases level
  | key k =>
    cases ht with
    | key l =>
      exact compared_of_comparesAs (by rintro (_ | _) <;> rfl) (Key.comparesAs_sortKey k l) rfl _
    | _ => cases level
  | time m =>
    cases ht with
    | time n => exact itemHolds_moment m n _
    | _ => cases level
  | other a =>
    cases ht with
    | other b =>
      exact compared_of_comparesAs (by rintro (_ | _) <;> rfl) (comparesAs_text a b) rfl _
    | _ => cases level

theorem compare?_of_tier_ne {s t : Standing} (apart : s.tier ≠ t.tier) :
    s.compare? t = some (compare s.tier t.tier) := by
  rcases s with _ | _ | _ | _ | _ | _ | _ | ⟨_ | _⟩ <;>
    rcases t with _ | _ | _ | _ | _ | _ | _ | ⟨_ | _⟩ <;> first | rfl | exact absurd rfl apart

theorem compared_of_tier_ne {s t : Standing} (apart : s.tier ≠ t.tier) (comparator : Comparator) :
    compared comparator false s t = .ok (comparator.holds (some (compare s.tier t.tier))) := by
  have held : s.holds comparator t = comparator.holds (s.compare? t) := by
    cases comparator with
    | equal => cases s <;> cases t <;> first | exact absurd rfl apart | rfl
    | _ => rfl
  have settled : s.clash? t = none := by
    cases s <;> cases t <;> first | exact absurd rfl apart | rfl
  rw [← compare?_of_tier_ne apart, ← held, compared, settled, ite_self]
  rfl

theorem order_of_tier_ne {s t : Standing} (hs : s.IsPlain) (ht : t.IsPlain)
    (apart : s.tier ≠ t.tier) : order s t = compare s.tier t.tier := by
  have stands := compare?_of_tier_ne apart
  rw [compare?_eq hs ht] at stands
  exact Option.some.inj stands

end Standing

namespace Value

theorem isOneNaN_iff (x y : Value) :
    x.isOneNaN y = true ↔ ∃ p q, x = .real p ∧ y = .real q ∧ p.isOneNaN q = true := by
  cases x <;> cases y <;> simp [isOneNaN]

/-- What comes of a comparison of the order values of two values, of which the second is worked out
first. -/
def orderHolds (h : Heap) (shown : Value → Except Fault Text) (comparator : Comparator)
    (a b : Value) : Except Fault Bool := do
  let target ← b.orderValue shown
  let value ← a.orderValue shown
  h.holds comparator value target

end Value

namespace Condition

open Standing (ofValue)

variable {shown : Value → Except Fault Text} {c : Condition} {item : Value}

theorem orderHolds_eq (h : Heap) (shown : Value → Except Fault Text) (c : Condition)
    (item : Value) :
    Value.orderHolds h shown c.comparator item c.value =
      match (ofValue shown c.value).fault?.or (c.problem? shown item) with
      | some f => .error f
      | none => .ok (c.isMetBy shown item) := by
  rw [Value.orderHolds, problem?]
  cases operand : (ofValue shown c.value).fault? with
  | some f =>
    rw [Standing.orderValue_of_fault operand]
    rfl
  | none =>
    obtain ⟨y, target, by_y, reals'⟩ := Standing.orderValue_of_shown operand
    rw [target]
    cases found : (ofValue shown item).fault? with
    | some f =>
      rw [Standing.orderValue_of_fault found]
      rfl
    | none =>
      obtain ⟨x, value, by_x, reals⟩ := Standing.orderValue_of_shown found
      have one : x.isOneNaN y = item.isOneNaN c.value := by
        rw [Bool.eq_iff_iff, Value.isOneNaN_iff, Value.isOneNaN_iff]
        simp only [reals, reals']
      rw [value]
      show h.holds c.comparator _ _ = Standing.compared c.comparator (item.isOneNaN c.value)
        (ofValue shown item) (ofValue shown c.value)
      rw [Heap.holds_pair, ← one]
      -- the second parts of the pairs are compared only if the tiers are the same
      split
      · rename_i level
        exact Standing.itemHolds_of_comparedBy by_x by_y (Int.ofNat_inj.mp level) _
      · rename_i level
        have apart : (ofValue shown item).tier ≠ (ofValue shown c.value).tier :=
          fun same => level (congrArg _ same)
        have unlike : x.isOneNaN y = false := by
          rw [Bool.eq_false_iff, ne_eq, Value.isOneNaN_iff]
          rintro ⟨p, q, hp, hq, -⟩
          rw [(reals p).mp hp, (reals' q).mp hq] at apart
          exact apart rfl
        have cast : compare ((ofValue shown item).tier : Int) (ofValue shown c.value).tier =
            compare (ofValue shown item).tier (ofValue shown c.value).tier :=
          compare_map Nat.strictMono_cast _ _
        rw [unlike, Standing.compared_of_tier_ne apart, cast]

theorem problem?_eq_none (hitem : item.IsComparable shown) (hc : c.value.IsComparable shown) :
    c.problem? shown item = none := by
  have comparable := Standing.isComparable_ofValue hitem
  simp [problem?, Standing.fault?_eq_none comparable,
    Standing.clash?_eq_none comparable (Standing.isComparable_ofValue hc)]

theorem orderHolds_of_isComparable (h : Heap) (hitem : item.IsComparable shown)
    (hc : c.value.IsComparable shown) :
    Value.orderHolds h shown c.comparator item c.value = .ok (c.isMetBy shown item) := by
  rw [orderHolds_eq, problem?_eq_none hitem hc,
    Standing.fault?_eq_none (Standing.isComparable_ofValue hc)]
  rfl

theorem isMetBy_of_isPlain (hitem : item.IsPlain shown) (hc : c.value.IsPlain shown) :
    c.isMetBy shown item =
      c.comparator.holds (some (Standing.order (ofValue shown item) (ofValue shown c.value))) := by
  have apart : item.isOneNaN c.value = false := by
    rw [Bool.eq_false_iff, ne_eq, Value.isOneNaN_iff]
    rintro ⟨p, q, rfl, -, one⟩
    have number : p.isNaN = false := hitem
    simp [Double.isOneNaN, number] at one
  rw [isMetBy, apart, if_neg Bool.false_ne_true,
    Standing.holds_eq (Standing.isPlain_ofValue hitem) (Standing.isPlain_ofValue hc)]

end Condition

theorem Record.itemsOf_single {v : Value}
    (single : ∀ items, v ≠ .collection .list items ∧ v ≠ .collection .tuple items) :
    itemsOf v = [v] := by
  cases v with
  | collection c items =>
    cases c with
    | list => exact absurd rfl (single items).1
    | tuple => exact absurd rfl (single items).2
    | set | frozenSet => rfl
  | _ => rfl

namespace Value

variable {h : Heap} {shown : Value → Except Fault Text} {a b : Value}

theorem orderHolds_of_isPlain (ha : a.IsPlain shown) (hb : b.IsPlain shown)
    (comparator : Comparator) :
    orderHolds h shown comparator a b =
      .ok (comparator.holds (some (Standing.order (.ofValue shown a) (.ofValue shown b)))) := by
  let c : Condition := ⟨Text.empty, comparator, b⟩
  have held := c.orderHolds_of_isComparable h (isComparable_of_isPlain ha)
    (isComparable_of_isPlain hb)
  exact held.trans (congrArg _ (c.isMetBy_of_isPlain ha hb))

/-- A time without an offset comes neither before nor after times that have one. -/
theorem orderHolds_less_date {m : Moment} {zone : Zone} (hz : m.zone = some zone)
    (ho : zone.offset = none) (d : Date) :
    orderHolds h shown .less (.moment m) (.date d) = .error (.misuse .type) := by
  have apart : m.anchored.order? d.midnight.anchored = none := by
    have unshared : m.anchored.sharesZone d.midnight.anchored = false := by
      cases zone with
      | fixed offset => cases ho
      | varying => simp [Moment.sharesZone, Moment.anchored, Date.midnight, hz]
    have offset : m.anchored.offset = none := by
      simp [Moment.offset, Moment.anchored, hz, ho]
    rw [Moment.order?, unshared, offset]
    rfl
  have compared := Condition.orderHolds_eq h shown ⟨Text.empty, .less, .date d⟩ (.moment m)
  simpa [Condition.problem?, Standing.ofValue, Standing.fault?, Standing.clash?, apart] using
    compared

theorem isComparable_iff (h : Heap) (shown : Value → Except Fault Text) (a : Value) :
    a.IsComparable shown ↔ ∀ b, b.IsComparable shown →
      ∀ comparator, ∃ answer, orderHolds h shown comparator a b = .ok answer := by
  constructor
  · intro ha b hb comparator
    let c : Condition := ⟨Text.empty, comparator, b⟩
    exact ⟨_, c.orderHolds_of_isComparable h ha hb⟩
  intro compared
  have readable (f : Fault) (hf : (Standing.ofValue shown a).fault? = some f) : False := by
    obtain ⟨answer, found⟩ := compared .null trivial .equal
    rw [orderHolds, Standing.orderValue_of_fault hf] at found
    cases found
  have ofShown {v : Value} (same : Standing.ofValue shown a = .other (shown v)) :
      ∃ t, shown v = .ok t := by
    cases text : shown v with
    | ok t => exact ⟨t, rfl⟩
    | error f =>
      rw [text] at same
      exact (readable f (by rw [same]; rfl)).elim
  cases a with
  | moment m =>
    intro zone hz
    by_contra none
    obtain ⟨answer, found⟩ := compared (.date ⟨1, 1, 1⟩) trivial .less
    rw [orderHolds_less_date hz (Option.not_isSome_iff_eq_none.mp none)] at found
    cases found
  | decimal d | choice type member value | object i | collection c items => exact ofShown rfl
  | _ => trivial

theorem meets_of_isComparable (h : Heap) (ha : a.IsComparable shown) (hb : b.IsComparable shown)
    {r : Record} {property : Text} (found : r.value? property = some a)
    (single : ∀ items, a ≠ .collection .list items ∧ a ≠ .collection .tuple items)
    (comparator : Comparator) :
    r.problem? shown ⟨property, comparator, b⟩ = none ∧
      orderHolds h shown comparator a b = .ok (r.meets shown ⟨property, comparator, b⟩) := by
  let c : Condition := ⟨property, comparator, b⟩
  have operand := Standing.fault?_eq_none (Standing.isComparable_ofValue hb)
  have item := c.problem?_eq_none ha hb
  have held := c.orderHolds_of_isComparable h ha hb
  constructor
  · simp [Record.problem?, found, Record.itemsOf_single single, operand, firstFault, c, item]
  · simp [Record.meets, found, Record.itemsOf_single single, held, c]

/-- A value can be compared with all others that can be compared just if it can be shown, where it
stands by how it is shown, and a time has an offset, if it has a zone. A condition on a property
that is no list is met as the order values compare. Values are in a total order, but for numbers
that are not a number and times of zones that vary: exactly one of two values comes first unless
they are level, and what follows a value follows all that the value follows. Values of different
types stand in the order of their tiers. -/
theorem orderValue_total (h : Heap) (shown : Value → Except Fault Text) :
    let holds := orderHolds h shown
    (∀ a, a.IsComparable shown ↔ ∀ b, b.IsComparable shown →
      ∀ comparator, ∃ answer, holds comparator a b = .ok answer) ∧
    (∀ a b, a.IsComparable shown → b.IsComparable shown →
      ∀ (r : Record) (property : Text), r.value? property = some a →
        (∀ items, a ≠ .collection .list items ∧ a ≠ .collection .tuple items) →
        ∀ comparator, r.problem? shown ⟨property, comparator, b⟩ = none ∧
          holds comparator a b = .ok (r.meets shown ⟨property, comparator, b⟩)) ∧
    ∀ a b c, a.IsPlain shown → b.IsPlain shown → c.IsPlain shown →
      (∀ comparator, ∃ answer, holds comparator a b = .ok answer) ∧
      (∃ less equal greater, holds .less a b = .ok less ∧ holds .equal a b = .ok equal ∧
        holds .greater a b = .ok greater ∧ [less, equal, greater].count true = 1) ∧
      holds .greater a b = holds .less b a ∧
      holds .lessOrEqual a a = .ok true ∧
      (holds .lessOrEqual a b = .ok true → holds .lessOrEqual b c = .ok true →
        holds .lessOrEqual a c = .ok true) ∧
      (holds .less a b = .ok true → holds .less b c = .ok true → holds .less a c = .ok true) ∧
      (holds .equal a b = .ok true → holds .equal b c = .ok true → holds .equal a c = .ok true) ∧
      ((Standing.ofValue shown a).tier < (Standing.ofValue shown b).tier →
        holds .less a b = .ok true) ∧
      ∀ (r : Record) (property : Text), r.value? property = some a →
        (∀ items, a ≠ .collection .list items ∧ a ≠ .collection .tuple items) →
        let meets (comparator : Comparator) : Bool := r.meets shown ⟨property, comparator, b⟩
        [meets .equal, meets .less, meets .greater].count true = 1 ∧
        meets .greaterOrEqual = (meets .equal || meets .greater) ∧
        meets .lessOrEqual = (meets .equal || meets .less) := by
  intro holds
  refine ⟨isComparable_iff h shown, fun a b ha hb r property => meets_of_isComparable h ha hb, ?_⟩
  intro a b c ha hb hc
  have plain {a b : Value} (ha : a.IsPlain shown) (hb : b.IsPlain shown) (comparator : Comparator) :
      holds comparator a b =
        .ok (comparator.holds (some (Standing.order (.ofValue shown a) (.ofValue shown b)))) :=
    orderHolds_of_isPlain ha hb comparator
  -- a comparison of plain values is one of their standings, which are in a total order
  simp only [plain ha hb, plain hb hc, plain ha hc, plain hb ha, plain ha ha, Except.ok.injEq,
    Comparator.less_holds_iff, Comparator.equal_holds_iff, Comparator.lessOrEqual_holds_iff]
  refine ⟨fun comparator => ⟨_, rfl⟩, ⟨_, _, _, rfl, rfl, rfl, ?_⟩, ?_, ?_, ?_, ?_, ?_, ?_, ?_⟩
  · cases Standing.order (.ofValue shown a) (.ofValue shown b) <;> rfl
  · have swapped : Standing.order (.ofValue shown b) (.ofValue shown a) =
        (Standing.order (.ofValue shown a) (.ofValue shown b)).swap := Std.OrientedCmp.eq_swap
    rw [swapped]
    cases Standing.order (.ofValue shown a) (.ofValue shown b) <;> rfl
  · exact @Std.ReflCmp.isLE_rfl _ Standing.order _ _
  · exact @Std.TransCmp.isLE_trans _ Standing.order _ _ _ _
  · exact @Std.TransCmp.lt_trans _ Standing.order _ _ _ _
  · exact @Std.TransCmp.eq_trans _ Standing.order _ _ _ _
  · intro lower
    rw [Standing.order_of_tier_ne (Standing.isPlain_ofValue ha) (Standing.isPlain_ofValue hb)
      lower.ne]
    exact compare_lt_iff_lt.mpr lower
  · intro r property found single
    have met (comparator : Comparator) : r.meets shown ⟨property, comparator, b⟩ =
        comparator.holds (some (Standing.order (.ofValue shown a) (.ofValue shown b))) := by
      obtain ⟨-, held⟩ := meets_of_isComparable h (isComparable_of_isPlain ha)
        (isComparable_of_isPlain hb) found single comparator
      exact Except.ok.inj (held.symm.trans (plain ha hb comparator))
    simp only [met]
    cases Standing.order (.ofValue shown a) (.ofValue shown b) <;> exact ⟨rfl, rfl, rfl⟩

def midday : Moment := ⟨⟨2024, 5, 1⟩, 12, 0, 0, 0, false, none⟩

def middayAhead : Moment := ⟨⟨2024, 5, 1⟩, 14, 0, 0, 0, false, some (.fixed 7200000000)⟩

theorem orderValue_total_midday :
    (Value.moment midday).IsPlain Heap.empty.shown ∧
      (Value.moment middayAhead).IsPlain Heap.empty.shown ∧
      (Value.text "midday").IsPlain Heap.empty.shown ∧
      let holds := orderHolds Heap.empty Heap.empty.shown
      let job : Record := ⟨.root "Job" (.number 1), [("due", .moment midday)]⟩
      let due (comparator : Comparator) : Bool :=
        job.meets Heap.empty.shown ⟨"due", comparator, .moment middayAhead⟩
      holds .equal (.moment midday) (.moment middayAhead) = .ok true ∧
        holds .less (.text "midday") (.moment midday) = .ok true ∧
        due .equal = true ∧ due .less = false ∧ due .greaterOrEqual = true := by
  have plain : (Value.moment midday).IsPlain Heap.empty.shown := nofun
  have ahead : (Value.moment middayAhead).IsPlain Heap.empty.shown := by rintro zone ⟨⟩; rfl
  refine ⟨plain, ahead, trivial, ?_⟩
  intro holds job due
  have level : due .equal = true := by decide
  obtain ⟨-, meets, total⟩ := orderValue_total Heap.empty Heap.empty.shown
  obtain ⟨-, compares⟩ := meets (.moment midday) (.moment middayAhead)
      (isComparable_of_isPlain plain)
    (isComparable_of_isPlain ahead) job "due" rfl (fun _ => ⟨nofun, nofun⟩) .equal
  obtain ⟨-, -, -, -, -, -, -, -, filters⟩ := total (.moment midday) (.moment middayAhead)
    (.text "midday") plain ahead trivial
  obtain ⟨-, atLeast, -⟩ := filters job "due" rfl fun _ => ⟨nofun, nofun⟩
  obtain ⟨-, -, -, -, -, -, -, tiers, -⟩ :=
    total (.text "midday") (.moment midday) .null trivial plain
    trivial
  exact ⟨compares.trans (congrArg _ level), tiers (by decide), level, by decide,
    atLeast.trans (congrArg (· || due .greater) level)⟩

def night (minute : Nat) (second : Bool) : Moment :=
  let summer : Int := 7200000000
  let winter : Int := 3600000000
  ⟨⟨2024, 10, 27⟩, 2, minute, 0, 0, second,
    some (if second then .varying 0 "Berlin" winter summer else .varying 0 "Berlin" summer winter)⟩

def nightAbroad (hour minute : Nat) : Moment :=
  ⟨⟨2024, 10, 27⟩, hour, minute, 0, 0, false, some (.fixed 0)⟩

/-- Times of a zone that varies come before each other in a circle with a time of another zone, and
one that comes twice is neither before nor after nor level with the same instant there. -/
theorem orderHolds_circle :
    let holds := orderHolds Heap.empty Heap.empty.shown
    let again : Value := .moment (night 30 true)
    let before : Value := .moment (night 40 false)
    let between : Value := .moment (nightAbroad 1 0)
    let once : Value := .moment (night 30 false)
    let level : Value := .moment (nightAbroad 0 30)
    (holds .less again before = .ok true ∧ holds .less before between = .ok true ∧
      holds .less between again = .ok true) ∧
    holds .less once level = .ok false ∧ holds .equal once level = .ok false ∧
      holds .greater once level = .ok false := by
  have compared (comparator : Comparator) {m n : Moment} (hm : m.offset.isSome = true)
      (hn : n.offset.isSome = true) :
      orderHolds Heap.empty Heap.empty.shown comparator (.moment m) (.moment n) =
        .ok (Condition.isMetBy Heap.empty.shown ⟨Text.empty, comparator, .moment n⟩
          (.moment m)) := by
    have comparable {m : Moment} (h : m.offset.isSome = true) :
        (Value.moment m).IsComparable Heap.empty.shown := by
      intro zone hz
      rwa [Moment.offset, hz] at h
    exact Condition.orderHolds_of_isComparable (c := ⟨_, comparator, _⟩) _ (comparable hm)
      (comparable hn)
  have home (minute : Nat) (second : Bool) : (night minute second).offset.isSome = true := by
    cases second <;> rfl
  have abroad (hour minute : Nat) : (nightAbroad hour minute).offset.isSome = true := rfl
  dsimp only
  rw [compared _ (home _ _) (home _ _), compared _ (home _ _) (abroad _ _),
    compared _ (abroad _ _) (home _ _), compared _ (home _ _) (abroad _ _),
    compared _ (home _ _) (abroad _ _), compared _ (home _ _) (abroad _ _)]
  simp only [Except.ok.injEq]
  decide +kernel

end Value
end RecordStore
