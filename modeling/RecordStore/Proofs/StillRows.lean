import RecordStore.Proofs.RowSessions

/-!
# Results that stand still

A result stands still once it is exhausted, disconnected or cancelled. Whatever it is asked for then
is answered from its ready rows as a list answers it, and nothing is read or made for it.
-/

set_option autoImplicit false

namespace RecordStore

open Attempt

variable {σ α β γ δ : Type}

def itemAtBound (items : List β) (i : Bound) : Except Fault β :=
  match i.position? with
  | some n => if n < 0 then itemAt items n else (items[n.toNat]?).elim (.error .pastRows) .ok
  | none => do
    if ← i.isBelow 0 then throw (.misuse .type)
    else if ← (Bound.integer items.length).isAtMost i then throw .pastRows
    else throw (.misuse .type)

def Bound.fromEnd (n : Nat) (i : Bound) : Except Fault Bound := do
  if ← i.isBelow 0 then (Bound.integer n).add i else return i

def Bound.isBefore (last : Option Bound) (i : Bound) : Except Fault Bool :=
  (last.mapM i.isBelow).map (·.getD true)

section Search

variable (same : β → β → Except Fault Bool) (b : β)

/-- The position of the first item that is equal to a value and before the end of a range, where the
first of the items is at a given position. -/
def findFrom (last : Option Bound) (position : Nat) : List β → Except Fault (Option Nat)
  | [] => do
    let _ ← Bound.isBefore last (.integer position)
    return none
  | a :: rest => do
    if !(← Bound.isBefore last (.integer position)) then return none
    else if ← same a b then return some position
    else findFrom last (position + 1) rest

def missIn (items : List β) (last : Option Bound) (i : Bound) : Except Fault Unit := do
  if ← i.isBefore last then
    tryCatch (do let _ ← itemAtBound items i) fun f =>
      match f with
      | .pastRows => return ()
      | f => throw f

def indexIn (items : List β) (start stop : Option Bound) : Except Fault Bound := do
  let first ← start.mapM fun i => do
    let i ← i.fromEnd items.length
    if ← i.isBelow 0 then return 0 else return i
  let last ← stop.mapM (Bound.fromEnd items.length)
  let found ← match first with
    | none => throw (.misuse .type)
    | some i =>
      match i.position? with
      | some n => do
        let found ← findFrom same b last n.toNat (items.drop n.toNat)
        pure (found.map fun k => if k = n then i else .integer k)
      | none => do
        missIn items last i
        pure none
  found.elim (throw (.misuse (.number "no such row"))) pure

theorem findFrom_none (position : Nat) (items : List β) :
    (findFrom same b none position items >>= fun found => .ok found.isSome) =
      items.anyM fun a => same a b := by
  induction items generalizing position with
  | nil => rfl
  | cons a rest ih =>
    rw [List.anyM_cons, ← ih (position + 1)]
    change ((same a b >>= fun isSame => _) >>= _) = _
    cases same a b with
    | error e => rfl
    | ok isSame => cases isSame <;> rfl

end Search

namespace Rows

variable {m : RowMaker σ α β} {r : Rows α β} {s : σ}

/-- Whether no row can come any more. -/
def IsStill (m : RowMaker σ α β) (r : Rows α β) (s : σ) : Prop :=
  (r.isExhausted || r.isDisconnected) = true ∨ r.isCancelled m s = true

theorem pull_still (h : r.IsStill m s) :
    ∃ r', (pull m).on (r, s) = (.ok false, r', s) ∧ r'.IsStill m s ∧ r'.ready = r.ready := by
  by_cases ended : (r.isExhausted || r.isDisconnected) = true
  · exact ⟨r, pull_over ended, h, rfl⟩
  · have cut := h.resolve_left ended
    refine ⟨r.disconnect, pull_cut (Bool.eq_false_iff.mpr ended) cut, .inl ?_, r.disconnect_ready⟩
    rw [r.disconnect_isDisconnected, Bool.or_true]

/-- Where no row can come, something comes to an outcome and leaves the world and the ready rows as
they are. -/
def StillAt (m : RowMaker σ α β) (x : Reading σ α β γ) (outcome : Except Fault γ) (r : Rows α β)
    (s : σ) : Prop :=
  ∃ r', x.on (r, s) = (outcome, r', s) ∧ r'.IsStill m s ∧ r'.ready = r.ready

namespace StillAt

variable {x : Reading σ α β γ} {outcome : Except Fault γ}

theorem of_ok {c : γ} {g : γ → Reading σ α β δ} {outcome : Except Fault δ}
    (h : StillAt m x (.ok c) r s)
    (hg : ∀ r', r'.IsStill m s → r'.ready = r.ready → StillAt m (g c) outcome r' s) :
    StillAt m (x >>= g) outcome r s := by
  obtain ⟨r', ran, still, ready⟩ := h
  obtain ⟨u, ran', still', ready'⟩ := hg r' still ready
  exact ⟨u, (on_bind_of_ok ran g).trans ran', still', ready'.trans ready⟩

theorem bind {g : γ → Reading σ α β δ} {f : γ → Except Fault δ} (h : StillAt m x outcome r s)
    (hg : ∀ c r', r'.IsStill m s → r'.ready = r.ready → StillAt m (g c) (f c) r' s) :
    StillAt m (x >>= g) (outcome >>= f) r s := by
  obtain ⟨r', ran, still, ready⟩ := h
  cases outcome with
  | error e => exact ⟨r', by rw [on_bind, ran]; rfl, still, ready⟩
  | ok c => exact of_ok ⟨r', ran, still, ready⟩ (hg c)

theorem get_bind {g : Rows α β × σ → Reading σ α β γ} (h : StillAt m (g (r, s)) outcome r s) :
    StillAt m (get >>= g) outcome r s := by
  obtain ⟨r', ran, still⟩ := h
  exact ⟨r', (on_bind_of_ok (on_get _) g).trans ran, still⟩

theorem caught {f : Fault → Reading σ α β γ} {g : Fault → Except Fault γ}
    (h : StillAt m x outcome r s)
    (hf : ∀ e r', r'.IsStill m s → r'.ready = r.ready → StillAt m (f e) (g e) r' s) :
    StillAt m (tryCatch x f) (tryCatch outcome g) r s := by
  obtain ⟨r', ran, still, ready⟩ := h
  cases outcome with
  | ok c => exact ⟨r', on_tryCatch_of_ok ran f, still, ready⟩
  | error e =>
    obtain ⟨u, ran', still', ready'⟩ := hf e r' still ready
    exact ⟨u, (on_tryCatch_of_error ran f).trans ran', still', ready'.trans ready⟩

end StillAt

/-- Whether the world and the ready rows alone say what something comes to once no row can come. -/
structure FromReady (m : RowMaker σ α β) (x : Reading σ α β γ) (f : σ → List β → Except Fault γ) :
    Prop where
  stillAt : ∀ r s, r.IsStill m s → StillAt m x (f s r.ready) r s

section Rules

variable {x : Reading σ α β γ} {f : σ → List β → Except Fault γ}

theorem fromReady_ofExcept (outcome : Except Fault γ) :
    FromReady m (Attempt.ofExcept outcome) fun _ _ => outcome :=
  ⟨fun r s still => ⟨r, on_ofExcept outcome (r, s), still, rfl⟩⟩

theorem fromReady_pure (c : γ) : FromReady m (pure c) fun _ _ => .ok c :=
  fromReady_ofExcept (.ok c)

theorem fromReady_throw (e : Fault) : FromReady m (throw e : Reading σ α β γ) fun _ _ => .error e :=
  fromReady_ofExcept (.error e)

theorem fromReady_bind {g : γ → Reading σ α β δ} {h : γ → σ → List β → Except Fault δ}
    (hx : FromReady m x f) (hg : ∀ c, FromReady m (g c) (h c)) :
    FromReady m (x >>= g) fun s bs => f s bs >>= fun c => h c s bs := by
  constructor
  intro r s still
  refine (hx.stillAt r s still).bind fun c r' still' ready => ?_
  rw [← ready]
  exact (hg c).stillAt r' s still'

theorem fromReady_tryCatch {g : Fault → Reading σ α β γ} {h : Fault → σ → List β → Except Fault γ}
    (hx : FromReady m x f) (hg : ∀ e, FromReady m (g e) (h e)) :
    FromReady m (tryCatch x g) fun s bs => tryCatch (f s bs) fun e => h e s bs := by
  constructor
  intro r s still
  refine (hx.stillAt r s still).caught fun e r' still' ready => ?_
  rw [← ready]
  exact (hg e).stillAt r' s still'

theorem fromReady_ite {p : Prop} [Decidable p] {y : Reading σ α β γ}
    {g : σ → List β → Except Fault γ} (hx : FromReady m x f) (hy : FromReady m y g) :
    FromReady m (if p then x else y) fun s bs => if p then f s bs else g s bs := by
  split
  · exact hx
  · exact hy

theorem fromReady_mapM {g : γ → Reading σ α β δ} {h : γ → σ → List β → Except Fault δ}
    (hg : ∀ c, FromReady m (g c) (h c)) (c : Option γ) :
    FromReady m (c.mapM g) fun s bs => c.mapM fun c => h c s bs := by
  cases c with
  | none => exact fromReady_pure none
  | some c => exact fromReady_bind (hg c) fun d => fromReady_pure (some d)

theorem fromReady_bounded {x : Nat → Reading σ α β γ}
    (h : ∀ r s n, r.IsStill m s → r.ready.length ≤ n → StillAt m (x n) (f s r.ready) r s) :
    FromReady m (bound >>= x) f :=
  ⟨fun r s still => (h r s (r.ready.length + r.pending.length) still
    (Nat.le_add_right _ _)).get_bind⟩

theorem fromReady_bound_bind {x : Nat → Reading σ α β γ} (h : ∀ n, FromReady m (x n) f) :
    FromReady m (bound >>= x) f :=
  fromReady_bounded fun r s n still _ => (h n).stillAt r s still

end Rules

theorem fromReady_pullMany (n : Nat) : FromReady m (pullMany m n) fun _ _ =>
    .ok (decide (n = 0)) := by
  cases n with
  | zero => exact fromReady_pure true
  | succ n =>
    constructor
    intro r s still
    obtain ⟨r', ran, still', ready⟩ := pull_still still
    exact ⟨r', on_bind_of_ok ran _, still', ready⟩

theorem fromReady_fillTo (n : Nat) :
    FromReady m (fillTo m n) fun _ bs => .ok (decide (n < bs.length)) := by
  constructor
  intro r s still
  refine StillAt.get_bind ?_
  have enough : decide (n + 1 - r.ready.length = 0) = decide (n < r.ready.length) := by
    rw [decide_eq_decide]
    omega
  rw [← enough]
  exact (fromReady_pullMany (n + 1 - r.ready.length)).stillAt r s still

theorem fromReady_ready {f : List β → γ} :
    FromReady m (get >>= fun p : Rows α β × σ => pure (f p.1.ready)) fun _ bs => .ok (f bs) :=
  ⟨fun r _ still => StillAt.get_bind ⟨r, rfl, still, rfl⟩⟩

theorem fromReady_length : FromReady m (length m) fun _ bs => .ok bs.length := by
  constructor
  intro r s still
  refine StillAt.get_bind ?_
  exact (fromReady_bind (fromReady_pullMany _) fun _ => fromReady_ready (f := List.length)).stillAt
    r s still

theorem fromReady_readyRow? (n : Nat) :
    FromReady m (readyRow? (α := α) (β := β) n) fun _ bs => .ok bs[n]? :=
  fromReady_ready (f := fun bs : List β => bs[n]?)

theorem fromReady_row? (n : Nat) : FromReady m (row? m n) fun _ bs => .ok bs[n]? :=
  fromReady_bind (fromReady_fillTo n) fun _ => fromReady_readyRow? n

theorem fromReady_found (e : Fault) (found : Option γ) :
    FromReady m
      (match found with
        | some c => pure c
        | none => throw e)
      fun _ _ => found.elim (.error e) .ok := by
  cases found with
  | some c => exact fromReady_pure c
  | none => exact fromReady_throw e

theorem FromReady.congr {x : Reading σ α β γ} {f g : σ → List β → Except Fault γ}
    (h : FromReady m x f) (same : ∀ s bs, f s bs = g s bs) : FromReady m x g :=
  ⟨fun r s still => same s r.ready ▸ h.stillAt r s still⟩

theorem fromReady_rowAt (i : Int) :
    FromReady m (rowAt m i) fun _ bs =>
      if i < 0 then itemAt bs i else (bs[i.toNat]?).elim (.error .pastRows) .ok := by
  by_cases below : i < 0
  · simp only [rowAt, below, if_true]
    refine FromReady.congr (fromReady_bind fromReady_length fun n =>
      fromReady_ite (fromReady_throw _)
      (fromReady_bind (fromReady_readyRow? _) fun found => fromReady_found _ found)) fun _ bs => ?_
    simp only [itemAt, below, if_true]
    rfl
  · simp only [rowAt, below, if_false]
    exact fromReady_bind (fromReady_row? _) (fromReady_found _)

theorem fromReady_fillPast (i : Bound) (n : Nat) :
    FromReady m (fillPast m i (n + 1)) fun _ bs =>
      ((Bound.integer bs.length).isAtMost i).map (! ·) := by
  constructor
  intro r s still
  refine StillAt.get_bind ?_
  have asked := (fromReady_ofExcept (m := m) ((Bound.integer r.ready.length).isAtMost i)).stillAt
    r s still
  refine (asked.bind (f := fun isAtMost => .ok !isAtMost) fun isAtMost r' still' _ => ?_)
  cases isAtMost with
  | false => exact ⟨r', rfl, still', rfl⟩
  | true =>
    obtain ⟨u, ran, still, ready⟩ := pull_still still'
    exact ⟨u, on_bind_of_ok ran _, still, ready⟩

theorem fromReady_row (i : Bound) : FromReady m (row m i) fun _ bs => itemAtBound bs i := by
  unfold row itemAtBound
  cases i.position? with
  | some n => exact fromReady_rowAt n
  | none =>
    refine fromReady_bind (fromReady_ofExcept _) fun isBelow => fromReady_ite ?_ ?_
    · exact fromReady_bind fromReady_length fun _ => fromReady_throw _
    · refine fromReady_bound_bind fun n => FromReady.congr (fromReady_bind (fromReady_fillPast i n)
        fun past => fromReady_ite (fromReady_throw _) (fromReady_throw _)) fun _ bs => ?_
      cases (Bound.integer bs.length).isAtMost i with
      | error e => rfl
      | ok isAtMost => cases isAtMost <;> rfl

theorem fromReady_rowsFrom (position n : Nat) :
    FromReady m (rowsFrom m position n) fun _ bs => .ok ((bs.drop position).take n) := by
  induction n generalizing position with
  | zero => exact fromReady_pure []
  | succ n ih =>
    refine FromReady.congr (fromReady_bind (fromReady_row? position)
      (h := fun found _ bs =>
        found.elim (.ok []) fun b => .ok (b :: (bs.drop (position + 1)).take n))
      fun found => ?_) fun _ bs => ?_
    · cases found with
      | none => exact fromReady_pure []
      | some b => exact fromReady_bind (ih (position + 1)) fun rest => fromReady_pure (b :: rest)
    · change (bs[position]?).elim _ _ = _
      by_cases there : position < bs.length
      · rw [List.getElem?_eq_getElem there, List.drop_eq_getElem_cons there, List.take_succ_cons]
        rfl
      · rw [List.getElem?_eq_none (Nat.le_of_not_lt there),
          List.drop_of_length_le (Nat.le_of_not_lt there)]
        rfl

theorem fromReady_toList : FromReady m (toList m) fun _ bs => .ok bs := by
  refine fromReady_bounded fun r s n still enough => ?_
  have all := (fromReady_rowsFrom 0 (n + 1)).stillAt r s still
  rwa [List.drop_zero, List.take_of_length_le (Nat.le_succ_of_le enough)] at all

theorem fromReady_slice (i : Slice) : FromReady m (slice m i) fun _ bs => i.apply bs := by
  constructor
  intro r s still
  obtain ⟨r', ran, still', ready⟩ := fromReady_length.stillAt r s still
  refine StillAt.bind ⟨r', on_tryCatch_of_ok ran _, still', ready⟩ (f := fun _ => i.apply r.ready)
    fun _ u still ready => ?_
  rw [← ready]
  exact (fromReady_bind fromReady_toList fun bs => fromReady_ofExcept (i.apply bs)).stillAt u s
    still

theorem fromReady_same (a b : β) : FromReady m (same m a b) fun s _ => m.same s a b :=
  ⟨fun r s still => StillAt.get_bind ⟨r, on_ofExcept _ (r, s), still, rfl⟩⟩

theorem searchFrom_stillAt (b : β) (last : Option Bound) {position n : Nat} (still : r.IsStill m s)
    (enough : r.ready.length - position < n) :
    StillAt m (searchFrom m b last position n)
      (findFrom (m.same s) b last position (r.ready.drop position)) r s := by
  induction n generalizing r position with
  | zero => omega
  | succ n ih =>
    have asked := (fromReady_ofExcept (m := m) (Bound.isBefore last (.integer position))).stillAt
      r s still
    have found (u : Rows α β) (still' : u.IsStill m s) (ready : u.ready = r.ready) :
        StillAt m (row? m position) (.ok r.ready[position]?) u s :=
      ready ▸ (fromReady_row? position).stillAt u s still'
    by_cases there : position < r.ready.length
    · rw [List.drop_eq_getElem_cons there]
      refine asked.bind fun isBefore u still' ready => ?_
      cases isBefore with
      | false => exact ⟨u, rfl, still', rfl⟩
      | true =>
        refine (found u still' ready).of_ok fun v still ready' => ?_
        rw [List.getElem?_eq_getElem there]
        refine ((fromReady_same _ b).stillAt v s still).bind fun isSame w still ready'' => ?_
        have same : w.ready = r.ready := ready''.trans (ready'.trans ready)
        cases isSame with
        | true => exact ⟨w, rfl, still, rfl⟩
        | false =>
          rw [← same]
          exact ih still (by rw [same]; omega)
    · rw [List.drop_of_length_le (Nat.le_of_not_lt there)]
      refine asked.bind fun isBefore u still' ready => ?_
      cases isBefore with
      | false => exact ⟨u, rfl, still', rfl⟩
      | true =>
        refine (found u still' ready).of_ok fun v still _ => ?_
        rw [List.getElem?_eq_none (Nat.le_of_not_lt there)]
        exact ⟨v, rfl, still, rfl⟩

theorem fromReady_contains (b : β) :
    FromReady m (contains m b) fun s bs => bs.anyM fun a => m.same s a b := by
  refine fromReady_bounded fun r s n still enough => ?_
  rw [← findFrom_none (m.same s) b 0]
  exact (searchFrom_stillAt b none still (by omega)).bind fun found u still _ =>
    ⟨u, rfl, still, rfl⟩

theorem fromReady_fromEnd (i : Bound) :
    FromReady m (fromEnd m i) fun _ bs => i.fromEnd bs.length := by
  unfold fromEnd Bound.fromEnd
  refine fromReady_bind (fromReady_ofExcept _) fun isBelow => fromReady_ite ?_ (fromReady_pure i)
  exact fromReady_bind fromReady_length fun n => fromReady_ofExcept _

theorem fromReady_missAt (last : Option Bound) (i : Bound) :
    FromReady m (missAt m last i) fun _ bs => missIn bs last i := by
  unfold missAt missIn
  refine fromReady_bind (fromReady_ofExcept _) fun isBefore => fromReady_ite ?_ (fromReady_pure _)
  refine fromReady_tryCatch (fromReady_bind (fromReady_row i) fun _ => fromReady_pure _) fun f => ?_
  cases f with
  | pastRows => exact fromReady_pure _
  | _ => exact fromReady_throw _

theorem fromReady_index (b : β) (start stop : Option Bound) :
    FromReady m (index m b start stop) fun s bs => indexIn (m.same s) b bs start stop := by
  unfold index indexIn
  refine fromReady_bind (fromReady_mapM (fun i => ?_) start) fun first =>
    fromReady_bind (fromReady_mapM fromReady_fromEnd stop) fun last => ?_
  · refine fromReady_bind (fromReady_fromEnd i) fun i => ?_
    exact fromReady_bind (fromReady_ofExcept _) fun isBelow =>
      fromReady_ite (fromReady_pure 0) (fromReady_pure i)
  cases first with
  | none =>
    refine fromReady_bind (fromReady_throw _) fun found => ?_
    cases found with
    | none => exact fromReady_throw _
    | some k => exact fromReady_pure k
  | some i =>
    dsimp only
    cases i.position? with
    | none => exact fromReady_bind (fromReady_missAt last i) fun _ => fromReady_throw _
    | some n =>
      refine fromReady_bounded fun r s k still enough => ?_
      refine (searchFrom_stillAt b last still (by omega)).bind fun found u still _ => ?_
      cases found with
      | none => exact ⟨u, rfl, still, rfl⟩
      | some k => exact ⟨u, rfl, still, rfl⟩

theorem map_count_mapM_cons (f : β → Except Fault Bool) (a : β) (rest : List β) :
    ((a :: rest).mapM f).map (·.count true) = f a >>= fun here =>
      (rest.mapM f).map (·.count true) >>= fun n => .ok (if here then n + 1 else n) := by
  rw [List.mapM_cons]
  cases f a with
  | error e => rfl
  | ok here =>
    change (rest.mapM f >>= fun bs => pure (here :: bs)).map (·.count true) = _
    cases rest.mapM f with
    | error e => rfl
    | ok bs => cases here <;> simp [Except.map, bind, Except.bind, pure, Except.pure]

theorem countFrom_stillAt (b : β) {position n : Nat} (still : r.IsStill m s)
    (enough : r.ready.length - position ≤ n) :
    StillAt m (countFrom m b position n)
      (((r.ready.drop position).mapM fun a => m.same s a b).map (·.count true)) r s := by
  induction n generalizing r position with
  | zero =>
    rw [List.drop_of_length_le (by omega)]
    exact ⟨r, rfl, still, rfl⟩
  | succ n ih =>
    refine ((fromReady_row? position).stillAt r s still).of_ok fun u still ready => ?_
    by_cases there : position < r.ready.length
    · rw [List.getElem?_eq_getElem there, List.drop_eq_getElem_cons there, map_count_mapM_cons]
      refine ((fromReady_same _ b).stillAt u s still).bind fun here v still' ready' => ?_
      have same : v.ready = r.ready := ready'.trans ready
      rw [← same]
      refine (ih still' (by rw [same]; omega)).bind fun rest w still _ => ?_
      exact ⟨w, rfl, still, rfl⟩
    · rw [List.getElem?_eq_none (Nat.le_of_not_lt there),
        List.drop_of_length_le (Nat.le_of_not_lt there)]
      exact ⟨u, rfl, still, rfl⟩

theorem fromReady_count (b : β) :
    FromReady m (count m b) fun s bs => (bs.mapM fun a => m.same s a b).map (·.count true) := by
  refine fromReady_bounded fun r s n still enough => ?_
  refine countFrom_stillAt b still ?_
  exact Nat.le_succ_of_le enough

theorem fromReady_reversed : FromReady m (reversed m) fun _ bs => .ok bs.reverse :=
  fromReady_bind fromReady_length fun _ => fromReady_ready (f := List.reverse)

end Rows
end RecordStore
