import RecordStore.Proofs.RowReads

/-!
# What reads are made of

Whatever a result is asked for, it is looked at and pulled, and its rows are compared. What holds of
these steps, and of one thing behind another, holds of every read.
-/

set_option autoImplicit false

namespace RecordStore

open Attempt

variable {σ α β γ δ : Type}

namespace Rows

/-- What a result can be asked for. Faults on the way come through, unless they are passed over. -/
inductive Asks (m : RowMaker σ α β) (passes : Fault → Bool) : {γ : Type} → Reading σ α β γ → Prop
  | pull : Asks m passes (pull m)
  | same (a b : β) : Asks m passes (same m a b)
  | look {γ : Type} {g : Rows α β × σ → Reading σ α β γ} (hg : ∀ p, Asks m passes (g p))
      (alike : ∀ r s t, g (r, s) = g (r, t)) : Asks m passes (get >>= g)
  | settled {γ : Type} (outcome : Except Fault γ) : Asks m passes (Attempt.ofExcept outcome)
  | bind {γ δ : Type} {x : Reading σ α β γ} {g : γ → Reading σ α β δ} (hx : Asks m passes x)
      (hg : ∀ c, Asks m passes (g c)) : Asks m passes (x >>= g)
  | caught {γ : Type} {x : Reading σ α β γ} {g : Fault → Reading σ α β γ} (hx : Asks m passes x)
      (hg : ∀ f, Asks m passes (g f)) (through : ∀ f, passes f = false → g f = throw f) :
      Asks m passes (tryCatch x g)

namespace Asks

variable {m : RowMaker σ α β} {passes : Fault → Bool} {x y : Reading σ α β γ}

theorem pure (c : γ) : Asks m passes (Pure.pure c) := settled (.ok c)

theorem throw (f : Fault) : Asks m passes (MonadExcept.throw f : Reading σ α β γ) :=
  settled (.error f)

theorem ite {p : Prop} [Decidable p] (hx : Asks m passes x) (hy : Asks m passes y) :
    Asks m passes (if p then x else y) := by
  split
  · exact hx
  · exact hy

theorem mapM {g : γ → Reading σ α β δ} (hg : ∀ c, Asks m passes (g c)) (c : Option γ) :
    Asks m passes (c.mapM g) := by
  cases c with
  | none => exact pure none
  | some c => exact bind (hg c) fun d => pure (some d)

theorem pullMany (n : Nat) : Asks m passes (Rows.pullMany m n) := by
  induction n with
  | zero => exact pure true
  | succ n ih => exact bind pull fun more => ite ih (pure _)

theorem fillTo (n : Nat) : Asks m passes (Rows.fillTo m n) :=
  look (fun p => pullMany (n + 1 - p.1.ready.length)) fun _ _ _ => rfl

theorem length : Asks m passes (Rows.length m) :=
  look (fun p => bind (pullMany (p.1.pending.length + 1)) fun _ =>
    look (fun p => pure p.1.ready.length) fun _ _ _ => rfl) fun _ _ _ => rfl

theorem readyRow? (n : Nat) : Asks m passes (Rows.readyRow? n) :=
  look (fun p => pure p.1.ready[n]?) fun _ _ _ => rfl

theorem bound : Asks m passes Rows.bound :=
  look (fun p => pure (p.1.ready.length + p.1.pending.length)) fun _ _ _ => rfl

theorem row? (n : Nat) : Asks m passes (Rows.row? m n) := bind (fillTo n) fun _ => readyRow? n

theorem rowAt (i : Int) : Asks m passes (Rows.rowAt m i) := by
  unfold Rows.rowAt
  refine ite (bind length fun n => ?_) (bind (row? _) fun found => ?_)
  · refine ite (throw _) (bind (readyRow? _) fun found => ?_)
    cases found with
    | none => exact throw _
    | some b => exact pure b
  · cases found with
    | none => exact throw _
    | some b => exact pure b

theorem fillPast (i : Bound) (n : Nat) : Asks m passes (Rows.fillPast m i n) := by
  induction n with
  | zero => exact pure false
  | succ n ih =>
    refine look (fun p => bind (settled _) fun isAtMost => ite (pure true) ?_) fun _ _ _ => rfl
    exact bind pull fun more => ite ih (pure false)

theorem row (i : Bound) : Asks m passes (Rows.row m i) := by
  unfold Rows.row
  cases i.position? with
  | some n => exact rowAt n
  | none =>
    refine bind (settled _) fun isBelow => ite (bind length fun _ => throw _) ?_
    exact bind bound fun n => bind (fillPast i (n + 1)) fun past => ite (throw _) (throw _)

theorem rowsFrom (position n : Nat) : Asks m passes (Rows.rowsFrom m position n) := by
  induction n generalizing position with
  | zero => exact pure []
  | succ n ih =>
    refine bind (row? position) fun found => ?_
    cases found with
    | none => exact pure []
    | some b => exact bind (ih (position + 1)) fun rest => pure (b :: rest)

theorem toList : Asks m passes (Rows.toList m) := bind bound fun n => rowsFrom 0 (n + 1)

theorem searchFrom (b : β) (last : Option Bound) (position n : Nat) :
    Asks m passes (Rows.searchFrom m b last position n) := by
  induction n generalizing position with
  | zero => exact pure none
  | succ n ih =>
    refine bind (settled _) fun isBefore => ite (pure none) (bind (row? position) fun found => ?_)
    cases found with
    | none => exact pure none
    | some a => exact bind (same a b) fun isSame => ite (pure (some position)) (ih (position + 1))

theorem contains (b : β) : Asks m passes (Rows.contains m b) :=
  bind bound fun n => bind (searchFrom b none 0 (n + 1)) fun found => pure found.isSome

theorem fromEnd (i : Bound) : Asks m passes (Rows.fromEnd m i) :=
  bind (settled _) fun _ => ite (bind length fun _ => settled _) (pure i)

theorem countFrom (b : β) (position n : Nat) : Asks m passes (Rows.countFrom m b position n) := by
  induction n generalizing position with
  | zero => exact pure 0
  | succ n ih =>
    refine bind (row? position) fun found => ?_
    cases found with
    | none => exact pure 0
    | some a => exact bind (same a b) fun here => bind (ih (position + 1)) fun rest => pure _

theorem count (b : β) : Asks m passes (Rows.count m b) :=
  bind bound fun n => countFrom b 0 (n + 1)

theorem reversed : Asks m passes (Rows.reversed m) :=
  bind length fun _ => look (fun p => pure p.1.ready.reverse) fun _ _ _ => rfl

theorem slice (s : Slice) (hp : passes (.misuse .type) = true) :
    Asks m passes (Rows.slice m s) := by
  refine bind (caught length (fun f => ?_) fun f through => ?_) fun _ =>
    bind toList fun bs => settled _
  · split
    · exact pure 0
    · exact throw _
  · split
    · rw [hp] at through
      cases through
    · rfl

theorem missAt (hp : passes .pastRows = true) (last : Option Bound) (i : Bound) :
    Asks m passes (Rows.missAt m last i) := by
  refine bind (settled _) fun isBefore => ite ?_ (pure _)
  refine caught (bind (row i) fun _ => pure _) (fun f => ?_) fun f through => ?_
  · split
    · exact pure _
    · exact throw _
  · split
    · rw [hp] at through
      cases through
    · rfl

theorem index (hp : passes .pastRows = true) (b : β) (start stop : Option Bound) :
    Asks m passes (Rows.index m b start stop) := by
  unfold Rows.index
  refine bind (mapM (fun i => ?_) start) fun first => bind (mapM fromEnd stop) fun last => ?_
  · exact bind (fromEnd i) fun i => bind (settled _) fun isBelow => ite (pure 0) (pure i)
  cases first with
  | none =>
    refine bind (throw _) fun found => ?_
    cases found with
    | none => exact throw _
    | some k => exact pure k
  | some i =>
    dsimp only
    cases i.position? with
    | none => exact bind (missAt hp last i) fun _ => throw _
    | some n =>
      refine bind bound fun k => bind (searchFrom b last n.toNat (k + 1)) fun found => ?_
      cases found with
      | none => exact throw _
      | some k => exact pure _

end Asks
end Rows

namespace RowsRead

/-- The faults that a read passes over. -/
def passes : RowsRead β → Fault → Bool
  | .slice _, .misuse .type => true
  | .index _ _ _, .pastRows => true
  | _, _ => false

open RowsSession

theorem perform_cases (m : RowMaker σ α β) (read : RowsRead β) :
    read = .walk ∨ (∃ i, read = .next i) ∨
      ∃ (γ : Type) (x : Reading σ α β γ) (g : γ → RowsReply β),
        read.perform m = g <$> onRows x ∧ Rows.Asks m read.passes x := by
  cases read with
  | walk => exact .inl rfl
  | next i => exact .inr (.inl ⟨i, rfl⟩)
  | length => exact .inr (.inr ⟨_, _, _, rfl, .length⟩)
  | isNonempty => exact .inr (.inr ⟨_, _, _, rfl, .fillTo 0⟩)
  | row i => exact .inr (.inr ⟨_, _, _, rfl, .row i⟩)
  | slice s => exact .inr (.inr ⟨_, _, _, rfl, .slice s rfl⟩)
  | toList => exact .inr (.inr ⟨_, _, _, rfl, .toList⟩)
  | reversed => exact .inr (.inr ⟨_, _, _, rfl, .reversed⟩)
  | contains b => exact .inr (.inr ⟨_, _, _, rfl, .contains b⟩)
  | index b start stop => exact .inr (.inr ⟨_, _, _, rfl, .index rfl b start stop⟩)
  | count b => exact .inr (.inr ⟨_, _, _, rfl, .count b⟩)

end RowsRead
end RecordStore
