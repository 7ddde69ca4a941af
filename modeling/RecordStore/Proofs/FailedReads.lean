import RecordStore.Proofs.AskedRows

/-!
# Reads that fail

A result goes on behind a read that has failed. If no row could be made of an item, the item is
lost, and if the source has failed, all that is behind the fault is lost. Nothing else is: each loss
is the failure of a read, unless the read passes over it.

The sources are cursors, which end with their first fault.
-/

set_option autoImplicit false

namespace RecordStore

open Attempt

variable {σ α β γ δ : Type}

def Fault.of? : Except Fault γ → Option Fault
  | .ok _ => none
  | .error f => some f

theorem Fault.of?_map (x : Except Fault γ) (g : γ → δ) : Fault.of? (x.map g) = Fault.of? x := by
  cases x <;> rfl

/-- What came of a source: of the items that were received, and of the source itself if it
failed. -/
structure Tried (β : Type) where
  made : List (Except Fault β)
  stop : Option Fault

namespace Tried

def start : Tried β := ⟨[], none⟩

def rows (t : Tried β) : List β := t.made.filterMap Except.toOption

/-- The faults by which something was lost. -/
def lost (t : Tried β) : List Fault := t.made.filterMap Fault.of? ++ t.stop.toList

end Tried

namespace RowMaker

variable (m : RowMaker σ α β)

/-- Whether the making of a row can come to an outcome, in some world. -/
def Comes (d : Delivery α) (outcome : Except Fault β) : Prop :=
  ∃ a s t u, (m.receive d).on s = (.ok a, t) ∧ (m.make a).on t = (outcome, u)

/-- Whether a delivery can fail, in some world, and how a statement names the fault. -/
def Stops (query : Option Text) (d : Delivery α) (f : Fault) : Prop :=
  ∃ g s t, (m.receive d).on s = (.error g, t) ∧ f = g.wrapped .reading query

end RowMaker

namespace Rows

variable {m : RowMaker σ α β} {c : Cursor α} {query : Option Text} {t : Tried β} {r : Rows α β}

/-- The invariant of a result. Its rows are those that could be made of the items received so far,
and the others are still to come, unless the source has failed. -/
structure Stands (m : RowMaker σ α β) (c : Cursor α) (query : Option Text) (t : Tried β)
    (r : Rows α β) : Prop where
  query_eq : r.query = query
  made : List.Forall₂ m.Comes (c.take t.made.length) t.made
  ready : r.ready = t.rows
  pending : r.isDisconnected = false →
    r.pending = if t.stop.isSome then [] else c.drop t.made.length
  stopped : ∀ f ∈ t.stop, ∃ d ∈ (c.drop t.made.length).head?, m.Stops query d f
  exhausted : r.isExhausted = true → t.stop.isSome = true ∨ t.made.length = c.length

theorem start_stands (m : RowMaker σ α β) (c : Cursor α) (token : Option Nat)
    (query : Option Text) : Stands m c query .start (Rows.start c token query) where
  query_eq := rfl
  made := .nil
  ready := rfl
  pending _ := rfl
  stopped := nofun
  exhausted := nofun

theorem Stands.length_made_le (h : Stands m c query t r) : t.made.length ≤ c.length := by
  have taken := h.made.length_eq
  rw [List.length_take] at taken
  omega

theorem Stands.disconnect (h : Stands m c query t r) : Stands m c query t r.disconnect where
  query_eq := by
    rw [← h.query_eq, Rows.disconnect]
    split <;> rfl
  made := h.made
  ready := by rw [disconnect_ready, h.ready]
  pending connected := by
    rw [disconnect_isDisconnected] at connected
    cases connected
  stopped := h.stopped
  exhausted := by
    rw [disconnect_isExhausted]
    exact h.exhausted

theorem Stands.drop_eq (h : Stands m c query t r) (connected : r.isDisconnected = false)
    {d : Delivery α} {rest : Cursor α} (next : r.pending = d :: rest) :
    t.stop = none ∧ c.drop t.made.length = d :: rest := by
  have left := h.pending connected
  rw [next] at left
  cases stop : t.stop with
  | none =>
    rw [stop] at left
    exact ⟨rfl, left.symm⟩
  | some f =>
    rw [stop] at left
    cases left

theorem Stands.receive (h : Stands m c query t r) (going : r.isExhausted = false)
    (connected : r.isDisconnected = false) {d : Delivery α} {rest : Cursor α}
    (next : r.pending = d :: rest) {outcome : Except Fault β} (comes : m.Comes d outcome) :
    Stands m c query ⟨t.made ++ [outcome], none⟩
      { r with pending := rest, ready := r.ready ++ outcome.toOption.toList } := by
  obtain ⟨-, left⟩ := h.drop_eq connected next
  obtain ⟨taken, dropped⟩ := take_drop_succ left
  have count : (t.made ++ [outcome]).length = t.made.length + 1 := List.length_append
  refine ⟨h.query_eq, ?_, ?_, fun _ => ?_, nofun, fun exhausted => ?_⟩
  · rw [count, taken]
    exact List.rel_append h.made (.cons comes .nil)
  · show r.ready ++ _ = (t.made ++ [outcome]).filterMap Except.toOption
    rw [h.ready, List.filterMap_append]
    cases outcome <;> rfl
  · rw [count, dropped]
    rfl
  · rw [going] at exhausted
    cases exhausted

theorem Stands.fail (h : Stands m c query t r) (going : r.isExhausted = false)
    (connected : r.isDisconnected = false) {d : Delivery α} {rest : Cursor α}
    (next : r.pending = d :: rest) {f : Fault} (stops : m.Stops query d f) :
    Stands m c query ⟨t.made, some f⟩ { r with pending := [] } := by
  obtain ⟨-, left⟩ := h.drop_eq connected next
  refine ⟨h.query_eq, h.made, h.ready, fun _ => rfl, ?_, fun exhausted => ?_⟩
  · rintro _ ⟨⟩
    refine ⟨d, ?_, stops⟩
    rw [left]
    rfl
  · rw [going] at exhausted
    cases exhausted

theorem Stands.exhaust (h : Stands m c query t r) (connected : r.isDisconnected = false)
    (next : r.pending = []) : Stands m c query t { r with isExhausted := true } := by
  refine ⟨h.query_eq, h.made, h.ready, h.pending, h.stopped, fun _ => ?_⟩
  have left := h.pending connected
  rw [next] at left
  cases stop : t.stop with
  | some f => exact .inl rfl
  | none =>
    rw [stop] at left
    have all : c.length ≤ t.made.length := List.drop_eq_nil_iff.mp left.symm
    exact .inr (Nat.le_antisymm h.length_made_le all)

/-- Whether a result has come to a state and has lost nothing but what it passed over and what it
told of. -/
def Loses (m : RowMaker σ α β) (c : Cursor α) (query : Option Text) (passes : Fault → Bool)
    (t : Tried β) (told : Option Fault) (r : Rows α β) : Prop :=
  ∃ t' lost, Stands m c query t' r ∧ t'.lost = t.lost ++ lost ∧
    (lost.filter fun f => !passes f).Sublist told.toList

section Loses

variable {passes : Fault → Bool} {told : Option Fault} {r' : Rows α β}

theorem Stands.loses (h : Stands m c query t r) (passes : Fault → Bool) (told : Option Fault) :
    Loses m c query passes t told r :=
  ⟨t, [], h, (List.append_nil _).symm, List.nil_sublist _⟩

theorem Loses.trans (h : Loses m c query passes t none r)
    (h' : ∀ t, Stands m c query t r → Loses m c query passes t told r') :
    Loses m c query passes t told r' := by
  obtain ⟨t₁, lost, stands, own, passed⟩ := h
  obtain ⟨t₂, lost', stands', more, told⟩ := h' t₁ stands
  refine ⟨t₂, lost ++ lost', stands', by rw [more, own, List.append_assoc], ?_⟩
  rw [List.filter_append, List.sublist_nil.mp passed]
  exact told

theorem Loses.passed {f : Fault} (h : Loses m c query passes t (some f) r) (hf : passes f = true) :
    Loses m c query passes t none r := by
  obtain ⟨t', lost, stands, own, told⟩ := h
  refine ⟨t', lost, stands, own, ?_⟩
  have none : lost.filter (fun f => !passes f) = [] := by
    rw [List.eq_nil_iff_forall_not_mem]
    intro g hg
    obtain rfl : g = f := by simpa using told.subset hg
    simp [hf] at hg
  rw [none]
  exact List.nil_sublist _

end Loses

/-- Whether something that is asked of a result tells of what it loses by failing. -/
def Tells (m : RowMaker σ α β) (c : Cursor α) (query : Option Text) (passes : Fault → Bool)
    (x : Reading σ α β γ) : Prop :=
  ∀ p t, Stands m c query t p.1 →
    Loses m c query passes t (Fault.of? (x.on p).1) (x.on p).2.1

section Tells

variable {passes : Fault → Bool}

theorem tells_bind {x : Reading σ α β γ} {g : γ → Reading σ α β δ} (hx : Tells m c query passes x)
    (hg : ∀ a, Tells m c query passes (g a)) : Tells m c query passes (x >>= g) := by
  intro p t h
  have first := hx p t h
  rw [on_bind]
  rcases ran : x.on p with ⟨f | a, q⟩
  · rw [ran] at first
    exact first
  · rw [ran] at first
    exact first.trans fun t h => hg a q t h

theorem tells_tryCatch {x : Reading σ α β γ} {g : Fault → Reading σ α β γ}
    (hx : Tells m c query passes x) (hg : ∀ f, Tells m c query passes (g f))
    (through : ∀ f, passes f = false → g f = throw f) :
    Tells m c query passes (tryCatch x g) := by
  intro p t h
  have first := hx p t h
  rw [on_tryCatch]
  rcases ran : x.on p with ⟨f | a, q⟩
  · rw [ran] at first
    cases passed : passes f with
    | true => exact (first.passed passed).trans fun t h => hg f q t h
    | false =>
      dsimp only
      rw [through f passed]
      exact first
  · rw [ran] at first
    exact first

theorem tells_pull : Tells m c query passes (pull m) := by
  rintro ⟨r, s⟩ t h
  by_cases ended : (r.isExhausted || r.isDisconnected) = true
  · rw [pull_over ended]
    exact h.loses passes _
  have going : (r.isExhausted || r.isDisconnected) = false := Bool.eq_false_iff.mpr ended
  obtain ⟨unexhausted, connected⟩ := Bool.or_eq_false_iff.mp going
  by_cases cut : r.isCancelled m s = true
  · rw [pull_cut going cut]
    exact h.disconnect.loses passes _
  have goes : r.Goes m s := ⟨going, Bool.eq_false_iff.mpr cut⟩
  have left := h.pending connected
  cases next : r.pending with
  | nil =>
    rw [pull_nil goes next]
    exact (h.exhaust connected next).loses passes _
  | cons d rest =>
    obtain ⟨stop, -⟩ := h.drop_eq connected next
    rcases received : (m.receive d).on s with ⟨f | a, u⟩
    · rw [pull_failed goes next received]
      have stops : m.Stops query d (f.wrapped .reading r.query) :=
        ⟨f, s, u, received, by rw [h.query_eq]⟩
      refine ⟨_, [f.wrapped .reading r.query], h.fail unexhausted connected next stops, ?_,
        List.filter_sublist⟩
      simp [Tried.lost, stop]
    · rcases made : (m.make a).on u with ⟨f | b, v⟩
      · rw [pull_unmade goes next received made]
        have stands : Stands m c query ⟨t.made ++ [.error f], none⟩ { r with pending := rest } := by
          simpa [Except.toOption] using
            h.receive unexhausted connected next ⟨a, s, u, v, received, made⟩
        refine ⟨_, [f], stands, ?_, List.filter_sublist⟩
        simp [Tried.lost, stop, Fault.of?]
      · rw [pull_made goes next received made]
        refine ⟨_, [], h.receive unexhausted connected next ⟨a, s, u, v, received, made⟩, ?_,
          List.nil_sublist _⟩
        simp [Tried.lost, stop, Fault.of?]

theorem Asks.tells {x : Reading σ α β γ} (hx : Asks m passes x) : Tells m c query passes x := by
  induction hx with
  | pull => exact tells_pull
  | same a b =>
    intro p t h
    rw [Rows.same, on_bind_of_ok (on_get p)]
    dsimp only
    rw [on_ofExcept]
    exact h.loses passes _
  | look _ _ ih => exact fun p t h => ih p p t h
  | settled outcome =>
    intro p t h
    rw [on_ofExcept]
    exact h.loses passes _
  | bind _ _ ihx ihg => exact tells_bind ihx ihg
  | caught _ _ through ihx ihg => exact tells_tryCatch ihx ihg through

end Tells

end Rows

theorem Walk.next_on (m : RowMaker σ α β) (w : Walk) (p : Rows α β × σ) :
    (w.next m).on p =
      if w.isOver then (.ok (.ok none, w), p)
      else
        match (Rows.row? m w.position).on p with
        | (.ok found, q) => (.ok (.ok found, Course.stepped w found), q)
        | (.error f, q) => (.ok (.error f, { w with isOver := true }), q) := by
  unfold Walk.next
  split
  · rfl
  · rw [on_tryCatch, on_bind]
    rcases (Rows.row? m w.position).on p with ⟨f | _ | b, q⟩ <;> rfl

theorem RowsRead.loses_next {m : RowMaker σ α β} {c : Cursor α} {query : Option Text} {t : Tried β}
    {q : RowsSession σ α β} (h : Rows.Stands m c query t q.rows) (passes : Fault → Bool) (i : Nat) :
    Rows.Loses m c query passes t (Fault.of? (((RowsRead.next i).perform m).on q).1)
      (((RowsRead.next i).perform m).on q).2.rows := by
  rw [RowsRead.perform, on_bind_of_ok (on_get q)]
  cases q.walks[i]? with
  | none => exact h.loses passes _
  | some w =>
    have next : (RowsSession.onRows (w.next m)).on q =
        (((w.next m).on (q.rows, q.world)).1,
          { q with
            rows := ((w.next m).on (q.rows, q.world)).2.1
            world := ((w.next m).on (q.rows, q.world)).2.2 }) := rfl
    rw [w.next_on] at next
    have asks : Rows.Asks m passes (Rows.row? m w.position) := .row? w.position
    have told := asks.tells (q.rows, q.world) t h
    by_cases ended : w.isOver = true
    · rw [if_pos ended] at next
      dsimp only
      rw [on_bind_of_ok next]
      exact h.loses passes _
    · rw [if_neg ended] at next
      rcases ran : (Rows.row? m w.position).on (q.rows, q.world) with ⟨f | found, p⟩
      · rw [ran] at next told
        dsimp only
        rw [on_bind_of_ok next]
        exact told
      · rw [ran] at next told
        dsimp only
        rw [on_bind_of_ok next]
        exact told

theorem RowsRead.loses {m : RowMaker σ α β} {c : Cursor α} {query : Option Text} {t : Tried β}
    {q : RowsSession σ α β} (h : Rows.Stands m c query t q.rows) (read : RowsRead β) :
    Rows.Loses m c query read.passes t (Fault.of? ((read.perform m).on q).1)
      ((read.perform m).on q).2.rows := by
  rcases read.perform_cases m with rfl | ⟨i, rfl⟩ | ⟨γ, x, g, performs, asks⟩
  · exact h.loses _ _
  · exact loses_next h _ i
  · rw [performs, on_map, RowsSession.onRows, on_zoom, Fault.of?_map]
    exact asks.tells (q.rows, q.world) t h

/-- What can happen to a session: a read, a change of the world, or that the result is cut off. -/
inductive RowsAction (σ β : Type) where
  | read (r : RowsRead β)
  | change (f : σ → σ)
  | disconnect

namespace RowsAction

def passes : RowsAction σ β → Fault → Bool
  | .read r, f => r.passes f
  | _, _ => false

def perform (m : RowMaker σ α β) (q : RowsSession σ α β) :
    RowsAction σ β → Option Fault × RowsSession σ α β
  | .read r => (Fault.of? ((r.perform m).on q).1, ((r.perform m).on q).2)
  | .change f => (none, { q with world := f q.world })
  | .disconnect => (none, { q with rows := q.rows.disconnect })

end RowsAction

def RowsSession.after (m : RowMaker σ α β) :
    List (RowsAction σ β) → RowsSession σ α β → List Fault × RowsSession σ α β
  | [], q => ([], q)
  | action :: rest, q =>
    let (told, q) := action.perform m q
    let (others, q) := after m rest q
    (told.toList ++ others, q)

section Sessions

variable {m : RowMaker σ α β} {c : Cursor α} {query : Option Text} {t : Tried β}
  {q : RowsSession σ α β}

theorem RowsAction.loses (h : Rows.Stands m c query t q.rows) (action : RowsAction σ β) :
    Rows.Loses m c query action.passes t (action.perform m q).1 (action.perform m q).2.rows := by
  cases action with
  | read r => exact r.loses h
  | change f => exact h.loses _ _
  | disconnect => exact h.disconnect.loses _ _

theorem RowsSession.after_loses (h : Rows.Stands m c query t q.rows) {passes : Fault → Bool}
    (actions : List (RowsAction σ β))
    (hp : ∀ action ∈ actions, ∀ f, action.passes f = true → passes f = true) :
    ∃ t' lost, Rows.Stands m c query t' (after m actions q).2.rows ∧ t'.lost = t.lost ++ lost ∧
      (lost.filter fun f => !passes f).Sublist (after m actions q).1 := by
  induction actions generalizing t q with
  | nil => exact ⟨t, [], h, (List.append_nil _).symm, List.nil_sublist _⟩
  | cons action rest ih =>
    obtain ⟨own, others⟩ := List.forall_mem_cons.mp hp
    obtain ⟨t₁, first, stands, lost, told⟩ := action.loses h
    obtain ⟨t₂, later, stands', lost', told'⟩ := ih stands others
    refine ⟨t₂, first ++ later, stands', by rw [lost', lost, List.append_assoc], ?_⟩
    rw [List.filter_append]
    refine List.Sublist.append (.trans (List.monotone_filter_right first fun f hf => ?_) told) told'
    by_contra passed
    simp only [Bool.not_eq_true', Bool.not_eq_false] at hf passed
    rw [own f (by simpa using passed)] at hf
    cases hf

/-- Whether the rows of a result are made of as many items from the start of its source, and of all
items once the result is exhausted. -/
structure Rows.HasNoGap (m : RowMaker σ α β) (c : Cursor α) (r : Rows α β) : Prop where
  ready : List.Forall₂ (fun d b => m.Comes d (.ok b)) (c.take r.ready.length) r.ready
  exhausted : r.isExhausted = true → r.ready.length = c.length

theorem Tried.made_eq (h : t.lost = []) : t.made = t.rows.map .ok := by
  have kept : ∀ x ∈ t.made, Fault.of? x = none :=
    List.filterMap_eq_nil_iff.mp (List.append_eq_nil_iff.mp h).1
  rw [rows]
  generalize t.made = made at kept
  induction made with
  | nil => rfl
  | cons x rest ih =>
    obtain ⟨first, others⟩ := List.forall_mem_cons.mp kept
    cases x with
    | error f => cases first
    | ok b => exact congrArg (.ok b :: ·) (ih others)

theorem Rows.Stands.hasNoGap {r : Rows α β} (h : Stands m c query t r) (kept : t.lost = []) :
    HasNoGap m c r := by
  have count : t.made.length = r.ready.length := by rw [Tried.made_eq kept, h.ready,
      List.length_map]
  refine ⟨?_, fun exhausted => ?_⟩
  · have made := h.made
    rw [count, Tried.made_eq kept, ← h.ready, List.forall₂_map_right_iff] at made
    exact made
  · have unstopped : t.stop = none := by
      have none := (List.append_eq_nil_iff.mp kept).2
      cases stop : t.stop with
      | none => rfl
      | some f => simp [stop] at none
    rcases h.exhausted exhausted with stopped | all
    · rw [unstopped] at stopped
      cases stopped
    · rw [← count, all]

/-- Whatever is read of a result while its world changes, its rows are those that could be made of
the items received so far, in order. Only a failing read loses anything, or one that passes over a
fault, and what is lost makes the only gaps: once the source has failed, a result that counts as
exhausted can be short of all that is behind the fault. -/
theorem session_loses (m : RowMaker σ α β) (c : Cursor α) (token : Option Nat)
    (query : Option Text) (w : σ) (actions : List (RowsAction σ β)) :
    let told := (RowsSession.after m actions (RowsSession.start c token query w)).1
    let rows := (RowsSession.after m actions (RowsSession.start c token query w)).2.rows
    ∃ t : Tried β,
      List.Forall₂ m.Comes (c.take t.made.length) t.made ∧
      (∀ f ∈ t.stop, ∃ d ∈ (c.drop t.made.length).head?, m.Stops query d f) ∧
      rows.ready = t.rows ∧
      (rows.isExhausted = true → t.stop.isSome = true ∨ t.made.length = c.length) ∧
      (t.lost.filter fun f => !actions.any (·.passes f)).Sublist told ∧
      (t.lost = [] → rows.HasNoGap m c) ∧
      (told = [] → (∀ f, actions.any (·.passes f) = false) → rows.HasNoGap m c) := by
  intro told rows
  obtain ⟨t, lost, stands, own, untold⟩ :=
    RowsSession.after_loses (q := RowsSession.start c token query w)
      (Rows.start_stands m c token query) actions fun action here f hf =>
        show actions.any (·.passes f) = true from List.any_eq_true.mpr ⟨action, here, hf⟩
  have all : t.lost = lost := own
  rw [← all] at untold
  refine ⟨t, stands.made, stands.stopped, stands.ready, stands.exhausted, untold, stands.hasNoGap,
    fun nothing through => stands.hasNoGap ?_⟩
  have every : t.lost.filter (fun f => !actions.any (·.passes f)) = t.lost :=
    List.filter_eq_self.mpr fun f _ => by rw [through f]; rfl
  rw [← every]
  refine List.sublist_nil.mp ?_
  rw [← nothing]
  exact untold

end Sessions

def refusing (n : Nat) : RowMaker Unit Nat Nat where
  isCancelled _ _ := false
  read _ := pure ()
  make k := Attempt.ofExcept (if k = n then .error (.misuse .type) else .ok k)
  same _ a b := .ok (decide (a = b))

-- The second number is lost, and the row that was asked for again is the third.
example :
    let c : Cursor Nat := [1, 2, 3].map fun n => ⟨.ok n, none⟩
    let q := (RowsSession.after (refusing 2) [.read (.row (.integer 1)), .read (.row (.integer 1))]
      (RowsSession.start c none none ())).2
    q.rows.ready = [1, 3] := by
  decide

end RecordStore
