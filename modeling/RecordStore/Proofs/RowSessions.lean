import RecordStore.Proofs.RangeSlices
import RecordStore.Rows
import RecordStore.Proofs.RevealedRows

/-!
# Sessions on a result

A session asks one result for walks, for steps of any of them, for its length, for rows by their
positions and for slices, in any order, and can cancel its token at any time. Every answer is the
answer of a list: of all rows while the token is valid, and of the ready rows once it is cancelled.
-/

set_option autoImplicit false

namespace RecordStore

open Attempt

variable {σ α β γ : Type}

inductive RowsRequest where
  | walk
  | next (walk : Nat)
  | length
  | isNonempty
  | rowAt (position : Int)
  | slice (s : Slice)
  | cancel

inductive RowsAnswer (β : Type) where
  | done
  | row (b : Option β)
  | number (n : Nat)
  | truth (b : Bool)
  | rows (bs : List β)
  deriving DecidableEq

/-- A result, the walks along it that were begun, and the world that its rows are made in. -/
structure RowsSession (σ α β : Type) where
  rows : Rows α β
  walks : List Walk
  world : σ

def itemAt (items : List β) (i : Int) : Except Fault β :=
  let n := if i < 0 then i + items.length else i
  if n < 0 then .error (.misuse .position)
  else (items[n.toNat]?).elim (.error (.misuse .position)) .ok

def listed (items : List β) (given : List Nat) : RowsRequest →
    Except Fault (RowsAnswer β) × List Nat
  | .walk => (.ok .done, given ++ [0])
  | .next i =>
    match given[i]? with
    | none => (.ok (.row none), given)
    | some n =>
      match items[n]? with
      | none => (.ok (.row none), given)
      | some b => (.ok (.row (some b)), given.set i (n + 1))
  | .length => (.ok (.number items.length), given)
  | .isNonempty => (.ok (.truth (decide (0 < items.length))), given)
  | .rowAt i => ((itemAt items i).map fun b => .row (some b), given)
  | .slice s => ((s.apply items).map .rows, given)
  | .cancel => (.ok .done, given)

theorem set_getElem?_self {l : List γ} {i : Nat} {a : γ} (h : l[i]? = some a) : l.set i a = l := by
  obtain ⟨hi, rfl⟩ := List.getElem?_eq_some_iff.mp h
  exact List.set_getElem_self hi

theorem listed_next {given : List Nat} {i n : Nat} (h : given[i]? = some n) (bs : List β) :
    listed bs given (.next i) =
      (.ok (.row bs[n]?), given.set i (n + if n < bs.length then 1 else 0)) := by
  simp only [listed, h]
  by_cases short : n < bs.length
  · rw [List.getElem?_eq_getElem short, if_pos short]
  · rw [List.getElem?_eq_none (by omega), if_neg short]
    exact congrArg _ (set_getElem?_self h).symm

def RowsRequest.need (given : List Nat) : RowsRequest → Option Nat
  | .walk | .cancel => some 0
  | .next i => some ((given[i]?.map (· + 1)).getD 0)
  | .isNonempty => some 1
  | .rowAt i => if i < 0 then none else some (i.toNat + 1)
  | .length | .slice _ => none

/-- A position past the rows of a result is to a list a position like any other that it lacks. -/
def Fault.asPosition : Fault → Fault
  | .pastRows => .misuse .position
  | f => f

namespace RowsSession

def start (c : Cursor α) (token : Option Nat) (query : Option Text) (s : σ) : RowsSession σ α β :=
  ⟨Rows.start c token query, [], s⟩

def onRows (x : Reading σ α β γ) : Attempt (RowsSession σ α β) γ :=
  x.zoom (fun q => (q.rows, q.world)) fun q p => { q with rows := p.1, world := p.2 }

def given (q : RowsSession σ α β) : List Nat := q.walks.map Walk.position

def isCancelled (m : RowMaker σ α β) (q : RowsSession σ α β) : Bool := q.rows.isCancelled m q.world

variable (m : RowMaker σ α β) (cancel : Nat → σ → σ)

def answer : RowsRequest → Attempt (RowsSession σ α β) (RowsAnswer β)
  | .walk => do
    modify fun q => { q with walks := q.walks ++ [Walk.start] }
    return .done
  | .next i => do
    let q ← get
    match q.walks[i]? with
    | none => return .row none
    | some w =>
      let (found, w) ← onRows (w.next m)
      modify fun q => { q with walks := q.walks.set i w }
      return .row (← Attempt.ofExcept found)
  | .length => .number <$> onRows (Rows.length m)
  | .isNonempty => .truth <$> onRows (Rows.isNonempty m)
  | .rowAt i => (fun b => .row (some b)) <$> onRows (Rows.rowAt m i)
  | .slice s => .rows <$> onRows (Rows.slice m s)
  | .cancel => do
    modify fun q =>
      match q.rows.token with
      | none => q
      | some k => { q with world := cancel k q.world }
    return .done

/-- What a session has come to behind a list of requests. -/
def run : List RowsRequest → RowsSession σ α β → RowsSession σ α β
  | [], q => q
  | request :: requests, q => run requests ((answer m cancel request).on q).2

end RowsSession

namespace Course

variable {o : Course σ α β} {p q : RowsSession σ α β}

/-- The invariant of a session. A walk is over only where no row can come behind those it gave. -/
structure Follows (o : Course σ α β) (q : RowsSession σ α β) : Prop where
  reveals : o.Reveals (q.rows, q.world)
  ended : ∀ w ∈ q.walks, w.isOver = true →
    q.rows.ready.length ≤ w.position ∧ o.IsFinal (q.rows, q.world)

theorem Leads.ready_eq {p q : Rows α β × σ} (h : o.Leads p q) (final : o.IsFinal p) :
    q.1.ready = p.1.ready := by
  rcases final with cut | whole
  · exact (h.kept cut).2
  · exact (h.ready.eq_of_length_le (whole ▸ h.reveals.ready.length_le)).symm

theorem Follows.over_of_leads (h : o.Follows p)
    (leads : o.Leads (p.rows, p.world) (q.rows, q.world)) {w : Walk} (hw : w ∈ p.walks)
    (ended : w.isOver = true) :
    q.rows.ready.length ≤ w.position ∧ o.IsFinal (q.rows, q.world) := by
  obtain ⟨position, final⟩ := h.ended w hw ended
  have same : q.rows.ready = p.rows.ready := leads.ready_eq final
  exact ⟨by rwa [same], leads.isFinal final⟩

theorem answers_rowAt (i : Int) :
    o.Answers (Rows.rowAt o.maker i) (if i < 0 then none else some (i.toNat + 1)) fun bs =>
      if i < 0 then itemAt bs i else (bs[i.toNat]?).elim (.error .pastRows) .ok := by
  by_cases below : i < 0
  · simp only [below, if_true]
    constructor
    intro p h
    obtain ⟨q, counted, leads, final⟩ := length_spec h
    refine ⟨q, ?_, leads, final.imp_right fun whole => by rw [whole], nofun⟩
    rw [Rows.rowAt, if_pos below, on_bind_of_ok counted, itemAt]
    simp only [below, if_true]
    by_cases outside : i + (q.1.ready.length : Int) < 0
    · simp only [outside, if_true, on_throw]
    · simp only [outside, if_false]
      have found : (Rows.readyRow? (i + q.1.ready.length).toNat).on q =
          (.ok q.1.ready[(i + q.1.ready.length).toNat]?, q) := rfl
      rw [on_bind_of_ok found]
      cases q.1.ready[(i + q.1.ready.length).toNat]? <;> rfl
  · simp only [below, if_false]
    constructor
    intro p h
    obtain ⟨q, found, leads, agrees, bound⟩ := (answers_row? i.toNat).from_ready p h
    refine ⟨q, ?_, leads, agrees.imp_right fun same => by rw [Except.ok.inj same], bound⟩
    rw [Rows.rowAt, if_neg below, on_bind_of_ok found]
    cases q.1.ready[i.toNat]? <;> rfl

def stepped (w : Walk) : Option β → Walk
  | some _ => { w with position := w.position + 1 }
  | none => { w with isOver := true }

theorem stepped_position (w : Walk) (bs : List β) :
    (stepped w bs[w.position]?).position =
      w.position + if w.position < bs.length then 1 else 0 := by
  by_cases short : w.position < bs.length
  · rw [List.getElem?_eq_getElem short, if_pos short]
    rfl
  · rw [List.getElem?_eq_none (by omega), if_neg short]
    rfl

theorem le_of_stepped_isOver {w : Walk} {bs : List β} (hw : w.isOver = false)
    (h : (stepped w bs[w.position]?).isOver = true) : bs.length ≤ w.position := by
  cases found : bs[w.position]? with
  | none => exact List.getElem?_eq_none_iff.mp found
  | some b =>
    rw [found, stepped, hw] at h
    cases h

theorem next_spec {p : Rows α β × σ} {w : Walk} (hw : w.isOver = false) (h : o.Reveals p) :
    ∃ q, (w.next o.maker).on p =
        (.ok (.ok q.1.ready[w.position]?, stepped w q.1.ready[w.position]?), q) ∧ o.Leads p q ∧
      (q.1.ready.length ≤ w.position → o.IsFinal q) ∧
      q.1.ready.length ≤ max p.1.ready.length (w.position + 1) := by
  obtain ⟨q, found, leads, final, bound⟩ := row?_spec h w.position
  refine ⟨q, ?_, leads, final, bound⟩
  rw [Walk.next, if_neg (by simp [hw])]
  apply on_tryCatch_of_ok
  rw [on_bind_of_ok found]
  cases q.1.ready[w.position]? <;> rfl

/-- Whether an answer is that of a list: of the ready rows, and of all rows unless the token is
cancelled. -/
structure Step (o : Course σ α β) (p : RowsSession σ α β) (request : RowsRequest)
    (outcome : Except Fault (RowsAnswer β)) (q : RowsSession σ α β) : Prop where
  follows : o.Follows q
  leads : o.Leads (p.rows, p.world) (q.rows, q.world)
  answer : (outcome.mapError Fault.asPosition, q.given) = listed q.rows.ready p.given request
  agrees : o.IsCut (q.rows, q.world) ∨
    listed q.rows.ready p.given request = listed o.rows p.given request
  bound : ∀ n ∈ request.need p.given, q.rows.ready.length ≤ max p.rows.ready.length n

theorem step_onRows {request : RowsRequest} {x : Reading σ α β γ} {f : List β → Except Fault γ}
    {g : γ → RowsAnswer β} (answers : o.Answers x (request.need p.given) f) (h : o.Follows p)
    (same : RowsSession.answer o.maker o.cancel request = g <$> RowsSession.onRows x)
    (as_list : ∀ bs : List β,
      (((f bs).map g).mapError Fault.asPosition, p.given) = listed bs p.given request) :
    ∃ outcome q, (RowsSession.answer o.maker o.cancel request).on p = (outcome, q) ∧
      o.Step p request outcome q := by
  obtain ⟨⟨r, s⟩, ran, leads, agrees, bound⟩ := answers.from_ready (p.rows, p.world) h.reveals
  refine ⟨(f r.ready).map g, { p with rows := r, world := s }, ?_, ?_⟩
  · rw [same, on_map, RowsSession.onRows, on_zoom, ran]
  · refine ⟨⟨leads.reveals, fun w hw ended => h.over_of_leads leads hw ended⟩, leads,
      as_list r.ready, agrees.imp_right fun same => ?_, bound⟩
    rw [← as_list, ← as_list, same]

theorem rowAt_as_list (bs : List β) (i : Int) :
    ((if i < 0 then itemAt bs i else (bs[i.toNat]?).elim (.error .pastRows) .ok).map
      fun b => RowsAnswer.row (some b)).mapError Fault.asPosition =
      (itemAt bs i).map fun b => .row (some b) := by
  simp only [itemAt]
  by_cases below : i < 0
  · simp only [below, if_true]
    by_cases outside : i + (bs.length : Int) < 0
    · simp only [outside, if_true]
      rfl
    · simp only [outside, if_false]
      cases bs[(i + (bs.length : Int)).toNat]? <;> rfl
  · simp only [below, if_false]
    cases bs[i.toNat]? <;> rfl

theorem slice_as_list (bs : List β) (s : Slice) :
    ((s.apply bs).map RowsAnswer.rows).mapError Fault.asPosition = (s.apply bs).map .rows := by
  cases h : s.apply bs with
  | ok _ => rfl
  | error f =>
    obtain ⟨u, rfl⟩ := Slice.misuses_apply s bs f h
    rfl

theorem step_walk (h : o.Follows p) :
    ∃ outcome q, (RowsSession.answer o.maker o.cancel .walk).on p = (outcome, q) ∧
      o.Step p .walk outcome q := by
  refine ⟨.ok .done, { p with walks := p.walks ++ [Walk.start] }, rfl, ?_⟩
  refine ⟨⟨h.reveals, fun w hw ended => ?_⟩, h.reveals.leads, ?_, .inr rfl, fun n _ => by simp⟩
  · rcases List.mem_append.mp hw with hw | hw
    · exact h.ended w hw ended
    · rw [List.mem_singleton.mp hw] at ended
      cases ended
  · simp [RowsSession.given, listed, Walk.start, Except.mapError]

theorem leads_cut {r : Rows α β} {s : σ} (h : o.Reveals (r, s)) :
    o.Leads (r, s) (r, o.cut s) := by
  cases token : o.token with
  | none =>
    have same : o.cut s = s := by
      rw [cut, token]
      rfl
    rw [same]
    exact h.leads
  | some k =>
    have heeds := o.heeds k token
    have same : o.cut = o.cancel k := by
      rw [cut, token]
      rfl
    obtain ⟨t, n, before, after, world, -⟩ := h.made
    have known : o.Knows s := by
      rw [same] at world
      rw [show s = (o.cancel k)^[n] t from world]
      exact Function.Iterate.rec _ (before.keeps heeds.reads heeds.makes o.known) heeds.known n
    have isCut : o.IsCut (r, o.cut s) := by
      have own : r.token = some k := h.token.trans token
      rw [IsCut, Rows.isCancelled, own, same]
      exact heeds.cancelled s known
    have world : o.cut s = o.cut^[n + 1] t := by
      rw [Function.iterate_succ_apply']
      exact congrArg o.cut world
    exact ⟨⟨h.token, h.ready, ⟨t, n + 1, before, after, world, .inr isCut⟩, h.pending, h.exhausted,
      fun _ => isCut⟩, List.prefix_rfl, fun _ => ⟨isCut, rfl⟩⟩

theorem step_cancel (h : o.Follows p) :
    ∃ outcome q, (RowsSession.answer o.maker o.cancel .cancel).on p = (outcome, q) ∧
      o.Step p .cancel outcome q := by
  have leads := leads_cut h.reveals
  refine ⟨.ok .done, { p with world := o.cut p.world }, ?_,
    ⟨⟨leads.reveals, fun w hw ended => h.over_of_leads leads hw ended⟩, leads, rfl, .inr rfl,
      fun n _ => by simp⟩⟩
  have token : p.rows.token = o.token := h.reveals.token
  rw [RowsSession.answer, on_bind_of_ok (on_modify _ p), token, cut]
  cases o.token <;> rfl

theorem step_next_over (h : o.Follows p) {i : Nat} {w : Walk} (walk : p.walks[i]? = some w)
    (ended : w.isOver = true) :
    ∃ outcome q, (RowsSession.answer o.maker o.cancel (.next i)).on p = (outcome, q) ∧
      o.Step p (.next i) outcome q := by
  have positions : p.given[i]? = some w.position := List.getElem?_map.trans (congrArg _ walk)
  obtain ⟨short, final⟩ := h.ended w (List.mem_of_getElem? walk) ended
  have next : (RowsSession.onRows (w.next o.maker)).on p = (.ok (.ok none, w), p) := by
    rw [Walk.next, if_pos ended]
    rfl
  refine ⟨.ok (.row none), p, ?_, h, h.reveals.leads, ?_, ?_, fun n _ => by simp⟩
  · rw [RowsSession.answer, on_bind_of_ok (on_get p), walk]
    dsimp only
    rw [on_bind_of_ok next]
    dsimp only
    rw [on_bind_of_ok (on_modify _ p), set_getElem?_self walk]
    rfl
  · rw [listed_next positions, List.getElem?_eq_none short, if_neg (by omega), Nat.add_zero,
      set_getElem?_self positions]
    rfl
  · exact final.imp_right fun whole => by rw [whole]

theorem step_next_row (h : o.Follows p) {i : Nat} {w : Walk} (walk : p.walks[i]? = some w)
    (going : w.isOver = false) :
    ∃ outcome q, (RowsSession.answer o.maker o.cancel (.next i)).on p = (outcome, q) ∧
      o.Step p (.next i) outcome q := by
  have positions : p.given[i]? = some w.position := List.getElem?_map.trans (congrArg _ walk)
  obtain ⟨⟨r, s⟩, ran, leads, final, bound⟩ := next_spec going h.reveals
  dsimp only at ran final bound
  have next : (RowsSession.onRows (w.next o.maker)).on p =
      (.ok (.ok r.ready[w.position]?, stepped w r.ready[w.position]?),
        { p with rows := r, world := s }) := by
    rw [RowsSession.onRows, on_zoom, ran]
  refine ⟨.ok (.row r.ready[w.position]?),
    ⟨r, p.walks.set i (stepped w r.ready[w.position]?), s⟩, ?_, ⟨leads.reveals, ?_⟩, leads, ?_,
    ?_, ?_⟩
  · rw [RowsSession.answer, on_bind_of_ok (on_get p), walk]
    dsimp only
    rw [on_bind_of_ok next]
    dsimp only
    rw [on_bind_of_ok (on_modify _ _)]
    rfl
  · intro v hv ended
    rcases List.mem_or_eq_of_mem_set hv with hv | rfl
    · exact h.over_of_leads leads hv ended
    · have short := le_of_stepped_isOver going ended
      refine ⟨?_, final short⟩
      rw [stepped_position]
      exact Nat.le_add_right_of_le short
  · rw [listed_next positions, RowsSession.given, List.map_set, stepped_position]
    rfl
  · by_cases short : r.ready.length ≤ w.position
    · exact (final short).imp_right fun whole => by rw [whole]
    · have there : w.position < r.ready.length := by omega
      have whole : w.position < o.rows.length :=
        Nat.lt_of_lt_of_le there leads.reveals.ready.length_le
      have same : r.ready[w.position]? = o.rows[w.position]? := leads.reveals.getElem?_eq there
      rw [listed_next positions, listed_next positions, if_pos there, if_pos whole, same]
      exact .inr rfl
  · simpa [RowsRequest.need, positions] using bound

theorem step_next (h : o.Follows p) (i : Nat) :
    ∃ outcome q, (RowsSession.answer o.maker o.cancel (.next i)).on p = (outcome, q) ∧
      o.Step p (.next i) outcome q := by
  cases walk : p.walks[i]? with
  | some w =>
    by_cases ended : w.isOver = true
    · exact step_next_over h walk ended
    · exact step_next_row h walk (Bool.eq_false_iff.mpr ended)
  | none =>
    -- no such walk was begun
    have positions : p.given[i]? = none := List.getElem?_map.trans (congrArg _ walk)
    have nothing (bs : List β) : listed bs p.given (.next i) = (.ok (.row none), p.given) := by
      simp only [listed, positions]
    refine ⟨.ok (.row none), p, ?_, h, h.reveals.leads, (nothing _).symm, .inr ?_,
      fun n _ => by simp⟩
    · rw [RowsSession.answer, on_bind_of_ok (on_get p), walk]
      rfl
    · rw [nothing, nothing]

theorem answer_spec (h : o.Follows p) (request : RowsRequest) :
    ∃ outcome q, (RowsSession.answer o.maker o.cancel request).on p = (outcome, q) ∧
      o.Step p request outcome q := by
  cases request with
  | walk => exact step_walk h
  | next i => exact step_next h i
  | length => exact step_onRows answers_length h rfl fun _ => rfl
  | isNonempty => exact step_onRows answers_isNonempty h rfl fun _ => rfl
  | rowAt i =>
    exact step_onRows (answers_rowAt i) h rfl fun bs => congrArg (·, p.given) (rowAt_as_list bs i)
  | slice s =>
    exact step_onRows (answers_slice s) h rfl fun bs => congrArg (·, p.given) (slice_as_list bs s)
  | cancel => exact step_cancel h

/-- What one answer keeps, a whole session keeps. -/
theorem run_spec (h : o.Follows p) (requests : List RowsRequest) :
    o.Follows (RowsSession.run o.maker o.cancel requests p) := by
  induction requests generalizing p with
  | nil => exact h
  | cons request requests ih =>
    obtain ⟨outcome, q, answered, step⟩ := answer_spec h request
    rw [RowsSession.run, answered]
    exact ih step.follows

theorem start_follows (o : Course σ α β) (query : Option Text) :
    o.Follows (RowsSession.start o.cursor o.token query o.first) :=
  ⟨o.start_reveals query, List.forall_mem_nil _⟩

end Course

/-- A session reveals one list, whatever it asks for and in whatever order. The ready rows are made
of the first deliveries, each of them once and in order, and since then at most the token was
cancelled. An answer is that of the ready rows, and while the token is valid that of all rows; it
makes no more rows than it needs. Once the token is cancelled, the ready rows stay as they are. -/
theorem session_reveals (m : RowMaker σ α β) (cancel : Nat → σ → σ) (c : Cursor α) (s : σ)
    (all : List β) (last : σ) (token : Option Nat) (query : Option Text) (Knows : σ → Prop)
    (made : m.Makes c s all last) (known : Knows s)
    (heeds : ∀ k, token = some k → m.Heeds (cancel k) k Knows)
    (requests : List RowsRequest) (request : RowsRequest) :
    let p := RowsSession.run m cancel requests (RowsSession.start c token query s)
    let outcome := ((RowsSession.answer m cancel request).on p).1
    let q := ((RowsSession.answer m cancel request).on p).2
    let n := q.rows.ready.length
    (q.rows.ready = all.take n ∧ n ≤ all.length) ∧
      (∃ t k, m.Makes (c.take n) s (all.take n) t ∧ q.world = (token.elim id cancel)^[k] t ∧
        (q.isCancelled m = false → k = 0 ∧ q.rows.pending = c.drop n)) ∧
      (outcome.mapError Fault.asPosition, q.given) = listed q.rows.ready p.given request ∧
      (q.isCancelled m = false →
        (outcome.mapError Fault.asPosition, q.given) = listed all p.given request) ∧
      (p.isCancelled m = true → q.isCancelled m = true ∧ q.rows.ready = p.rows.ready) ∧
      ∀ i ∈ request.need p.given, n ≤ max p.rows.ready.length i := by
  intro p outcome q n
  let o : Course σ α β := ⟨m, c, s, all, last, made, token, cancel, Knows, known, heeds⟩
  have follows : o.Follows p := Course.run_spec (o.start_follows query) requests
  obtain ⟨outcome', q', answered, step⟩ := Course.answer_spec follows request
  obtain rfl : outcome = outcome' := congrArg Prod.fst answered
  obtain rfl : q = q' := congrArg Prod.snd answered
  have reveals : o.Reveals (q.rows, q.world) := step.follows.reveals
  have ready : q.rows.ready = all.take n := List.prefix_iff_eq_take.mp reveals.ready
  refine ⟨⟨ready, reveals.ready.length_le⟩, ?_, step.answer, fun valid => ?_, step.leads.kept,
    step.bound⟩
  · obtain ⟨t, k, before, -, world, uncut⟩ := reveals.made
    refine ⟨t, k, ?_, world, fun valid => ?_⟩
    · rw [← ready]
      exact before
    · have going : ¬o.IsCut (q.rows, q.world) := Bool.eq_false_iff.mp valid
      refine ⟨uncut.resolve_right going, reveals.pending (Bool.eq_false_iff.mpr fun ended => ?_)⟩
      exact going (reveals.disconnected ended)
  · rw [step.answer]
    exact step.agrees.resolve_left (Bool.eq_false_iff.mp valid)

theorem Connections.isCancelled_cancel {c : Connections} {k : Nat} (h : k < c.cancelled.length) :
    (c.cancel k).isCancelled k = true := by
  simp [cancel, isCancelled, h]

def twiceMaker : RowMaker Connections Nat Nat where
  isCancelled c k := c.isCancelled k
  read _ := pure ()
  make n := pure (2 * n)
  same _ a b := .ok (a = b)

theorem twiceMaker_heeds (k : Nat) :
    twiceMaker.Heeds (·.cancel k) k fun c => k < c.cancelled.length where
  reads _ := keeps_pure ()
  makes n := keeps_pure (2 * n)
  known c h := by simpa [Connections.cancel] using h
  cancelled _ h := Connections.isCancelled_cancel h

def twiceSession : RowsSession Connections Nat Nat :=
  RowsSession.run twiceMaker (fun k c => c.cancel k)
    [.walk, .next 0, .walk, .next 1, .next 0, .cancel]
    (RowsSession.start (.ofList [1, 2, 3]) (some 0) none (Connections.start.issue 0).2)

theorem twiceSession_ready : twiceSession.rows.ready = [2, 4] := by decide +kernel

theorem twiceSession_isCancelled : twiceSession.isCancelled twiceMaker = true := by decide +kernel

theorem session_reveals_twice :
    let answered := (RowsSession.answer twiceMaker (fun k c => c.cancel k) .length).on twiceSession
    answered.2.rows.ready = [2, 4] ∧
      answered.1.mapError Fault.asPosition = .ok (.number 2) := by
  intro answered
  have made (s : Connections) : twiceMaker.Makes (.ofList [1, 2, 3]) s [2, 4, 6] s :=
    .cons rfl rfl (.cons rfl rfl (.cons rfl rfl (.nil s)))
  have known : 0 < (Connections.start.issue 0).2.cancelled.length := by decide
  obtain ⟨-, -, answer, -, kept, -⟩ := session_reveals twiceMaker (fun k c => c.cancel k)
    (.ofList [1, 2, 3]) _ [2, 4, 6] _ (some 0) none (fun c => 0 < c.cancelled.length) (made _) known
    (fun k h => Option.some.inj h ▸ twiceMaker_heeds 0)
    [.walk, .next 0, .walk, .next 1, .next 0, .cancel] .length
  have ready : answered.2.rows.ready = [2, 4] :=
    (kept twiceSession_isCancelled).2.trans twiceSession_ready
  refine ⟨ready, (congrArg Prod.fst answer).trans ?_⟩
  change Except.ok (RowsAnswer.number answered.2.rows.ready.length) = _
  rw [ready]
  rfl

end RecordStore
