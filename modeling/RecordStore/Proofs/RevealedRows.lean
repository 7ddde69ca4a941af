import Mathlib.Logic.Function.Iterate
import RecordStore.Proofs.Pulling

/-!
# Rows that are revealed

Where every item of a cursor can be received and made into a row, a result reveals one fixed list.
How much of the list is ready depends on what was asked for. What is asked for is answered from the
ready rows as it would be from the whole list, until the token of the result is cancelled; from then
on the ready rows stay as they are.
-/

set_option autoImplicit false

namespace RecordStore

open Attempt

variable {σ α β γ : Type}

theorem take_drop_succ {l rest : List γ} {n : Nat} {x : γ} (h : l.drop n = x :: rest) :
    l.take (n + 1) = l.take n ++ [x] ∧ l.drop (n + 1) = rest := by
  constructor
  · rw [List.take_add_one, ← List.head?_drop, h]
    rfl
  · rw [← List.tail_drop, h]
    rfl

/-- Whether a list of rows is made of the deliveries of a cursor, each received and made once. -/
inductive RowMaker.Makes (m : RowMaker σ α β) : Cursor α → σ → List β → σ → Prop where
  | nil (s : σ) : Makes m [] s [] s
  | cons {d : Delivery α} {c : Cursor α} {a : α} {b : β} {bs : List β} {s t u v : σ}
      (received : (m.receive d).on s = (.ok a, t)) (made : (m.make a).on t = (.ok b, u))
      (rest : Makes m c u bs v) : Makes m (d :: c) s (b :: bs) v

namespace RowMaker.Makes

variable {m : RowMaker σ α β} {c c' : Cursor α} {bs bs' : List β} {s t u : σ}

theorem length_eq (h : m.Makes c s bs t) : bs.length = c.length := by
  induction h with
  | nil => rfl
  | cons _ _ _ ih => simp [ih]

theorem append (h : m.Makes c s bs t) (h' : m.Makes c' t bs' u) :
    m.Makes (c ++ c') s (bs ++ bs') u := by
  induction h with
  | nil => exact h'
  | cons received made _ ih => exact .cons received made (ih h')

theorem keeps {P : σ → Prop} (h : m.Makes c s bs t) (reads : ∀ n, Keeps P (m.read n))
    (makes : ∀ a, Keeps P (m.make a)) (hs : P s) : P t := by
  induction h with
  | nil => exact hs
  | @cons d _ a _ _ _ _ _ _ received made _ ih =>
    have hs := (keeps_receive m reads d).after _ hs
    rw [received] at hs
    have hs := (makes a).after _ hs
    rw [made] at hs
    exact ih hs

end RowMaker.Makes

/-- While a token is known, which making rows does not change, cancelling it takes effect. -/
structure RowMaker.Heeds (m : RowMaker σ α β) (cancel : σ → σ) (token : Nat) (P : σ → Prop) :
    Prop where
  reads : ∀ n, Keeps P (m.read n)
  makes : ∀ a, Keeps P (m.make a)
  known : ∀ s, P s → P (cancel s)
  cancelled : ∀ s, P s → m.isCancelled (cancel s) token = true

/-- A cursor all of whose rows can be made, and the token that can cut its result off. -/
structure Course (σ α β : Type) where
  maker : RowMaker σ α β
  cursor : Cursor α
  first : σ
  rows : List β
  last : σ
  made : maker.Makes cursor first rows last
  token : Option Nat
  cancel : Nat → σ → σ
  Knows : σ → Prop
  known : Knows first
  heeds : ∀ k, token = some k → maker.Heeds (cancel k) k Knows

namespace Course

variable {o : Course σ α β} {p q u : Rows α β × σ}

/-- Cancels the token, if there is one. -/
def cut (o : Course σ α β) : σ → σ := o.token.elim id o.cancel

def IsCut (o : Course σ α β) (p : Rows α β × σ) : Prop := p.1.isCancelled o.maker p.2 = true

/-- The invariant of a result. The ready rows are made of as many deliveries from the start of the
cursor, the others can be made behind them, and since then nothing but cancelling was done. -/
structure Reveals (o : Course σ α β) (p : Rows α β × σ) : Prop where
  token : p.1.token = o.token
  ready : p.1.ready <+: o.rows
  made : ∃ t n, o.maker.Makes (o.cursor.take p.1.ready.length) o.first p.1.ready t ∧
    o.maker.Makes (o.cursor.drop p.1.ready.length) t (o.rows.drop p.1.ready.length) o.last ∧
    p.2 = o.cut^[n] t ∧ (n = 0 ∨ o.IsCut p)
  pending : p.1.isDisconnected = false → p.1.pending = o.cursor.drop p.1.ready.length
  exhausted : p.1.isExhausted = true → p.1.ready = o.rows
  disconnected : p.1.isDisconnected = true → o.IsCut p

def IsFinal (o : Course σ α β) (p : Rows α β × σ) : Prop := o.IsCut p ∨ p.1.ready = o.rows

/-- What asking for rows makes of a result: rows come behind the ready ones, and only before the
token is cancelled. -/
structure Leads (o : Course σ α β) (p q : Rows α β × σ) : Prop where
  reveals : o.Reveals q
  ready : p.1.ready <+: q.1.ready
  kept : o.IsCut p → o.IsCut q ∧ q.1.ready = p.1.ready

theorem Reveals.leads (h : o.Reveals p) : o.Leads p p := ⟨h, List.prefix_rfl, fun cut => ⟨cut, rfl⟩⟩

theorem Leads.trans (h : o.Leads p q) (h' : o.Leads q u) : o.Leads p u where
  reveals := h'.reveals
  ready := h.ready.trans h'.ready
  kept cut := by
    obtain ⟨cut, same⟩ := h.kept cut
    obtain ⟨cut, same'⟩ := h'.kept cut
    exact ⟨cut, same'.trans same⟩

theorem Leads.isFinal (h : o.Leads p q) (final : o.IsFinal p) : o.IsFinal q := by
  rcases final with cut | whole
  · exact .inl (h.kept cut).1
  · have ready := h.ready
    rw [whole] at ready
    exact .inr (h.reveals.ready.eq_of_length_le ready.length_le)

theorem start_reveals (o : Course σ α β) (query : Option Text) :
    o.Reveals (Rows.start o.cursor o.token query, o.first) where
  token := rfl
  ready := List.nil_prefix
  made := ⟨o.first, 0, .nil o.first, o.made, rfl, .inl rfl⟩
  pending _ := rfl
  exhausted := nofun
  disconnected := nofun

theorem length_rows (o : Course σ α β) : o.rows.length = o.cursor.length := o.made.length_eq

theorem leads_disconnect {r : Rows α β} {s : σ} (h : o.Reveals (r, s)) (cut : o.IsCut (r, s)) :
    o.Leads (r, s) (r.disconnect, s) := by
  have still : o.IsCut (r.disconnect, s) := by
    rw [IsCut, Rows.isCancelled, Rows.disconnect_token]
    exact cut
  obtain ⟨t, n, before, after, world, -⟩ := h.made
  refine ⟨⟨?_, ?_, ⟨t, n, ?_, ?_, world, .inr still⟩, ?_, ?_, fun _ => still⟩, ?_, fun _ =>
    ⟨still, ?_⟩⟩
  · simpa using h.token
  · simpa using h.ready
  · simpa using before
  · simpa using after
  · simp
  · simpa using h.exhausted
  · simp
  · simp

theorem pull_spec (h : o.Reveals p) :
    ∃ more q, (Rows.pull o.maker).on p = (.ok more, q) ∧ o.Leads p q ∧
      (more = true → q.1.ready.length = p.1.ready.length + 1) ∧
      (more = false → q.1.ready.length = p.1.ready.length ∧ o.IsFinal q) := by
  obtain ⟨r, s⟩ := p
  by_cases ended : (r.isExhausted || r.isDisconnected) = true
  · refine ⟨false, (r, s), Rows.pull_over ended, h.leads, nofun, fun _ => ⟨rfl, ?_⟩⟩
    rcases (Bool.or_eq_true _ _).mp ended with exhausted | disconnected
    · exact .inr (h.exhausted exhausted)
    · exact .inl (h.disconnected disconnected)
  have going : (r.isExhausted || r.isDisconnected) = false := Bool.eq_false_iff.mpr ended
  have connected : r.isDisconnected = false := (Bool.or_eq_false_iff.mp going).2
  by_cases cut : o.IsCut (r, s)
  · have leads := leads_disconnect h cut
    exact ⟨false, (r.disconnect, s), Rows.pull_cut going cut, leads, nofun,
      fun _ => ⟨by simp, leads.isFinal (.inl cut)⟩⟩
  have goes : r.Goes o.maker s := ⟨going, Bool.eq_false_iff.mpr cut⟩
  obtain ⟨t, n, before, after, world, rfl | isCut⟩ := h.made
  case inr => exact absurd isCut cut
  obtain rfl : s = t := world
  have left := h.pending connected
  dsimp only at before after left
  cases next : r.pending with
  | nil =>
    -- no delivery is left, so no row of the list is left either
    have none : o.rows.drop r.ready.length = [] := by
      rw [← left, next] at after
      exact List.length_eq_zero_iff.mp after.length_eq
    have whole : r.ready = o.rows :=
      h.ready.eq_of_length_le (List.drop_eq_nil_iff.mp none)
    refine ⟨false, ({ r with isExhausted := true }, s), Rows.pull_nil goes next, ?_, nofun,
      fun _ => ⟨rfl, .inr whole⟩⟩
    exact ⟨{ h with exhausted := fun _ => whole }, List.prefix_rfl, fun isCut => absurd isCut cut⟩
  | cons d rest =>
    rw [← left, next] at after
    generalize others : o.rows.drop r.ready.length = bs at after
    cases after with
    | @cons _ _ a b bs _ t v _ received made after =>
      obtain ⟨taken, dropped⟩ := take_drop_succ (left.symm.trans next)
      obtain ⟨-, behind⟩ := take_drop_succ others
      have whole : o.rows = r.ready ++ (b :: bs) := by
        rw [← others]
        exact (List.prefix_iff_eq_append.mp h.ready).symm
      refine ⟨true, ({ r with pending := rest, ready := r.ready ++ [b] }, v),
        Rows.pull_made goes next received made, ⟨?_, List.prefix_append _ _,
          fun isCut => absurd isCut cut⟩, fun _ => List.length_append, nofun⟩
      have count : (r.ready ++ [b]).length = r.ready.length + 1 := List.length_append
      refine ⟨h.token, ⟨bs, by simp [whole]⟩, ⟨v, 0, ?_, ?_, rfl, .inl rfl⟩, fun _ => ?_, ?_, ?_⟩
      · rw [count, taken]
        exact before.append (.cons received made (.nil v))
      · rw [count, dropped, behind]
        exact after
      · rw [count, dropped]
      · intro exhausted
        rw [(Bool.or_eq_false_iff.mp going).1] at exhausted
        cases exhausted
      · intro disconnected
        rw [connected] at disconnected
        cases disconnected

theorem pullMany_spec (h : o.Reveals p) (n : Nat) :
    ∃ more q, (Rows.pullMany o.maker n).on p = (.ok more, q) ∧ o.Leads p q ∧
      (more = true → q.1.ready.length = p.1.ready.length + n) ∧
      (more = false → q.1.ready.length < p.1.ready.length + n ∧ o.IsFinal q) := by
  induction n generalizing p with
  | zero => exact ⟨true, p, rfl, h.leads, fun _ => rfl, nofun⟩
  | succ n ih =>
    obtain ⟨more, q, pulled, leads, one, final⟩ := pull_spec h
    cases more with
    | false =>
      refine ⟨false, q, ?_, leads, nofun, fun _ => ⟨?_, (final rfl).2⟩⟩
      · rw [Rows.pullMany, on_bind_of_ok pulled]
        rfl
      · have := (final rfl).1
        omega
    | true =>
      obtain ⟨more, u, others, leads', all, final⟩ := ih leads.reveals
      have count := one rfl
      refine ⟨more, u, ?_, leads.trans leads', fun h => ?_, fun h => ⟨?_, (final h).2⟩⟩
      · rw [Rows.pullMany, on_bind_of_ok pulled]
        exact others
      · have := all h
        omega
      · have := (final h).1
        omega

/-- Rows are made up to a position, and there is one at it or none can come. -/
theorem fillTo_spec (h : o.Reveals p) (n : Nat) :
    ∃ q, (Rows.fillTo o.maker n).on p = (.ok (decide (n < q.1.ready.length)), q) ∧ o.Leads p q ∧
      (q.1.ready.length ≤ n → o.IsFinal q) ∧
      q.1.ready.length ≤ max p.1.ready.length (n + 1) := by
  obtain ⟨more, q, filled, leads, all, final⟩ := pullMany_spec h (n + 1 - p.1.ready.length)
  have grown := leads.ready.length_le
  cases more with
  | true =>
    have count := all rfl
    have found : decide (n < q.1.ready.length) = true := decide_eq_true (by omega)
    refine ⟨q, ?_, leads, fun short => absurd short (by omega), by omega⟩
    rw [Rows.fillTo, on_bind_of_ok (on_get p), found]
    exact filled
  | false =>
    obtain ⟨few, final⟩ := final rfl
    have found : decide (n < q.1.ready.length) = false := decide_eq_false (by omega)
    refine ⟨q, ?_, leads, fun _ => final, by omega⟩
    rw [Rows.fillTo, on_bind_of_ok (on_get p), found]
    exact filled

theorem Leads.length_le (h : o.Reveals p) (leads : o.Leads p q) :
    q.1.ready.length ≤ p.1.ready.length + p.1.pending.length := by
  by_cases disconnected : p.1.isDisconnected = true
  · rw [(leads.kept (h.disconnected disconnected)).2]
    omega
  · have left := h.pending (Bool.eq_false_iff.mpr disconnected)
    have bound := leads.reveals.ready.length_le
    rw [o.length_rows] at bound
    rw [left, List.length_drop]
    omega

theorem length_spec (h : o.Reveals p) :
    ∃ q, (Rows.length o.maker).on p = (.ok q.1.ready.length, q) ∧ o.Leads p q ∧ o.IsFinal q := by
  obtain ⟨more, q, pulled, leads, all, final⟩ := pullMany_spec h (p.1.pending.length + 1)
  refine ⟨q, ?_, leads, ?_⟩
  · rw [Rows.length, on_bind_of_ok (on_get p)]
    rw [on_bind_of_ok pulled]
    rfl
  · cases more with
    | true =>
      have := all rfl
      have := leads.length_le h
      omega
    | false => exact (final rfl).2

theorem row?_spec (h : o.Reveals p) (n : Nat) :
    ∃ q, (Rows.row? o.maker n).on p = (.ok q.1.ready[n]?, q) ∧ o.Leads p q ∧
      (q.1.ready.length ≤ n → o.IsFinal q) ∧
      q.1.ready.length ≤ max p.1.ready.length (n + 1) := by
  obtain ⟨q, filled, leads, final, bound⟩ := fillTo_spec h n
  refine ⟨q, ?_, leads, final, bound⟩
  rw [Rows.row?, on_bind_of_ok filled]
  rfl

theorem rowsFrom_spec (h : o.Reveals p) {position : Nat} (hp : position ≤ p.1.ready.length)
    (n : Nat) :
    ∃ q, (Rows.rowsFrom o.maker position n).on p = (.ok ((q.1.ready.drop position).take n), q) ∧
      o.Leads p q ∧ (q.1.ready.length < position + n → o.IsFinal q) := by
  induction n generalizing p position with
  | zero => exact ⟨p, rfl, h.leads, fun short => absurd hp (by omega)⟩
  | succ n ih =>
    obtain ⟨q, ran, leads, final, -⟩ := row?_spec h position
    by_cases short : q.1.ready.length ≤ position
    · refine ⟨q, ?_, leads, fun _ => final short⟩
      rw [Rows.rowsFrom, on_bind_of_ok ran, List.getElem?_eq_none short,
        List.drop_of_length_le short]
      rfl
    · have there : position < q.1.ready.length := by omega
      obtain ⟨u, others, leads', final'⟩ := ih leads.reveals there
      have stays : q.1.ready[position]? = u.1.ready[position]? := by
        obtain ⟨_, same⟩ := leads'.ready
        rw [← same, List.getElem?_append_left there]
      have there : position < u.1.ready.length := Nat.lt_of_lt_of_le there leads'.ready.length_le
      refine ⟨u, ?_, leads.trans leads', fun h => final' (by omega)⟩
      rw [Rows.rowsFrom, on_bind_of_ok ran, stays, List.getElem?_eq_getElem there,
        List.drop_eq_getElem_cons there, List.take_succ_cons]
      exact on_bind_of_ok others _

theorem toList_spec (h : o.Reveals p) :
    ∃ q, (Rows.toList o.maker).on p = (.ok q.1.ready, q) ∧ o.Leads p q ∧ o.IsFinal q := by
  obtain ⟨q, ran, leads, final⟩ := rowsFrom_spec h (Nat.zero_le _)
    (p.1.ready.length + p.1.pending.length + 1)
  have bound := leads.length_le h
  refine ⟨q, ?_, leads, final (by omega)⟩
  rw [List.drop_zero, List.take_of_length_le (by omega)] at ran
  exact ran

/-- Whether something is answered from the ready rows as from a list. The whole list gives the same
answer unless the token is cancelled, and no more rows are made than are needed, if some number is
enough. -/
structure Answers (o : Course σ α β) (x : Reading σ α β γ) (need : Option Nat)
    (f : List β → Except Fault γ) : Prop where
  from_ready : ∀ p, o.Reveals p → ∃ q, x.on p = (f q.1.ready, q) ∧ o.Leads p q ∧
    (o.IsCut q ∨ f q.1.ready = f o.rows) ∧
    ∀ n ∈ need, q.1.ready.length ≤ max p.1.ready.length n

theorem answers_length : o.Answers (Rows.length o.maker) none (fun bs => .ok bs.length) := by
  constructor
  intro p h
  obtain ⟨q, ran, leads, final⟩ := length_spec h
  exact ⟨q, ran, leads, final.imp_right fun whole => by rw [whole], nofun⟩

theorem answers_isNonempty :
    o.Answers (Rows.isNonempty o.maker) (some 1) (fun bs => .ok (decide (0 < bs.length))) := by
  constructor
  intro p h
  obtain ⟨q, ran, leads, final, bound⟩ := fillTo_spec h 0
  refine ⟨q, ran, leads, ?_, by simpa using bound⟩
  by_cases none : q.1.ready.length ≤ 0
  · exact (final none).imp_right fun whole => by rw [whole]
  · have := leads.reveals.ready.length_le
    have some : decide (0 < q.1.ready.length) = decide (0 < o.rows.length) := by
      simp only [decide_eq_decide]
      omega
    exact .inr (congrArg _ some)

theorem Reveals.getElem?_eq (h : o.Reveals q) {n : Nat} (hn : n < q.1.ready.length) :
    q.1.ready[n]? = o.rows[n]? := by
  obtain ⟨others, same⟩ := h.ready
  rw [← same, List.getElem?_append_left hn]

theorem answers_row? (n : Nat) :
    o.Answers (Rows.row? o.maker n) (some (n + 1)) (fun bs => .ok bs[n]?) := by
  constructor
  intro p h
  obtain ⟨q, ran, leads, final, bound⟩ := row?_spec h n
  refine ⟨q, ran, leads, ?_, by simpa using bound⟩
  by_cases short : q.1.ready.length ≤ n
  · exact (final short).imp_right fun whole => by rw [whole]
  · exact .inr (congrArg _ (leads.reveals.getElem?_eq (by omega)))

theorem answers_slice (s : Slice) : o.Answers (Rows.slice o.maker s) none s.apply := by
  constructor
  intro p h
  obtain ⟨q, counted, leads, -⟩ := length_spec h
  obtain ⟨u, ran, leads', final⟩ := toList_spec leads.reveals
  refine ⟨u, ?_, leads.trans leads', final.imp_right fun whole => by rw [whole], nofun⟩
  rw [Rows.slice, on_bind_of_ok (on_tryCatch_of_ok counted _)]
  rw [on_bind_of_ok ran, on_ofExcept]

end Course
end RecordStore
