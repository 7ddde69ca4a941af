import RecordStore.Rows
import RecordStore.Proofs.Attempts

/-!
# Asking for rows

A result makes its rows one after the other. As long as no read fails and nothing cancels the
result, each row that is asked for takes one item off the cursor, whether a row can be made of the
item or not.
-/

set_option autoImplicit false

namespace RecordStore

open Attempt

variable {σ α β : Type}

theorem pull_on (m : RowMaker σ α β) (r : Rows α β) (s : σ) :
    (Rows.pull m).on (r, s) =
      if r.isExhausted || r.isDisconnected then (.ok false, r, s)
      else if r.isCancelled m s then (.ok false, r.disconnect, s)
      else
        match r.pending with
        | [] => (.ok false, { r with isExhausted := true }, s)
        | d :: rest =>
          match (m.receive d).on s with
          | (.error f, s) => (.error (f.wrapped .reading r.query), { r with pending := [] }, s)
          | (.ok a, s) =>
            match (m.make a).on s with
            | (.ok b, s) => (.ok true, { r with pending := rest, ready := r.ready ++ [b] }, s)
            | (.error f, s) => (.error f, { r with pending := rest }, s) := rfl

namespace Rows

section Pull

variable {m : RowMaker σ α β} {r : Rows α β} {s t v : σ} {d : Delivery α} {rest : Cursor α} {a : α}
  {f : Fault}

/-- Whether a result still asks its cursor for rows. -/
structure Goes (m : RowMaker σ α β) (r : Rows α β) (s : σ) : Prop where
  going : (r.isExhausted || r.isDisconnected) = false
  valid : r.isCancelled m s = false

theorem pull_over (h : (r.isExhausted || r.isDisconnected) = true) :
    (pull m).on (r, s) = (.ok false, r, s) := by
  rw [pull_on, if_pos h]

theorem pull_cut (h : (r.isExhausted || r.isDisconnected) = false)
    (cut : r.isCancelled m s = true) : (pull m).on (r, s) = (.ok false, r.disconnect, s) := by
  simp only [pull_on, h, cut, Bool.false_eq_true, if_false, if_true]

theorem pull_nil (h : r.Goes m s) (hp : r.pending = []) :
    (pull m).on (r, s) = (.ok false, { r with isExhausted := true }, s) := by
  simp only [pull_on, h.going, h.valid, hp, Bool.false_eq_true, if_false]

theorem pull_failed (h : r.Goes m s) (hp : r.pending = d :: rest)
    (read : (m.receive d).on s = (.error f, t)) :
    (pull m).on (r, s) = (.error (f.wrapped .reading r.query), { r with pending := [] }, t) := by
  simp only [pull_on, h.going, h.valid, hp, read, Bool.false_eq_true, if_false]

theorem pull_unmade (h : r.Goes m s) (hp : r.pending = d :: rest)
    (read : (m.receive d).on s = (.ok a, t)) (made : (m.make a).on t = (.error f, v)) :
    (pull m).on (r, s) = (.error f, { r with pending := rest }, v) := by
  simp only [pull_on, h.going, h.valid, hp, read, made, Bool.false_eq_true, if_false]

theorem pull_made (h : r.Goes m s) (hp : r.pending = d :: rest)
    (read : (m.receive d).on s = (.ok a, t)) {b : β} (made : (m.make a).on t = (.ok b, v)) :
    (pull m).on (r, s) =
      (.ok true, { r with pending := rest, ready := r.ready ++ [b] }, v) := by
  simp only [pull_on, h.going, h.valid, hp, read, made, Bool.false_eq_true, if_false]

end Pull

theorem disconnect_pending (r : Rows α β) : r.disconnect.pending ⊆ r.pending := by
  rw [disconnect]
  split
  · exact List.Subset.refl _
  · exact List.nil_subset _

@[simp] theorem disconnect_ready (r : Rows α β) : r.disconnect.ready = r.ready := by
  rw [disconnect]
  split <;> rfl

@[simp] theorem disconnect_token (r : Rows α β) : r.disconnect.token = r.token := by
  rw [disconnect]
  split <;> rfl

@[simp] theorem disconnect_isExhausted (r : Rows α β) :
    r.disconnect.isExhausted = r.isExhausted := by
  rw [disconnect]
  split <;> rfl

@[simp] theorem disconnect_isDisconnected (r : Rows α β) : r.disconnect.isDisconnected = true := by
  rw [disconnect]
  split
  · assumption
  · rfl

end Rows

variable {P : σ → Prop}

theorem keeps_receive (m : RowMaker σ α β) (hr : ∀ n, Keeps P (m.read n)) (d : Delivery α) :
    Keeps P (m.receive d) := by
  apply keeps_bind
  · cases d.read with
    | none => exact keeps_pure _
    | some n => exact hr n
  · intro _
    exact keeps_ofExcept _

theorem keeps_pull (m : RowMaker σ α β) (hr : ∀ n, Keeps P (m.read n))
    (hm : ∀ a, Keeps P (m.make a)) : Keeps (fun p : Rows α β × σ => P p.2) (Rows.pull m) := by
  constructor
  intro ⟨r, s⟩ hs
  rw [pull_on]
  split
  · exact hs
  split
  · exact hs
  cases r.pending with
  | nil => exact hs
  | cons d rest =>
    have received := (keeps_receive m hr d).after s hs
    dsimp only
    rcases hd : (m.receive d).on s with ⟨f | a, t⟩
    · rw [hd] at received
      exact received
    · rw [hd] at received
      have made := (hm a).after t received
      dsimp only
      rcases ha : (m.make a).on t with ⟨f | b, u⟩
      · rw [ha] at made
        exact made
      · rw [ha] at made
        exact made

namespace Rows

/-- The rows and the state after so many more rows were asked for. -/
def pulled (m : RowMaker σ α β) : Nat → Rows α β × σ → Rows α β × σ
  | 0, p => p
  | n + 1, p => pulled m n ((pull m).on p).2

theorem pending_pull_subset (m : RowMaker σ α β) (p : Rows α β × σ) :
    ((pull m).on p).2.1.pending ⊆ p.1.pending := by
  obtain ⟨r, s⟩ := p
  rw [pull_on]
  split
  · exact List.Subset.refl _
  split
  · exact r.disconnect_pending
  cases hp : r.pending with
  | nil => simp
  | cons d rest =>
    dsimp only
    rcases (m.receive d).on s with ⟨f | a, t⟩
    · exact List.nil_subset _
    · dsimp only
      rcases (m.make a).on t with ⟨f | b, u⟩
      · exact List.subset_cons_self d rest
      · exact List.subset_cons_self d rest

theorem pending_pulled_subset (m : RowMaker σ α β) (n : Nat) (p : Rows α β × σ) :
    (pulled m n p).1.pending ⊆ p.1.pending := by
  induction n generalizing p with
  | zero => exact List.Subset.refl _
  | succ n ih => exact List.Subset.trans (ih _) (pending_pull_subset m p)

/-- Whether rows can still come. -/
structure IsOpen (r : Rows α β) : Prop where
  unexhausted : r.isExhausted = false
  connected : r.isDisconnected = false

end Rows

/-- While a property of the state holds, reads do not fail, the token is not cancelled, and making
rows keeps the property. -/
structure RowMaker.Runs (m : RowMaker σ α β) (P : σ → Prop) (token : Option Nat) : Prop where
  reads : ∀ n s, P s → ∃ t, (m.read n).on s = (.ok (), t) ∧ P t
  makes : ∀ a, Keeps P (m.make a)
  valid : ∀ s t, P s → token = some t → m.isCancelled s t = false

namespace RowMaker.Runs

variable {m : RowMaker σ α β} {r : Rows α β} {s : σ} {token : Option Nat}

theorem receive_on (h : m.Runs P token) (a : α) (position : Option Nat)
    (hs : P s) : ∃ t, (m.receive ⟨.ok a, position⟩).on s = (.ok a, t) ∧ P t := by
  cases position with
  | none => exact ⟨s, rfl, hs⟩
  | some n =>
    obtain ⟨t, hr, ht⟩ := h.reads n s hs
    refine ⟨t, ?_, ht⟩
    show (m.read n >>= fun _ => pure a).on s = _
    rw [on_bind_of_ok hr]
    rfl

theorem pull_cons (h : m.Runs P token) (hk : r.token = token) (ho : r.IsOpen) {a : α}
    {position : Option Nat} {rest : Cursor α} (hp : r.pending = ⟨.ok a, position⟩ :: rest)
    (hs : P s) :
    ∃ t, P t ∧ (Rows.pull m).on (r, s) =
      match (m.make a).on t with
      | (.ok b, u) => (.ok true, { r with pending := rest, ready := r.ready ++ [b] }, u)
      | (.error f, u) => (.error f, { r with pending := rest }, u) := by
  obtain ⟨t, hr, ht⟩ := h.receive_on a position hs
  have going : r.isCancelled m s = false := by
    rw [Rows.isCancelled, hk]
    cases token with
    | none => rfl
    | some k => exact h.valid s k hs rfl
  refine ⟨t, ht, ?_⟩
  simp only [pull_on, ho.unexhausted, ho.connected, going, hp, hr]
  rfl

theorem pulled_spec (h : m.Runs P token) (hk : r.token = token) (ho : r.IsOpen)
    (hd : ∀ d ∈ r.pending, ∃ a, d.outcome = .ok a) {n : Nat} (hn : n ≤ r.pending.length)
    (hs : P s) :
    let p := Rows.pulled m n (r, s)
    p.1.pending = r.pending.drop n ∧ p.1.token = token ∧ p.1.IsOpen ∧ P p.2 := by
  induction n generalizing r s with
  | zero => exact ⟨rfl, hk, ho, hs⟩
  | succ n ih =>
    cases hp : r.pending with
    | nil =>
      rw [hp] at hn
      simp at hn
    | cons d rest =>
      rw [hp] at hn hd
      obtain ⟨⟨a, ha⟩, hrest⟩ := List.forall_mem_cons.mp hd
      obtain ⟨outcome, position⟩ := d
      obtain rfl : outcome = .ok a := ha
      obtain ⟨t, ht, pulled⟩ := h.pull_cons hk ho hp hs
      have made := (h.makes a).after t ht
      have hn : n ≤ rest.length := by
        simpa using hn
      rw [Rows.pulled, pulled]
      rcases hm : (m.make a).on t with ⟨f | b, u⟩
      · rw [hm] at made
        exact ih (r := { r with pending := rest }) hk ⟨ho.unexhausted, ho.connected⟩ hrest hn made
      · rw [hm] at made
        exact ih (r := { r with pending := rest, ready := r.ready ++ [b] }) hk
          ⟨ho.unexhausted, ho.connected⟩ hrest hn made

end RowMaker.Runs
end RecordStore
