import RecordStore.Proofs.AgreeingAttempts
import RecordStore.Proofs.AskedRows

/-!
# Reads in two worlds

Where two worlds agree on the rows that are made and on the token of a result, each read of the
result comes to the same in both.
-/

set_option autoImplicit false

namespace RecordStore

open Attempt

variable {σ α β γ δ : Type}

/-- Whether rows are made alike in two worlds, and a token is valid in both or in none. -/
structure RowMaker.Parallel (m : RowMaker σ α β) (token : Option Nat) (D : σ → σ → Prop) :
    Prop where
  reads : ∀ n, Agrees D (fun _ => True) (m.read n) (m.read n)
  makes : ∀ a, Agrees D (fun _ => True) (m.make a) (m.make a)
  cancelled : ∀ s t, D s t → ∀ k ∈ token, m.isCancelled t k = m.isCancelled s k
  same : ∀ s t, D s t → m.same t = m.same s

namespace RowMaker.Parallel

variable {m : RowMaker σ α β} {token : Option Nat} {D : σ → σ → Prop} (h : m.Parallel token D)
include h

theorem agrees_receive (d : Delivery α) : Agrees D (fun _ => True) (m.receive d) (m.receive d) := by
  refine agrees_bind (Q := fun _ => True) ?_ fun _ _ => agrees_ofExcept fun _ _ => trivial
  cases d.read with
  | none => exact agrees_pure trivial
  | some n => exact h.reads n

theorem isCancelled_eq {r : Rows α β} (own : r.token = token) {s t : σ} (worlds : D s t) :
    r.isCancelled m t = r.isCancelled m s := by
  rw [Rows.isCancelled.eq_def, Rows.isCancelled.eq_def, own]
  cases token with
  | none => rfl
  | some k => exact h.cancelled s t worlds k rfl

end RowMaker.Parallel

namespace Rows

/-- Whether the same result is asked in two worlds. -/
structure Alike (token : Option Nat) (D : σ → σ → Prop) (p p' : Rows α β × σ) : Prop where
  rows : p'.1 = p.1
  own : p.1.token = token
  worlds : D p.2 p'.2

/-- Whether something that is asked of a result comes to the same in two worlds. -/
def Agreeing (token : Option Nat) (D : σ → σ → Prop) (x : Reading σ α β γ) : Prop :=
  Agrees (Alike token D) (fun _ => True) x x

section Agreeing

variable {token : Option Nat} {D : σ → σ → Prop} {x : Reading σ α β γ}

theorem agreeing_pure (c : γ) : Agreeing (α := α) (β := β) token D (pure c) := agrees_pure trivial

theorem agreeing_ofExcept (outcome : Except Fault γ) :
    Agreeing (α := α) (β := β) token D (Attempt.ofExcept outcome) :=
  agrees_ofExcept fun _ _ => trivial

theorem agreeing_bind {g : γ → Reading σ α β δ} (hx : Agreeing token D x)
    (hg : ∀ c, Agreeing token D (g c)) : Agreeing token D (x >>= g) :=
  agrees_bind hx fun c _ => hg c

theorem agreeing_tryCatch {g : Fault → Reading σ α β γ} (hx : Agreeing token D x)
    (hg : ∀ e, Agreeing token D (g e)) : Agreeing token D (tryCatch x g) := by
  constructor
  intro p p' h
  obtain ⟨s, t, state, ⟨e, left, right⟩ | ⟨c, -, left, right⟩⟩ := (hx.starting p p' h).cases
  · obtain ⟨outcome, state, gives⟩ := (hg e).starting s t state
    rw [← on_tryCatch_of_error left g, ← on_tryCatch_of_error right g] at outcome state
    exact ⟨outcome, state, fun _ _ => trivial⟩
  · exact .of_ok (on_tryCatch_of_ok left g) (on_tryCatch_of_ok right g) state trivial

variable {m : RowMaker σ α β} (h : m.Parallel token D)
include h

theorem agreeing_pull : Agreeing token D (pull m) := by
  constructor
  rintro ⟨r, s⟩ ⟨r', t⟩ ⟨same, own, worlds⟩
  obtain rfl : r = r' := same.symm
  by_cases ended : (r.isExhausted || r.isDisconnected) = true
  · exact .of_ok (pull_over ended) (pull_over ended) ⟨rfl, own, worlds⟩ trivial
  have ended : (r.isExhausted || r.isDisconnected) = false := Bool.eq_false_iff.mpr ended
  have cancelled : r.isCancelled m t = r.isCancelled m s := h.isCancelled_eq own worlds
  by_cases cut : r.isCancelled m s = true
  · exact .of_ok (pull_cut ended cut) (pull_cut ended (cancelled.trans cut))
      ⟨rfl, r.disconnect_token.trans own, worlds⟩ trivial
  have goes : r.Goes m s := ⟨ended, Bool.eq_false_iff.mpr cut⟩
  have goes' : r.Goes m t := ⟨ended, cancelled.trans goes.valid⟩
  cases left : r.pending with
  | nil => exact .of_ok (pull_nil goes left) (pull_nil goes' left) ⟨rfl, own, worlds⟩ trivial
  | cons d rest =>
    obtain ⟨u, u', worlds, ⟨f, read, read'⟩ | ⟨a, -, read, read'⟩⟩ :=
      ((h.agrees_receive d).starting s t worlds).cases
    · exact .of_error (pull_failed goes left read) (pull_failed goes' left read')
        ⟨rfl, own, worlds⟩
    · obtain ⟨v, v', worlds, ⟨f, made, made'⟩ | ⟨b, -, made, made'⟩⟩ :=
        ((h.makes a).starting u u' worlds).cases
      · exact .of_error (pull_unmade goes left read made) (pull_unmade goes' left read' made')
          ⟨rfl, own, worlds⟩
      · exact .of_ok (pull_made goes left read made) (pull_made goes' left read' made')
          ⟨rfl, own, worlds⟩ trivial

theorem agreeing_same (a b : β) : Agreeing token D (same m a b) := by
  refine agrees_get_bind fun ⟨r, s⟩ ⟨r', t⟩ alike => ?_
  dsimp only
  rw [h.same s t alike.worlds]
  exact agreeing_ofExcept _

theorem Asks.agreeing {passes : Fault → Bool} (hx : Asks m passes x) : Agreeing token D x := by
  induction hx with
  | pull => exact agreeing_pull h
  | same a b => exact agreeing_same h a b
  | look _ alike ih =>
    refine agrees_get_bind fun ⟨r, s⟩ ⟨r', t⟩ same => ?_
    obtain rfl : r' = r := same.rows
    rw [alike r' t s]
    exact ih (r', s)
  | settled outcome => exact agreeing_ofExcept outcome
  | bind _ _ ihx ihg => exact agreeing_bind ihx ihg
  | caught _ _ _ ihx ihg => exact agreeing_tryCatch ihx ihg

theorem agreeing_next (w : Walk) : Agreeing token D (w.next m) := by
  unfold Walk.next
  split
  · exact agreeing_pure _
  · refine agreeing_tryCatch (agreeing_bind ?_ fun found => ?_) fun f => agreeing_pure _
    · have asks : Asks m (fun _ => false) (row? m w.position) := .row? w.position
      exact asks.agreeing h
    · cases found with
      | none => exact agreeing_pure _
      | some b => exact agreeing_pure _

end Agreeing
end Rows

namespace RowsSession

/-- Whether the same session goes on in two worlds. -/
structure Alike (token : Option Nat) (D : σ → σ → Prop) (q q' : RowsSession σ α β) : Prop where
  rows : q'.rows = q.rows
  walks : q'.walks = q.walks
  own : q.rows.token = token
  worlds : D q.world q'.world

variable {token : Option Nat} {D : σ → σ → Prop}

theorem agrees_onRows {x : Reading σ α β γ} (hx : Rows.Agreeing token D x) :
    Agrees (Alike token D) (fun _ => True) (onRows x) (onRows x) :=
  agrees_zoom hx (fun _ _ h => ⟨h.rows, h.own, h.worlds⟩)
    fun _ _ _ _ h alike => ⟨alike.rows, h.walks, alike.own, alike.worlds⟩

theorem agrees_setWalks {f : List Walk → List Walk} :
    Agrees (Alike (σ := σ) (α := α) (β := β) token D) (fun _ => True)
      (modify fun q => { q with walks := f q.walks })
        (modify fun q => { q with walks := f q.walks }) :=
  agrees_modify fun _ _ h => ⟨h.rows, congrArg f h.walks, h.own, h.worlds⟩

end RowsSession

open RowsSession in
theorem RowsRead.agrees_perform {m : RowMaker σ α β} {token : Option Nat} {D : σ → σ → Prop}
    (h : m.Parallel token D) (read : RowsRead β) :
    Agrees (Alike token D) (fun _ => True) (read.perform m) (read.perform m) := by
  rcases read.perform_cases m with rfl | ⟨i, rfl⟩ | ⟨γ, x, g, performs, asks⟩
  · exact agrees_bind (agrees_setWalks (f := (· ++ [Walk.start]))) fun _ _ => agrees_pure trivial
  · refine agrees_get_bind fun q q' alike => ?_
    rw [alike.walks]
    cases q.walks[i]? with
    | none => exact agrees_pure trivial
    | some w =>
      refine agrees_bind (agrees_onRows (Rows.agreeing_next h w)) fun ⟨found, w⟩ _ => ?_
      refine agrees_bind (agrees_setWalks (f := (·.set i w))) fun _ _ => ?_
      exact agrees_bind (agrees_ofExcept fun _ _ => trivial) fun _ _ => agrees_pure trivial
  · rw [performs]
    exact agrees_map (agrees_onRows (asks.agreeing h)) g

end RecordStore
