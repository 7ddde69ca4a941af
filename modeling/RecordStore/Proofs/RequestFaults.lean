import RecordStore.Proofs.ShownValues
import RecordStore.Proofs.TouchedRecords

/-!
# Faults of requests

What a statement can fail with while it is carried out is what its requests to the store fail with,
and that a value is misused: a key that is missing, a bound that is no position, or a value that
cannot be shown or compared. A scan joins a transaction only with an ancestor, so it is refused
there only if the transaction itself is.
-/

set_option autoImplicit false

namespace RecordStore

open Attempt

namespace Attempt

variable {σ τ α β : Type} {P : σ → Prop} {Q : Fault → Prop}

/-- An attempt fails with some faults only, where a property holds of the state. -/
structure Blames (P : σ → Prop) (Q : Fault → Prop) (a : Attempt σ α) : Prop where
  fault : ∀ s f t, P s → a.on s = (.error f, t) → Q f

theorem Blames.mono {P' : σ → Prop} {a : Attempt σ α} (h : Blames P Q a) (hP : ∀ s, P' s → P s) :
    Blames P' Q a :=
  ⟨fun s f t hs failed => h.fault s f t (hP s hs) failed⟩

theorem blames_of_ok {a : Attempt σ α} (h : ∀ s, P s → ∃ x t, a.on s = (.ok x, t)) :
    Blames P Q a := by
  constructor
  intro s f t hs failed
  obtain ⟨x, u, ran⟩ := h s hs
  rw [ran] at failed
  cases failed

theorem blames_of_total {a : Attempt σ α} (h : ∀ s, ∃ x t, a.on s = (.ok x, t)) :
    Blames P Q a := blames_of_ok fun s _ => h s

theorem blames_pure (x : α) : Blames P Q (pure x : Attempt σ α) :=
  blames_of_total fun s => ⟨x, s, rfl⟩

theorem blames_modify (f : σ → σ) : Blames P Q (modify f : Attempt σ PUnit) :=
  blames_of_total fun s => ⟨⟨⟩, f s, rfl⟩

theorem blames_throw {f : Fault} (h : Q f) : Blames P Q (throw f : Attempt σ α) := by
  constructor
  intro s e t _ failed
  cases failed
  exact h

theorem blames_ofExcept {x : Except Fault α} (h : ∀ f, x = .error f → Q f) :
    Blames P Q (ofExcept x : Attempt σ α) := by
  constructor
  intro s f t _ failed
  rw [on_ofExcept] at failed
  exact h f (congrArg Prod.fst failed)

theorem blames_of_misuses {x : Except Fault α} (hx : Misuses x) (h : ∀ u, Q (.misuse u)) :
    Blames P Q (ofExcept x : Attempt σ α) := by
  refine blames_ofExcept fun f failed => ?_
  obtain ⟨u, rfl⟩ := hx f failed
  exact h u

theorem blames_bind {a : Attempt σ α} {f : α → Attempt σ β} (kept : Keeps P a)
    (ha : Blames P Q a) (hf : ∀ s x t, P s → a.on s = (.ok x, t) → Blames P Q (f x)) :
    Blames P Q (a >>= f) := by
  constructor
  intro s e u hs failed
  have ht := kept.after s hs
  rw [on_bind] at failed
  rcases ran : a.on s with ⟨e' | x, t⟩
  · rw [ran] at failed
    cases failed
    exact ha.fault s _ _ hs ran
  · rw [ran] at failed ht
    exact (hf s x t hs ran).fault t e u ht failed

theorem blames_get_bind {f : σ → Attempt σ β} (hf : ∀ s, P s → Blames P Q (f s)) :
    Blames P Q (get >>= f) := by
  constructor
  intro s e t hs failed
  rw [on_bind_of_ok (on_get s)] at failed
  exact (hf s hs).fault s e t hs failed

theorem blames_zoom {R : τ → Prop} {view : σ → τ} {update : σ → τ → σ} {a : Attempt τ α}
    (ha : Blames R Q a) (hP : ∀ s, P s → R (view s)) : Blames P Q (a.zoom view update) := by
  constructor
  intro s f t hs failed
  rw [on_zoom] at failed
  have failed : (a.on (view s)).1 = .error f := congrArg Prod.fst failed
  exact ha.fault (view s) f (a.on (view s)).2 (hP s hs) (Prod.ext failed rfl)

theorem blames_mapFault {R : Fault → Prop} {a : Attempt σ α} {g : Fault → Fault}
    (ha : Blames P R a) (h : ∀ f, R f → Q (g f)) : Blames P Q (a.mapFault g) := by
  constructor
  intro s f t hs failed
  rw [on_mapFault] at failed
  rcases ran : a.on s with ⟨e | x, u⟩
  · rw [ran] at failed
    cases failed
    exact h e (ha.fault s e u hs ran)
  · rw [ran] at failed
    cases failed

end Attempt

theorem Cursor.stretch_of_outcome {α : Type} {w : Window} {items : List α} {d : Delivery α}
    (hd : d ∈ ofWindow w items) {f : Fault} (failed : d.outcome = .error f) :
    stretch w = .error f := by
  rw [ofWindow] at hd
  cases stretched : stretch w with
  | error e =>
    rw [stretched] at hd
    rw [List.mem_singleton.mp hd] at failed
    exact congrArg Except.error (Except.error.inj failed)
  | ok p =>
    rw [stretched] at hd
    obtain ⟨a, -, given⟩ := Cursor.outcome_of_mem_ofReads hd
    rw [given] at failed
    cases failed

namespace Store

variable {P : Store → Prop} {R : Fault → Prop}

theorem blames_removeAll (missing : R missingKey) (keys : List (Option Key)) :
    Blames P R (removeAll keys) := by
  refine @Blames.mono Store _ (fun _ => True) R P _ ?_ fun _ _ => trivial
  induction keys with
  | nil => exact blames_pure ()
  | cons k rest ih =>
    cases k with
    | none =>
      exact blames_bind (keeps_modify fun _ h => h) (blames_modify _)
        fun _ _ _ _ _ => blames_throw missing
    | some k =>
      exact blames_bind (keeps_modify fun _ h => h) (blames_modify _) fun _ _ _ _ _ => ih

theorem blames_fetch (missing : R missingKey) (keys : List (Option Key))
    (found : List (Key × Record)) : Blames P R (fetch keys found) := by
  refine @Blames.mono Store _ (fun _ => True) R P _ ?_ fun _ _ => trivial
  induction keys generalizing found with
  | nil => exact blames_pure found
  | cons k rest ih =>
    cases k with
    | none => exact blames_throw missing
    | some k =>
      apply blames_get_bind
      intro s _
      cases s.find? k with
      | none => exact ih found
      | some r =>
        exact blames_bind (keeps_modify fun _ h => h) (blames_modify _) fun _ _ _ _ _ => ih _

/-- What the requests of a statement fail with in one transaction, or in none, while the store has a
property that they keep. -/
structure Faults (P : Store → Prop) (transaction : Option Nat) (R : Fault → Prop) : Prop
    extends Deletes P transaction where
  enter : ∀ request transaction, Blames P R (enter request transaction)
  read : ∀ position, Blames P R (read position)
  active : ∀ number, transaction = some number → Blames P R (active number)
  misused : ∀ u, R (.misuse u)

/-- Whether a selection runs in no transaction, or in a given one below an ancestor. -/
def Joins (transaction : Option Nat) (q : Selection) (joined : Option Nat) : Prop :=
  joined = none ∨ joined = transaction ∧ q.ancestor.isSome = true

namespace Faults

variable {transaction : Option Nat} (hP : Faults P transaction R)
include hP

theorem blames_delete (keys : List (Option Key)) : Blames P R (delete keys transaction) := by
  apply blames_bind (hP.uncounted.keeps_enter .delete transaction) (hP.enter .delete transaction)
  intro _ _ _ _ _
  cases transaction with
  | none =>
    exact blames_bind (keeps_modify fun _ h => h) (blames_modify _)
      fun _ _ _ _ _ => blames_removeAll (hP.misused _) keys
  | some number =>
    exact blames_bind (keeps_active number) (hP.active number rfl)
      fun _ _ _ _ _ => blames_modify _

theorem blames_lookup (keys : List (Option Key)) (joined : Option Nat) :
    Blames P R (lookup keys joined) :=
  blames_bind (hP.uncounted.keeps_enter .get joined) (hP.enter .get joined) fun _ _ _ _ _ =>
    blames_bind (hP.uncounted.keeps_tick .get) (blames_modify _) fun _ _ _ _ _ =>
      blames_fetch (hP.misused _) keys []

theorem blames_checkTransaction {q : Selection} {joined : Option Nat}
    (joins : Joins transaction q joined) : Blames P R (checkTransaction q joined) := by
  cases joined with
  | none => exact blames_pure ()
  | some number =>
    obtain ⟨same, below⟩ := joins.resolve_left nofun
    apply blames_bind (keeps_active number) (hP.active number same.symm)
    intro _ _ _ _ _
    apply blames_get_bind
    intro s _
    have admitted : (q.ancestor.isNone && s.requiresAncestor) = false := by
      rw [Option.isNone_eq_false_iff.mpr below]
      rfl
    rw [admitted]
    exact blames_pure _

variable {shown : Value → Except Fault Text} (hs : ∀ v, Misuses (shown v)) (q : Selection)
  {joined : Option Nat} (joins : Joins transaction q joined)
include hs joins

theorem blames_scan {w : Window} (numeric : w.IsNumeric) (keysOnly : Bool) :
    Blames P R (scan shown q joined w keysOnly) := by
  apply blames_bind (hP.uncounted.keeps_enter .scan joined) (hP.enter .scan joined)
  intro _ _ _ _ _
  apply blames_bind (hP.uncounted.keeps_tick .scan) (blames_modify _)
  intro _ _ _ _ _
  exact blames_bind (Uncounted.keeps_checkTransaction q joined) (hP.blames_checkTransaction joins)
    fun _ _ _ _ _ => blames_get_bind fun s _ =>
      blames_of_misuses (misuses_scanned hs q numeric keysOnly s.records) hP.misused

theorem blames_count : Blames P R (count shown q joined .all) := by
  apply blames_bind (hP.uncounted.keeps_enter .count joined) (hP.enter .count joined)
  intro _ _ _ _ _
  apply blames_bind (hP.uncounted.keeps_tick .count) (blames_modify _)
  intro _ _ _ _ _
  exact blames_bind (Uncounted.keeps_checkTransaction q joined) (hP.blames_checkTransaction joins)
    fun _ _ _ _ _ => blames_get_bind fun s _ =>
      blames_bind (keeps_ofExcept _)
        (blames_of_misuses (q.misuses_matching hs s.records) hP.misused) fun _ _ _ _ _ =>
          blames_pure _

omit hs joins in
theorem blames_drain {c : Cursor Record} (h : ∀ d ∈ c, ∀ f, d.outcome = .error f → R f) :
    Blames P R (drain c) := by
  induction c with
  | nil => exact blames_pure _
  | cons d rest ih =>
    obtain ⟨head, tail⟩ := List.forall_mem_cons.mp h
    have read : Keeps P (d.read.forM Store.read) ∧ Blames P R (d.read.forM Store.read) := by
      cases d.read with
      | none => exact ⟨keeps_pure _, blames_pure _⟩
      | some n => exact ⟨hP.uncounted.keeps_read n, hP.read n⟩
    have received : Blames P R (receive d) :=
      blames_bind read.1 read.2 fun _ _ _ _ _ => blames_ofExcept head
    exact blames_bind (hP.uncounted.keeps_receive d) received fun _ _ _ _ _ =>
      blames_bind (hP.uncounted.keeps_drain rest) (ih tail) fun _ _ _ _ _ => blames_pure _

theorem blames_collect {w : Window} (numeric : w.IsNumeric) :
    Blames P R (do
      let c ← scan shown { q with keysOnly := true } joined w false
      let rs ← drain c
      return rs.map fun r => some r.key : Attempt Store (List (Option Key))) := by
  have misplaced (f : Fault) (failed : Cursor.stretch w = .error f) : R f := by
    obtain ⟨u, rfl⟩ := Cursor.misuses_stretch w f failed
    exact hP.misused u
  apply blames_bind (hP.uncounted.keeps_scan shown { q with keysOnly := true } joined w false)
    (hP.blames_scan hs { q with keysOnly := true } joins numeric false)
  intro s c t _ scanned
  obtain ⟨-, rfl⟩ := scan_spec scanned
  exact blames_bind (hP.uncounted.keeps_drain _)
    (hP.blames_drain fun d hd f failed => misplaced f (Cursor.stretch_of_outcome hd failed))
    fun _ _ _ _ _ => blames_pure _

end Faults
end Store

namespace Execution

variable {P : Store → Prop} {transaction : Option Nat} {R Q : Fault → Prop} {e : Execution}

/-- What a statement fails with while it is carried out in one transaction, or in none. -/
structure Faults (e : Execution) (P : Store → Prop) (transaction : Option Nat)
    (R Q : Fault → Prop) : Prop extends Store.Faults P transaction R where
  wrapped : ∀ f, R f → Q (f.wrapped .executing e.candidate.query)
  numeric : e.window.IsNumeric
  cut : ∀ rs f, cut e.window rs = .error f → Q f

theorem joins_transactionFor (e : Execution) (q : Selection) (d : Database) :
    Store.Joins d.store.current q (e.transactionFor q d) := by
  rw [transactionFor]
  split
  · rename_i joined
    exact .inr ⟨rfl, (Bool.and_eq_true_iff.mp joined).1⟩
  · exact .inl rfl

namespace Faults

variable (hP : e.Faults P transaction R Q)
include hP

theorem blames_request {α : Type} {a : Attempt Store α} (h : Blames P R a) :
    Blames (Database.Has P) Q (e.request a) :=
  blames_mapFault (blames_zoom h fun _ hd => hd) hP.wrapped

theorem blames_delete (keys : List (Option Key)) :
    Blames (Database.Has P) Q (e.delete keys transaction) := by
  apply blames_bind (e.keeps_request (hP.delete keys))
    (hP.blames_request (hP.toFaults.blames_delete keys))
  intro _ _ _ _ _
  apply blames_of_total
  intro d
  simp only [Database.onWorkspace, on_bind, on_zoom, Workspace.evictAll_on, on_pure]
  exact ⟨_, _, rfl⟩

omit hP in
theorem blames_openRows (c : Cursor Record) : Blames (Database.Has P) Q (e.openRows c) :=
  blames_of_total fun _ => ⟨_, _, e.openRows_on c⟩

theorem blames_scan (q : Selection) : Blames (Database.Has P) Q (e.scan q) := by
  apply blames_get_bind
  intro d hd
  have joins := e.joins_transactionFor q d
  rw [hP.current d.store hd] at joins ⊢
  dsimp only
  split
  · exact blames_bind (e.keeps_request (hP.uncounted.keeps_count _ _ _ _))
      (hP.blames_request (hP.blames_count d.heap.misuses_shown q joins)) fun _ _ _ _ _ =>
        blames_pure _
  split
  · have collected : Keeps P (do
        let c ← Store.scan d.shown { q with keysOnly := true } (e.transactionFor q d) e.window false
        let rs ← Store.drain c
        return rs.map fun r => some r.key : Attempt Store (List (Option Key))) :=
      keeps_bind (hP.uncounted.keeps_scan _ _ _ _ _) fun c =>
        keeps_bind (hP.uncounted.keeps_drain c) fun _ => keeps_pure _
    exact blames_bind (e.keeps_request collected)
      (hP.blames_request (hP.blames_collect d.heap.misuses_shown q joins hP.numeric))
      fun _ keys _ _ _ => hP.blames_delete keys
  · exact blames_bind (e.keeps_request (hP.uncounted.keeps_scan _ _ _ _ _))
      (hP.blames_request (hP.toFaults.blames_scan d.heap.misuses_shown q joins hP.numeric _))
      fun _ c _ _ _ => blames_openRows c

theorem blames_lookup (keys : List (Option Key)) :
    Blames (Database.Has P) Q (e.lookup keys) := by
  apply blames_get_bind
  intro d hd
  rw [hP.current d.store hd]
  dsimp only
  have kept := e.keeps_request (hP.uncounted.keeps_lookup keys transaction)
  have found := hP.blames_request (hP.toFaults.blames_lookup keys transaction)
  split
  · split
    · exact blames_bind kept found fun _ _ _ _ _ => hP.blames_delete _
    · exact hP.blames_delete keys
  · apply blames_bind kept found
    intro _ rs _ _ _
    apply blames_bind (keeps_ofExcept _) (blames_ofExcept (hP.cut _))
    intro _ kept _ _ _
    split
    · exact blames_pure _
    · exact blames_openRows _

theorem blames_run (native : NativeQuery) : Blames (Database.Has P) Q (e.run native) := by
  cases native with
  | selection q => exact hP.blames_scan q
  | lookup kind keys => exact hP.blames_lookup keys

end Faults
end Execution
end RecordStore
