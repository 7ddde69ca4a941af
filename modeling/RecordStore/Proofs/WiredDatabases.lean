import RecordStore.Proofs.DatabaseRuns
import RecordStore.Proofs.ScopeTokens

/-!
# The connections of a database

A statement gives out a token of the current scope if it comes to rows, and none if it does not.
Apart from that only a flush, a new connection and the end of a database touch its connections.
-/

set_option autoImplicit false

namespace RecordStore

open Attempt

namespace Attempt

variable {σ α β : Type} {P : σ → Prop} {Q : Except Fault α → σ → Prop}

/-- From states with a property an attempt comes to outcomes and states that belong together. -/
structure Ends (P : σ → Prop) (Q : Except Fault α → σ → Prop) (a : Attempt σ α) : Prop where
  after : ∀ s, P s → Q (a.on s).1 (a.on s).2

theorem ends_pure {x : α} (h : ∀ s, P s → Q (.ok x) s) : Ends P Q (pure x : Attempt σ α) := ⟨h⟩

theorem ends_throw {f : Fault} (h : ∀ s, P s → Q (.error f) s) :
    Ends P Q (throw f : Attempt σ α) := ⟨h⟩

theorem ends_bind {R : Except Fault β → σ → Prop} {a : Attempt σ α} {f : α → Attempt σ β}
    (kept : Keeps P a) (failed : ∀ e s, P s → R (.error e) s) (hf : ∀ x, Ends P R (f x)) :
    Ends P R (a >>= f) := by
  constructor
  intro s hs
  have ht := kept.after s hs
  rw [on_bind]
  rcases ran : a.on s with ⟨e | x, t⟩
  · rw [ran] at ht
    exact failed e t ht
  · rw [ran] at ht
    exact (hf x).after t ht

theorem ends_get_bind {f : σ → Attempt σ α} (hf : ∀ s, P s → Ends P Q (f s)) :
    Ends P Q (get >>= f) := by
  constructor
  intro s hs
  rw [on_bind_of_ok (on_get s)]
  exact (hf s hs).after s hs

end Attempt

namespace Database

variable {c : Connections} {i : Nat} {d : Database}

/-- Whether a database has some connections and one of their scopes as the current one. -/
structure Wired (c : Connections) (i : Nat) (d : Database) : Prop where
  connections : d.connections = c
  scope : d.scope = i

theorem keeps_wired_onStore {α : Type} (a : Attempt Store α) : Keeps (Wired c i) (onStore a) :=
  ⟨fun _ h => ⟨h.connections, h.scope⟩⟩

theorem keeps_wired_onWorkspace {α : Type} (a : Attempt Workspace α) :
    Keeps (Wired c i) (onWorkspace a) :=
  ⟨fun _ h => ⟨h.connections, h.scope⟩⟩

theorem keeps_wired_register (className : ClassName) (shape : Shape) (members : List Member)
    (kind : Option Text) : Keeps (Wired c i) (register className shape members kind) := by
  apply keeps_get_bind
  intro d h
  apply keeps_bind (keeps_ofExcept _)
  intro p
  exact keeps_bind (keeps_set ⟨h.connections, h.scope⟩) fun _ => keeps_pure _

theorem keeps_wired_put (v : Value) : Keeps (Wired c i) (put v) := by
  apply keeps_get_bind
  intro d _
  apply keeps_bind (keeps_ofExcept _)
  intro mapping
  apply keeps_bind (keeps_wired_onStore _)
  intro r
  apply keeps_get_bind
  intro d' _
  apply keeps_bind (keeps_wired_onStore _)
  intro k
  have rest : Keeps (Wired c i) (onWorkspace (Workspace.remember k v false) >>= fun _ =>
      Attempt.ofExcept k.pathText >>= fun _ => pure k) :=
    keeps_bind (keeps_wired_onWorkspace _) fun _ =>
      keeps_bind (keeps_ofExcept _) fun _ => keeps_pure _
  cases mapping.primary? with
  | none => exact rest
  | some m =>
    exact keeps_bind (keeps_ofExcept _) fun _ =>
      keeps_bind (keeps_wired_onWorkspace _) fun _ => rest

theorem keeps_wired_find (className : ClassName) (id : Value) :
    Keeps (Wired c i) (find? className id) := by
  apply keeps_get_bind
  intro d _
  apply keeps_bind (keeps_ofExcept _)
  intro mapping
  split
  · refine keeps_bind (keeps_pure _) fun k => keeps_bind (keeps_wired_onStore _) fun found => ?_
    split
    · exact keeps_pure _
    · exact keeps_bind (keeps_wired_onWorkspace _) fun _ => keeps_pure _
  · refine keeps_bind (keeps_ofExcept _) fun k => keeps_bind (keeps_wired_onStore _) fun found => ?_
    split
    · exact keeps_pure _
    · exact keeps_bind (keeps_wired_onWorkspace _) fun _ => keeps_pure _

theorem keeps_wired_settle (number : Nat) (work : Except Fault Unit) :
    Keeps (Wired c i) (settle number work) := by
  cases work with
  | error f => exact keeps_bind (keeps_wired_onStore _) fun _ => keeps_throw f
  | ok _ =>
    apply keeps_get_bind
    intro d _
    cases d.store.transaction? number with
    | none => exact keeps_pure _
    | some t =>
      dsimp only
      split
      · exact keeps_wired_onStore _
      · exact keeps_pure _

theorem keeps_wired_pull (reader : RowReader) :
    Keeps (fun p : Rows Record Value × Database => p.2.Wired c i) (Rows.pull reader.maker) :=
  keeps_pull _ (fun n => keeps_wired_onStore (Store.read n)) fun _ => keeps_wired_onWorkspace _

end Database

open Database

/-- What a statement leaves of the connections. If it comes to rows, they have a new token of the
current scope. -/
def Result.OpenedIn (c : Connections) (i : Nat) : Except Fault Result → Database → Prop
  | .ok (.rows given _), d => given.token = some c.cancelled.length ∧ d.Wired (c.issue i).2 i
  | _, d => d.Wired c i

namespace Execution

variable {c : Connections} {i : Nat} (e : Execution)

theorem keeps_wired_request {α : Type} (a : Attempt Store α) : Keeps (Wired c i) (e.request a) :=
  keeps_mapFault (keeps_wired_onStore a) _

theorem ends_openRows (cursor : Cursor Record) :
    Ends (Wired c i) (Result.OpenedIn c i) (e.openRows cursor) := by
  constructor
  rintro d ⟨rfl, rfl⟩
  exact ⟨rfl, rfl, rfl⟩

theorem ends_number (n : Nat) :
    Ends (Wired c i) (Result.OpenedIn c i) (pure (.number n)) :=
  ends_pure fun _ h => h

theorem ends_delete (keys : List (Option Key)) (transaction : Option Nat) :
    Ends (Wired c i) (Result.OpenedIn c i) (e.delete keys transaction) := by
  apply ends_bind (e.keeps_wired_request _) (fun _ _ h => h)
  intro _
  exact ends_bind (keeps_wired_onWorkspace _) (fun _ _ h => h) fun _ => ends_number _

theorem ends_scan (q : Selection) : Ends (Wired c i) (Result.OpenedIn c i) (e.scan q) := by
  apply ends_get_bind
  intro d _
  dsimp only
  split
  · exact ends_bind (e.keeps_wired_request _) (fun _ _ h => h) ends_number
  split
  · exact ends_bind (e.keeps_wired_request _) (fun _ _ h => h) fun keys => e.ends_delete keys _
  · exact ends_bind (e.keeps_wired_request _) (fun _ _ h => h) e.ends_openRows

theorem ends_lookup (keys : List (Option Key)) :
    Ends (Wired c i) (Result.OpenedIn c i) (e.lookup keys) := by
  apply ends_get_bind
  intro d _
  dsimp only
  split
  · split
    · exact ends_bind (e.keeps_wired_request _) (fun _ _ h => h) fun found => e.ends_delete _ _
    · exact e.ends_delete keys _
  · apply ends_bind (e.keeps_wired_request _) (fun _ _ h => h)
    intro found
    apply ends_bind (keeps_ofExcept _) (fun _ _ h => h)
    intro kept
    split
    · exact ends_number _
    · exact e.ends_openRows _

theorem ends_run (native : NativeQuery) :
    Ends (Wired c i) (Result.OpenedIn c i) (e.run native) := by
  cases native with
  | selection q => exact e.ends_scan q
  | lookup kind keys => exact e.ends_lookup keys

end Execution

namespace Database

variable {c : Connections} {i : Nat}

theorem ends_execute (s : Statement) (range : Range) (parameters : Parameters) (now : Moment) :
    Ends (Wired c i) (Result.OpenedIn c i) (execute s range parameters now) := by
  apply ends_get_bind
  intro d h
  apply ends_bind (keeps_ofExcept _) (fun _ _ h => h)
  intro candidate
  apply ends_bind (keeps_ofExcept _) (fun _ _ h => h)
  intro plan
  apply ends_bind (keeps_ofExcept _) (fun _ _ h => h)
  intro native
  apply ends_bind (keeps_set ⟨h.connections, h.scope⟩) (fun _ _ h => h)
  intro _
  apply ends_bind (keeps_ofExcept _) (fun _ _ h => h)
  intro _
  apply ends_bind (keeps_ofExcept _) (fun _ _ h => h)
  intro isEmpty
  dsimp only
  split
  · apply ends_pure
    intro d h
    split
    · exact h
    · exact h
  · apply ends_bind (keeps_ofExcept _) (fun _ _ h => h)
    intro w
    split
    · exact ends_throw fun _ h => h
    · exact Execution.ends_run _ native

end Database
end RecordStore
