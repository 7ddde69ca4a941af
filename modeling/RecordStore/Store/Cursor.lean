import RecordStore.Query.Bound

/-!
# Cursors

A cursor gives out items one at a time. Each delivery is an item or a fault, and nothing comes after
a fault. Some deliveries are reads of the store, which can fail when they are made.

Cursors so stand for the streams of the store, each of which is over once it has raised a fault. A
source that raises a fault and goes on behind it has no cursor, though a result could be made of it:
whatever is said about the results of cursors is said about sources that end with their first fault.
-/

set_option autoImplicit false

namespace RecordStore

structure Delivery (α : Type) where
  outcome : Except Fault α
  /-- The position among the reads of the cursor, if the delivery is one. -/
  read : Option Nat

abbrev Cursor (α : Type) := List (Delivery α)

namespace Cursor

variable {α : Type}

def ofList (items : List α) : Cursor α := items.map (⟨.ok ·, none⟩)

def ofReads (items : List α) : Cursor α := items.zipIdx.map (fun (a, n) => ⟨.ok a, some n⟩)

def after {β : Type} (outcome : Except Fault β) (rest : Cursor α) : Cursor α :=
  match outcome with
  | .ok _ => rest
  | .error _ => []

/-- Fails before the item at a position, if there is one. A fault that comes so is no read. -/
def failAt (f : Fault) (n : Nat) (c : Cursor α) : Cursor α :=
  if n < c.length then c.take n ++ [⟨.error f, none⟩] else c

def farthest : Int := 0x7FFFFFFFFFFFFFFF

def isPosition (n : Int) : Bool := 0 ≤ n && n ≤ farthest

def stretch (w : Window) : Except Fault (Nat × Option Nat) := do
  let stop ← w.stop
  let limits : Text := "must be None or an integer: 0 <= x <= sys.maxsize."
  let isBadStop (b : Bound) : Bool :=
    match b.position? with
    | none => true
    | some n => n = -1 || n > farthest || n < -farthest - 1
  let isNowhere (b : Bound) : Bool := !b.position?.any isPosition
  let place (b : Bound) : Nat := (b.position?.getD 0).toNat
  if stop.any isBadStop then
    throw (.misuse (.number ("Stop argument for islice() " ++ limits)))
  else if isNowhere w.start || stop.any isNowhere then
    throw (.misuse (.number ("Indices for islice() " ++ limits)))
  else return (place w.start, stop.map place)

/-- The items in a window. One that starts or stops where no position is fails at the first item. -/
def ofWindow (w : Window) (items : List α) : Cursor α :=
  match stretch w with
  | .error f => [⟨.error f, none⟩]
  | .ok (start, stop) =>
    let kept :=
      match stop with
      | none => items
      | some n => items.take n
    ofReads (kept.drop start)

end Cursor
end RecordStore
