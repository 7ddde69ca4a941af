import RecordStore.Text.Basic
import RecordStore.Store.Cursor
import RecordStore.Fault
import RecordStore.Query.Bound

/-!
# Connections

A scope gives out tokens, one for each result that is opened under it. Flushing a scope cancels the
tokens it gave out so far, which cuts their results off; a token stays cancelled.
-/

set_option autoImplicit false

namespace RecordStore

structure Scope where
  tokens : List Nat
  isClosed : Bool
  deriving DecidableEq, Inhabited

structure Connections where
  /-- For each token that was ever given out, whether it is cancelled. -/
  cancelled : List Bool
  scopes : List Scope

namespace Connections

def start : Connections := ⟨[], [⟨[], false⟩]⟩

def isCancelled (c : Connections) (token : Nat) : Bool := c.cancelled[token]?.getD false

def newToken (c : Connections) : Nat × Connections :=
  (c.cancelled.length, { c with cancelled := c.cancelled ++ [false] })

def scope (c : Connections) (i : Nat) : Scope := c.scopes[i]?.getD default

def issue (c : Connections) (i : Nat) : Nat × Connections :=
  let (t, c) := c.newToken
  (t, { c with scopes := c.scopes.modify i (fun s => { s with tokens := s.tokens ++ [t] }) })

def cancel (c : Connections) (token : Nat) : Connections :=
  { c with cancelled := c.cancelled.modify token (fun _ => true) }

def flush (c : Connections) (i : Nat) : Connections :=
  let d := (c.scope i).tokens.foldl cancel c
  { d with scopes := d.scopes.modify i (fun s => { s with tokens := [] }) }

def close (c : Connections) (i : Nat) : Connections :=
  let d := c.flush i
  { d with scopes := d.scopes.modify i (fun s => { s with isClosed := true }) }

def openScope (c : Connections) : Nat × Connections :=
  (c.scopes.length, { c with scopes := c.scopes ++ [⟨[], false⟩] })

end Connections
end RecordStore

/-!
## Rows

The rows of a result are made as they are asked for, each from the next item of a cursor, and are
kept from then on. Once the result is cut off from its cursor, the rows that are ready stay.
-/

namespace RecordStore

structure Rows (α β : Type) where
  pending : Cursor α
  ready : List β
  isExhausted : Bool
  isDisconnected : Bool
  /-- The token whose cancelling cuts the result off. -/
  token : Option Nat
  query : Option Text

structure RowMaker (σ α β : Type) where
  isCancelled : σ → Nat → Bool
  /-- Reads at a position, which can fail. -/
  read : Nat → Attempt σ Unit
  make : α → Attempt σ β
  same : σ → β → β → Except Fault Bool

def RowMaker.receive {σ α β : Type} (m : RowMaker σ α β) (d : Delivery α) : Attempt σ α := do
  d.read.forM m.read
  Attempt.ofExcept d.outcome

abbrev Reading (σ α β γ : Type) := Attempt (Rows α β × σ) γ

namespace Rows

variable {σ α β : Type}

def start (pending : Cursor α) (token : Option Nat) (query : Option Text) : Rows α β :=
  ⟨pending, [], false, false, token, query⟩

def disconnect (r : Rows α β) : Rows α β :=
  if r.isDisconnected then r else { r with isDisconnected := true, pending := [] }

def stateName (r : Rows α β) : Text :=
  if r.isDisconnected then "disconnected" else if r.isExhausted then "exhausted" else "open"

def text (r : Rows α β) : Text :=
  "<StreamingQueryResult " ++ r.stateName ++ " materialized=" ++ Text.ofNat r.ready.length ++ ">"

variable (m : RowMaker σ α β)

def isCancelled (r : Rows α β) (s : σ) : Bool :=
  match r.token with
  | none => false
  | some t => m.isCancelled s t

def pull : Reading σ α β Bool :=
  ExceptT.mk fun (r, s) =>
    if r.isExhausted || r.isDisconnected then (.ok false, r, s)
    else if r.isCancelled m s then (.ok false, r.disconnect, s)
    else
      match r.pending with
      | [] => (.ok false, { r with isExhausted := true }, s)
      | d :: rest =>
        match (m.receive d).run.run s with
        | (.error f, s) => (.error (f.wrapped .reading r.query), { r with pending := [] }, s)
        | (.ok a, s) =>
          match (m.make a).run.run s with
          | (.ok b, s) => (.ok true, { r with pending := rest, ready := r.ready ++ [b] }, s)
          | (.error f, s) => (.error f, { r with pending := rest }, s)

def pullMany : Nat → Reading σ α β Bool
  | 0 => return true
  | n + 1 => do
    if ← pull m then pullMany n else return false

def fillTo (n : Nat) : Reading σ α β Bool := do
  let (r, _) ← get
  pullMany m (n + 1 - r.ready.length)

def length : Reading σ α β Nat := do
  let (r, _) ← get
  let _ ← pullMany m (r.pending.length + 1)
  let (r, _) ← get
  return r.ready.length

def isNonempty : Reading σ α β Bool := fillTo m 0

def readyRow? (n : Nat) : Reading σ α β (Option β) := do
  let (r, _) ← get
  return r.ready[n]?

def row? (n : Nat) : Reading σ α β (Option β) := do
  let _ ← fillTo m n
  readyRow? n

def rowAt (i : Int) : Reading σ α β β := do
  if i < 0 then
    let n ← length m
    if i + n < 0 then throw (.misuse .position)
    else
      match ← readyRow? (i + n).toNat with
      | some b => return b
      | none => throw (.misuse .position)
  else
    match ← row? m i.toNat with
    | some b => return b
    | none => throw .pastRows

def bound : Reading σ α β Nat := do
  let (r, _) ← get
  return r.ready.length + r.pending.length

/-- Makes rows, at most so many, while their number is not above a bound; whether it is then. -/
def fillPast (i : Bound) : Nat → Reading σ α β Bool
  | 0 => return false
  | n + 1 => do
    let (r, _) ← get
    if !(← Attempt.ofExcept ((Bound.integer r.ready.length).isAtMost i)) then return true
    else if ← pull m then fillPast i n
    else return false

def row (i : Bound) : Reading σ α β β := do
  match i.position? with
  | some n => rowAt m n
  | none =>
    if ← Attempt.ofExcept (i.isBelow 0) then
      let _ ← length m
      throw (.misuse .type)
    else if ← fillPast m i ((← bound) + 1) then throw (.misuse .type)
    else throw .pastRows

def rowsFrom (position : Nat) : Nat → Reading σ α β (List β)
  | 0 => return []
  | n + 1 => do
    match ← row? m position with
    | none => return []
    | some b => return b :: (← rowsFrom (position + 1) n)

def toList : Reading σ α β (List β) := do
  rowsFrom m 0 ((← bound) + 1)

/-- Cuts from all rows. Their number is asked for first, and it does not matter if the type of an
item is what keeps it from being known. -/
def slice (s : Slice) : Reading σ α β (List β) := do
  let _ ← tryCatch (length m) fun f =>
    match f with
    | .misuse .type => return 0
    | f => throw f
  Attempt.ofExcept (s.apply (← toList m))

def same (a b : β) : Reading σ α β Bool := do
  let (_, s) ← get
  Attempt.ofExcept (m.same s a b)

def searchFrom (b : β) (last : Option Bound) (position : Nat) : Nat → Reading σ α β (Option Nat)
  | 0 => return none
  | n + 1 => do
    let isBefore ← Attempt.ofExcept
      ((last.mapM (Bound.isBelow (.integer position))).map (·.getD true))
    if !isBefore then return none
    match ← row? m position with
    | none => return none
    | some a => if ← same m a b then return some position else searchFrom b last (position + 1) n

def contains (b : β) : Reading σ α β Bool := do
  return (← searchFrom m b none 0 ((← bound) + 1)).isSome

def fromEnd (i : Bound) : Reading σ α β Bound := do
  if ← Attempt.ofExcept (i.isBelow 0) then
    let n ← length m
    Attempt.ofExcept ((Bound.integer n).add i)
  else return i

def missAt (last : Option Bound) (i : Bound) : Reading σ α β Unit := do
  let isBefore ← Attempt.ofExcept ((last.mapM i.isBelow).map (·.getD true))
  if isBefore then
    tryCatch (do let _ ← row m i) fun f =>
      match f with
      | .pastRows => return ()
      | f => throw f

/-- The first position in a range that has a row equal to a value. The start of the range is given
back as it was given. -/
def index (b : β) (start stop : Option Bound) : Reading σ α β Bound := do
  let first ← start.mapM fun i => do
    let i ← fromEnd m i
    if ← Attempt.ofExcept (i.isBelow 0) then return 0 else return i
  let last ← stop.mapM (fromEnd m)
  let found ← match first with
    | none => throw (.misuse .type)
    | some i =>
      match i.position? with
      | some n => do
        let found ← searchFrom m b last n.toNat ((← bound) + 1)
        pure (found.map fun k => if k = n then i else .integer k)
      | none => do
        missAt m last i
        pure none
  match found with
  | some n => return n
  | none => throw (.misuse (.number "no such row"))

def countFrom (b : β) (position : Nat) : Nat → Reading σ α β Nat
  | 0 => return 0
  | n + 1 => do
    match ← row? m position with
    | none => return 0
    | some a =>
      let here ← same m a b
      let rest ← countFrom b (position + 1) n
      return (if here then rest + 1 else rest)

def count (b : β) : Reading σ α β Nat := do
  countFrom m b 0 ((← bound) + 1)

def reversed : Reading σ α β (List β) := do
  let _ ← length m
  let (r, _) ← get
  return r.ready.reverse

end Rows

structure Walk where
  position : Nat
  isOver : Bool
  deriving DecidableEq

namespace Walk

variable {σ α β : Type}

def start : Walk := ⟨0, false⟩

/-- The next row, and where the walk stands then. A walk that has met the end or a fault is over. -/
def next (m : RowMaker σ α β) (w : Walk) : Reading σ α β (Except Fault (Option β) × Walk) :=
  if w.isOver then return (.ok none, w)
  else
    tryCatch
      (do
        match ← Rows.row? m w.position with
        | some b => return (.ok (some b), { w with position := w.position + 1 })
        | none => return (.ok none, { w with isOver := true }))
      (fun f => return (.error f, { w with isOver := true }))

end Walk
end RecordStore
