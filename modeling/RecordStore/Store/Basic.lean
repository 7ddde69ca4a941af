import RecordStore.Store.Record
import RecordStore.Store.Cursor
import RecordStore.Settings.Basic
import RecordStore.Fault

/-!
# The store

The store keeps records by key, counts what is asked of it, and gives out numbers for new records.
A transaction gathers writes until it is committed; it is found by its number. For testing how
others cope, requests can be made to fail, and the requests made are noted down.
-/

set_option autoImplicit false

namespace RecordStore

structure Transaction where
  number : Nat
  isActive : Bool
  puts : List (Key × Record)
  deletes : List (Option Key)

namespace Transaction

def text (t : Transaction) : Text :=
  "<Transaction " ++ Text.ofNat t.number ++ " active=" ++ flagText t.isActive ++ ">"

end Transaction

inductive Request where
  | put | get | scan | count | delete
  deriving DecidableEq

namespace Request

def name : Request → Text
  | .put => "put"
  | .get => "get"
  | .scan => "scan"
  | .count => "count"
  | .delete => "delete"

def all : List Request := [.put, .get, .scan, .count, .delete]

end Request

structure Outages where
  requests : List (Request × Fault)
  /-- A fault that comes instead of the record at a position of a scan, while the scan reads it. -/
  rows : Option (Nat × Fault)

def Outages.add (o : Outages) (request : Text) (f : Fault) : Option Nat → Outages
  | some row => { o with rows := some (row, f) }
  | none =>
    { o with requests := o.requests ++ (Request.all.filter (·.name = request)).map ((·, f)) }

structure Store where
  /-- In the order in which their keys were first stored. -/
  records : List Record
  /-- The last number given out for each kind. -/
  numbers : List (Text × Nat)
  tally : List (Request × Nat)
  reads : Nat
  transactions : List Transaction
  current : Option Nat
  requiresAncestor : Bool
  outages : Outages
  /-- The requests made, each with its transaction. -/
  journal : List (Request × Option Text)

namespace Store

def start (s : StorageSettings) : Store :=
  { records := [], numbers := [], tally := [], reads := 0, transactions := [], current := none
    requiresAncestor := s.requireAncestor.isTrue, outages := ⟨[], none⟩, journal := [] }

def countOf (s : Store) (r : Request) : Nat :=
  ((s.tally.find? (fun e => e.1 = r)).map (·.2)).getD 0

def tick (s : Store) (r : Request) : Store :=
  { s with tally := (r, s.countOf r + 1) :: s.tally.filter (fun e => e.1 ≠ r) }

def find? (s : Store) (k : Key) : Option Record := s.records.find? (fun r => r.key.same k)

def insert (r : Record) : List Record → List Record
  | [] => [r]
  | x :: rest => if x.key.same r.key then r :: rest else x :: insert r rest

def erase (k : Key) (rs : List Record) : List Record := rs.filter (fun r => !r.key.same k)

def write (s : Store) (r : Record) : Store :=
  { s.tick .put with records := insert r s.records }

def remove (s : Store) (k : Key) : Store :=
  { s.tick .delete with records := erase k s.records }

/-- Forgets the records and the counts. The numbers that were given out stay given out. -/
def clear (s : Store) : Store := { s with records := [], tally := [], reads := 0 }

def transaction? (s : Store) (number : Nat) : Option Transaction :=
  s.transactions.find? (fun t => t.number = number)

def updateTransaction (s : Store) (number : Nat) (f : Transaction → Transaction) : Store :=
  { s with transactions := s.transactions.map (fun t => if t.number = number then f t else t) }

def currentTransaction? (s : Store) : Option Transaction := s.current.bind s.transaction?

end Store

def missingKey : Fault := .misuse (.attribute "'NoneType' object has no attribute 'kind'")

namespace Store

def removeAll : List (Option Key) → Attempt Store Unit
  | [] => pure ()
  | none :: _ => do
    modify (·.tick .delete)
    throw missingKey
  | some k :: rest => do
    modify (·.remove k)
    removeAll rest

def apply (puts : List Record) (deletes : List (Option Key)) : Attempt Store Unit := do
  modify (fun s => puts.foldl write s)
  removeAll deletes

def allocate (kind : Text) : Attempt Store Nat := do
  let s ← get
  let n := (lookupName kind s.numbers).getD 0 + 1
  set { s with numbers := assignName kind n s.numbers }
  return n

def active (number : Nat) : Attempt Store Transaction := do
  match (← get).transaction? number with
  | some t => if t.isActive then return t else throw (.refused (.endedTransaction number))
  | none => throw (.refused (.endedTransaction number))

def insertPut (r : Record) : List (Key × Record) → List (Key × Record)
  | [] => [(r.key, r)]
  | p :: rest => if p.1.same r.key then (p.1, r) :: rest else p :: insertPut r rest

def erasePut (k : Option Key) (puts : List (Key × Record)) : List (Key × Record) :=
  match k with
  | none => puts
  | some k => puts.filter (fun p => !p.1.same k)

def put (r : Record) (transaction : Option Nat) : Attempt Store Key := do
  let r ← if r.key.id = .unset then do
      let n ← allocate r.key.kind
      pure { r with key := Key.under r.key.parent? r.key.kind (.number n) }
    else pure r
  match transaction with
  | none => apply [r] []
  | some number => do
    let _ ← active number
    modify (·.updateTransaction number (fun t => { t with puts := insertPut r t.puts }))
  return r.key

def enter (request : Request) (transaction : Option Nat) : Attempt Store Unit := do
  let s ← get
  let shown := (transaction.bind s.transaction?).map (·.text)
  set { s with journal := s.journal ++ [(request, shown)] }
  match s.outages.requests.find? (fun o => o.1 = request) with
  | some (_, f) => throw f
  | none => pure ()

def deleteIn (number : Nat) (keys : List (Option Key)) : Attempt Store Unit := do
  let _ ← active number
  modify (·.updateTransaction number (fun t =>
    { t with puts := keys.foldl (fun puts k => erasePut k puts) t.puts
             deletes := t.deletes ++ keys }))

def delete (keys : List (Option Key)) (transaction : Option Nat) : Attempt Store Unit := do
  enter .delete transaction
  match transaction with
  | none => apply [] keys
  | some number => deleteIn number keys

def fetch : List (Option Key) → List (Key × Record) → Attempt Store (List (Key × Record))
  | [], found => pure found
  | none :: _, _ => throw missingKey
  | some k :: rest, found => do
    match (← MonadState.get).find? k with
    | none => fetch rest found
    | some r => do
      modify (fun s => { s with reads := s.reads + 1 })
      let found' :=
        if found.any (fun p => p.1.same k) then
          found.map (fun p => if p.1.same k then (p.1, r) else p)
        else found ++ [(k, r)]
      fetch rest found'

def lookup (keys : List (Option Key)) (transaction : Option Nat) :
    Attempt Store (List (Key × Record)) := do
  enter .get transaction
  modify (·.tick .get)
  fetch keys []

def checkTransaction (q : Selection) : Option Nat → Attempt Store Unit
  | none => pure ()
  | some number => do
    let _ ← active number
    if q.ancestor.isNone && (← get).requiresAncestor then throw (.refused .scanWithoutAncestor)

def note (shown : Value → Except Fault Text) (q : Selection) (w : Window) : Except Fault Unit := do
  let _ ← q.text shown
  let _ ← w.start.text
  let _ ← w.limit.mapM Bound.text

def scanned (shown : Value → Except Fault Text) (q : Selection) (w : Window) (keysOnly : Bool)
    (rs : List Record) : Except Fault (Cursor Record) := do
  let selected ← q.matching shown rs
  note shown q w
  return Cursor.ofWindow w (if keysOnly || q.keysOnly then selected.map Record.bare else selected)

def scan (shown : Value → Except Fault Text) (q : Selection) (transaction : Option Nat) (w : Window)
    (keysOnly : Bool) : Attempt Store (Cursor Record) := do
  enter .scan transaction
  modify (·.tick .scan)
  checkTransaction q transaction
  let s ← get
  Attempt.ofExcept (scanned shown q w keysOnly s.records)

def count (shown : Value → Except Fault Text) (q : Selection) (transaction : Option Nat)
    (w : Window) :
    Attempt Store Nat := do
  enter .count transaction
  modify (·.tick .count)
  if !w.isTrivial then throw (.refused .windowedCount)
  checkTransaction q transaction
  let selected ← Attempt.ofExcept (q.matching shown (← get).records)
  return selected.length

def read (position : Nat) : Attempt Store Unit := do
  modify (fun s => { s with reads := s.reads + 1 })
  match (← get).outages.rows with
  | some (n, f) => if n = position then throw f
  | none => pure ()

def receive (d : Delivery Record) : Attempt Store Record := do
  d.read.forM read
  Attempt.ofExcept d.outcome

def next (c : Cursor Record) : Attempt Store (Option (Except Fault Record) × Cursor Record) :=
  match c with
  | [] => pure (none, [])
  | d :: rest => do
    let outcome ← (receive d).observing
    return (some outcome, Cursor.after outcome rest)

def drain : Cursor Record → Attempt Store (List Record)
  | [] => pure []
  | d :: rest => do
    let r ← receive d
    return r :: (← drain rest)

def suspend (o : Outages) : Attempt Store Unit := modify (fun s => { s with outages := o })

def takeJournal : Attempt Store (List (Request × Option Text)) := do
  let s ← get
  set { s with journal := [] }
  return s.journal

def begin : Attempt Store Nat := do
  let s ← get
  if s.current.isSome then throw (.refused .nestedTransaction)
  let number := s.transactions.length + 1
  let opened : Transaction := ⟨number, true, [], []⟩
  set { s with transactions := s.transactions ++ [opened], current := some number }
  return number

def finish (s : Store) (number : Nat) : Store :=
  let s := s.updateTransaction number (fun t => { t with isActive := false })
  if s.current = some number then { s with current := none } else s

def commit (number : Nat) : Attempt Store Unit := do
  let t ← active number
  modify (·.finish number)
  apply (t.puts.map (·.2)) t.deletes

def rollback (number : Nat) : Attempt Store Unit := do
  match (← get).transaction? number with
  | some t => if t.isActive then modify (·.finish number)
  | none => pure ()

end Store
end RecordStore
