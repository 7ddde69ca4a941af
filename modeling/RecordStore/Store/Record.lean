import RecordStore.Value.Comparison
import RecordStore.Value.Rank
import RecordStore.Query.Native

/-!
# Records

A record has a key and properties. A condition on a property holds if it holds for the value or,
where the value is a list, for one of its items. A record without a property meets no condition on
it and is left out where rows are sorted by it, as it is if the property is an empty list.

Not all values can be compared, and the first comparison that cannot be made stops the selection:
`Selection.problem?` goes through the comparisons in the order in which they are made. While records
are sorted, though, any two of them count as compared, which is so unless some of them stand in no
order.
-/

set_option autoImplicit false

namespace RecordStore

namespace Condition

/-- Whether an item meets a condition. A number that is not a number is in no order, but one and the
same is equal to itself. -/
def isMetBy (shown : Value → Except Fault Text) (c : Condition) (item : Value) : Bool :=
  if item.isOneNaN c.value then c.comparator.holds (some .eq)
  else (Standing.ofValue shown item).holds c.comparator (Standing.ofValue shown c.value)

def problem? (shown : Value → Except Fault Text) (c : Condition) (item : Value) : Option Fault :=
  let standing := Standing.ofValue shown item
  standing.fault?.or
    (if c.comparator = .equal then none
    else standing.clash? (Standing.ofValue shown c.value))

end Condition

def firstFault {α : Type} (fault? : α → Option Fault) (isLast : α → Bool) : List α → Option Fault
  | [] => none
  | a :: rest => (fault? a).or (if isLast a then none else firstFault fault? isLast rest)

structure Record where
  key : Key
  properties : List (Text × Value)

namespace Record

def kind (r : Record) : Text := r.key.kind

def bare (r : Record) : Record := ⟨r.key, []⟩

def value? (r : Record) (property : Text) : Option Value :=
  if property = keyProperty then some (.key r.key) else lookupName property r.properties

def itemsOf : Value → List Value
  | .collection .list items => items
  | .collection .tuple items => items
  | v => [v]

def has (r : Record) (property : Text) : Bool :=
  match r.value? property with
  | none => false
  | some v => !(itemsOf v).isEmpty

def meets (shown : Value → Except Fault Text) (r : Record) (c : Condition) : Bool :=
  match r.value? c.property with
  | none => false
  | some v => (itemsOf v).any (c.isMetBy shown)

/-- What stops the question whether a record meets a condition: the operand comes first, and then
the items up to one that meets it. -/
def problem? (shown : Value → Except Fault Text) (r : Record) (c : Condition) : Option Fault :=
  match r.value? c.property with
  | none => none
  | some v =>
    (Standing.ofValue shown c.value).fault?.or
      (firstFault (c.problem? shown) (c.isMetBy shown) (itemsOf v))

def standings (shown : Value → Except Fault Text) (property : Text) (r : Record) : List Standing :=
  match r.value? property with
  | none => []
  | some v => (itemsOf v).map (Standing.ofValue shown)

/-- Where a record stands for a sort clause: a list counts by its least item going up and by its
greatest going down. -/
def standing (shown : Value → Except Fault Text) (c : SortClause) (r : Record) : Standing :=
  match r.standings shown c.property with
  | [] => .null
  | s :: rest => s.extreme c.direction rest

def standingProblem? (shown : Value → Except Fault Text) (c : SortClause) (r : Record) :
    Option Fault :=
  match r.standings shown c.property with
  | [] => none
  | s :: rest => ((s :: rest).findSome? Standing.fault?).or (s.extremeClash? c.direction rest)

end Record

namespace Selection

def covers (q : Selection) (r : Record) : Bool :=
  r.kind = q.kind &&
    (match q.ancestor with
      | none => true
      | some k => k.isAncestorOf r.key)

def selects (shown : Value → Except Fault Text) (q : Selection) (r : Record) : Bool :=
  q.covers r && q.conditions.all (r.meets shown) && q.arrangement.all (fun c => r.has c.property)

def arrange (shown : Value → Except Fault Text) (q : Selection) (rs : List Record) : List Record :=
  q.arrangement.foldr
    (fun c sorted => sortByStanding c.direction (Record.standing shown c) sorted)
    (rs.mergeSort (fun a b => !b.key.precedes a.key))

def answer (shown : Value → Except Fault Text) (q : Selection) (rs : List Record) : List Record :=
  q.arrange shown (rs.filter (q.selects shown))

def trialProblem? (shown : Value → Except Fault Text) (q : Selection) (r : Record) :
    Option Fault :=
  if q.covers r then firstFault (r.problem? shown) (fun c => !r.meets shown c) q.conditions
  else none

def sortProblem? (shown : Value → Except Fault Text) (q : Selection) (rs : List Record) :
    List SortClause → Option Fault
  | [] => none
  | c :: rest =>
    let sorted := { q with arrangement := rest }.arrange shown rs
    (sortProblem? shown q rs rest).or
      ((sorted.findSome? (Record.standingProblem? shown c)).or
        (Standing.clashAmong? (sorted.map (Record.standing shown c))))

def problem? (shown : Value → Except Fault Text) (q : Selection) (rs : List Record) :
    Option Fault :=
  (rs.findSome? (q.trialProblem? shown)).or
    (q.sortProblem? shown (rs.filter (q.selects shown)) q.arrangement)

def matching (shown : Value → Except Fault Text) (q : Selection) (rs : List Record) :
    Except Fault (List Record) :=
  match q.problem? shown rs with
  | some f => .error f
  | none => .ok (q.answer shown rs)

end Selection
end RecordStore
