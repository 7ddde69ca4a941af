import RecordStore.Value.Heap
import RecordStore.Query.Operator
import RecordStore.Key.Basic
import RecordStore.Fault

/-!
# Native queries

What the store carries out: a selection from one kind by conditions, or a look-up of records by
their keys, which involves no conditions at all.
-/

set_option autoImplicit false

namespace RecordStore

structure Condition where
  property : Text
  comparator : Comparator
  value : Value

structure SortClause where
  property : Text
  direction : Direction
  deriving DecidableEq

structure Selection where
  kind : Text
  conditions : List Condition
  arrangement : List SortClause
  ancestor : Option Key
  keysOnly : Bool

inductive NativeQuery where
  | selection (s : Selection)
  | lookup (kind : Text) (keys : List (Option Key))

namespace Condition

def text (shown : Value → Except Fault Text) (c : Condition) : Except Fault Text := do
  let operand ← shown c.value
  return c.property ++ " " ++ c.comparator.symbol ++ " " ++ operand

end Condition

namespace Selection

def text (shown : Value → Except Fault Text) (s : Selection) : Except Fault Text := do
  let conditions ← s.conditions.mapM (·.text shown)
  let ancestor ← s.ancestor.mapM Key.pathText
  let below (t : Text) : Text := "ANCESTOR IS " ++ t
  let clauses := conditions ++ (ancestor.map below).toList
  let sorts : List Text := s.arrangement.map (fun c => c.property ++ " " ++ c.direction.name)
  return Text.join " " <|
    ["SELECT * FROM " ++ s.kind] ++
    (if clauses.isEmpty then [] else ["WHERE " ++ Text.join " AND " clauses]) ++
    (if sorts.isEmpty then [] else ["ORDER BY " ++ Text.join ", " sorts])

end Selection

namespace NativeQuery

def keyText : Option Key → Except Fault Text
  | none => .ok "None"
  | some k => k.text

def text (shown : Value → Except Fault Text) : NativeQuery → Except Fault Text
  | .selection s => s.text shown
  | .lookup kind keys => do
    let keys ← keys.mapM keyText
    return "BatchGetQuery(kind=" ++ Quoted.text kind ++ ", keys=" ++
      Collection.tuple.enclose keys ++ ")"

end NativeQuery
end RecordStore

/-!
## Drafts

A draft gathers the parts of a native query. Conditions, sort clauses and an ancestor cannot stand
beside a look-up by keys, and a second ancestor has to be the first again. A step that fails leaves
no draft behind, so the one before it still stands.

A draft can be worked on in place as well, by calls that test it first and change it last.
-/

namespace RecordStore

structure Draft where
  kind : Text
  query : Option Text
  conditions : List Condition
  arrangement : List SortClause
  ancestor : Option Key
  keys : Option (List (Option Key))

namespace Draft

def start (kind : Text) (query : Option Text) : Draft := ⟨kind, query, [], [], none, none⟩

def isLookup (d : Draft) : Bool := d.keys.isSome

def lookupWithConditions (d : Draft) : Fault := .unsupportedFeature .lookupWithConditions d.query

def addCondition (d : Draft) (c : Condition) : Except Fault Draft :=
  if d.isLookup then .error d.lookupWithConditions
  else .ok { d with conditions := d.conditions ++ [c] }

def addSort (d : Draft) (c : SortClause) : Except Fault Draft :=
  if d.isLookup then .error d.lookupWithConditions
  else .ok { d with arrangement := d.arrangement ++ [c] }

def secondAncestor {α : Type} (d : Draft) (present asked : Key) : Except Fault α := do
  let present ← present.pathText
  let asked ← asked.pathText
  .error (.unsupportedFeature (.secondAncestor present asked) d.query)

def setAncestor (d : Draft) (k : Key) : Except Fault Draft :=
  if d.isLookup then .error d.lookupWithConditions
  else
    match d.ancestor with
    | none => .ok { d with ancestor := some k }
    | some present =>
      if present.same k then .ok { d with ancestor := some k }
      else d.secondAncestor present k

def sameKey? : Option Key → Option Key → Bool
  | none, none => true
  | some a, some b => a.same b
  | _, _ => false

def distinctKeys (ks : List (Option Key)) : List (Option Key) :=
  ks.foldl (fun met k => if met.any (sameKey? · k) then met else met ++ [k]) []

/-- Starts a look-up. The keys are only asked for if a look-up can start here, and any of them can
turn out to be none. -/
def startLookup (d : Draft) (keys : List (Except Fault (Option Key))) : Except Fault Draft :=
  if !d.conditions.isEmpty || !d.arrangement.isEmpty || d.ancestor.isSome || d.isLookup then
    .error d.lookupWithConditions
  else do
    let ks ← keys.mapM id
    return { d with keys := some (distinctKeys ks) }

def logged (d : Draft) : Except Fault Draft := do
  let _ ← d.ancestor.mapM Key.pathText
  return d

def freeze (d : Draft) (keysOnly : Bool) : NativeQuery :=
  match d.keys with
  | some ks => .lookup d.kind ks
  | none => .selection ⟨d.kind, d.conditions, d.arrangement, d.ancestor, keysOnly⟩

/-- What can be asked of a draft before it is frozen. -/
inductive Call where
  | condition (c : Condition)
  | sort (c : SortClause)
  | ancestor (k : Key)
  | lookup (keys : List (Except Fault (Option Key)))

def forbidLookup : Attempt Draft Unit := do
  let d ← get
  if d.isLookup then throw d.lookupWithConditions

def perform : Call → Attempt Draft Unit
  | .condition c => do
    forbidLookup
    modify fun d => { d with conditions := d.conditions ++ [c] }
  | .sort c => do
    forbidLookup
    modify fun d => { d with arrangement := d.arrangement ++ [c] }
  | .ancestor k => do
    forbidLookup
    let d ← get
    if let some present := d.ancestor then
      if !present.same k then Attempt.ofExcept (d.secondAncestor present k)
    modify fun d => { d with ancestor := some k }
  | .lookup keys => do
    let d ← get
    if !d.conditions.isEmpty || !d.arrangement.isEmpty || d.ancestor.isSome || d.isLookup then
      throw d.lookupWithConditions
    let ks ← keys.mapM .ofExcept
    modify fun d => { d with keys := some (distinctKeys ks) }

def session (calls : List Call) : Attempt Draft (List (Except Fault Unit)) :=
  calls.mapM fun call => (perform call).observing

end Draft
end RecordStore
