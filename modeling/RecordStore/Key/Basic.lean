import RecordStore.Fault
import RecordStore.Text.Quoted
import RecordStore.Number.Double

/-!
# Keys

A key names a record by the path from its root: each step has a kind and an identity, which is a
number, a name, or still open. A key is an ancestor of every key whose path goes on from its own.
Flags count as the numbers zero and one: keys that differ only so name the same record.
-/

set_option autoImplicit false

namespace RecordStore

inductive Identity where
  | unset
  | number (n : Int)
  | flag (b : Bool)
  | name (t : Text)
  deriving DecidableEq

inductive Key where
  | root (kind : Text) (id : Identity)
  | child (parent : Key) (kind : Text) (id : Identity)
  deriving DecidableEq

abbrev Step := Text × Identity

namespace Identity

def ofFlag (b : Bool) : Int := if b then 1 else 0

def normal : Identity → Identity
  | .flag b => .number (ofFlag b)
  | i => i

def text : Identity → Except Fault Text
  | .unset => .ok "None"
  | .number n => Text.numeral n
  | .flag b => .ok (if b then "True" else "False")
  | .name t => .ok (Quoted.text t)

end Identity

namespace Key

def kind : Key → Text
  | .root k _ => k
  | .child _ k _ => k

def id : Key → Identity
  | .root _ i => i
  | .child _ _ i => i

def parent? : Key → Option Key
  | .root _ _ => none
  | .child p _ _ => some p

def rootKey : Key → Key
  | .root k i => .root k i
  | .child p _ _ => p.rootKey

def last (k : Key) : Step := (k.kind, k.id)

def path : Key → List Step
  | .root k i => [(k, i)]
  | .child p k i => p.path ++ [(k, i)]

def under (parent : Option Key) (kind : Text) (id : Identity) : Key :=
  match parent with
  | none => .root kind id
  | some p => .child p kind id

def ofSteps? : List Step → Option Key
  | [] => none
  | (k, i) :: steps => some (steps.foldl (fun key s => .child key s.1 s.2) (.root k i))

def normal : Key → Key
  | .root k i => .root k i.normal
  | .child p k i => .child p.normal k i.normal

def same (a b : Key) : Bool := a.normal = b.normal

def isAncestorOf (a : Key) : Key → Bool
  | .root k i => a.same (.root k i)
  | .child p k i => a.same (.child p k i) || a.isAncestorOf p

def stepText (s : Step) : Except Fault Text := do
  let id ← s.2.text
  return s.1 ++ "(" ++ id ++ ")"

def pathText (k : Key) : Except Fault Text := do
  let steps ← k.path.mapM stepText
  return Text.join "/" steps

def text : Key → Except Fault Text
  | .root k i => do
    let id ← i.text
    return "Key(kind=" ++ Quoted.text k ++ ", id_or_name=" ++ id ++ ", parent=None)"
  | .child p k i => do
    let id ← i.text
    let parent ← p.text
    return "Key(kind=" ++ Quoted.text k ++ ", id_or_name=" ++ id ++ ", parent=" ++ parent ++ ")"

def numberOf (k : Key) : Option Identity :=
  match k.id with
  | .number n => some (.number n)
  | .flag b => some (.flag b)
  | _ => none

def nameOf (k : Key) : Option Text :=
  match k.id with
  | .name t => some t
  | _ => none

end Key

def keyProperty : Text := "__key__"

end RecordStore

/-!
## The order of keys

Keys are ordered by their paths, step by step, so a key comes right before its descendants. Within
a kind numbers come before names. An open identity is ordered like the empty name, though the two
are different keys.
-/

namespace RecordStore

inductive Place where
  | number (n : Int)
  | name (t : Text)
  deriving DecidableEq

namespace Place

def order : Place → Place → Ordering
  | .number a, .number b => compare a b
  | .number _, .name _ => .lt
  | .name _, .number _ => .gt
  | .name a, .name b => a.order b

def ofIdentity : Identity → Place
  | .unset => .name Text.empty
  | .number n => .number n
  | .flag b => .number (Identity.ofFlag b)
  | .name t => .name t

def orderStep (a b : Text × Place) : Ordering := (a.1.order b.1).then (order a.2 b.2)

end Place

abbrev Rank := List (Text × Place)

namespace Key

def rank (k : Key) : Rank := k.path.map (fun s => (s.1, Place.ofIdentity s.2))

def orderRank (a b : Rank) : Ordering := List.compareLex Place.orderStep a b

def order (a b : Key) : Ordering := orderRank a.rank b.rank

def precedes (a b : Key) : Bool := order a b == .lt

def distinct (ks : List Key) : List Key :=
  ks.foldl (fun met k => if met.any (·.same k) then met else met ++ [k]) []

def sorted (ks : List Key) : List Key := ks.mergeSort (fun a b => !b.precedes a)

end Key

/-- What a step counts for when keys are spread over buckets: keys that name the same record have
the same digest. Numbers count by their residues and the empty name counts as zero. -/
inductive Digest where
  | unset
  | number (n : Int)
  | name (t : Text)
  deriving DecidableEq

namespace Digest

def ofInt (n : Int) : Digest := .number (Residue.ofInt n)

def ofIdentity : Identity → Digest
  | .unset => .unset
  | .number n => ofInt n
  | .flag b => ofInt (Identity.ofFlag b)
  | .name t => if t.isEmpty then .number 0 else .name t

end Digest

def Key.digest (k : Key) : List (Text × Digest) :=
  k.path.map (fun s => (s.1, Digest.ofIdentity s.2))

end RecordStore
