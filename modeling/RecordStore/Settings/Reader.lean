import RecordStore.Settings.Basic
import RecordStore.Document.Node
import RecordStore.Document.Word
import RecordStore.Text.Base64

/-!
# Reading settings

The nodes of a document stand for settings, by their tags or by what they are written like. Nodes
are looked at level by level, so of several faults the one that is nearest to the root is found, and
on one level the first.
-/

set_option autoImplicit false

namespace RecordStore
namespace Setting

open Document

abbrev Leveled (α : Type) := Except (Nat × Fault) α

namespace Leveled

def fail {α : Type} (level : Nat) (f : Fault) : Leveled α := .error (level, f)

def of {α : Type} (level : Nat) (a : Except Fault α) : Leveled α := a.mapError (level, ·)

def both {α β : Type} : Leveled α → Leveled β → Leveled (α × β)
  | .ok a, .ok b => .ok (a, b)
  | .ok _, .error f => .error f
  | .error e, .ok _ => .error e
  | .error e, .error f => .error (if f.1 < e.1 then f else e)

def cons {α : Type} (a : Leveled α) (as : Leveled (List α)) : Leveled (List α) :=
  (both a as).map (fun p => p.1 :: p.2)

def append {α : Type} (as bs : Leveled (List α)) : Leveled (List α) :=
  (both as bs).map (fun p => p.1 ++ p.2)

end Leveled

def meaningless : Fault := .misuse (.document .meaning)

/-! ## Types -/

inductive ScalarType where
  | null | flag | integer | real | text | time | binary

inductive NodeType where
  | scalar (t : ScalarType)
  | sequence | mapping | set
  /-- Pairs, written as mappings with one entry each. -/
  | pairs

def types : List (Text × NodeType) :=
  [("null", .scalar .null), ("bool", .scalar .flag), ("int", .scalar .integer),
    ("float", .scalar .real), ("str", .scalar .text), ("timestamp", .scalar .time),
    ("binary", .scalar .binary), ("seq", .sequence), ("map", .mapping), ("set", .set),
    ("omap", .pairs), ("pairs", .pairs)]

def isTag (name tag : Text) : Bool := tag = "tag:yaml.org,2002:" ++ name

def typeOf? (tag : Text) : Option NodeType := (types.find? (fun t => isTag t.1 tag)).map (·.2)

def tag? : Node → Option Text
  | .scalar tag _ _ => tag
  | .sequence tag _ => tag
  | .mapping tag _ => tag
  | .endless => none

def isSign (name : Text) (kind : WordKind) (n : Node) : Bool :=
  match n with
  | .scalar none isPlain t => isPlain && Word.kindOf t = kind
  | n => (tag? n).any (isTag name)

def isMerge : Node → Bool := isSign "merge" .merge

def isDefault : Node → Bool := isSign "value" .default

/-! ## Scalars -/

def ofStamp (s : Stamp) : Except Fault Scalar :=
  if s.isValid then
    .ok (match s with
      | .date d => .date d
      | .moment m => .moment m)
  else .error (.misuse (.number "no such time"))

/-- The value of a word of a kind. A word that is only written like a number or a time has none. -/
def ofWord (kind : WordKind) (t : Text) : Except Fault Scalar :=
  match kind with
  | .null => .ok .null
  | .flag b => .ok (.flag b)
  | .integer => ((Word.integer t).mapError Fault.misuse).map .integer
  | .real => ((Word.real t).mapError Fault.misuse).map .real
  | .time => (((Word.letters? t).bind Stamp.read?).map ofStamp).getD (.error meaningless)
  | .text => .ok (.text t)
  | .merge | .default => .error meaningless

def ofTyped (type : ScalarType) (t : Text) : Except Fault Scalar :=
  match type with
  | .text => .ok (.text t)
  | .null => .ok .null
  | .flag =>
    match Word.flag? t with
    | some b => .ok (.flag b)
    | none => .error (.misuse (.name (Quoted.text t)))
  | .integer => ofWord .integer t
  | .real => ofWord .real t
  | .time =>
    match (Word.letters? t).bind Stamp.readShort? with
    | some s => ofStamp s
    | none => .error (.misuse (.attribute "no time"))
  | .binary =>
    match Base64.decodeStandard? t with
    | some bs => .ok (.bytes bs)
    | none => .error meaningless

mutual

/-- The text that a node stands for where a scalar is asked for: a mapping has a default value for
that. -/
def textIn? : Node → Option Text
  | .scalar _ _ t => some t
  | .mapping _ entries => defaultIn? entries
  | _ => none

def defaultIn? : List (Node × Node) → Option Text
  | [] => none
  | (k, n) :: rest => if isDefault k then textIn? n else defaultIn? rest

end

/-- The scalar that a node with a tag stands for. Only what is written as a scalar can be a time. -/
def ofTagged (tag : Text) (n : Node) : Except Fault Scalar :=
  match typeOf? tag, textIn? n with
  | some (.scalar type), some t =>
    match type, n with
    | .time, .mapping _ _ => .error (.misuse .type)
    | type, _ => ofTyped type t
  | _, _ => .error meaningless

/-- The scalar that a node stands for. Without a tag it is a text in quotes, and what it is written
like without. -/
def scalarOf (n : Node) : Except Fault Scalar :=
  match n with
  | .scalar none isPlain t => if isPlain then ofWord (Word.kindOf t) t else .ok (.text t)
  | n => ((tag? n).map (ofTagged · n)).getD (.error meaningless)

/-- The name that a node gives to an entry: a scalar, where the sign for a default is a text. -/
def nameOf (n : Node) : Except Fault Scalar :=
  if isDefault n then
    match textIn? n with
    | some t => .ok (.text t)
    | none => .error meaningless
  else scalarOf n

/-! ## Collections -/

def isMapping : Node → Bool
  | .mapping _ _ | .endless => true
  | _ => false

mutual

/-- Whether entries can be taken over from a node: a mapping or a list of mappings, whose own
entries can be taken over. -/
def givesEntries : Node → Bool
  | .mapping _ entries => takesEntries entries
  | .sequence _ items => items.all isMapping && allGive items
  | .endless => true
  | _ => false

def allGive : List Node → Bool
  | [] => true
  | n :: rest => givesEntries n && allGive rest

def takesEntries : List (Node × Node) → Bool
  | [] => true
  | (k, n) :: rest => (!isMerge k || givesEntries n) && takesEntries rest

end

def nameSet (entries : List (Scalar × Setting)) : Setting :=
  match distinct entries with
  | .mapping es => .collection .set (es.map (fun e => .scalar e.1))
  | s => s

mutual

/-- The setting that a node stands for. A collection that is not what its tag says is found one
level further down, with its items. -/
def ofNode (level : Nat) : Node → Leveled Setting
  | .scalar tag isPlain t =>
    match tag.bind typeOf? with
    | some (.scalar _) | none =>
      (Leveled.of level (scalarOf (.scalar tag isPlain t))).map .scalar
    | _ => .fail (level + 1) meaningless
  | .sequence none items => (ofNodes (level + 1) items).map list
  | .sequence (some tag) items =>
    match typeOf? tag with
    | some .sequence => (ofNodes (level + 1) items).map list
    | some .pairs => (ofPairs (level + 1) items).map list
    | some .mapping | some .set => .fail (level + 1) meaningless
    | _ => .fail level meaningless
  | .mapping none entries => (readEntries (level + 1) entries).map distinct
  | .mapping (some tag) entries =>
    match typeOf? tag with
    | some .mapping => (readEntries (level + 1) entries).map distinct
    | some .set => (readEntries (level + 1) entries).map nameSet
    | some .sequence | some .pairs => .fail (level + 1) meaningless
    | _ => (Leveled.of level (ofTagged tag (.mapping (some tag) entries))).map .scalar
  | .endless => .ok .endless

def ofNodes (level : Nat) : List Node → Leveled (List Setting)
  | [] => .ok []
  | n :: rest => .cons (ofNode level n) (ofNodes level rest)

def ofPairs (level : Nat) : List Node → Leveled (List Setting)
  | [] => .ok []
  | n :: rest =>
    match n with
    | .mapping _ [(k, v)] =>
      let pair := (Leveled.both (ofNode level k) (ofNode level v)).map
        (fun p => Setting.collection .tuple [p.1, p.2])
      .cons pair (ofPairs level rest)
    | _ => .fail level meaningless

def readEntries (level : Nat) (entries : List (Node × Node)) : Leveled (List (Scalar × Setting)) :=
  if takesEntries entries then .append (ofTaken level entries) (ofOwn level entries)
  else .fail level meaningless

def ofTaken (level : Nat) : List (Node × Node) → Leveled (List (Scalar × Setting))
  | [] => .ok []
  | (k, n) :: rest =>
    if isMerge k then .append (ofGiver level n) (ofTaken level rest) else ofTaken level rest

/-- The entries that a node gives to a mapping: those of a mapping, or those of mappings in a list,
where the first counts most. -/
def ofGiver (level : Nat) : Node → Leveled (List (Scalar × Setting))
  | .mapping _ entries => readEntries level entries
  | .sequence _ items => ofGivers level items
  | _ => .ok []

def ofGivers (level : Nat) : List Node → Leveled (List (Scalar × Setting))
  | [] => .ok []
  | n :: rest => .append (ofGivers level rest) (ofGiver level n)

def ofOwn (level : Nat) : List (Node × Node) → Leveled (List (Scalar × Setting))
  | [] => .ok []
  | (k, n) :: rest =>
    if isMerge k then ofOwn level rest
    else .cons (.both (.of level (nameOf k)) (ofNode level n)) (ofOwn level rest)

end

def ofRoot (n : Node) : Except Fault Setting := (ofNode 0 n).mapError (·.2)

end Setting
end RecordStore
