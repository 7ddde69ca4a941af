import RecordStore.Query.Statement
import RecordStore.Query.Native
import RecordStore.Key.Token
import RecordStore.Value.Attribute
import RecordStore.Value.Stored

/-!
# Compiling statements

A filter becomes a list of steps that are taken on a draft one after the other. What a comparison
turns into depends on its member: a condition, an ancestor, or a look-up by keys. A step that cannot
be made out stands in the list as its fault, so that compiling stops there and not earlier. Some
operators are refused wherever they stand, and the others only where the store has nothing that
compares in their way.

The native query of a statement is made from its filter first, and then from its ordering. Each term
of an ordering becomes a sort clause on a property, or on the key for the primary key. Parents have
no order.
-/

set_option autoImplicit false

namespace RecordStore

namespace Operator

def refusal (op : Option Operator) (note : Option Remark) (query : Option Text) : Fault :=
  .unsupportedOperator ((op.map name).getD "None") note query

def check (op : Option Operator) (query : Option Text) : Except Fault Unit :=
  if (op.map isRefused).getD false then .error (refusal op none query) else .ok ()

def native (op : Option Operator) (query : Option Text) : Except Fault Comparator :=
  match op.bind comparator? with
  | some c => .ok c
  | none => .error (refusal op none query)

def checkOperand (op : Option Operator) (v : Value) (query : Option Text) : Except Fault Unit :=
  if op = some .notEqual && !v.isNull then .error (refusal op (some notEqualNote) query)
  else .ok ()

end Operator

inductive ParameterKey where
  | name (t : Text)
  | position (n : Int)
  deriving DecidableEq

abbrev Parameters := List (ParameterKey × Value)

namespace Parameters

def get? (ps : Parameters) (k : ParameterKey) : Option Value :=
  (ps.reverse.find? (fun p => p.1 = k)).map (·.2)

end Parameters

structure Bindings where
  parameters : Parameters
  heap : Heap
  now : Moment
  registry : Registry

inductive FilterStep where
  | condition (c : Condition)
  | ancestor (k : Key)
  /-- Keys to look up; only equality with them can be looked up. -/
  | lookup (comparator : Comparator) (keys : List (Except Fault (Option Key)))

namespace FilterStep

def apply (d : Draft) : FilterStep → Except Fault Draft
  | .condition c => d.addCondition c
  | .ancestor k => d.setAncestor k
  | .lookup comparator keys =>
    if !d.conditions.isEmpty then .error d.lookupWithConditions
    else if comparator ≠ .equal then .error (.invalid .lookupComparison d.query)
    else d.startLookup keys

end FilterStep

abbrev FilterSteps := List (Except Fault FilterStep)

namespace FilterSteps

def run (steps : FilterSteps) (d : Draft) : Except Fault Draft :=
  steps.foldlM (fun d step => do (← step).apply d) d

end FilterSteps

namespace Candidate

variable (c : Candidate) (b : Bindings)

def invalid {α : Type} (m : Mistake) : Except Fault α := .error (.invalid m c.query)

def unsupported {α : Type} (f : Feature) : Except Fault α := .error (.unsupportedFeature f c.query)

def unsupportedCall {α : Type} (name : Text) (call : Expr) : Except Fault α := do
  let shown ← call.text b.heap.shown
  c.unsupported (.method name shown)

def parameterValue (name : Option Text) (position : Option Int) : Except Fault Value :=
  let byPosition := position.bind (fun n => b.parameters.get? (.position n))
  let byName := name.bind (fun t => b.parameters.get? (.name t))
  match byPosition, byName with
  | some .null, some v => .ok v
  | some v, _ => .ok v
  | none, some v => .ok v
  | none, none => do
    let shown ← Expr.parameterText name position
    c.invalid (.unboundParameter shown)

def compositeOperand (left : Expr) (op : Operator) (right : Except Fault Text) :
    Except Fault Value := do
  let right ← right
  c.unsupported (.compositeOperand left.typeName op.name right)

def isClock (name : Text) : Bool := name = "CURRENT_TIMESTAMP" || name = "CURRENT_DATE"

def operandValue : Expr → Except Fault Value
  | .field path =>
    match b.parameters.get? (.name (Expr.dotted path)) with
    | some v => .ok v
    | none => c.unsupported (.fieldOperand (Expr.dotted path))
  | .literal v => .ok v
  | .parameter name position => parameterValue c b name position
  | .unary .negate (.literal v) =>
    if v.isNumber then v.negated else compositeOperand c (.literal v) .negate (.ok "None")
  | .unary op x => compositeOperand c x op (.ok "None")
  | .compare op l r => compositeOperand c l op (r.text b.heap.shown)
  | .both l r => compositeOperand c l .and (r.text b.heap.shown)
  | .either l r => compositeOperand c l .or (r.text b.heap.shown)
  | .call name receiver args =>
    if isClock name then .ok (.moment b.now)
    else unsupportedCall c b name (.call name receiver args)
  | x => c.unsupported (.unexpectedOperand x.typeName)

/-- The key that a value stands for: a token stands for its key, other texts and numbers for keys
of the given kind. -/
def keyOf (v : Value) (kind : Text) : Except Fault (Option Key) :=
  match v with
  | .null => .ok none
  | .key k => .ok (some k)
  | .text t =>
    match Key.ofToken t with
    | .ok k => .ok (some k)
    | .error (.badKey _) => .ok (some (.root kind (.name t)))
    | .error f => .error f
  | .integer n => .ok (some (.root kind (.number n)))
  | v => do
    let shown ← b.heap.shown v
    c.invalid (.noKey shown kind)

def ancestorStep (comparator : Comparator) (key : Option Key) : Except Fault FilterStep :=
  if comparator ≠ .equal then c.unsupported (.ancestorComparison comparator)
  else
    match key with
    | none => c.unsupported .nullAncestor
    | some k => .ok (.ancestor k)

def parentKey (v : Value) : Except Fault (Option Key) :=
  match v with
  | .null => .ok none
  | .key k => .ok (some k)
  | .text t =>
    match Key.ofToken t with
    | .ok k => .ok (some k)
    | .error (.badKey _) => c.invalid (.parentToken (Quoted.text t))
    | .error f => .error f
  | v => do
    let shown ← b.heap.shown v
    c.invalid (.parentType shown)

/-- The value that identifies a related object: the value itself if it can be a key, and else its
primary key. -/
def relatedIdentity (related : ClassMapping) (v : Value) : Except Fault Value :=
  match v with
  | .null | .key _ | .text _ | .integer _ | .flag _ => .ok v
  | v =>
    match related.primary?.bind (fun m => b.heap.attribute? m.name v) with
    | none | some .null => do
      let shown ← b.heap.shown v
      c.invalid (.noIdentity shown)
    | some w => .ok w

def relatedKey (m : Member) (related : ClassMapping) (v : Value) : Except Fault (Option Key) := do
  let identity ← relatedIdentity c b related v
  match ← keyOf c b identity related.kind with
  | none => return none
  | some k =>
    if k.kind = related.kind then return some k
    else c.invalid (.foreignKind (c.mapping.fullName ++ "." ++ m.name) related.kind k.kind)

/-- Objects whose parent is given lie below the parent's key. An object that owns the given one is
the parent of its key. -/
def relationStep (m : Member) (className : ClassName) (comparator : Comparator) (v : Value) :
    Except Fault FilterStep := do
  match b.registry.get? className with
  | none => c.invalid (.unmappedClass className.text true)
  | some related =>
    let key ← relatedKey c b m related v
    if m.traits.providesParent then
      match key with
      | none => c.invalid .nullParent
      | some k => c.ancestorStep comparator (some k)
    else if comparator ≠ .equal then c.unsupported .ownerComparison
    else
      match key with
      | none => c.invalid .nullChild
      | some k =>
        match k.parent? with
        | none => c.invalid .parentlessChild
        | some p => .ok (.condition ⟨keyProperty, .equal, .key p⟩)

/-- A value as conditions on a member compare with it; a text has to be a token where keys are
stored. -/
def conditionValue (m : Member) (v : Value) : Except Fault Value :=
  match v with
  | .collection _ _ => c.invalid .collectionOperand
  | .text t =>
    if m.traits.declared.isKey then
      match Key.ofToken t with
      | .ok k => .ok (.key k)
      | .error (.badKey _) => c.invalid (.propertyToken (Quoted.text t) m.name)
      | .error f => .error f
    else .ok (.text t)
  | v => v.stored

def primaryStep (comparator : Comparator) (v : Value) : Except Fault FilterStep :=
  match v with
  | .collection _ items =>
    .ok (.lookup comparator (items.map (fun item => keyOf c b item c.mapping.kind)))
  | v => do
    let k ← keyOf c b v c.mapping.kind
    return .condition ⟨keyProperty, comparator, Value.ofKey? k⟩

def memberStep (m : Member) (comparator : Comparator) (v : Value) : Except Fault FilterStep :=
  match m.traits.related with
  | some className => relationStep c b m className comparator v
  | none =>
    if m.traits.isParent then do
      let k ← parentKey c b v
      c.ancestorStep comparator k
    else if m.traits.isPrimary then primaryStep c b comparator v
    else do
      let w ← c.conditionValue m v
      return .condition ⟨m.property, comparator, w⟩

def comparisonStep (path : List Text) (op : Operator) (right : Expr) : Except Fault FilterStep := do
  let comparator ← Operator.native (some op) c.query
  let v ← operandValue c b right
  Operator.checkOperand (some op) v c.query
  let m ← c.member path
  memberStep c b m comparator v

def beginningSteps (path : List Text) (beginning : Text) : FilterSteps :=
  let bound (op : Operator) (t : Text) := comparisonStep c b path op (.literal (.text t))
  bound .greaterOrEqual beginning ::
    match beginning.upperBound with
    | .unencodable => [.error (.misuse .encoding)]
    | .unbounded => []
    | .below upper => [bound .less upper]

def argumentValue (name : Text) (call : Expr) : Expr → Except Fault Value
  | .literal v => .ok v
  | .parameter n p => parameterValue c b n p
  | _ => unsupportedCall c b name call

def wildcard : CodePoint := ⟨0x25, by decide⟩

def beginningOf (pattern : Text) : Except Fault Text :=
  match pattern.points.reverse with
  | last :: before =>
    if last = wildcard && !before.contains wildcard then .ok ⟨before.reverse⟩
    else c.unsupported .wildcard
  | [] => c.unsupported .wildcard

def beginning (name : Text) (v : Value) : Except Fault Text :=
  let type := b.heap.typeName v
  if name = "startsWith" then
    match v with
    | .text t => .ok t
    | _ => c.invalid (.beginningType type)
  else
    match v with
    | .text t => c.beginningOf t
    | _ => c.invalid (.patternType type)

/-- The steps for a call. Whether a list contains a value is a comparison with each item, and
whether given keys contain a member is a look-up. -/
def callSteps (name : Text) (receiver : Expr) (args : List Expr) : FilterSteps :=
  let call := Expr.call name receiver args
  match args with
  | [arg] =>
    if name = "contains" then
      match receiver, arg with
      | .field path, _ => [comparisonStep c b path .equal arg]
      | .parameter n p, .field path => [comparisonStep c b path .equal (.parameter n p)]
      | _, _ => [unsupportedCall c b name call]
    else if name = "startsWith" || name = "matches" then
      match receiver with
      | .field path =>
        match (argumentValue c b name call arg).bind (c.beginning b name) with
        | .ok t => beginningSteps c b path t
        | .error f => [.error f]
      | _ => [unsupportedCall c b name call]
    else [unsupportedCall c b name call]
  | _ => [unsupportedCall c b name call]

def steps : Expr → FilterSteps
  | .absent => []
  | .field _ => []
  | .both l r => steps l ++ steps r
  | .either _ _ => [c.unsupported .disjunction]
  | .compare op l r =>
    if op = .or then [c.unsupported .disjunction]
    else
      match Operator.native (some op) c.query with
      | .error f => [.error f]
      | .ok _ =>
        match l with
        | .field path => [comparisonStep c b path op r]
        | l => steps l ++ steps r
  | .unary op _ =>
    if op = .or then [c.unsupported .disjunction]
    else
      match Operator.check (some op) c.query with
      | .error f => [.error f]
      | .ok _ => [c.unsupported (.unexpectedNode "UnaryOperation")]
  | .call name receiver args => callSteps c b name receiver args
  | x => [c.unsupported (.unexpectedNode x.typeName)]

def compileFilter (d : Draft) : Except Fault Draft := do
  let d ← (steps c b c.statement.filter).run d
  d.logged

end Candidate

namespace Candidate

def sortClause (c : Candidate) (term : OrderTerm) : Except Fault SortClause := do
  let direction ← Direction.ofValue term.direction
  let m ← c.member term.path
  if m.traits.isParent then .error (.unsupportedFeature .parentOrdering c.query)
  else
    let property := if m.traits.isPrimary then keyProperty else m.property
    return ⟨property, direction⟩

def compileOrdering (c : Candidate) (d : Draft) : Except Fault Draft :=
  c.statement.ordering.foldlM (fun d term => do d.addSort (← c.sortClause term)) d

def start (c : Candidate) : Draft := Draft.start c.mapping.kind c.query

def compile (c : Candidate) (b : Bindings) (plan : ResultPlan) :
    Except Fault NativeQuery := do
  let filtered ← c.compileFilter b c.start
  let ordered ← c.compileOrdering filtered
  return ordered.freeze (plan.form = .keysOnly || c.statement.isDelete)

end Candidate
end RecordStore
