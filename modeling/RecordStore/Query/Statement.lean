import RecordStore.Query.Expr
import RecordStore.Schema
import RecordStore.Settings.Basic

/-!
# Statements

A statement selects, deletes or updates the objects of one class. Its paths may begin with its
alias, which stands for the candidate object.
-/

set_option autoImplicit false

namespace RecordStore

inductive StatementKind where
  | select | delete | update
  deriving DecidableEq

def StatementKind.ofWord : Option Text → StatementKind
  | some w => if w = "delete" then .delete else if w = "update" then .update else .select
  | none => .select

/-- The direction that a value stands for: null or a word. Bytes are words, too, but none for
ascending. -/
def Direction.ofValue : Value → Except Fault Direction
  | .null => .ok (.ofWord none)
  | .text w => .ok (.ofWord (some w))
  | .bytes _ | .byteArray _ => .ok .descending
  | _ => .error (.misuse (.attribute "no direction"))

structure OrderTerm where
  path : List Text
  direction : Value

structure Statement where
  candidate : Option ClassName
  filter : Expr
  ordering : List OrderTerm
  results : List Expr
  sources : List Expr
  grouping : List Expr
  having : Expr
  aliasName : Option Text
  kind : StatementKind
  text : Option Text
  /-- Settings that hold for this statement only. -/
  extensions : List (Text × Setting)

namespace Statement

def isDelete (s : Statement) : Bool := s.kind = .delete

def stripAlias (s : Statement) : List Text → List Text
  | first :: second :: rest =>
    if s.aliasName = some first then second :: rest else first :: second :: rest
  | path => path

def flag (s : Statement) (name : Text) (fallback : Setting) : Bool :=
  ((lookupName name s.extensions).getD fallback).isTrue

def shownCandidate (s : Statement) : Text := ClassName.optionText s.candidate

def unmapped (s : Statement) : Fault := .invalid (.unmappedClass s.shownCandidate true) s.text

end Statement

structure Candidate where
  statement : Statement
  mapping : ClassMapping

namespace Candidate

def query (c : Candidate) : Option Text := c.statement.text

def member (c : Candidate) (path : List Text) : Except Fault Member := do
  match ← c.mapping.memberAt (c.statement.stripAlias path) c.query with
  | some m => return m
  | none => .error (.invalid (.unknownMember (Expr.dotted path) c.mapping.fullName) c.query)

end Candidate
end RecordStore

/-!
## Result plans

The result clause of a statement decides what its rows are: whole objects, objects with their keys
only, values of chosen members, or the number of rows alone. Counting cannot stand beside rows.
-/

namespace RecordStore

inductive ResultForm where
  | whole | projection | count | keysOnly
  deriving DecidableEq

namespace ResultForm

def name : ResultForm → Text
  | .whole => "entity"
  | .projection => "entity_projection"
  | .count => "count"
  | .keysOnly => "keys_only"

end ResultForm

structure ResultPlan where
  form : ResultForm
  projection : List (List Text × Member)

namespace Candidate

def isAlias (c : Candidate) (path : List Text) : Bool :=
  match path, c.statement.aliasName with
  | [name], some aliasName => name = aliasName
  | _, _ => false

def isCount (c : Candidate) (name : Text) (args : List Expr) : Bool :=
  name.lower = "count" &&
    match args with
    | [] => true
    | [.field path] => c.isAlias path
    | _ => false

def readResults (c : Candidate) (form : Option ResultForm)
    (projection : List (List Text × Member)) : List Expr → Except Fault ResultPlan
  | [] => .ok ⟨form.getD .whole, projection⟩
  | .call name _ args :: rest =>
    if !c.isCount name args then .error (.unsupportedOperator name none c.query)
    else if !projection.isEmpty then .error (.unsupportedFeature .aggregateWithRows c.query)
    else readResults c (some .count) projection rest
  | .field path :: rest =>
    if form = some .count then .error (.unsupportedFeature .aggregateWithRows c.query)
    else if c.isAlias path then readResults c (some (form.getD .keysOnly)) projection rest
    else do
      let m ← c.member path
      let inner := c.statement.stripAlias path
      let form' :=
        if inner.length > 1 || !m.traits.isPrimary then .projection else form.getD .keysOnly
      readResults c (some form') (projection ++ [(inner, m)]) rest
  | x :: _ => .error (.unsupportedFeature (.unexpectedResult x.typeName) c.query)

/-- Sources are looked through for joins; one that is left out cannot be looked through. -/
def checkSource (c : Candidate) (source : Expr) : Except Fault Unit :=
  if source.isAbsent then
    .error (.misuse (.attribute "'NoneType' object has no attribute 'children'"))
  else if source.walk.any (·.isJoin) then .error (.unsupportedFeature .join c.query)
  else .ok ()

def plan (c : Candidate) : Except Fault ResultPlan :=
  let s := c.statement
  if !s.grouping.isEmpty then .error (.unsupportedFeature .grouping c.query)
  else if !s.having.isAbsent then .error (.unsupportedFeature .having c.query)
  else do
    s.sources.forM c.checkSource
    c.readResults none [] s.results

end Candidate
end RecordStore
