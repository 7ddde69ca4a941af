import RecordStore.Value.Heap
import RecordStore.Query.Operator

/-!
# Filter trees

The trees that the clauses of a query are made of. A tree has two printed forms: `text`, in which
calls, fields, literals and parameters read as in a query, and `shown`, which names every part.
-/

set_option autoImplicit false

namespace RecordStore

inductive Expr where
  /-- Both of two conditions. -/
  | both (left right : Expr)
  /-- One of two conditions. -/
  | either (left right : Expr)
  | compare (op : Operator) (left right : Expr)
  | unary (op : Operator) (operand : Expr)
  | call (name : Text) (receiver : Expr) (args : List Expr)
  | field (path : List Text)
  | literal (value : Value)
  | parameter (name : Option Text) (position : Option Int)
  /-- A class to select from. -/
  | source (className : Option ClassName) (aliasName : Option Text)
  | join (left right : Expr) (aliasName : Option Text)
  /-- A part that is left out. -/
  | absent

namespace Expr

def dotted (path : List Text) : Text := Text.join "." path

def typeName : Expr → Text
  | .both _ _ => "Conjunction"
  | .either _ _ => "Disjunction"
  | .compare _ _ _ => "Comparison"
  | .unary _ _ => "UnaryOperation"
  | .call _ _ _ => "MethodCall"
  | .field _ => "Identifier"
  | .literal _ => "Literal"
  | .parameter _ _ => "Parameter"
  | .source _ _ => "CandidateSource"
  | .join _ _ _ => "Join"
  | .absent => "NoneType"

def isAbsent : Expr → Bool
  | .absent => true
  | _ => false

def isJoin : Expr → Bool
  | .join _ _ _ => true
  | _ => false

def operator? : Expr → Option Operator
  | .both _ _ => some .and
  | .either _ _ => some .or
  | .compare op _ _ => some op
  | .unary op _ => some op
  | _ => none

def children : Expr → List Expr
  | .both l r | .either l r | .compare _ l r | .join l r _ => [l, r].filter (!·.isAbsent)
  | .unary _ x => [x].filter (!·.isAbsent)
  | .call _ receiver args => (receiver :: args).filter (!·.isAbsent)
  | _ => []

mutual

def walk : Expr → List Expr
  | .absent => []
  | .both l r => .both l r :: (walk l ++ walk r)
  | .either l r => .either l r :: (walk l ++ walk r)
  | .compare op l r => .compare op l r :: (walk l ++ walk r)
  | .unary op x => .unary op x :: walk x
  | .call name receiver args => .call name receiver args :: (walk receiver ++ walkEach args)
  | .join l r aliasName => .join l r aliasName :: (walk l ++ walk r)
  | .field path => [.field path]
  | .literal v => [.literal v]
  | .parameter name position => [.parameter name position]
  | .source className aliasName => [.source className aliasName]

def walkEach : List Expr → List Expr
  | [] => []
  | x :: xs => walk x ++ walkEach xs

end

def tupleText (items : List Text) : Text := Collection.tuple.enclose items

def optionText (f : Text → Text) : Option Text → Text
  | none => "None"
  | some t => f t

def positionText : Option Int → Except Fault Text
  | none => .ok "None"
  | some n => Text.numeral n

mutual

def shown (value : Value → Except Fault Text) : Expr → Except Fault Text
  | .both l r => do
    let left ← shown value l
    let right ← shown value r
    return "Conjunction(left=" ++ left ++ ", right=" ++ right ++ ")"
  | .either l r => do
    let left ← shown value l
    let right ← shown value r
    return "Disjunction(left=" ++ left ++ ", right=" ++ right ++ ")"
  | .compare op l r => do
    let left ← shown value l
    let right ← shown value r
    return "Comparison(op=" ++ op.text ++ ", left=" ++ left ++ ", right=" ++ right ++ ")"
  | .unary op x => do
    let operand ← shown value x
    return "UnaryOperation(op=" ++ op.text ++ ", operand=" ++ operand ++ ")"
  | .call name receiver args => do
    let receiver ← shown value receiver
    let args ← shownEach value args
    return "MethodCall(name=" ++ Quoted.text name ++ ", receiver=" ++ receiver ++ ", args=" ++
      tupleText args ++ ")"
  | .field path => .ok ("Identifier(path=" ++ tupleText (path.map Quoted.text) ++ ")")
  | .literal v => do
    let value ← value v
    return "Literal(value=" ++ value ++ ")"
  | .parameter name position => do
    let position ← positionText position
    return "Parameter(name=" ++ optionText Quoted.text name ++ ", position=" ++ position ++ ")"
  | .source className aliasName =>
    .ok ("CandidateSource(cls=" ++ ClassName.optionText className ++ ", alias=" ++
      optionText Quoted.text aliasName ++ ")")
  | .join l r aliasName => do
    let left ← shown value l
    let right ← shown value r
    return "Join(left=" ++ left ++ ", right=" ++ right ++ ", alias=" ++
      optionText Quoted.text aliasName ++ ")"
  | .absent => .ok "None"

def shownEach (value : Value → Except Fault Text) : List Expr → Except Fault (List Text)
  | [] => .ok []
  | x :: xs => do
    let first ← shown value x
    return first :: (← shownEach value xs)

end

def parameterText (name : Option Text) (position : Option Int) : Except Fault Text :=
  match name with
  | some n => .ok (":" ++ n)
  | none => do
    let position ← positionText position
    return "?" ++ position

mutual

def text (value : Value → Except Fault Text) : Expr → Except Fault Text
  | .call name receiver args => do
    let args ← textEach value args
    let arguments := name ++ "(" ++ Text.join ", " args ++ ")"
    if receiver.isAbsent then return arguments
    else
      let receiver ← text value receiver
      return receiver ++ "." ++ arguments
  | .field path => .ok (dotted path)
  | .literal v => value v
  | .parameter name position => parameterText name position
  | .both l r => shown value (.both l r)
  | .either l r => shown value (.either l r)
  | .compare op l r => shown value (.compare op l r)
  | .unary op x => shown value (.unary op x)
  | .source className aliasName => shown value (.source className aliasName)
  | .join l r aliasName => shown value (.join l r aliasName)
  | .absent => .ok "None"

def textEach (value : Value → Except Fault Text) : List Expr → Except Fault (List Text)
  | [] => .ok []
  | x :: xs => do
    let first ← text value x
    return first :: (← textEach value xs)

end

def all (first : Expr) (rest : List Expr) : Expr := rest.foldl .both first

end Expr
end RecordStore
