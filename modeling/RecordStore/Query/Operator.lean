import RecordStore.Text.Basic

/-!
# Operators

A filter tree uses the operators of the query language. The store itself compares a property with a
value in five ways, and sorts in two directions.
-/

set_option autoImplicit false

namespace RecordStore

inductive Operator where
  | equal | notEqual | greater | greaterOrEqual | less | lessOrEqual
  | and | or | not | negate | add | subtract | multiply | divide | remainder
  | concatenate | complement | between | is | isNot | like
  deriving DecidableEq

namespace Operator

def name : Operator → Text
  | .equal => "EQ"
  | .notEqual => "NOTEQ"
  | .greater => "GT"
  | .greaterOrEqual => "GTEQ"
  | .less => "LT"
  | .lessOrEqual => "LTEQ"
  | .and => "AND"
  | .or => "OR"
  | .not => "NOT"
  | .negate => "NEG"
  | .add => "ADD"
  | .subtract => "SUB"
  | .multiply => "MUL"
  | .divide => "DIV"
  | .remainder => "MOD"
  | .concatenate => "CONCAT"
  | .complement => "COM"
  | .between => "BETWEEN"
  | .is => "IS"
  | .isNot => "ISNOT"
  | .like => "LIKE"

def symbol : Operator → Text
  | .equal => "=="
  | .notEqual => "!="
  | .greater => ">"
  | .greaterOrEqual => ">="
  | .less => "<"
  | .lessOrEqual => "<="
  | .and => "&&"
  | .or => "||"
  | .not => "!"
  | .negate => "unary -"
  | .add => "+"
  | .subtract => "-"
  | .multiply => "*"
  | .divide => "/"
  | .remainder => "%"
  | .concatenate => "CONCAT"
  | .complement => "~"
  | .between => "BETWEEN"
  | .is => "IS"
  | .isNot => "IS NOT"
  | .like => "LIKE"

def all : List Operator :=
  [.equal, .notEqual, .greater, .greaterOrEqual, .less, .lessOrEqual, .and, .or, .not, .negate,
    .add, .subtract, .multiply, .divide, .remainder, .concatenate, .complement, .between, .is,
    .isNot, .like]

def ofName? (n : Text) : Option Operator := all.find? (fun o => o.name = n)

def text (o : Operator) : Text :=
  "<Operator." ++ o.name ++ ": '" ++ o.symbol ++ "'>"

def isRefused : Operator → Bool
  | .equal | .notEqual | .greater | .greaterOrEqual | .less | .lessOrEqual | .and | .or => false
  | _ => true

end Operator

/-- The ways in which the store compares a property with a value. -/
inductive Comparator where
  | equal | greater | greaterOrEqual | less | lessOrEqual
  deriving DecidableEq

namespace Comparator

def name : Comparator → Text
  | .equal => "EQUAL"
  | .greater => "GREATER_THAN"
  | .greaterOrEqual => "GREATER_THAN_OR_EQUAL"
  | .less => "LESS_THAN"
  | .lessOrEqual => "LESS_THAN_OR_EQUAL"

def symbol : Comparator → Text
  | .equal => "="
  | .greater => ">"
  | .greaterOrEqual => ">="
  | .less => "<"
  | .lessOrEqual => "<="

def all : List Comparator := [.equal, .greater, .greaterOrEqual, .less, .lessOrEqual]

def ofName? (n : Text) : Option Comparator := all.find? (fun c => c.name = n)

/-- Whether a comparison holds for two quantities so ordered; none holds for two that have no
order. -/
def holds : Comparator → Option Ordering → Bool
  | .equal, some .eq => true
  | .greater, some .gt => true
  | .greaterOrEqual, some .gt | .greaterOrEqual, some .eq => true
  | .less, some .lt => true
  | .lessOrEqual, some .lt | .lessOrEqual, some .eq => true
  | _, _ => false

end Comparator

/-- The comparison that the store makes for an operator. What differs from null is what lies above
it, so inequality is a comparison only with null. -/
def Operator.comparator? : Operator → Option Comparator
  | .equal => some .equal
  | .greater => some .greater
  | .greaterOrEqual => some .greaterOrEqual
  | .less => some .less
  | .lessOrEqual => some .lessOrEqual
  | .notEqual => some .greater
  | _ => none

inductive Direction where
  | ascending | descending
  deriving DecidableEq

namespace Direction

def name : Direction → Text
  | .ascending => "ASCENDING"
  | .descending => "DESCENDING"

def ofName? (n : Text) : Option Direction :=
  if n = Direction.name .ascending then some .ascending
  else if n = Direction.name .descending then some .descending
  else none

def ofWord : Option Text → Direction
  | none => .ascending
  | some w =>
    if w.lower = "ascending" ∨ w.lower = "asc" then .ascending else .descending

end Direction
end RecordStore
