import RecordStore.Document.Character
import RecordStore.Number.Numeral
import RecordStore.Query.Operator

/-!
# Faults

Everything that can stop a request, by its cause. `Fault.message` is the one place that holds the
wording. A query's own text goes with the faults of queries, so that a message can name the query.
-/

set_option autoImplicit false

namespace RecordStore

/-- Query structures that the store cannot carry out. -/
inductive Feature where
  | disjunction
  | unexpectedNode (type : Text)
  | method (name shown : Text)
  | wildcard
  | fieldOperand (path : Text)
  | compositeOperand (left operator right : Text)
  | unexpectedOperand (type : Text)
  | ancestorComparison (comparator : Comparator)
  | nullAncestor
  | ownerComparison
  | lookupWithConditions
  | secondAncestor (present asked : Text)
  | parentOrdering
  | grouping
  | having
  | join
  | aggregateWithRows
  | unexpectedResult (type : Text)
  | windowedCount
  | stated (reason : Text)
  deriving DecidableEq

namespace Feature

def reason : Feature → Text
  | .disjunction => "Cannot fulfill queries with disjunctions (OR)."
  | .unexpectedNode type => "Unexpected expression type while parsing query: " ++ type
  | .method name shown =>
    "Unsupported method <" ++ name ++ "> while parsing expression: " ++ shown
  | .wildcard =>
    "Wildcard must appear at the end of the expression string (only prefix matches are supported)"
  | .fieldOperand path =>
    "Right side of expression references field " ++ path ++
      "; comparisons between two properties are not supported."
  | .compositeOperand left operator right =>
    "Right side of expression is composed of unsupported components.  Left: " ++ left ++
      ", Op: " ++ operator ++ ", Right: " ++ right
  | .unexpectedOperand type => "Right side of expression is of unexpected type: " ++ type
  | .ancestorComparison comparator =>
    "Operator is of type " ++ comparator.name ++
      " but the datastore only supports parent queries using the equality operator."
  | .nullAncestor =>
    "Received a null parent parameter.  The datastore does not support querying for null parents."
  | .ownerComparison =>
    "Only the equals operator is supported on conditions involving the owning side of a one-to-one."
  | .lookupWithConditions =>
    "Batch lookup by primary key is only supported if no other filters are defined."
  | .secondAncestor present asked =>
    "Query already has ancestor " ++ present ++ "; cannot also filter on ancestor " ++ asked ++ "."
  | .parentOrdering => "Cannot sort by parent."
  | .grouping => "Cannot fulfill queries with a grouping (GROUP BY)."
  | .having => "Cannot fulfill queries with a HAVING clause."
  | .join => "Cannot fulfill queries with joins."
  | .aggregateWithRows => "Cannot combine an aggregate results with row results."
  | .unexpectedResult type => "Unsupported result expression: " ++ type
  | .windowedCount => "The datastore does not support a range on a count query."
  | .stated reason => reason

end Feature

inductive Mistake where
  | beginningType (type : Text)
  | patternType (type : Text)
  | unboundParameter (shown : Text)
  | collectionOperand
  | lookupComparison
  | parentToken (shown : Text)
  | parentType (shown : Text)
  /-- Messages of query compilation end with a full stop, those of the mapping do not. -/
  | unmappedClass (shown : Text) (stopped : Bool)
  | noIdentity (shown : Text)
  | foreignKind (field kind found : Text)
  | nullChild
  | parentlessChild
  | nullParent
  | noKey (shown kind : Text)
  | propertyToken (shown member : Text)
  | unknownMember (path className : Text)
  | notEmbedded
  | negativeRange (start stop : Text)
  | updateStatement
  | noCandidate
  | primaryKeys (className : Text)
  | stated (text : Text)
  deriving DecidableEq

namespace Mistake

def message (query : Text) : Mistake → Text
  | .beginningType type => "startsWith only supported on strings (received a " ++ type ++ ")."
  | .patternType type => "Prefix matching only supported on strings (received a " ++ type ++ ")."
  | .unboundParameter shown => "No value supplied for parameter " ++ shown ++ "."
  | .collectionOperand =>
    "Collection parameters are only supported when filtering on primary key."
  | .lookupComparison =>
    "Batch lookup by primary key is only supported with the equality operator."
  | .parentToken shown => query ++ ": Parent value " ++ shown ++ " is not an encoded key."
  | .parentType shown =>
    query ++ ": Parent value " ++ shown ++ " must be a Key or an encoded key string."
  | .unmappedClass shown stopped => "No meta data for " ++ shown ++ (if stopped then "." else "")
  | .noIdentity shown => query ++ ": Parameter value " ++ shown ++ " does not have an id."
  | .foreignKind field kind found =>
    query ++ ": Field " ++ field ++ " maps to kind " ++ kind ++
      " but parameter value contains Key of kind " ++ found
  | .nullChild => query ++ ": Cannot query for parents with null children."
  | .parentlessChild => query ++ ": Key of parameter value does not have a parent."
  | .nullParent => query ++ ": Cannot query for objects with null parents."
  | .noKey shown kind => query ++ ": Cannot convert " ++ shown ++ " to a key of kind " ++ kind ++
    "."
  | .propertyToken shown member =>
    query ++ ": Value " ++ shown ++ " for " ++ member ++ " is not an encoded key."
  | .unknownMember path className =>
    "No meta-data for member named " ++ path ++ " on class " ++ className ++
      ".  Are you sure you provided the correct member name in your query?"
  | .notEmbedded =>
    query ++ ": Can only filter by properties of a sub-object if the sub-object is embedded."
  | .negativeRange start stop =>
    "Range values must not be negative: from=" ++ start ++ ", to=" ++ stop ++ "."
  | .updateStatement => "Only select and delete statements are supported."
  | .noCandidate => "Candidate class could not be found."
  | .primaryKeys className => "类 " ++ className ++ " 必须有且仅有一个主键成员"
  | .stated text => text

end Mistake

inductive Refusal where
  | endedTransaction (number : Nat)
  | nestedTransaction
  | scanWithoutAncestor
  | windowedCount
  | stated (text : Text)
  deriving DecidableEq

namespace Refusal

def message : Refusal → Text
  | .endedTransaction n => "事务 " ++ Text.ofNat n ++ " 已结束"
  | .nestedTransaction => "不支持嵌套事务"
  | .scanWithoutAncestor => "事务内只能执行祖先查询"
  | .windowedCount => "count 不支持 offset/limit"
  | .stated text => text

end Refusal

inductive KeyProblem where
  | noKind
  | badIdentity (shown : Text)
  | unpairedPath
  | undecodable (shown : Text)
  deriving DecidableEq

namespace KeyProblem

def message : KeyProblem → Text
  | .noKind => "Key 必须带有种类名"
  | .badIdentity shown => "非法的 ID 或名称: " ++ shown
  | .unpairedPath => "路径必须由成对的种类名与 ID/名称组成"
  | .undecodable shown => "无法解码键: " ++ shown

end KeyProblem

inductive Misuse where
  /-- The operation is not defined for the type. -/
  | type
  /-- A value that cannot be an item of a set. -/
  | item (reason : Text)
  /-- A name that is no member of a choice, or no property of a record. -/
  | name (shown : Text)
  /-- An attribute that an object does not have. -/
  | attribute (detail : Text)
  /-- A position outside a list. -/
  | position
  /-- A number or step that is out of range, or is written wrongly. -/
  | number (detail : Text)
  /-- A text that has no encoding. -/
  | encoding
  /-- A file that is not there. -/
  | file (path : Text)
  /-- A document that cannot be read. -/
  | document (problem : DocumentProblem)
  /-- A text that is no decimal. -/
  | decimalText
  /-- A whole number that is out of the range of doubles. -/
  | overflow
  /-- A decimal that is not a number and signals it, or that cannot be kept with all its digits. -/
  | decimalInvalid
  | decimalOverflow
  /-- Bytes that are too many or too few. -/
  | size (detail : Text)
  /-- Objects that lead back to themselves. -/
  | endless
  deriving DecidableEq

/-- What a fault says besides its cause. A blank remark is kept, but no message has it. -/
structure Remark where
  text : Text
  isBlank : Bool
  deriving DecidableEq

inductive Stage where
  | executing
  | reading
  deriving DecidableEq

inductive Fault where
  | general (text : Text) (query : Option Text)
  | unsupportedOperator (operator : Text) (note : Option Remark) (query : Option Text)
  | unsupportedFeature (feature : Feature) (query : Option Text)
  | invalid (mistake : Mistake) (query : Option Text)
  /-- A fault of the store, with its own message. -/
  | storeFailed (stage : Stage) (cause : Text) (query : Option Text)
  | storeFailedStated (text : Text) (query : Option Text)
  | refused (refusal : Refusal)
  | badKey (problem : KeyProblem)
  | unknownBackend (shown : Text)
  /-- A position past the rows of a result. -/
  | pastRows
  /-- A value that the reader of a result will not take. -/
  | rejected (text : Text)
  /-- A failure from outside the library. -/
  | external (text : Text)
  | misuse (misuse : Misuse)
  deriving DecidableEq

def shownQuery : Option Text → Text
  | none => "None"
  | some t => t

def notEqualNote : Remark :=
  ⟨"The 'not equal' operator is only supported when the operator argument is 'null'", false⟩

namespace Misuse

def message : Misuse → Text
  | .attribute detail => detail
  | .item reason => reason
  | .name shown => shown
  | .number detail => detail
  | .size detail => detail
  | .overflow => "int too large to convert to float"
  | .decimalText => "[<class 'decimal.ConversionSyntax'>]"
  | .decimalInvalid => "[<class 'decimal.InvalidOperation'>]"
  | .decimalOverflow => "[<class 'decimal.Overflow'>]"
  | .file path => "配置文件不存在: " ++ path
  | .position => "list index out of range"
  | .type | .encoding | .document _ | .endless => ""

end Misuse

namespace Fault

def message : Fault → Text
  | .general text _ => text
  | .unsupportedOperator operator note query =>
    let start := "Problem with query <" ++ shownQuery query ++
      ">: datastore does not support operator " ++ operator
    match note with
    | none => start
    | some n => if n.isBlank then start else start ++ ".  " ++ n.text
  | .unsupportedFeature feature query =>
    "Problem with query <" ++ shownQuery query ++ ">: " ++ feature.reason
  | .invalid mistake query => mistake.message (shownQuery query)
  | .storeFailed .executing cause query =>
    "Datastore failure while executing query <" ++ shownQuery query ++ ">: " ++ cause
  | .storeFailed .reading cause query =>
    "Datastore failure while reading results of query <" ++ shownQuery query ++ ">: " ++ cause
  | .storeFailedStated text _ => text
  | .refused refusal => refusal.message
  | .badKey problem => problem.message
  | .unknownBackend shown => "不支持的存储后端: " ++ shown
  | .pastRows => "查询结果下标越界"
  | .rejected text => text
  | .external text => text
  | .misuse m => m.message

def isOfQuery : Fault → Bool
  | .general _ _ | .unsupportedOperator _ _ _ | .unsupportedFeature _ _ | .invalid _ _
  | .storeFailed _ _ _ | .storeFailedStated _ _ => true
  | _ => false

def query? : Fault → Option Text
  | .general _ q | .unsupportedOperator _ _ q | .unsupportedFeature _ q | .invalid _ q
  | .storeFailed _ _ q | .storeFailedStated _ q => q
  | _ => none

def details : Fault → List (Text × Text)
  | .unsupportedOperator operator note _ =>
    [("operator", operator), ("msg", shownQuery (note.map Remark.text))]
  | .unsupportedFeature feature _ => [("reason", feature.reason)]
  | .invalid _ _ => [("fatal", "True")]
  | _ => []

/-- A fault met while working for a query: the query engine's own are kept, and all others become
a failure of the store. -/
def wrapped (stage : Stage) (query : Option Text) (f : Fault) : Fault :=
  if f.isOfQuery then f else .storeFailed stage f.message query

def longNumeral : Fault :=
  .misuse (.number ("Exceeds the limit (4300 digits) for integer string conversion; " ++
    "use sys.set_int_max_str_digits() to increase the limit"))

end Fault

/-- The digits of a whole number, unless they are too many. Whatever shows a value stops where it
comes to such a number. -/
def Text.numeral (n : Int) : Except Fault Text :=
  if Numeral.isLongerThan Numeral.maxDigits n.natAbs then .error .longNumeral else .ok (.ofInt n)

end RecordStore

/-!
## Attempts

An attempt works on a state and may stop at a fault. What it did to the state before it stopped
stays done.
-/

namespace RecordStore

abbrev Attempt (σ α : Type) := ExceptT Fault (StateM σ) α

namespace Attempt

variable {σ τ α : Type}

def ofExcept : Except Fault α → Attempt σ α
  | .ok a => pure a
  | .error f => throw f

def zoom (view : σ → τ) (update : σ → τ → σ) (a : Attempt τ α) : Attempt σ α :=
  ExceptT.mk fun s =>
    let (outcome, t) := a.run.run (view s)
    (outcome, update s t)

def mapFault (f : Fault → Fault) (a : Attempt σ α) : Attempt σ α :=
  ExceptT.mk fun s =>
    let (outcome, t) := a.run.run s
    (outcome.mapError f, t)

def observing (a : Attempt σ α) : Attempt σ (Except Fault α) :=
  ExceptT.mk fun s =>
    let (outcome, t) := a.run.run s
    (.ok outcome, t)

end Attempt
end RecordStore
