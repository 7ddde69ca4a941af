import RecordStore.Fault
import RecordStore.Value.Basic

/-!
# Stated faults

A fault can be stated from outside, by its kind and the parts that its message is made of. Each kind
takes its own number of parts.
-/

set_option autoImplicit false

namespace RecordStore

inductive FaultKind where
  | general | unsupportedOperator | unsupportedFeature | invalid | storeFailed | refused
  deriving DecidableEq

def FaultKind.all : List FaultKind :=
  [.general, .unsupportedOperator, .unsupportedFeature, .invalid, .storeFailed, .refused]

/-- A part of a message: as it stands in a text, and as it is shown among others. -/
structure FaultPart where
  plain : Text
  shown : Text
  isNull : Bool
  /-- Whether the part is null, false, zero or empty. -/
  isBlank : Bool

namespace FaultPart

def text? (p : FaultPart) : Option Text := if p.isNull then none else some p.plain

def remark? (p : FaultPart) : Option Remark := p.text?.map (⟨·, p.isBlank⟩)

end FaultPart

namespace Fault

def kind? : Fault → Option FaultKind
  | .general _ _ => some .general
  | .unsupportedOperator _ _ _ => some .unsupportedOperator
  | .unsupportedFeature _ _ => some .unsupportedFeature
  | .invalid _ _ => some .invalid
  | .storeFailed _ _ _ | .storeFailedStated _ _ => some .storeFailed
  | .refused _ => some .refused
  | _ => none

/-- The text of the parts of a fault of the store: one by itself, and others as a tuple. -/
def statedText : List FaultPart → Text
  | [] => Text.empty
  | [p] => p.plain
  | ps => Collection.tuple.enclose (ps.map (·.shown))

def ofParts (kind : FaultKind) (parts : List FaultPart) : Except Fault Fault :=
  match kind, parts with
  | .general, [p] => .ok (.general p.plain none)
  | .general, [p, query] => .ok (.general p.plain query.text?)
  | .invalid, [p] => .ok (.invalid (.stated p.plain) none)
  | .invalid, [p, query] => .ok (.invalid (.stated p.plain) query.text?)
  | .storeFailed, [p] => .ok (.storeFailedStated p.plain none)
  | .storeFailed, [p, query] => .ok (.storeFailedStated p.plain query.text?)
  | .unsupportedFeature, [p, query] => .ok (.unsupportedFeature (.stated p.plain) query.text?)
  | .unsupportedOperator, [query, op] => .ok (.unsupportedOperator op.plain none query.text?)
  | .unsupportedOperator, [query, op, note] =>
    .ok (.unsupportedOperator op.plain note.remark? query.text?)
  | .refused, ps => .ok (.refused (.stated (statedText ps)))
  | _, _ => .error (.misuse .type)

end Fault
end RecordStore
