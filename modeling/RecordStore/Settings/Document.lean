import RecordStore.Settings.Reader
import RecordStore.Document.Layout
import RecordStore.Text.Base64

/-!
# Settings in documents

Settings are kept in documents with an entry a line. The entries of a section stand below its name,
two columns further in, and in the order of their names. A name that is empty, long or broken over
lines has a question mark before it and its colon on the next line. A document that holds nothing
stands for the defaults.
-/

set_option autoImplicit false

namespace RecordStore
namespace Scalar

open Document

def binaryLines (bs : Bytes) : List Text :=
  (List.range ((bs.length + 56) / 57)).map fun i =>
    ⟨Base64.standard (Base64.encode ((bs.drop (57 * i)).take 57))⟩

def writeBytes (indent : Nat) (bs : Bytes) : Text :=
  if bs.isEmpty then "!!binary ''"
  else "!!binary |" ++ Text.join Text.empty ((binaryLines bs).map (⟨newline :: spaces indent⟩ ++ ·))

def write (column indent : Nat) (folds : Bool) : Scalar → Except Fault Text
  | .null => .ok "null"
  | .flag b => .ok (if b then "true" else "false")
  | .integer n => Text.numeral n
  | .real x => .ok (writeReal x)
  | .text t => .ok (writeText column indent folds t)
  | .bytes bs => .ok (writeBytes indent bs)
  | .date d => .ok (Text.ofString d.iso)
  | .moment m => .ok (Text.ofString (m.isoWith " "))

def longestName : Nat := 122

def isSimple : Scalar → Bool
  | .text t => !t.isEmpty && t.length ≤ longestName && !t.points.any isBreak
  | .bytes bs => bs.isEmpty
  | _ => true

def order (a b : Scalar) : Ordering :=
  match a, b with
  | .text s, .text t => s.order t
  | _, _ => .eq

end Scalar

namespace Setting

open Document

def lineAt (column : Nat) : Text := ⟨newline :: spaces column⟩

mutual

/-- A setting behind a dash or a colon. Behind a dash, and behind a colon that starts its line, a
collection begins on that line; behind a name it begins on the next one, a list in the column of
the name. -/
def behind (column start : Nat) (isAlone : Bool) : Setting → Except Fault Text
  | .collection _ items =>
    if items.isEmpty then return " []"
    else if isAlone then do
      let lines ← writeItems (column + 2) items
      return " " ++ Text.join (lineAt (column + 2)) lines
    else do
      let lines ← writeItems column items
      return lineAt column ++ Text.join (lineAt column) lines
  | .mapping entries =>
    if entries.isEmpty then return " \x7b\x7d"
    else do
      let written ← writeEntries (column + 2) entries
      let sorted := written.mergeSort (fun a b => (a.1.order b.1).isLE)
      return (if isAlone then (" " : Text) else lineAt (column + 2)) ++
        Text.join (lineAt (column + 2)) (sorted.map (·.2))
  | .scalar s => do
    let written ← s.write (start + 1) (column + 2) true
    return " " ++ written
  | .endless => .ok " null"

def writeItems (column : Nat) : List Setting → Except Fault (List Text)
  | [] => .ok []
  | s :: rest => do
    let first ← behind column (column + 1) true s
    return ("-" ++ first) :: (← writeItems column rest)

def writeEntries (column : Nat) : List (Scalar × Setting) → Except Fault (List (Scalar × Text))
  | [] => .ok []
  | (name, s) :: rest => do
    let entry ←
      if name.isSimple then do
        let n ← name.write column (column + 2) false
        let setting ← behind column (column + n.length + 1) false s
        pure (n ++ ":" ++ setting)
      else do
        let n ← name.write (column + 2) (column + 2) true
        let setting ← behind column (column + 1) true s
        pure ("? " ++ n ++ lineAt column ++ ":" ++ setting)
    return (name, entry) :: (← writeEntries column rest)

end

def writeDocument (entries : List (Scalar × Setting)) : Except Fault Text := do
  let written ← writeEntries 0 entries
  let sorted := written.mergeSort (fun a b => (a.1.order b.1).isLE)
  return Text.join "\n" (sorted.map (·.2)) ++ "\n"

end Setting

namespace Settings

def document (s : Settings) : Except Fault Text := do
  let entries ← s.sections
  Setting.writeDocument (entries.map (fun e => (.text e.1, e.2)))

def ofDocument (t : Text) : Except Fault Settings := do
  match ← (Document.Node.ofText t).mapError (fun p => Fault.misuse (.document p)) with
  | none => return default
  | some n =>
    let s ← Setting.ofRoot n
    ofSetting (if s.isTrue then s else .mapping [])

def ofFile (path : Text) : Option Text → Except Fault Settings
  | none => .error (.misuse (.file path))
  | some t => ofDocument t

end Settings

end RecordStore
