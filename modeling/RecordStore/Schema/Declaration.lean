import RecordStore.Schema

/-!
# Declaring schemas by name

A class is declared with the names of its types, which are built in, choices, or classes declared
before it. A class that holds parts of others need not be mapped. In one line a class is its name
and, where it differs, its kind, or a star if it is not mapped, and after a colon its fields with
commas between them; a field is its name, its type and its marks.

Fields have different words for names. A name of a choice that lies between single underscores is
reserved, and one that lies between double underscores names no member.
-/

set_option autoImplicit false

namespace RecordStore

namespace Text

/-- Whether a text is made of letters, digits and underscores, with no digit in front. Every
character beyond ASCII counts as a letter. -/
def isWord (t : Text) : Bool :=
  let isLetter (c : CodePoint) : Bool :=
    128 ≤ c.val || (Char.ofNat c.val).isAlpha || c = CodePoint.ofChar '_'
  let isDigit (c : CodePoint) : Bool := (Char.ofNat c.val).isDigit
  t.points.head?.any isLetter && t.points.all (fun c => isLetter c || isDigit c)

def isBetween (n : Nat) (t : Text) : Bool :=
  let count (cs : List CodePoint) : Nat := (cs.takeWhile (· = CodePoint.ofChar '_')).length
  count t.points = n && count t.points.reverse = n && 2 * n < t.points.length

def checkDistinct (names : List Text) : Except Fault Unit :=
  if names.eraseDups.length < names.length then .error (.misuse .type) else .ok ()

end Text

namespace ChoiceType

def refusedNames : List Text := ["", "mro"]

def checked (c : ChoiceType) : Except Fault ChoiceType := do
  let members := c.members.filter (fun m => !m.1.isBetween 2)
  let names := members.map (·.1)
  if names.any (·.isBetween 1) then throw (.misuse (.number "reserved name"))
  Text.checkDistinct names
  if names.any (refusedNames.contains ·) then throw (.misuse (.number "refused name"))
  return { c with members }

end ChoiceType

structure NamedField where
  name : Text
  type : Text
  /-- The type for the mapping, where it is another one. -/
  declared : Option Text
  column : Option Text
  related : Option Text
  isPrimary : Bool
  isParent : Bool
  isEmbedded : Bool
  providesParent : Bool
  isEncoded : Bool

structure NamedClass where
  name : Text
  kind : Option Text
  isMapped : Bool
  fields : List NamedField

namespace NamedField

def mark (f : NamedField) (m : Text) : NamedField :=
  match Text.splitOn (CodePoint.ofChar '=') m with
  | [name, value] =>
    if name = "column" then { f with column := some value } else { f with declared := some value }
  | _ =>
    if m = "primary" then { f with isPrimary := true }
    else if m = "parent" then { f with isParent := true }
    else if m = "embedded" then { f with isEmbedded := true }
    else if m = "related" then { f with related := some f.type }
    else if m = "provider" then { f with providesParent := true }
    else { f with isEncoded := true }

def ofLine (line : Text) : NamedField :=
  match Text.splitOn (CodePoint.ofChar ' ') line with
  | name :: type :: marks =>
    marks.foldl mark ⟨name, type, none, none, none, false, false, false, false, false⟩
  | _ => ⟨line, "object", none, none, none, false, false, false, false, false⟩

end NamedField

namespace NamedClass

def ofLine (line : Text) : NamedClass :=
  let (head, fields) : Text × Text :=
    match Text.splitOn (CodePoint.ofChar ':') line with
    | [head, fields] => (head, fields)
    | _ => (line, Text.empty)
  let (name, kind) : Text × Option Text :=
    match Text.splitOn (CodePoint.ofChar ' ') head with
    | [name, kind] => (name, some kind)
    | _ => (head, none)
  ⟨name, kind, kind ≠ some "*", (Text.splitOn (CodePoint.ofChar ',') fields).map NamedField.ofLine⟩

end NamedClass

namespace Schema

def typeNamed (s : Schema) (name : Text) : Except Fault DeclaredType :=
  match s.type? name with
  | some t => .ok t
  | none => .error (.misuse (.name (Quoted.text name)))

def resolve (s : Schema) (f : NamedField) : Except Fault FieldDeclaration := do
  let type ← s.typeNamed f.type
  let declared ← s.typeNamed (f.declared.getD f.type)
  let related := f.related.map fun name => (s.className? name).getD (.record name)
  return ⟨⟨f.name, declared, f.isPrimary, f.isParent, f.column, related, f.providesParent,
    f.isEncoded⟩, type, f.isEmbedded⟩

def declareNamed (s : Schema) (c : NamedClass) : Except Fault Schema := do
  let fields ← c.fields.mapM s.resolve
  let names := c.fields.map (·.name)
  if !names.all (·.isWord) then throw (.misuse .type)
  Text.checkDistinct names
  return s.declare c.name fields

def ofDeclarations (choices : List ChoiceType) (classes : List NamedClass) :
    Except Fault Schema := do
  classes.foldlM declareNamed ⟨← choices.mapM ChoiceType.checked, []⟩

end Schema
end RecordStore
