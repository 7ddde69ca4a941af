/-!
# Text

A text is a list of Unicode code points. Surrogates are code points like any other here: names read
from bytes that are not UTF-8 carry them, and they have to survive until they are written again.
Texts are ordered by code point, which is the order of their encodings wherever no surrogate occurs.

Many things stand in lists of entries, each under a name. Setting an entry keeps the place of the
one that has its name, so the entries stay in the order in which their names were first met.
-/

set_option autoImplicit false

namespace RecordStore

abbrev CodePoint := Fin 0x110000

def CodePoint.ofChar (c : Char) : CodePoint :=
  ⟨c.toNat, by
    have h := c.valid
    simp only [UInt32.isValidChar, Nat.isValidChar, Char.toNat] at *
    omega⟩

/-- The code point of a number; the numbers past the last code point stand for the replacement
character. -/
def CodePoint.ofNat (n : Nat) : CodePoint :=
  if h : n < 0x110000 then ⟨n, h⟩ else ⟨0xFFFD, by decide⟩

def CodePoint.isSurrogate (c : CodePoint) : Bool :=
  0xD800 ≤ c.val && c.val < 0xE000

structure Text where
  points : List CodePoint
  deriving DecidableEq, Inhabited

namespace Text

def ofString (s : String) : Text := ⟨s.toList.map CodePoint.ofChar⟩

instance : Coe String Text := ⟨ofString⟩

def empty : Text := ⟨[]⟩

def isEmpty (t : Text) : Bool := t.points.isEmpty

def append (a b : Text) : Text := ⟨a.points ++ b.points⟩

instance : Append Text := ⟨append⟩

@[simp] theorem points_append (a b : Text) : (a ++ b).points = a.points ++ b.points := rfl

def concat (ts : List Text) : Text := ⟨ts.flatMap (·.points)⟩

def join (separator : Text) (ts : List Text) : Text :=
  ⟨separator.points.intercalate (ts.map (·.points))⟩

def singleton (c : CodePoint) : Text := ⟨[c]⟩

def order (a b : Text) : Ordering := List.compareLex compare a.points b.points

instance : Ord Text := ⟨order⟩

def startsWith (t beginning : Text) : Bool := beginning.points.isPrefixOf t.points

def dot : CodePoint := ⟨0x2E, by decide⟩

def splitOn (separator : CodePoint) (t : Text) : List Text :=
  let cut := t.points.foldr
    (fun c (run : List CodePoint × List Text) =>
      if c = separator then ([], ⟨run.1⟩ :: run.2) else (c :: run.1, run.2))
    ([], [])
  ⟨cut.1⟩ :: cut.2

/-- Lower case for the letters A to Z. The words it is used to recognise are written in those
letters, and no letter outside ASCII has one of theirs as its lower case. -/
def lower (t : Text) : Text :=
  ⟨t.points.map fun c =>
    if 0x41 ≤ c.val ∧ c.val ≤ 0x5A then CodePoint.ofNat (c.val + 0x20) else c⟩

def ofNat (n : Nat) : Text := ofString (toString n)

def ofInt (n : Int) : Text := ofString (toString n)

def drop (n : Nat) (t : Text) : Text := ⟨t.points.drop n⟩

def length (t : Text) : Nat := t.points.length

def asString (t : Text) : String := String.ofList (t.points.map fun c => Char.ofNat c.val)

end Text

def lookupName {α : Type} (name : Text) (entries : List (Text × α)) : Option α :=
  (entries.find? (fun e => e.1 = name)).map (·.2)

def assignName {α : Type} (name : Text) (a : α) : List (Text × α) → List (Text × α)
  | [] => [(name, a)]
  | e :: rest => if e.1 = name then (e.1, a) :: rest else e :: assignName name a rest

/-- Entries by name; of entries with one name the last counts, in the place of the first. -/
def byName {α : Type} (entries : List (Text × α)) : List (Text × α) :=
  entries.foldl (fun done e => assignName e.1 e.2 done) []

end RecordStore
