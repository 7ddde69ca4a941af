import RecordStore.Number.Shortest
import RecordStore.Text.Quoted

/-!
# JSON

What JSON text holds. Whole numbers are exact and all other numbers are doubles, which need not be
finite. The entries of an object keep their order.

JSON is printed without blanks and in ASCII: all other code points are escaped by number, those past
U+FFFF as two surrogates. Doubles that are not finite have words of their own.
-/

set_option autoImplicit false

namespace RecordStore

inductive Json where
  | null
  | flag (b : Bool)
  | integer (n : Int)
  | real (x : Double)
  | text (t : Text)
  | list (items : List Json)
  | object (entries : List (Text × Json))

namespace Json

instance : Inhabited Json := ⟨.null⟩

instance : Coe String Json := ⟨fun s => .text s⟩

def isNull : Json → Bool
  | .null => true
  | _ => false

def entry? (name : Text) : Json → Option Json
  | .object entries => lookupName name entries
  | _ => none

def units (c : CodePoint) : List Nat :=
  if c.val < 0x10000 then [c.val]
  else [0xD800 + (c.val - 0x10000) / 0x400, 0xDC00 + (c.val - 0x10000) % 0x400]

def escape (c : CodePoint) : List CodePoint :=
  match c.val with
  | 0x22 => Quoted.chars "\\\""
  | 0x5C => Quoted.chars "\\\\"
  | 0x0A => Quoted.chars "\\n"
  | 0x0D => Quoted.chars "\\r"
  | 0x09 => Quoted.chars "\\t"
  | 0x08 => Quoted.chars "\\b"
  | 0x0C => Quoted.chars "\\f"
  | n =>
    if 0x20 ≤ n ∧ n < 0x7F then [c]
    else (units c).flatMap (fun u => Quoted.chars "\\u" ++ Hex.digits 4 u)

def quote (t : Text) : Text :=
  ⟨[Quoted.doubleQuote] ++ t.points.flatMap escape ++ [Quoted.doubleQuote]⟩

def writeReal (x : Double) : Text :=
  match x.parts with
  | .nan => "NaN"
  | .infinite negative => if negative then "-Infinity" else "Infinity"
  | .finite _ _ _ => x.text

mutual

def write : Json → Text
  | .null => "null"
  | .flag b => if b then "true" else "false"
  | .integer n => Text.ofInt n
  | .real x => writeReal x
  | .text t => quote t
  | .list items => "[" ++ Text.join "," (writeEach items) ++ "]"
  | .object entries => "\x7b" ++ Text.join "," (writeEntries entries) ++ "\x7d"

def writeEach : List Json → List Text
  | [] => []
  | j :: rest => write j :: writeEach rest

def writeEntries : List (Text × Json) → List Text
  | [] => []
  | (name, j) :: rest => (quote name ++ ":" ++ write j) :: writeEntries rest

def numbers : Json → List Int
  | .integer n => [n]
  | .list items => numbersEach items
  | .object entries => numbersEntries entries
  | _ => []

def numbersEach : List Json → List Int
  | [] => []
  | j :: rest => numbers j ++ numbersEach rest

def numbersEntries : List (Text × Json) → List Int
  | [] => []
  | (_, j) :: rest => numbers j ++ numbersEntries rest

end

end Json
end RecordStore
