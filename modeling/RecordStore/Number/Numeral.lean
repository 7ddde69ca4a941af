import RecordStore.Text.Basic
import RecordStore.Number.Decimal

/-!
# Whole numbers in text

A number may stand between blanks, may have a sign, and may have single underscores between its
digits, which can be those of any script.
-/

set_option autoImplicit false

namespace RecordStore
namespace Numeral

def isBlank (c : CodePoint) : Bool :=
  let n := c.val
  (0x09 ≤ n && n ≤ 0x0D) || n == 0x20 || n == 0x85 || n == 0xA0 || n == 0x1680 ||
    (0x2000 ≤ n && n ≤ 0x200A) || n == 0x2028 || n == 0x2029 || n == 0x202F || n == 0x205F ||
    n == 0x3000

def trim (cs : List CodePoint) : List CodePoint :=
  ((cs.dropWhile isBlank).reverse.dropWhile isBlank).reverse

def zeros : List Nat :=
  [0x30, 0x660, 0x6F0, 0x7C0, 0x966, 0x9E6, 0xA66, 0xAE6, 0xB66, 0xBE6, 0xC66, 0xCE6, 0xD66,
   0xDE6, 0xE50, 0xED0, 0xF20, 0x1040, 0x1090, 0x17E0, 0x1810, 0x1946, 0x19D0, 0x1A80, 0x1A90,
   0x1B50, 0x1BB0, 0x1C40, 0x1C50, 0xA620, 0xA8D0, 0xA900, 0xA9D0, 0xA9F0, 0xAA50, 0xABF0,
   0xFF10, 0x104A0, 0x10D30, 0x11066, 0x110F0, 0x11136, 0x111D0, 0x112F0, 0x11450, 0x114D0,
   0x11650, 0x116C0, 0x11730, 0x118E0, 0x11950, 0x11C50, 0x11D50, 0x11DA0, 0x16A60, 0x16AC0,
   0x16B50, 0x1D7CE, 0x1D7D8, 0x1D7E2, 0x1D7EC, 0x1D7F6, 0x1E140, 0x1E2F0, 0x1E950, 0x1FBF0]

def digit? (c : CodePoint) : Option Nat :=
  (zeros.find? (fun z => z ≤ c.val && c.val < z + 10)).map (c.val - ·)

def digitsFrom : (soFar : Nat) → List CodePoint → Option Nat
  | n, [] => some n
  | n, c :: rest =>
    match digit? c with
    | some d => digitsFrom (n * 10 + d) rest
    | none =>
      if c.val = 0x5F then
        match rest with
        | [] => none
        | c' :: rest' =>
          match digit? c' with
          | some d => digitsFrom (n * 10 + d) rest'
          | none => none
      else none

def natural? : List CodePoint → Option Nat
  | [] => none
  | c :: rest => (digit? c).bind (fun d => digitsFrom d rest)

def signed? : List CodePoint → Option Int
  | [] => none
  | c :: rest =>
    if c.val = 0x2D then (natural? rest).map (fun n => -(n : Int))
    else if c.val = 0x2B then (natural? rest).map Int.ofNat
    else (natural? (c :: rest)).map Int.ofNat

def maxDigits : Nat := 4300

def isLongerThan : (digits : Nat) → Nat → Bool
  | _, 0 => false
  | 0, _ + 1 => true
  | digits + 1, n + 1 => isLongerThan digits ((n + 1) / 10)

end Numeral

namespace Text

def digitCount (t : Text) : Nat := (t.points.filterMap Numeral.digit?).length

def toInt? (t : Text) : Option Int :=
  if t.digitCount > Numeral.maxDigits then none
  else Numeral.signed? (Numeral.trim t.points)

end Text

end RecordStore

/-!
## Reading decimal numbers

A decimal is read as it is written, and in the other common forms. A text that stands for one may
have blanks around it, underscores anywhere in it, and the digits of any script. Not every decimal
that can be written can be kept: its exponent has eighteen digits.
-/

namespace RecordStore
namespace Decimal

def splitAt (test : Char → Bool) (cs : List Char) : List Char × Option (List Char) :=
  match cs.dropWhile (fun c => !test c) with
  | [] => (cs, none)
  | _ :: rest => (cs.takeWhile (fun c => !test c), some rest)

def natural? (cs : List Char) : Option Nat :=
  if cs.all Char.isDigit then some (cs.foldl (fun n c => n * 10 + (c.toNat - 48)) 0) else none

def whole? : List Char → Option Int
  | '-' :: cs => if cs.isEmpty then none else (natural? cs).map (fun n => -(n : Int))
  | '+' :: cs => if cs.isEmpty then none else (natural? cs).map Int.ofNat
  | cs => if cs.isEmpty then none else (natural? cs).map Int.ofNat

def unsigned? (negative : Bool) (cs : List Char) : Option Decimal :=
  let lower := cs.map Char.toLower
  if lower = "inf".toList ∨ lower = "infinity".toList then some (.infinite negative)
  else if lower.take 3 = "nan".toList then (natural? (cs.drop 3)).map (.nan negative false)
  else if lower.take 4 = "snan".toList then (natural? (cs.drop 4)).map (.nan negative true)
  else do
    let (mantissa, power) := splitAt (fun c => c == 'e' || c == 'E') cs
    let exponent ← match power with
      | none => some 0
      | some p => whole? p
    let (left, fraction) := splitAt (· == '.') mantissa
    let right := fraction.getD []
    if left.isEmpty && right.isEmpty then none
    else
      let c ← natural? (left ++ right)
      some (.finite negative c (exponent - right.length))

def ofChars? : List Char → Option Decimal
  | '-' :: cs => unsigned? true cs
  | '+' :: cs => unsigned? false cs
  | cs => unsigned? false cs

def isInRange : Decimal → Bool
  | .finite _ c e => e ≥ -1999999999999999997 && adjusted c e ≤ 999999999999999999
  | _ => true

def isBlank (c : CodePoint) : Bool := Numeral.isBlank c || (0x1C ≤ c.val && c.val ≤ 0x1F)

def plainDigit (c : CodePoint) : Char :=
  match Numeral.digit? c with
  | some d => Char.ofNat (48 + d)
  | none => Char.ofNat c.val

def ofText? (t : Text) : Option Decimal :=
  let cs := ((t.points.dropWhile isBlank).reverse.dropWhile isBlank).reverse
  ofChars? ((cs.filter (·.val ≠ 0x5F)).map plainDigit)

end Decimal

def Double.ofString? (s : String) : Option Double :=
  (Decimal.ofChars? s.toList).bind (·.toDouble.toOption)

def Double.ofText? (t : Text) : Option Double :=
  let cs := (Numeral.trim t.points).map Decimal.plainDigit
  match Decimal.ofChars? cs with
  | some (.nan _ _ _) => if (cs.map Char.toLower).getLast? = some 'n' then some nan else none
  | some d => d.toDouble.toOption
  | none => none

end RecordStore
