import RecordStore.Time.Reader
import RecordStore.Document.Character
import RecordStore.Number.Numeral
import RecordStore.Fault

/-!
# Dates and times in documents

In a document a time may be parted from its date by blanks, and months, days and hours may have one
digit only. What is written like a time need not be one: the thirteenth month is refused later.
-/

set_option autoImplicit false

namespace RecordStore
namespace Document

inductive Stamp where
  | date (d : Date)
  | moment (m : Moment)

namespace Stamp

def isValid : Stamp → Bool
  | .date d => d.isValid
  | .moment m => m.isValid

def shortNumber? (cs : List Char) : Option (Nat × List Char) :=
  (fixedNumber? cs 2).or (fixedNumber? cs 1)

def isBlank (c : Char) : Bool := c == ' ' || c == '\t'

def dropBlanks (cs : List Char) : List Char := cs.dropWhile isBlank

def afterMark? : List Char → Option (List Char)
  | c :: cs =>
    if c = 'T' ∨ c = 't' then some cs else if isBlank c then some (dropBlanks cs) else none
  | [] => none

def fraction? : List Char → Option (Nat × List Char)
  | '.' :: cs =>
    let (ds, rest) := cs.span Char.isDigit
    (fixedNumber? (ds ++ List.replicate 6 '0') 6).map (fun n => (n.1, rest))
  | cs => some (0, cs)

/-- The offset at the end of a time: none, a Z, or hours and perhaps minutes behind a sign. -/
def offset? (cs : List Char) : Option (Option Int) :=
  match dropBlanks cs with
  | [] => if cs.isEmpty then some none else none
  | ['Z'] => some (some 0)
  | c :: rest => do
    let (hour, rest) ← shortNumber? rest
    let minute ← match rest with
      | [] => some 0
      | _ => do
        let rest ← expect? ':' rest
        let (minute, rest) ← fixedNumber? rest 2
        if rest.isEmpty then some minute else none
    let n : Int := (hour * 60 + minute) * 60000000
    if c = '-' then some (some (-n)) else if c = '+' then some (some n) else none

def moment? (cs : List Char) : Option Moment := do
  let (year, cs) ← fixedNumber? cs 4
  let (month, cs) ← shortNumber? (← expect? '-' cs)
  let (day, cs) ← shortNumber? (← expect? '-' cs)
  let (hour, cs) ← shortNumber? (← afterMark? cs)
  let (minute, cs) ← fixedNumber? (← expect? ':' cs) 2
  let (second, cs) ← fixedNumber? (← expect? ':' cs) 2
  let (microsecond, cs) ← fraction? cs
  let offset ← offset? cs
  return ⟨⟨year, month, day⟩, hour, minute, second, microsecond, false, offset.map .fixed⟩

def date? (cs : List Char) : Option Date := do
  let (year, cs) ← fixedNumber? cs 4
  let (month, cs) ← fixedNumber? (← expect? '-' cs) 2
  let (day, cs) ← fixedNumber? (← expect? '-' cs) 2
  if cs.isEmpty then return ⟨year, month, day⟩ else none

def read? (cs : List Char) : Option Stamp := ((date? cs).map .date).or ((moment? cs).map .moment)

def readShort? (cs : List Char) : Option Stamp :=
  let date : Option Date := do
    let (year, cs) ← fixedNumber? cs 4
    let (month, cs) ← shortNumber? (← expect? '-' cs)
    let (day, cs) ← shortNumber? (← expect? '-' cs)
    if cs.isEmpty then return ⟨year, month, day⟩ else none
  (date.map .date).or ((moment? cs).map .moment)

end Stamp
end Document
end RecordStore

/-!
## Words

A word without quotes stands for null, a flag, a number or a time if it is written like one, and for
itself otherwise. Underscores between digits do not count, and a colon between digits parts
sixtieths.
-/

namespace RecordStore
namespace Document

inductive WordKind where
  | null
  | flag (b : Bool)
  | integer
  | real
  | time
  /-- The sign for entries that are taken over from another mapping. -/
  | merge
  /-- The sign for a default value. -/
  | default
  | text
  deriving DecidableEq

namespace Word

def letters? (t : Text) : Option (List Char) :=
  t.points.mapM (fun c => if c.val < 0x80 then some (Char.ofNat c.val) else none)

def spellings (w : String) : List String := [w, w.capitalize, w.toUpper]

def isSpelling (words : List String) (cs : List Char) : Bool :=
  (words.flatMap spellings).contains (String.ofList cs)

def isSign (c : Char) : Bool := c == '+' || c == '-'

def dropSign (cs : List Char) : List Char := if cs.head?.any isSign then cs.drop 1 else cs

def digit? (base : Nat) (c : Char) : Option Nat :=
  (Hex.value? (CodePoint.ofChar c)).filter (· < base)

def isSpaced (base : Nat) (cs : List Char) : Bool :=
  cs.all (fun c => c == '_' || (digit? base c).isSome)

def isCount (cs : List Char) : Bool := cs.head?.any Char.isDigit && isSpaced 10 cs

def isSixtieth : List Char → Bool
  | [c] => c.isDigit
  | [c, d] => (digit? 6 c).isSome && d.isDigit
  | _ => false

def parts (cs : List Char) : List (List Char) :=
  ((String.ofList cs).splitOn ":").map String.toList

def isSexagesimal (cs : List Char) : Bool :=
  match parts cs with
  | first :: second :: more => isCount first && (second :: more).all isSixtieth
  | _ => false

def isInteger (cs : List Char) : Bool :=
  match dropSign cs with
  | '0' :: 'b' :: ds => !ds.isEmpty && isSpaced 2 ds
  | '0' :: 'x' :: ds => !ds.isEmpty && isSpaced 16 ds
  | '0' :: ds => isSpaced 8 ds
  | ds => isCount ds || isSexagesimal ds

def isPower : List Char → Bool
  | s :: d :: ds => isSign s && (d :: ds).all Char.isDigit
  | _ => false

/-- Whether a number is written with a point, where an exponent needs a sign, and numbers with
sixtieths have none. Before a point that comes first no sign can stand. -/
def isPointed (cs : List Char) : Bool :=
  match Decimal.splitAt (· == '.') cs with
  | (_, none) => false
  | (left, some right) =>
    let (fraction, power) := Decimal.splitAt (fun c => c == 'e' || c == 'E') right
    let whole := dropSign left
    let startsWell := isCount whole || (left.isEmpty && fraction.head?.any Char.isDigit)
    isSpaced 10 fraction &&
      ((startsWell && power.all isPower) || (isSexagesimal whole && power.isNone))

def isReal (cs : List Char) : Bool :=
  isPointed cs ||
    match cs with
    | '.' :: w => isSpelling ["inf"] w || ["nan", "NaN", "NAN"].contains (String.ofList w)
    | s :: '.' :: w => isSign s && isSpelling ["inf"] w
    | _ => false

def kindOf (t : Text) : WordKind :=
  match letters? t with
  | none => .text
  | some cs =>
    if cs.isEmpty || cs = ['~'] || isSpelling ["null"] cs then .null
    else if isSpelling ["yes", "true", "on"] cs then .flag true
    else if isSpelling ["no", "false", "off"] cs then .flag false
    else if isReal cs then .real
    else if isInteger cs then .integer
    else if cs = ['<', '<'] then .merge
    else if cs = ['='] then .default
    else if (Stamp.read? cs).isSome then .time
    else .text

def flag? (t : Text) : Option Bool :=
  let w := t.lower
  if ["yes", "true", "on"].any (w = ·) then some true
  else if ["no", "false", "off"].any (w = ·) then some false
  else none

/-! ## Numbers -/

def withoutUnderscores (t : Text) : List CodePoint := t.points.filter (fun c => !isAmong "_" c)

def signed (cs : List CodePoint) : Bool × List CodePoint :=
  (cs.head?.any (isAmong "-"), if cs.head?.any (isAmong "+-") then cs.drop 1 else cs)

def baseLetter (base : Nat) : String :=
  if base = 2 then "bB" else if base = 8 then "oO" else if base = 16 then "xX" else ""

def withoutBase (base : Nat) : List CodePoint → List CodePoint
  | z :: b :: ds => if isAmong "0" z && isAmong (baseLetter base) b then ds else z :: b :: ds
  | cs => cs

/-- The number of digits in a base, which can be those of any script. There can be none, if all that
stood there were underscores, and there can be too many. -/
def inBase? (base : Nat) (cs : List CodePoint) : Option Int :=
  if base = 10 then Text.toInt? ⟨cs⟩
  else
    let (negative, cs) := signed (Numeral.trim cs)
    let digits := withoutBase base cs
    let value? (c : CodePoint) := ((Numeral.digit? c).or (Hex.value? c)).filter (· < base)
    if digits.isEmpty then none
    else (digits.foldlM (fun n c => (value? c).map (n * base + ·)) 0).map (Double.signed negative)

def magnitude? (cs : List CodePoint) : Option Int :=
  let t : Text := ⟨cs⟩
  if t = "0" then some 0
  else if t.startsWith "0b" then inBase? 2 (cs.drop 2)
  else if t.startsWith "0x" then inBase? 16 (cs.drop 2)
  else if t.startsWith "0" then inBase? 8 cs
  else
    (Text.splitOn (CodePoint.ofChar ':') t).foldlM
      (fun n p => (inBase? 10 p.points).map (n * 60 + ·)) 0

def integer (t : Text) : Except Misuse Int :=
  let cs := withoutUnderscores t
  let (negative, digits) := signed cs
  if digits.isEmpty then .error .position
  else
    match magnitude? digits with
    | some n => .ok (if negative then -n else n)
    | none => .error (.number "invalid number")

/-- A sum of sixtieths, the last part counting as it is. The powers of sixty are exact, and each
product and each sum is rounded. -/
def sixtieths (xs : List Double) : Except Misuse Double := do
  let add (state : Double × Nat) (x : Double) : Except Misuse (Double × Nat) := do
    let factor := Double.ofNat state.2
    if factor.isInfinite then throw .overflow
    return (state.1.add (x.times state.2), state.2 * 60)
  return (← xs.reverse.foldlM add (.zero false, 1)).1

def magnitudeReal (t : Text) : Except Misuse Double :=
  let wrong : Misuse := .number "invalid number"
  if t = ".inf" then .ok (.infinity false)
  else if t = ".nan" then .ok .nan
  else
    match Text.splitOn (CodePoint.ofChar ':') t with
    | [p] => (Double.ofText? p).elim (.error wrong) .ok
    | ps => (ps.mapM Double.ofText?).elim (.error wrong) sixtieths

def real (t : Text) : Except Misuse Double :=
  let cs := withoutUnderscores t
  let (negative, digits) := signed cs
  if cs.isEmpty then .error .position
  else
    (magnitudeReal (Text.lower ⟨digits⟩)).map fun x => if negative then x.negate else x

end Word
end Document
end RecordStore
