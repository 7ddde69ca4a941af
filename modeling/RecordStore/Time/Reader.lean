import RecordStore.Time.Moment

/-!
# Reading dates and moments

A date is written `2020-01-02` or `20200102`, or as a week of a year and perhaps a day of it,
`2020-W01-4` or `2020W014`. A moment is a date, any one character, and a time of day whose parts
behind the hour may be missing, with colons between its parts or without. A fraction of a second is
read to six digits. The zone is `Z` or a sign and an offset written like a time of day. What is
written like a moment need not be one: there is no thirteenth month.
-/

set_option autoImplicit false

namespace RecordStore

def fixedNumber? (cs : List Char) (width : Nat) : Option (Nat × List Char) :=
  let ds := cs.take width
  if ds.length = width ∧ ds.all Char.isDigit then
    some (ds.foldl (fun n c => n * 10 + (c.toNat - 48)) 0, cs.drop width)
  else none

def expect? (c : Char) : List Char → Option (List Char)
  | d :: rest => if d = c then some rest else none
  | [] => none

namespace Date

def ofYearDay (year : Nat) (day : Int) : Date :=
  let length (y : Nat) : Int := daysBeforeYear (y + 1) - daysBeforeYear y
  let (year, day) :=
    if day < 1 then (year - 1, day + length (year - 1))
    else if day > length year then (year + 1, day - length year)
    else (year, day)
  let month := ((List.range 12).filter (fun m => (daysBeforeMonth year (m + 1) : Int) < day)).length
  ⟨year, month, (day - daysBeforeMonth year month).toNat⟩

def firstWeekday (year : Nat) : Nat := daysBeforeYear year % 7

/-- How many weeks a year has: a year whose first day is a Thursday has one more than others, and so
has a leap year whose first day is a Wednesday. -/
def weekCount (year : Nat) : Nat :=
  let first := firstWeekday year
  if first = 3 ∨ (first = 2 ∧ isLeap year) then 53 else 52

/-- A day of a week of a year. The first week is the one that holds the first Thursday. -/
def ofWeek? (year week day : Nat) : Option Date :=
  let first : Int := firstWeekday year
  let monday := if first ≤ 3 then 1 - first else 8 - first
  if year = 0 ∨ week = 0 ∨ week > weekCount year ∨ day = 0 ∨ day > 7 then none
  else some (ofYearDay year (monday + 7 * (week - 1) + (day - 1)))

def read? (cs : List Char) : Option Date := do
  let (year, cs) ← fixedNumber? cs 4
  let hyphen (cs : List Char) : Option (List Char) := expect? '-' cs
  let (between, cs) := match cs with
    | '-' :: rest => (hyphen, rest)
    | _ => (some, cs)
  match cs with
  | 'W' :: rest => do
    let (week, rest) ← fixedNumber? rest 2
    let (day, _) ← if rest.isEmpty then some (1, []) else do fixedNumber? (← between rest) 1
    ofWeek? year week day
  | _ => do
    let (month, rest) ← fixedNumber? cs 2
    let (day, _) ← fixedNumber? (← between rest) 2
    return ⟨year, month, day⟩

def ofString? (s : String) : Option Date :=
  if s.utf8ByteSize ∈ [7, 8, 10] then read? s.toList else none

end Date

namespace Moment

/-- How many characters of a moment belong to its date. A hyphen behind a week comes before the day
if no digit follows at its place; digits behind a week start with the day if there is an even number
of them behind the week's own. -/
def dateWidth (cs : List Char) : Nat :=
  match cs.drop 4 with
  | '-' :: 'W' :: _ => if cs[8]? = some '-' ∧ !(cs[10]?).any Char.isDigit then 10 else 8
  | '-' :: _ => 10
  | 'W' :: _ =>
    let digits := ((cs.drop 7).takeWhile Char.isDigit).length
    if digits < 2 then 7 + digits else 7 + (digits + 1) % 2
  | _ => 8

/-- A time of day, and whether nothing is left behind it. -/
structure Clock where
  hour : Nat
  minute : Nat
  second : Nat
  microsecond : Nat
  isWhole : Bool

namespace Clock

/-- The numbers of a time of day: those for hours, minutes and seconds, and the microseconds. -/
structure Numbers where
  units : List Nat
  microsecond : Nat
  isWhole : Bool

def fraction? (cs : List Char) : Option Numbers := do
  let ds := cs.take 6
  let (n, _) ← fixedNumber? (ds ++ List.replicate (6 - ds.length) '0') 6
  return ⟨[], n, (cs.drop 6).all Char.isDigit⟩

/-- Reads as many units as may come, two digits each. The first unit decides whether there are
colons between them; one character of ASCII behind a unit is no unit and is left. -/
def numbers? : (count : Nat) → (colons : Option Bool) → List Char → Option Numbers
  | 0, _, cs => fraction? cs
  | count + 1, colons, cs => do
    let (n, rest) ← fixedNumber? cs 2
    let colons := colons.getD (rest.head? == some ':')
    let more ← match rest with
      | [] => some ⟨[], 0, true⟩
      | [c] => if c.toNat < 0x80 then some ⟨[], 0, false⟩ else none
      | c :: after =>
        if colons && c = ':' then numbers? count (some colons) after
        else if c = '.' || c = ',' then fraction? after
        else if colons then none
        else numbers? count (some colons) rest
    return { more with units := n :: more.units }

def read? (cs : List Char) : Option Clock := do
  let n ← numbers? 3 none cs
  return ⟨n.units.getD 0 0, n.units.getD 1 0, n.units.getD 2 0, n.microsecond, n.isWhole⟩

def microseconds (c : Clock) : Int :=
  (c.hour * 3600 + c.minute * 60 + c.second) * 1000000 + c.microsecond

end Clock

def opensZone (c : Char) : Bool := c = '+' || c = '-' || c = 'Z'

def readOffset? (cs : List Char) : Option Int := do
  let clock ← Clock.read? cs
  let n := clock.microseconds
  if clock.isWhole then return if n < 1000000 then 0 else n else none

def readZone? : List Char → Option Int
  | ['Z'] => some 0
  | '+' :: cs => readOffset? cs
  | '-' :: cs => (readOffset? cs).map (-·)
  | _ => none

/-- The moment of a date and a time of day; what is left between the time and a zone does not
count. -/
def read? (date : Date) (cs : List Char) : Option Moment := do
  let (time, zone) := cs.span (fun c => !opensZone c)
  let clock ← Clock.read? time
  let offset ← if zone.isEmpty then (if clock.isWhole then some none else none)
    else (readZone? zone).map some
  return ⟨date, clock.hour, clock.minute, clock.second, clock.microsecond, false,
    offset.map .fixed⟩

def ofString? (s : String) : Option Moment := do
  let cs := s.toList
  let width := dateWidth cs
  let date ← Date.read? (cs.take width)
  match cs.drop width with
  | [] => return date.midnight
  | _ :: time => read? date time

end Moment
end RecordStore
