import RecordStore.Text.Basic

/-!
# Dates and moments

A moment is a date, a time of day to the microsecond, and perhaps a zone. A zone tells how far the
clock is ahead of universal time: always as far, or as far as the time of the year asks for, and it
may have no answer. Moments of one zone are ordered by what the clock shows, others as instants.
-/

set_option autoImplicit false

namespace RecordStore

structure Date where
  year : Nat
  month : Nat
  day : Nat
  deriving DecidableEq

/-- What the zone of a moment tells about it. Offsets are microseconds ahead of universal time. -/
inductive Zone where
  | fixed (offset : Int)
  /-- A zone that is known by its mark, with its answer for the moment and the one it would give if
  the clock showed the same time for the other time. -/
  | varying (mark : Nat) (name : Text) (offset refolded : Option Int)
  deriving DecidableEq

structure Moment where
  date : Date
  hour : Nat
  minute : Nat
  second : Nat
  microsecond : Nat
  /-- Whether the clock shows the time again, after it was set back. -/
  fold : Bool
  zone : Option Zone
  deriving DecidableEq

namespace Date

def isLeap (year : Nat) : Bool := year % 4 == 0 && (year % 100 != 0 || year % 400 == 0)

def monthLength (year month : Nat) : Nat :=
  if month = 2 then (if isLeap year then 29 else 28)
  else if month = 4 ∨ month = 6 ∨ month = 9 ∨ month = 11 then 30
  else 31

def daysBeforeYear (year : Nat) : Nat :=
  let y := year - 1
  y * 365 + y / 4 - y / 100 + y / 400

def daysBeforeMonth (year month : Nat) : Nat :=
  (List.range (month - 1)).foldl (fun n m => n + monthLength year (m + 1)) 0

def dayNumber (d : Date) : Nat :=
  daysBeforeYear d.year + daysBeforeMonth d.year d.month + d.day

def midnight (d : Date) : Moment := ⟨d, 0, 0, 0, 0, false, none⟩

end Date

def paddedNumber (width n : Nat) : String :=
  let s := toString n
  String.ofList (List.replicate (width - s.length) '0') ++ s

namespace Date

def problem? (d : Date) : Option String :=
  if d.year = 0 ∨ d.year > 9999 then some s!"year {d.year} is out of range"
  else if d.month = 0 ∨ d.month > 12 then some "month must be in 1..12"
  else if d.day = 0 ∨ d.day > monthLength d.year d.month then some "day is out of range for month"
  else none

def isValid (d : Date) : Bool := d.problem?.isNone

def iso (d : Date) : String :=
  paddedNumber 4 d.year ++ "-" ++ paddedNumber 2 d.month ++ "-" ++ paddedNumber 2 d.day

def text (d : Date) : Text :=
  Text.ofString s!"datetime.date({d.year}, {d.month}, {d.day})"

end Date

namespace Zone

def offset : Zone → Option Int
  | .fixed offset => some offset
  | .varying _ _ offset _ => offset

def refolded : Zone → Option Int
  | .fixed offset => some offset
  | .varying _ _ _ refolded => refolded

def isFixed : Zone → Bool
  | .fixed _ => true
  | .varying _ _ _ _ => false

end Zone

namespace Moment

def offset (m : Moment) : Option Int := m.zone.bind Zone.offset

def refolded (m : Moment) : Option Int := m.zone.bind Zone.refolded

def sharesZone (a b : Moment) : Bool :=
  match a.zone, b.zone with
  | some (.varying mark _ _ _), some (.varying mark' _ _ _) => mark = mark'
  | _, _ => false

def localTime (m : Moment) : Int :=
  (((m.date.dayNumber * 24 + m.hour) * 60 + m.minute) * 60 + m.second) * 1000000 + m.microsecond

def instant (m : Moment) : Int := m.localTime - m.offset.getD 0

def order? (a b : Moment) : Option Ordering :=
  if a.sharesZone b then some (compare a.localTime b.localTime)
  else if a.offset.isSome == b.offset.isSome then some (compare a.instant b.instant)
  else none

def isSettled (m : Moment) : Bool := m.offset = m.refolded

def same (a b : Moment) : Bool :=
  a.order? b == some .eq && (a.sharesZone b || a.isSettled && b.isSettled)

def anchored (m : Moment) : Moment := { m with zone := some (m.zone.getD (.fixed 0)) }

def isoFraction (microseconds : Nat) : String :=
  if microseconds = 0 then "" else "." ++ paddedNumber 6 microseconds

def isoOffset (offset : Int) : String :=
  let fraction := offset.natAbs % 1000000
  let n := offset.natAbs / 1000000
  (if offset < 0 then "-" else "+") ++ paddedNumber 2 (n / 3600) ++ ":" ++
    paddedNumber 2 (n / 60 % 60) ++
    (if n % 60 = 0 ∧ fraction = 0 then "" else ":" ++ paddedNumber 2 (n % 60)) ++
    isoFraction fraction

def isoWith (separator : String) (m : Moment) : String :=
  m.date.iso ++ separator ++ paddedNumber 2 m.hour ++ ":" ++ paddedNumber 2 m.minute ++ ":" ++
    paddedNumber 2 m.second ++ isoFraction m.microsecond ++ (m.offset.map isoOffset).getD ""

def iso (m : Moment) : String := m.isoWith "T"

def dayLength : Nat := 86400000000

/-- A length of time is shown in days, seconds and microseconds, without those that are zero. The
seconds and microseconds count forward, also where the days count back. -/
def durationText (microseconds : Int) : String :=
  let days := microseconds / dayLength
  let rest := microseconds % dayLength
  let part (name : String) (n : Int) : List String := if n = 0 then [] else [name ++ toString n]
  let parts :=
    part "days=" days ++ part "seconds=" (rest / 1000000) ++ part "microseconds=" (rest % 1000000)
  "datetime.timedelta(" ++ (if parts.isEmpty then "0" else ", ".intercalate parts) ++ ")"

def fixedText (offset : Int) : String :=
  if offset = 0 then "datetime.timezone.utc" else "datetime.timezone(" ++ durationText offset ++ ")"

def zoneText : Zone → Text
  | .fixed offset => Text.ofString (fixedText offset)
  | .varying _ name _ _ => name

def text (m : Moment) : Text :=
  let seconds :=
    if m.microsecond ≠ 0 then s!", {m.second}, {m.microsecond}"
    else if m.second ≠ 0 then s!", {m.second}"
    else ""
  let fold := if m.fold then ", fold=1" else ""
  let zone : Text := (m.zone.map (", tzinfo=" ++ zoneText ·)).getD ""
  Text.ofString
    (s!"datetime.datetime({m.date.year}, {m.date.month}, {m.date.day}, {m.hour}, {m.minute}" ++
      seconds ++ fold) ++ zone ++ ")"

def offsetProblem? (offset : Int) : Option String :=
  if offset.natAbs < dayLength then none
  else
    some ("offset must be a timedelta strictly between -timedelta(hours=24) and " ++
      "timedelta(hours=24), not " ++ durationText offset ++ ".")

def timeProblem? (m : Moment) : Option String :=
  if m.hour > 23 then some "hour must be in 0..23"
  else if m.minute > 59 then some "minute must be in 0..59"
  else if m.second > 59 then some "second must be in 0..59"
  else none

def problem? (m : Moment) : Option String :=
  (m.offset.bind offsetProblem?).or (m.date.problem?.or m.timeProblem?)

def isValid (m : Moment) : Bool := m.problem?.isNone

end Moment
end RecordStore
