/-!
# The calendar

Days are counted from 1 January 1970, backwards and forwards, in the Gregorian calendar extended to
all years; the year before year 1 is year 0.

Both directions count from 1 March of a year that 400 divides. The leap day then is the last day of
a year, and the lengths of the months from March to January follow one linear rule. Four hundred
years have 146097 days, so everything happens within one such era.
-/

namespace RecordLinkage.Time

structure Day where
  year : Int
  /-- The month, from 1. -/
  month : Nat
  /-- The day of the month, from 1. -/
  day : Nat
  deriving DecidableEq, Repr, Inhabited

/-- Whether a year has a leap day. -/
def isLeap (year : Int) : Bool := year % 4 = 0 && (year % 100 ≠ 0 || year % 400 = 0)

def monthLength (year : Int) (month : Nat) : Nat :=
  if month = 2 then (if isLeap year then 29 else 28)
  else if month = 4 || month = 6 || month = 9 || month = 11 then 30
  else 31

/-- The days from 1 March of year 0 to 1 January 1970. -/
def epochShift : Int := 719468

/-- The days of four hundred years. -/
def eraLength : Int := 146097

namespace Day

/-- Whether the calendar has this day. -/
def isValid (d : Day) : Bool :=
  1 ≤ d.month && d.month ≤ 12 && 1 ≤ d.day && d.day ≤ monthLength d.year d.month

/-- The number of a day, counted from 1 January 1970. -/
def toNumber (d : Day) : Int :=
  let year := if d.month ≤ 2 then d.year - 1 else d.year
  let era := year / 400
  let yearOfEra := year % 400
  let month : Int := if d.month ≤ 2 then d.month + 9 else d.month - 3
  let dayOfYear := (153 * month + 2) / 5 + d.day - 1
  era * eraLength + (yearOfEra * 365 + yearOfEra / 4 - yearOfEra / 100 + dayOfYear) - epochShift

/-- The day of a number. -/
def ofNumber (n : Int) : Day :=
  let shifted := n + epochShift
  let era := shifted / eraLength
  let dayOfEra := shifted % eraLength
  let yearOfEra := (dayOfEra - dayOfEra / 1460 + dayOfEra / 36524 - dayOfEra / 146096) / 365
  let dayOfYear := dayOfEra - (365 * yearOfEra + yearOfEra / 4 - yearOfEra / 100)
  let month := (5 * dayOfYear + 2) / 153
  let day := dayOfYear - (153 * month + 2) / 5 + 1
  let civilMonth := if month < 10 then month + 3 else month - 9
  let year := yearOfEra + era * 400
  ⟨if civilMonth ≤ 2 then year + 1 else year, civilMonth.toNat, day.toNat⟩

end Day

end RecordLinkage.Time
