import RecordLinkage.Number.Integer
import RecordLinkage.Time.Calendar

/-!
# Datestamps

The last change of a cluster is dated in microseconds since the beginning of 1970, UTC. Datestamps
are numbers wherever they are compared; only the view of a cluster shows one as a date, in the form
of RFC 3339.

## Writing

The fraction of the second has no digits, three or six, as few as it needs. Years outside four
digits carry a sign. Datestamps whose year the calendar of the output cannot hold are not shown.

## Reading

A point in time is given as a number of microseconds or as a date with a time and an offset. Between
date and time stand a `T` of either case or a space; the offset is a `Z` of either case or a sign
with hours and minutes, where the sign may be the typographic minus. Digits after the microseconds
are cut off. Second 60 is read as the second after second 59.
-/

namespace RecordLinkage

/-- A point in time, in microseconds since the beginning of 1970, UTC. -/
abbrev Datestamp := Int

namespace Datestamp

open Time (Day)
open Number (decimalDigits)

def perSecond : Int := 1000000

def secondsPerDay : Int := 86400

def firstYear : Int := -262143

def lastYear : Int := 262142

/-- Decimal digits, with zeros in front up to a width. -/
def padded (width n : Nat) : List Char :=
  let ds := decimalDigits n
  List.replicate (width - ds.length) '0' ++ ds

/-- A year: four digits, and a sign where they do not suffice. -/
def yearChars (year : Int) : List Char :=
  if 0 ≤ year && year ≤ 9999 then padded 4 year.toNat
  else (if year < 0 then '-' else '+') :: padded 4 year.natAbs

/-- The fraction of a second, with the point in front of it if there is one. -/
def fractionChars (micros : Nat) : List Char :=
  if micros = 0 then []
  else if micros % 1000 = 0 then '.' :: padded 3 (micros / 1000)
  else '.' :: padded 6 micros

/-- The date and time of a datestamp, if its year is shown. -/
def chars? (stamp : Datestamp) : Option (List Char) :=
  let seconds := stamp / perSecond
  let micros := (stamp % perSecond).toNat
  let date := Day.ofNumber (seconds / secondsPerDay)
  let time := (seconds % secondsPerDay).toNat
  if date.year < firstYear || lastYear < date.year then none
  else some (yearChars date.year ++ '-' :: padded 2 date.month ++ '-' :: padded 2 date.day ++
    'T' :: padded 2 (time / 3600) ++ ':' :: padded 2 (time / 60 % 60) ++
    ':' :: padded 2 (time % 60) ++ fractionChars micros ++ ['Z'])

/-- The date and time of a datestamp, if its year is shown. -/
def text? (stamp : Datestamp) : Option String := (chars? stamp).map String.ofList

/-! ## Reading -/

/-- A number of exactly `width` digits, and what follows it. -/
def number? (width : Nat) (cs : List Char) : Option (Nat × List Char) :=
  if (cs.take width).length = width then
    (Number.ofDigits? (cs.take width)).map fun n ↦ (n, cs.drop width)
  else none

/-- What follows a given character. -/
def expect? (c : Char) (cs : List Char) : Option (List Char) :=
  match cs with
  | d :: rest => if d = c then some rest else none
  | [] => none

/-- The microseconds of a fraction, and what follows it. A fraction has one digit at least. -/
def fraction? (cs : List Char) : Option (Nat × List Char) :=
  match cs with
  | '.' :: rest =>
    let ds := rest.takeWhile Char.isDigit
    let six := (ds ++ List.replicate 6 '0').take 6
    if ds.isEmpty then none
    else (Number.ofDigits? six).map fun n ↦ (n, rest.dropWhile Char.isDigit)
  | rest => some (0, rest)

private def typographicMinus : Char := Char.ofNat 0x2212

/-- The offset from UTC in seconds, and what follows it. -/
def offset? (cs : List Char) : Option (Int × List Char) :=
  match cs with
  | 'Z' :: rest | 'z' :: rest => some (0, rest)
  | sign :: rest => do
    let positive ← if sign = '+' then some true
      else if sign = '-' || sign = typographicMinus then some false else none
    let (hours, rest) ← number? 2 rest
    let rest ← expect? ':' rest
    let (minutes, rest) ← number? 2 rest
    if 24 ≤ hours || 60 ≤ minutes then none
    else
      let seconds : Int := hours * 3600 + minutes * 60
      some (if positive then seconds else -seconds, rest)
  | [] => none

/-- What follows the mark between a date and a time. -/
def timeMark? (cs : List Char) : Option (List Char) :=
  match cs with
  | 'T' :: rest | 't' :: rest | ' ' :: rest => some rest
  | _ => none

/-- A date with time and offset. -/
def ofDate? (cs : List Char) : Option Datestamp := do
  let (year, cs) ← number? 4 cs
  let cs ← expect? '-' cs
  let (month, cs) ← number? 2 cs
  let cs ← expect? '-' cs
  let (day, cs) ← number? 2 cs
  let cs ← timeMark? cs
  let (hour, cs) ← number? 2 cs
  let cs ← expect? ':' cs
  let (minute, cs) ← number? 2 cs
  let cs ← expect? ':' cs
  let (second, cs) ← number? 2 cs
  let (micros, cs) ← fraction? cs
  let (offset, cs) ← offset? cs
  let date : Day := ⟨year, month, day⟩
  if !cs.isEmpty || !date.isValid || 24 ≤ hour || 60 ≤ minute || 61 ≤ second then none
  else
    let seconds : Int := date.toNumber * secondsPerDay + (hour * 3600 + minute * 60 + second : Nat)
    some ((seconds - offset) * perSecond + micros)

/-- A point in time: a number of microseconds, or a date with time and offset. -/
def parse? (s : String) : Option Datestamp :=
  match Number.signed64? s with
  | some micros => some micros
  | none => ofDate? s.toList

end Datestamp

end RecordLinkage
