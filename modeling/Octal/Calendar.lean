import Octal.Text.Digit

/-!
# Dates and instants

Instants to the nanosecond and their written form: date and time in the Gregorian calendar, extended
in both directions, with an offset from UTC. `Moment.parse?` reads any offset and refuses dates that
do not exist; `Moment.render` writes the offset it has, and `Instant.render` writes UTC.
-/

namespace Octal

/-- A point in time: whole seconds since 1970-01-01 00:00:00 UTC, and nanoseconds after them. -/
structure Instant where
  seconds : Int
  nanos : Nat
deriving DecidableEq, Repr

/-- An instant with the offset in which it is told, in seconds east of UTC. -/
structure Moment where
  instant : Instant
  offset : Int
deriving DecidableEq, Repr

/-- A date and a time of day. -/
structure Civil where
  year : Int
  month : Nat
  day : Nat
  hour : Nat
  minute : Nat
  second : Nat
  nanos : Nat
deriving DecidableEq, Repr

namespace Calendar

def isLeap (year : Int) : Bool := year % 4 == 0 && (year % 100 != 0 || year % 400 == 0)

/-- The lengths of the months of a year. -/
def monthLengths (leap : Bool) : List Nat :=
  [31, if leap then 29 else 28, 31, 30, 31, 30, 31, 31, 30, 31, 30, 31]

/-- The number of days in a month, 0 when there is no such month. -/
def daysIn (year : Int) (month : Nat) : Nat :=
  match month with
  | 0 => 0
  | m + 1 => (monthLengths (isLeap year))[m]?.getD 0

/-- Days from 0001-01-01 to the first day of `year`. -/
def daysBeforeYear (year : Int) : Int :=
  let y := year - 1
  365 * y + y / 4 - y / 100 + y / 400

/-- Days from the first day of a year to the first day of `month`. -/
def daysBeforeMonth (leap : Bool) (month : Nat) : Nat := ((monthLengths leap).take (month - 1)).foldl (· + ·) 0

/-- The number of the day, counted from 0001-01-01. -/
def dayNumber (year : Int) (month day : Nat) : Int :=
  daysBeforeYear year + daysBeforeMonth (isLeap year) month + (day - 1 : Nat)

/-- The year of a day and the number of the day in it, from 0. Years come in cycles of 400, 100 and 4;
the last century of a cycle and the last year of four can have one day more. -/
def yearOfDay (n : Int) : Int × Nat :=
  let cycles := n / 146097
  let inCycle := n % 146097
  let centuries := min (inCycle / 36524) 3
  let inCentury := inCycle - centuries * 36524
  let fours := inCentury / 1461
  let inFour := inCentury % 1461
  let years := min (inFour / 365) 3
  (400 * cycles + 100 * centuries + 4 * fours + years + 1, (inFour - years * 365).toNat)

/-- The month and day of the `n`-th day after the first of the month that `lengths` begin with,
`month` being its number. -/
def monthOfDay (month n : Nat) : List Nat → Nat × Nat
  | [] => (month, n + 1)
  | length :: rest => if n < length then (month, n + 1) else monthOfDay (month + 1) (n - length) rest

/-- The day number of 1970-01-01. -/
def epochDay : Int := dayNumber 1970 1 1

def isValid (c : Civil) : Bool :=
  1 ≤ c.month && c.month ≤ 12 && 1 ≤ c.day && c.day ≤ daysIn c.year c.month &&
    c.hour < 24 && c.minute < 60 && c.second < 60

end Calendar

namespace Instant

open Calendar

/-- The instant of a date and time at `offset` seconds east of UTC. -/
def ofCivil (c : Civil) (offset : Int) : Instant :=
  let days := dayNumber c.year c.month c.day - epochDay
  ⟨days * 86400 + (c.hour * 3600 + c.minute * 60 + c.second : Nat) - offset, c.nanos⟩

/-- The date and time of an instant in UTC. -/
def toCivil (t : Instant) : Civil :=
  let (year, yearDay) := yearOfDay (t.seconds / 86400 + epochDay)
  let (month, day) := monthOfDay 1 yearDay (monthLengths (isLeap year))
  let inDay := (t.seconds % 86400).toNat
  ⟨year, month, day, inDay / 3600, inDay % 3600 / 60, inDay % 60, t.nanos⟩

/-- The first instant of the year 1, which stands for "not given". -/
def zero : Instant := ofCivil ⟨1, 1, 1, 0, 0, 0, 0⟩ 0

/-- `n` in decimal with at least `width` digits. -/
def digits (width n : Nat) : List Char :=
  let ds := Nat.toDigits 10 n
  List.replicate (width - ds.length) '0' ++ ds

def yearDigits (year : Int) : List Char :=
  if year < 0 then '-' :: digits 4 year.natAbs else digits 4 year.natAbs

/-- A fraction of a second without trailing zeros, empty when it is zero. -/
def fraction (nanos : Nat) : List Char :=
  if nanos = 0 then []
  else '.' :: ((digits 9 nanos).reverse.dropWhile (· == '0')).reverse

end Instant

namespace Moment

open Instant

/-- An instant told in UTC. -/
def utc (t : Instant) : Moment := ⟨t, 0⟩

/-- The same instant, told in UTC. -/
def toUTC (m : Moment) : Moment := utc m.instant

/-- The date and time at the moment's own offset. -/
def toCivil (m : Moment) : Civil := Instant.toCivil ⟨m.instant.seconds + m.offset, m.instant.nanos⟩

/-- An offset in hours and minutes. -/
def zone (offset : Int) : List Char :=
  if offset = 0 then ['Z']
  else
    let minutes := offset.natAbs / 60
    (if offset < 0 then '-' else '+') :: digits 2 (minutes / 60) ++ ':' :: digits 2 (minutes % 60)

def renderChars (m : Moment) : List Char :=
  let c := m.toCivil
  yearDigits c.year ++ '-' :: digits 2 c.month ++ '-' :: digits 2 c.day ++
    'T' :: digits 2 c.hour ++ ':' :: digits 2 c.minute ++ ':' :: digits 2 c.second ++
    fraction c.nanos ++ zone m.offset

def render (m : Moment) : String := String.ofList m.renderChars

end Moment

/-- The instant in UTC. -/
def Instant.render (t : Instant) : String := (Moment.utc t).render

namespace Timestamp

open Text

/-! ### Reading

A reader takes what it wants from the front of a text and leaves the rest. -/

/-- A number of two digits. -/
def twoDigits : List Char → Option (Nat × List Char)
  | a :: b :: rest => do return ((← digitIn? 10 a) * 10 + (← digitIn? 10 b), rest)
  | _ => none

/-- A number of one or two digits. -/
def upToTwoDigits : List Char → Option (Nat × List Char)
  | a :: rest => do
    let x ← digitIn? 10 a
    match rest with
    | b :: rest' =>
      match digitIn? 10 b with
      | some y => return (x * 10 + y, rest')
      | none => return (x, rest)
    | [] => return (x, [])
  | [] => none

def fourDigits (s : List Char) : Option (Nat × List Char) := do
  let (a, s) ← twoDigits s
  let (b, s) ← twoDigits s
  return (a * 100 + b, s)

/-- The character `c`. -/
def literal (c : Char) : List Char → Option (List Char)
  | d :: rest => if d = c then some rest else none
  | [] => none

/-- An optional fraction of a second, in nanoseconds. Digits after the ninth are dropped. -/
def fraction : List Char → Nat × List Char
  | c :: rest =>
    let ds := rest.takeWhile isDigit
    if (c == '.' || c == ',') && !ds.isEmpty then
      let nine := (ds ++ List.replicate 9 '0').take 9
      (natOfDigits nine, rest.drop ds.length)
    else (0, c :: rest)
  | [] => (0, [])

/-- An offset from UTC in seconds: `Z`, or hours and minutes with a sign. -/
def offset : List Char → Option (Int × List Char)
  | 'Z' :: rest => some (0, rest)
  | sign :: rest => do
    let (hours, rest) ← twoDigits rest
    let rest ← literal ':' rest
    let (minutes, rest) ← twoDigits rest
    if 24 < hours || 60 < minutes then none
    else
      let seconds : Int := (hours * 60 + minutes) * 60
      if sign = '+' then some (seconds, rest)
      else if sign = '-' then some (-seconds, rest)
      else none
  | [] => none

/-- How the numbers after the year are written: a month, day, minute and second of two digits, or of
one or two. -/
abbrev Numbers := List Char → Option (Nat × List Char)

def date (number : Numbers) (s : List Char) : Option (Int × Nat × Nat × List Char) := do
  let (year, s) ← fourDigits s
  let s ← literal '-' s
  let (month, s) ← number s
  let s ← literal '-' s
  let (day, s) ← number s
  return (year, month, day, s)

/-- A time of day with an optional fraction. An hour may always have one digit. -/
def clock (number : Numbers) (s : List Char) : Option (Nat × Nat × Nat × Nat × List Char) := do
  let (hour, s) ← upToTwoDigits s
  let s ← literal ':' s
  let (minute, s) ← number s
  let s ← literal ':' s
  let (second, s) ← number s
  let (nanos, s) := fraction s
  return (hour, minute, second, nanos, s)

/-- A valid date and time with an offset, `separator` between date and time. -/
def dateTime (number : Numbers) (separator : Char) (s : List Char) : Option Moment := do
  let (year, month, day, s) ← date number s
  let s ← literal separator s
  let (hour, minute, second, nanos, s) ← clock number s
  let (offset, s) ← offset s
  let civil : Civil := ⟨year, month, day, hour, minute, second, nanos⟩
  if s.isEmpty && Calendar.isValid civil then some ⟨.ofCivil civil offset, offset⟩ else none

/-- Whether `s` is a date, alone or with a time of day after blanks. -/
def isLocal (number : Numbers) (s : List Char) : Bool :=
  match date number s with
  | none => false
  | some (year, month, day, []) => Calendar.isValid ⟨year, month, day, 0, 0, 0, 0⟩
  | some (year, month, day, c :: s) =>
    c == ' ' &&
      match clock number (s.dropWhile (· == ' ')) with
      | some (hour, minute, second, nanos, []) =>
        Calendar.isValid ⟨year, month, day, hour, minute, second, nanos⟩
      | _ => false

/-- Whether `s` is a point in time in any of the forms that configuration files know. -/
def isAny (s : String) : Bool :=
  let cs := s.toList
  (dateTime upToTwoDigits 'T' cs).isSome || (dateTime upToTwoDigits 't' cs).isSome ||
    isLocal upToTwoDigits cs

end Timestamp

/-- The moment that a text tells. -/
def Moment.parse? (s : String) : Option Moment :=
  Timestamp.dateTime Timestamp.twoDigits 'T' s.toList

end Octal
