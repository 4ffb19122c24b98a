/-
# CimBroker.Time.Calendar — dates of the Gregorian calendar

Dates are counted by days from the first of January 1970, on the Gregorian calendar extended without
end in both directions.  The count treats a year as beginning in March, so that a leap day is the
last day of its year: then the days before a month do not depend on the year, and 400 years, a
century, four years and a year are blocks of fixed length of which only the last of a group is a day
longer or shorter.

`Date.ofDayNumber` peels these blocks off a day number, largest first.

That `Date.dayNumber` and `Date.ofDayNumber` undo each other is shown in
`CimBroker.Proofs.DayNumbers`.  Weeks and the calendars of earlier times are left out.
-/

namespace CimBroker.Time

/-- A year, month and day.  Months and days count from one. -/
structure Date where
  year : Int
  month : Nat
  day : Nat
  deriving DecidableEq, Repr

/-- Whether a year has a leap day. -/
def isLeap (year : Int) : Bool :=
  year % 4 == 0 && (year % 100 != 0 || year % 400 == 0)

/-- The number of days of a month. -/
def daysInMonth (year : Int) (month : Nat) : Nat :=
  if month = 2 then (if isLeap year then 29 else 28)
  else if month = 4 ∨ month = 6 ∨ month = 9 ∨ month = 11 then 30
  else 31

/-- The number of days before the first of March of the year 0 and the first of January 1970. -/
def marchOrigin : Int := 719468

/-- The number of days from the first of March to the start of the month that comes `n` months
after it. -/
def daysBeforeMonth (n : Nat) : Nat := (153 * n + 2) / 5

namespace Date

/-- Whether the date exists. -/
def isValid (d : Date) : Bool :=
  1 ≤ d.month && d.month ≤ 12 && 1 ≤ d.day && d.day ≤ daysInMonth d.year d.month

/-- The number of days from the first of January 1970. -/
def dayNumber (d : Date) : Int :=
  let year := if d.month ≤ 2 then d.year - 1 else d.year
  let month := if d.month ≤ 2 then d.month + 9 else d.month - 3
  365 * year + year / 4 - year / 100 + year / 400 + daysBeforeMonth month + d.day - 1 - marchOrigin

/-- The date of a day number. -/
def ofDayNumber (n : Int) : Date :=
  let shifted := n + marchOrigin
  let era := shifted / 146097
  let inEra := (shifted % 146097).toNat
  let century := min (inEra / 36524) 3
  let inCentury := inEra - century * 36524
  let quad := inCentury / 1461
  let inQuad := inCentury - quad * 1461
  let single := min (inQuad / 365) 3
  let inYear := inQuad - single * 365
  let year := era * 400 + (century * 100 + quad * 4 + single : Nat)
  let month := (5 * inYear + 2) / 153
  let day := inYear - daysBeforeMonth month + 1
  if month < 10 then ⟨year, month + 3, day⟩ else ⟨year + 1, month - 9, day⟩

end Date

end CimBroker.Time
