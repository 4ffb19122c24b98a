/-
# CimBroker.Time.Stamp — instants with a zone offset

A stamp is an instant, counted in seconds and nanoseconds from the start of 1970 at offset zero, and
the offset of the zone in which it is written.  A leap second shares its second with the one before
it and has a nanosecond count of 10⁹ or more.

A timestamp is a stamp that may be missing.  Two timestamps are the same when both are missing or
both name one instant; the zone in which it is written does not matter.

`Stamp.ofClock` and `Stamp.clock` go between a stamp and what a clock in its zone shows.  Zones are
offsets and nothing more: there are no names of zones, and no summer time.
-/
import CimBroker.Number.Digits
import CimBroker.Time.Calendar

namespace CimBroker.Time

/-- An instant, and the zone offset in seconds east in which it is written. -/
structure Stamp where
  seconds : Int
  nanos : Nat
  offset : Int
  deriving DecidableEq, Repr

/-- A date and a time of day, as a clock in some zone shows them. -/
structure ClockTime where
  date : Date
  hour : Nat
  minute : Nat
  second : Nat
  nanos : Nat
  deriving DecidableEq, Repr

abbrev Timestamp := Option Stamp

/-- Whether two timestamps name the same instant, or are both unset. -/
def Timestamp.same : Timestamp → Timestamp → Bool
  | none, none => true
  | some a, some b => a.seconds == b.seconds && a.nanos == b.nanos
  | _, _ => false

namespace Stamp

/-- The stamp whose own zone shows the given clock time. -/
def ofClock (t : ClockTime) (offset : Int) : Stamp :=
  { seconds :=
      t.date.dayNumber * 86400 + (t.hour * 3600 + t.minute * 60 + t.second : Nat) - offset
    nanos := t.nanos
    offset }

/-- What a clock in the stamp's own zone shows.  In a leap second the seconds reach 60. -/
def clock (s : Stamp) : ClockTime :=
  let shown := s.seconds + s.offset
  let inDay := (shown % 86400).toNat
  { date := Date.ofDayNumber (shown / 86400)
    hour := inDay / 3600
    minute := inDay / 60 % 60
    second := inDay % 60 + s.nanos / 1000000000
    nanos := s.nanos % 1000000000 }

end Stamp

/-- A number of at least `width` digits after a sign that is always there. -/
def signedPadded (width : Nat) (n : Int) : List Char :=
  (if n < 0 then '-' else '+') :: Number.padded width n.natAbs

/-- A year: four digits, or a sign and at least four digits when it lies outside 0 to 9999. -/
def yearText (year : Int) : List Char :=
  if 0 ≤ year ∧ year ≤ 9999 then Number.padded 4 year.toNat else signedPadded 4 year

end CimBroker.Time
