/-
# CimBroker.Time.WireText — timestamps as they travel

On the wire a timestamp is the text `yyyymmddHHMMSS.mmmmmmsUUU`: date, time of day, microseconds, a
sign and the zone offset in minutes.  A text of fourteen zeros stands for an unset timestamp, and so
does a missing value.  An instant at or before the start of 1601, from which the other side counts,
has no text and travels as unset.  A colon in place of the sign marks an interval, which has no
zone.

The sign and three digits hold up to 999 minutes, and `Timestamp.ofStamp` refuses zones beyond that.

`Timestamp.encode` writes and `Timestamp.parse` reads.  Which texts are read, and which stamps come
back, is said in `CimBroker.Proofs.WireGrammar` and `CimBroker.Proofs.WireRoundTrip`.  There is no
type of intervals: one that arrives is read as an instant at offset zero.
-/
import CimBroker.Error
import CimBroker.Time.Internet

namespace CimBroker.Time

/-- The start of 1601 in seconds from the start of 1970. -/
def wireEpoch : Int := -11644473600

/-- The widest zone offset that three digits of minutes hold. -/
def greatestOffsetMinutes : Nat := 999

namespace Timestamp

/-- The timestamp of a stamp, if three digits hold its offset in minutes. -/
def ofStamp (s : Stamp) : Except Error Timestamp :=
  if s.offset % 60 ≠ 0 ∨ greatestOffsetMinutes * 60 < s.offset.natAbs then
    throw (.malformedDatetime s.numericText
      ("zone offset of " ++ toString s.offset ++ "s does not fit the wire format"))
  else return some s

/-! ## Writing -/

/-- The wire text of a stamp. -/
def stampText (s : Stamp) : String :=
  let t := s.clock
  String.ofList
    (yearText t.date.year ++ Number.padded 2 t.date.month ++ Number.padded 2 t.date.day ++
      Number.padded 2 t.hour ++ Number.padded 2 t.minute ++ Number.padded 2 t.second ++
      '.' :: Number.padded 6 (t.nanos / 1000) ++ signedPadded 3 (s.offset.tdiv 60))

/-- Whether an instant lies after the start of 1601. -/
def afterWireEpoch (s : Stamp) : Bool :=
  wireEpoch < s.seconds || (wireEpoch == s.seconds && 0 < s.nanos)

/-- The wire text of a timestamp; unset timestamps and instants up to the start of 1601 have
none. -/
def encode : Timestamp → Option String
  | none => none
  | some s => if afterWireEpoch s then some (stampText s) else none

/-! ## Reading -/

/-- The fourteen digits of date and time at the start of a text, and the fraction after them. -/
def leadingFields? (text : List Char) : Option (Date × Nat × Nat × Nat × List Char) := do
  let field (start count : Nat) : Option Nat :=
    let ds := (text.drop start).take count
    if ds.length = count then Number.ofDecimal? ds else none
  let year ← field 0 4
  let month ← field 4 2
  let day ← field 6 2
  let hour ← field 8 2
  let minute ← field 10 2
  let second ← field 12 2
  return (⟨year, month, day⟩, hour, minute, second, text.drop 14)

/-- The microseconds of a fraction: nothing, or a point and one to six digits. -/
def fractionMicros? : List Char → Option Nat
  | [] => some 0
  | '.' :: ds =>
    if ds.length ≤ 6 then (Number.ofDecimal? ds).map fun n => n * 10 ^ (6 - ds.length) else none
  | _ => none

/-- The offset in minutes that the last four characters spell. -/
def zoneMinutes? : List Char → Option Int
  | ':' :: _ => some 0
  | '+' :: ds => (Number.ofDecimal? ds).map fun n => (n : Int)
  | '-' :: ds => (Number.ofDecimal? ds).map fun n => -(n : Int)
  | ds => (Number.ofDecimal? ds).map fun n => (n : Int)

/-- Reads wire text. -/
def parse (text : String) : Except Error Timestamp := do
  let malformed (reason : String) : Error := .malformedDatetime text reason
  let cs := text.toList
  if cs.length < 5 || cs.any fun c => 0x80 ≤ c.toNat then
    throw (malformed "invalid datetime string")
  if (cs.take 14) = List.replicate 14 '0' then return none
  let zone ← (zoneMinutes? (cs.drop (cs.length - 4))).elim
    (throw (malformed "zone did not parse")) pure
  let (date, hour, minute, second, fraction) ← (leadingFields? (cs.take (cs.length - 4))).elim
    (throw (malformed "date/time fields did not parse")) pure
  let micros ← (fractionMicros? fraction).elim (throw (malformed "fraction did not parse")) pure
  if !(date.isValid && hour < 24 && minute < 60 && second < 60) then
    throw (malformed "date/time out of range")
  if 1440 ≤ zone.natAbs then
    throw (malformed "zone out of range")
  return some (Stamp.ofClock ⟨date, hour, minute, second, micros * 1000⟩ (zone * 60))

end Timestamp

end CimBroker.Time
