/-
# CimBroker.Time.Internet — stamps in the date and time format of the Internet

RFC 3339 writes a stamp as `2023-07-14T09:30:15.123+01:00`.  Written here are as many decimals of a
second as are needed out of none, three, six and nine; a leap second shows as second 60; years
outside 0 to 9999 carry a sign; and the offset is given to the nearest minute.

The reader accepts more: blanks before each number and before the zone, numbers of fewer digits, a
space or a small `t` between date and time, any number of decimals (those after the ninth are
dropped), `UTC` for the zone, and other separators within it.  It reads as far as the zone and wants
nothing but blanks after it.

`Stamp.internetText` writes and `Stamp.ofInternetText?` reads.  That the one undoes the other is not
claimed.
-/
import CimBroker.Text.Blank
import CimBroker.Time.Stamp

namespace CimBroker.Time

/-! ## Writing -/

/-- The decimals of a second that are needed, in groups of three. -/
def fractionText (nanos : Nat) : List Char :=
  if nanos = 0 then []
  else if nanos % 1000000 = 0 then '.' :: Number.padded 3 (nanos / 1000000)
  else if nanos % 1000 = 0 then '.' :: Number.padded 6 (nanos / 1000)
  else '.' :: Number.padded 9 nanos

/-- A zone offset in hours and minutes, to the nearest minute. -/
def offsetText (offset : Int) : List Char :=
  let minutes := (offset.natAbs + 30) / 60
  (if offset < 0 then '-' else '+') ::
    (Number.padded 2 (minutes / 60) ++ ':' :: Number.padded 2 (minutes % 60))

/-- The date and time of day of a stamp. -/
def ClockTime.internetText (t : ClockTime) : List Char :=
  yearText t.date.year ++ '-' :: Number.padded 2 t.date.month ++
    '-' :: Number.padded 2 t.date.day ++ 'T' :: Number.padded 2 t.hour ++
    ':' :: Number.padded 2 t.minute ++ ':' :: Number.padded 2 t.second ++ fractionText t.nanos

namespace Stamp

/-- The stamp with its offset always in numbers. -/
def numericText (s : Stamp) : String :=
  String.ofList (s.clock.internetText ++ offsetText s.offset)

/-- The stamp with `Z` for the offset zero. -/
def internetText (s : Stamp) : String :=
  if s.offset = 0 then String.ofList (s.clock.internetText ++ ['Z']) else s.numericText

end Stamp

/-! ## Reading -/

/-- A number of at most `most` digits at the start of a text, blanks before it aside. -/
def leadingNumber? (most : Nat) (text : List Char) : Option (Nat × List Char) :=
  let text := Text.trimStart text
  let ds := (text.take most).takeWhile Number.isDigit
  (Number.ofDecimal? ds).map fun n => (n, text.drop ds.length)

/-- A number in a range. -/
def leadingInRange? (low high : Nat) (text : List Char) : Option (Nat × List Char) :=
  match leadingNumber? 2 text with
  | some (n, rest) => if low ≤ n ∧ n ≤ high then some (n, rest) else none
  | none => none

/-- A year: any number of digits after a sign, at most four without one. -/
def leadingYear? (text : List Char) : Option (Int × List Char) :=
  let signed (negative : Bool) (digits : List Char) : Option (Int × List Char) :=
    if (digits.head?.map Number.isDigit).getD false then
      (leadingNumber? digits.length digits).map fun read =>
        (if negative then -(read.1 : Int) else read.1, read.2)
    else none
  match Text.trimStart text with
  | '-' :: digits => signed true digits
  | '+' :: digits => signed false digits
  | digits => (leadingNumber? 4 digits).map fun read => ((read.1 : Int), read.2)

/-- What follows a mark, blanks before it aside. -/
def afterMark? (mark : Char) (text : List Char) : Option (List Char) :=
  match Text.trimStart text with
  | c :: rest => if c = mark then some rest else none
  | [] => none

/-- The decimals of a second, in nanoseconds: the first nine digits after a point. -/
def leadingFraction? : List Char → Option (Nat × List Char)
  | '.' :: text =>
    let ds := text.takeWhile Number.isDigit
    (Number.ofDecimal? (ds.take 9)).map fun n =>
      (n * 10 ^ (9 - (ds.take 9).length), text.drop ds.length)
  | text => some (0, text)

/-- A zone offset in seconds. -/
def leadingOffset? (text : List Char) : Option (Int × List Char) :=
  let numeric (negative : Bool) : List Char → Option (Int × List Char)
    | h₁ :: h₂ :: rest => do
      let hours ← Number.ofDecimal? [h₁, h₂]
      match rest.dropWhile fun c => c == ':' || Text.isBlank c with
      | m₁ :: m₂ :: rest => do
        let minutes ← Number.ofDecimal? [m₁, m₂]
        if minutes ≤ 59 then
          let offset : Int := hours * 3600 + minutes * 60
          some (if negative then -offset else offset, rest)
        else none
      | _ => none
    | _ => none
  match text with
  | c :: rest =>
    if (text.take 3).map Char.toUpper = ['U', 'T', 'C'] then some (0, text.drop 3)
    else if c = 'Z' ∨ c = 'z' then some (0, rest)
    else if c = '+' then numeric false rest
    else if c = '-' ∨ c = '\u2212' then numeric true rest
    else none
  | [] => none

/-- The first and the last year that a stamp can name, in its own zone and at offset zero. -/
def inStampYears (year : Int) : Bool :=
  -262143 ≤ year && year ≤ 262142

/-- The stamp that a text spells. -/
def Stamp.ofInternetText? (text : String) : Option Stamp := do
  let (year, rest) ← leadingYear? text.toList
  let rest ← afterMark? '-' rest
  let (month, rest) ← leadingInRange? 1 12 rest
  let rest ← afterMark? '-' rest
  let (day, rest) ← leadingInRange? 1 31 rest
  let rest ← match rest with
    | c :: rest => if c = 'T' ∨ c = 't' ∨ c = ' ' then some rest else none
    | [] => none
  let (hour, rest) ← leadingInRange? 0 23 rest
  let rest ← afterMark? ':' rest
  let (minute, rest) ← leadingInRange? 0 59 rest
  let rest ← afterMark? ':' rest
  let (second, rest) ← leadingInRange? 0 60 rest
  let (nanos, rest) ← leadingFraction? rest
  let (offset, rest) ← leadingOffset? (Text.trimStart rest)
  let date : Date := ⟨year, month, day⟩
  let (second, nanos) := if second = 60 then (59, nanos + 1000000000) else (second, nanos)
  let stamp := Stamp.ofClock ⟨date, hour, minute, second, nanos⟩ offset
  let inYears := inStampYears year && inStampYears (Date.ofDayNumber (stamp.seconds / 86400)).year
  if (Text.trimStart rest).isEmpty && date.isValid && inYears && offset.natAbs < 86400 then
    some stamp
  else none

end CimBroker.Time
