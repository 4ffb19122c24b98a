/-
# CimBroker.Time.Duration — lengths of time and their text

A duration counts nanoseconds.  Its text uses the largest unit of seconds, milliseconds,
microseconds and nanoseconds that is not longer than the duration, with as many decimals as the
duration needs: sixty seconds are `60s`, one and a half milliseconds `1.5ms`, nothing at all `0ns`.

`Duration.text` is that text.  Durations are not read, and have no upper bound.
-/
import CimBroker.Number.Digits

namespace CimBroker.Time

/-- A length of time, in nanoseconds. -/
structure Duration where
  nanos : Nat
  deriving DecidableEq, Repr, Inhabited

namespace Duration

def ofMillis (n : Nat) : Duration := ⟨n * 1000000⟩

def ofSeconds (n : Nat) : Duration := ⟨n * 1000000000⟩

/-- A count of nanoseconds in a unit of `10 ^ places` of them, with the decimals it needs. -/
def inUnit (places nanos : Nat) : List Char :=
  let whole := Number.decimal (nanos / 10 ^ places)
  let decimals := Number.padded places (nanos % 10 ^ places)
  let kept := (decimals.reverse.dropWhile (· == '0')).reverse
  if kept.isEmpty then whole else whole ++ '.' :: kept

/-- The text of a duration. -/
def text (d : Duration) : String :=
  if 10 ^ 9 ≤ d.nanos then String.ofList (inUnit 9 d.nanos) ++ "s"
  else if 10 ^ 6 ≤ d.nanos then String.ofList (inUnit 6 d.nanos) ++ "ms"
  else if 10 ^ 3 ≤ d.nanos then String.ofList (inUnit 3 d.nanos) ++ "µs"
  else String.ofList (inUnit 0 d.nanos) ++ "ns"

end Duration

end CimBroker.Time
