/-
# CimBroker.Number.Decimal — floating-point numbers as decimal text

*Writing.* A finite word is written with the fewest decimal digits that read back as the same word;
among the numbers with that many digits the nearest is taken.  The reals that round to the word form
an interval around its value, whose ends belong to it exactly when the significand is even.  For one
digit, two digits, and so on, the two neighbours of the value on that decimal grid are tested
against the interval, and the first grid with a neighbour inside decides.  When both neighbours are
inside and equally near, `Tie` says which one is taken.

Two notations are built on these digits: `plain` never uses an exponent, and `scientific` uses one
for very large and very small numbers, as JSON numbers do here.

*Reading.* `Number.double?` reads an optional sign and then `inf`, `infinity`, `nan` in any case, or
digits with an optional point and an optional exponent, and rounds correctly.

`Binary.shortest` finds the digits; `CimBroker.Proofs.ShortestDecimals` shows that they tell words
apart.  Nothing is said on how fast this is: the search is the definition, not a table of powers.
-/
import CimBroker.Number.Binary

namespace CimBroker.Number

/-- Which of two equally near neighbours is taken. -/
inductive Tie where
  | up
  | toEven
  deriving DecidableEq, Repr

/-- Decimal digits: the number is `coefficient · 10 ^ exponent`. -/
structure Digits where
  coefficient : Nat
  exponent : Int
  deriving DecidableEq, Repr

/-- The reals that round to a finite word other than zero, measured in quarters of
`2 ^ power`: the value, the lower and the upper end, and whether the ends belong to it. -/
structure Rounding where
  value : Nat
  low : Nat
  high : Nat
  closed : Bool
  power : Int
  deriving Repr

namespace Binary

variable {f : FloatFormat}

/-- The interval of reals that round to the word.  Below a power of two the words lie twice as
dense, so the lower end is nearer there. -/
def rounding (x : Binary f) : Rounding :=
  let m := x.significand
  let narrow := x.fractionField = 0 ∧ 1 < x.exponentField
  { value := 4 * m
    low := if narrow then 4 * m - 1 else 4 * m - 2
    high := 4 * m + 2
    closed := m % 2 = 0
    power := x.power - 2 }

end Binary

namespace Rounding

/-- Whether `n · 10 ^ e` lies in the interval. -/
def covers (r : Rounding) (n : Nat) (e : Int) : Bool :=
  let middle := n * 10 ^ e.toNat * 2 ^ (-r.power).toNat
  let unit := 10 ^ (-e).toNat * 2 ^ r.power.toNat
  if r.closed then r.low * unit ≤ middle && middle ≤ r.high * unit
  else r.low * unit < middle && middle < r.high * unit

/-- The digits on the grid of step `10 ^ e` that read back, if there are any: the nearer neighbour
of the value, or the only one inside the interval. -/
def onGrid? (r : Rounding) (tie : Tie) (e : Int) : Option Digits :=
  let num := r.value * 2 ^ r.power.toNat * 10 ^ (-e).toNat
  let den := 2 ^ (-r.power).toNat * 10 ^ e.toNat
  let down := num / den
  let up := if num % den = 0 then down else down + 1
  let upNearer :=
    let twice := 2 * (num % den)
    twice > den || (twice == den && (tie == .up || down % 2 == 1))
  match r.covers down e, r.covers up e with
  | true, true => some ⟨if upNearer then up else down, e⟩
  | true, false => some ⟨down, e⟩
  | false, true => some ⟨up, e⟩
  | false, false => none

/-- The first grid, from step `10 ^ e` downwards, that has digits which read back. -/
def search (r : Rounding) (tie : Tie) : Nat → Int → Digits
  | 0, e => ⟨0, e⟩
  | n + 1, e =>
    match r.onGrid? tie e with
    | some d => d
    | none => search r tie n (e - 1)

/-- The exponent of the largest power of ten that is at most the value. -/
def decimalOrder (r : Rounding) : Int :=
  let num := r.value * 2 ^ r.power.toNat
  let den := 2 ^ (-r.power).toNat
  if den ≤ num then ((decimal (num / den)).length : Int) - 1
  else -((decimal (den / num)).length : Int)

end Rounding

/-- The number without trailing zeros in its coefficient. -/
def Digits.stripped (d : Digits) : Digits :=
  let ds := decimal d.coefficient
  let kept := (ds.reverse.dropWhile (· == '0')).reverse
  ⟨d.coefficient / 10 ^ (ds.length - kept.length), d.exponent + (ds.length - kept.length : Nat)⟩

/-- The fewest digits that read back as the given finite word other than zero.  Seventeen digits
are enough for 64-bit words; the search starts a place above the first digit. -/
def Binary.shortest {f : FloatFormat} (x : Binary f) (tie : Tie) : Digits :=
  let r := x.rounding
  (r.search tie 20 (r.decimalOrder + 1)).stripped

/-- Digits in positional notation, without a point when there is no fraction. -/
def Digits.positional (d : Digits) : List Char :=
  let ds := decimal d.coefficient
  let point := (ds.length : Int) + d.exponent
  if 0 ≤ d.exponent then ds ++ List.replicate d.exponent.toNat '0'
  else if 0 < point then ds.take point.toNat ++ ['.'] ++ ds.drop point.toNat
  else ['0', '.'] ++ List.replicate (-point).toNat '0' ++ ds

/-- The text of a floating-point word in positional notation: the fewest digits, no exponent, no
fraction for whole numbers. -/
def Binary.plain {f : FloatFormat} (x : Binary f) : List Char :=
  let sign := if x.negative then ['-'] else []
  if x.isNaN then "NaN".toList
  else if x.isInfinite then sign ++ "inf".toList
  else if x.isZero then sign ++ ['0']
  else sign ++ (x.shortest .up).positional

/-- Digits with one place before the point and an exponent that carries its sign. -/
def Digits.withExponent (d : Digits) : List Char :=
  let ds := decimal d.coefficient
  let order := (ds.length : Int) + d.exponent - 1
  let fraction := ds.drop 1
  ds.take 1 ++ (if fraction.isEmpty then [] else '.' :: fraction) ++ ['e'] ++
    (if order < 0 then ['-'] else ['+']) ++ decimal order.natAbs

/-- The text of a finite word as a JSON number: positional with at least one decimal when the first
digit stands between the fifth decimal and the fifteenth power of ten, and with an exponent
otherwise. -/
def Binary.scientific {f : FloatFormat} (x : Binary f) : List Char :=
  let sign := if x.negative then ['-'] else []
  if x.isZero then sign ++ "0.0".toList
  else
    let d := x.shortest .toEven
    let order := ((decimal d.coefficient).length : Int) + d.exponent - 1
    if -5 ≤ order ∧ order ≤ 15 then
      sign ++ d.positional ++ (if 0 ≤ d.exponent then ['.', '0'] else [])
    else sign ++ d.withExponent

/-! ## Reading -/

/-- The parts of a decimal number in text: digits before and after the point, and an exponent. -/
structure Numeral where
  whole : List Char
  fraction : List Char
  exponent : Int
  deriving DecidableEq, Repr

/-- An exponent: the rest of the text after `e` or `E`, an optional sign and at least one digit. -/
def exponent? : List Char → Option Int
  | [] => some 0
  | c :: cs =>
    if c = 'e' ∨ c = 'E' then
      match cs with
      | '-' :: ds => (ofDecimal? ds).map fun n => -(n : Int)
      | '+' :: ds => (ofDecimal? ds).map fun n => (n : Int)
      | ds => (ofDecimal? ds).map fun n => (n : Int)
    else none

/-- Digits with an optional point, at least one of them, and an optional exponent. -/
def numeral? (cs : List Char) : Option Numeral :=
  let whole := cs.takeWhile isDigit
  let afterWhole := cs.dropWhile isDigit
  let (fraction, rest) :=
    match afterWhole with
    | '.' :: tail => (tail.takeWhile isDigit, tail.dropWhile isDigit)
    | other => ([], other)
  if whole.isEmpty && fraction.isEmpty then none
  else (exponent? rest).map fun e => ⟨whole, fraction, e⟩

/-- The 64-bit word nearest to a decimal number.  Numbers of more than 400 places before the point
exceed every finite word, and numbers that start more than 400 places after it are nearer to zero
than to any other word. -/
def Numeral.toDouble (negative : Bool) (n : Numeral) : Double :=
  let ds := (n.whole ++ n.fraction).dropWhile (· == '0')
  let e := n.exponent - n.fraction.length
  let order := e + ds.length
  let coefficient := (ofDecimal? ds).getD 0
  if ds.isEmpty ∨ order < -400 then Binary.ofBits negative 0
  else if order > 400 then Binary.infinity negative
  else Binary.ofRatio negative (coefficient * 10 ^ e.toNat) (10 ^ (-e).toNat)

/-- A floating-point number without its sign. -/
def unsignedDouble? (negative : Bool) (cs : List Char) : Option Double :=
  let folded := cs.map Char.toLower
  if folded = "inf".toList ∨ folded = "infinity".toList then some (Binary.infinity negative)
  else if folded = "nan".toList then some Binary.nan
  else (numeral? cs).map fun n => n.toDouble negative

/-- The floating-point number that a text spells. -/
def double? : List Char → Option Double
  | '-' :: cs => unsignedDouble? true cs
  | '+' :: cs => unsignedDouble? false cs
  | cs => unsignedDouble? false cs

end CimBroker.Number
