/-
# CimBroker.Number.Binary — binary floating-point words

A floating-point value is its word: a sign bit, an exponent field and a fraction field, as in the
interchange formats of IEEE 754.  A finite word stands for an exact rational number `± significand ·
2 ^ power`; all that is computed here is computed on those integers, so no result depends on the
arithmetic of a machine.

`Binary.ofRatio` rounds a quotient of naturals to the nearest word, ties to the even significand;
converting between widths, from an integer and from decimal text all go through it.

Of arithmetic there is only what the rest needs: no sums, products or roots, no signalling values
and no other rounding than to the nearest word.
-/
import CimBroker.Number.Word

namespace CimBroker.Number

/-- The field widths of a floating-point format. -/
structure FloatFormat where
  exponentBits : Nat
  fractionBits : Nat
  deriving DecidableEq, Repr

/-- The number of bits of a word of the format. -/
@[reducible] def FloatFormat.bits (f : FloatFormat) : Nat :=
  1 + f.exponentBits + f.fractionBits

/-- Words of 32 bits. -/
@[reducible] def FloatFormat.single : FloatFormat := ⟨8, 23⟩

/-- Words of 64 bits. -/
@[reducible] def FloatFormat.double : FloatFormat := ⟨11, 52⟩

/-- A floating-point word. -/
structure Binary (f : FloatFormat) where
  word : BitVec f.bits
  deriving DecidableEq, Repr

abbrev Single := Binary .single

abbrev Double := Binary .double

namespace FloatFormat

/-- The exponent field of infinities and of words that are not a number. -/
def specialField (f : FloatFormat) : Nat := 2 ^ f.exponentBits - 1

/-- The power of two that one unit of the least significand stands for. -/
def leastPower (f : FloatFormat) : Int := 2 - 2 ^ (f.exponentBits - 1) - f.fractionBits

/-- The magnitude bits of infinity. -/
def infinityBits (f : FloatFormat) : Nat := f.specialField * 2 ^ f.fractionBits

end FloatFormat

namespace Binary

variable {f : FloatFormat}

/-- The bits other than the sign. -/
def magnitudeBits (x : Binary f) : Nat :=
  x.word.toNat % 2 ^ (f.exponentBits + f.fractionBits)

/-- Whether the sign bit is set. -/
def negative (x : Binary f) : Bool :=
  2 ^ (f.exponentBits + f.fractionBits) ≤ x.word.toNat

/-- The exponent field. -/
def exponentField (x : Binary f) : Nat :=
  x.magnitudeBits / 2 ^ f.fractionBits

/-- The fraction field. -/
def fractionField (x : Binary f) : Nat :=
  x.magnitudeBits % 2 ^ f.fractionBits

def isNaN (x : Binary f) : Bool :=
  f.infinityBits < x.magnitudeBits

def isInfinite (x : Binary f) : Bool :=
  x.magnitudeBits == f.infinityBits

def isFinite (x : Binary f) : Bool :=
  x.magnitudeBits < f.infinityBits

def isZero (x : Binary f) : Bool :=
  x.magnitudeBits == 0

/-- The significand of a finite word. -/
def significand (x : Binary f) : Nat :=
  if x.exponentField = 0 then x.fractionField else 2 ^ f.fractionBits + x.fractionField

/-- The power of two that multiplies the significand of a finite word. -/
def power (x : Binary f) : Int :=
  f.leastPower + (x.exponentField - 1 : Nat)

/-- The word with a given sign and given other bits. -/
def ofBits (negative : Bool) (magnitude : Nat) : Binary f :=
  ⟨BitVec.ofNat f.bits
    ((if negative then 2 ^ (f.exponentBits + f.fractionBits) else 0) + magnitude)⟩

def zero : Binary f := ofBits false 0

def infinity (negative : Bool) : Binary f := ofBits negative f.infinityBits

/-- The word used where an operation has no number to return. -/
def nan : Binary f := ofBits false (f.infinityBits + 2 ^ (f.fractionBits - 1))

/-- Equality of numbers: a word that is not a number equals nothing, and the two zeros are equal. -/
def sameNumber (x y : Binary f) : Bool :=
  !x.isNaN && !y.isNaN && (x.word == y.word || (x.isZero && y.isZero))

/-- The numerator and denominator of `n · 2 ^ p`. -/
def scaled (n : Nat) (p : Int) : Nat × Nat :=
  (n * 2 ^ p.toNat, 2 ^ (-p).toNat)

/-- The absolute value of a finite word as a quotient of naturals. -/
def ratio (x : Binary f) : Nat × Nat :=
  scaled x.significand x.power

/-- The quotient `num / den` rounded to an integer, ties to the even one. -/
def divideToEven (num den : Nat) : Nat :=
  let q := num / den
  let twice := 2 * (num % den)
  if twice < den then q
  else if twice > den then q + 1
  else if q % 2 = 0 then q else q + 1

/-- The exponent of the largest power of two that is at most `num / den`. -/
def binaryOrder (num den : Nat) : Int :=
  let guess : Int := (num.log2 : Int) - den.log2
  if den * 2 ^ guess.toNat ≤ num * 2 ^ (-guess).toNat then guess else guess - 1

/-- The word nearest to `± num / den`, ties to the even significand; magnitudes beyond the greatest
finite word by half a unit or more become infinite. -/
def ofRatio (negative : Bool) (num den : Nat) : Binary f :=
  if num = 0 then ofBits negative 0
  else
    let order := binaryOrder num den
    let unit := max (order - f.fractionBits) f.leastPower
    let rounded := divideToEven (num * 2 ^ (-unit).toNat) (den * 2 ^ unit.toNat)
    let magnitude := (unit - f.leastPower).toNat * 2 ^ f.fractionBits + rounded
    ofBits negative (min magnitude f.infinityBits)

/-- The word of another format nearest to this one. -/
def convert {g : FloatFormat} (x : Binary f) : Binary g :=
  if x.isNaN then nan
  else if x.isInfinite then infinity x.negative
  else ofRatio x.negative x.ratio.1 x.ratio.2

/-- The word nearest to an integer. -/
def ofInt (n : Int) : Binary f :=
  ofRatio (n < 0) n.natAbs 1

end Binary

/-- The 64-bit word with the same value. -/
def Binary.widen (x : Single) : Double := x.convert

/-- The 32-bit word nearest to a 64-bit one. -/
def Binary.narrow (x : Double) : Single := x.convert

end CimBroker.Number
