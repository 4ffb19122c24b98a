/-
# CimBroker.Number.Word — integers of 8 to 64 bits

A word is a row of bits of one of four widths, read as a signed or as an unsigned number.  Keeping
the bits and the reading apart makes "the same bits, read the other way" the identity, which is how
an unsigned 32-bit number travels in a signed slot.

The module also reads integers from text: an optional sign, an optional `0x`, and digits of that
base.  The digits are read as a signed number of 128 bits, which takes a sign of its own and has a
largest value.

`Number.word?` makes a word of an integer in its range, and
`Number.word?_wordValue` and `Number.wordValue_of_word?` say that this and `Number.wordValue` undo
each other.  `Number.integer?` is the reader.  Arithmetic on words is left out: nothing here adds or
wraps.
-/
import CimBroker.Number.Digits
import CimBroker.Text.Blank

namespace CimBroker.Number

/-- The widths a word can have. -/
inductive Width where
  | w8
  | w16
  | w32
  | w64
  deriving DecidableEq, Repr, Inhabited

/-- Every width. -/
def Width.all : List Width := [.w8, .w16, .w32, .w64]

/-- The number of bits of a width. -/
@[reducible] def Width.bits : Width → Nat
  | .w8 => 8
  | .w16 => 16
  | .w32 => 32
  | .w64 => 64

/-- The number a word stands for. -/
def wordValue (signed : Bool) {n : Nat} (word : BitVec n) : Int :=
  if signed then word.toInt else word.toNat

/-- The least number of a width. -/
def leastWord (signed : Bool) (width : Width) : Int :=
  if signed then -(2 ^ (width.bits - 1)) else 0

/-- The greatest number of a width. -/
def greatestWord (signed : Bool) (width : Width) : Int :=
  if signed then 2 ^ (width.bits - 1) - 1 else 2 ^ width.bits - 1

/-- The word that stands for a number, if the width holds it. -/
def word? (signed : Bool) (width : Width) (n : Int) : Option (BitVec width.bits) :=
  if leastWord signed width ≤ n ∧ n ≤ greatestWord signed width then
    some (BitVec.ofInt width.bits n)
  else none

/-- A word that stands for a number in the range of the width is the word of that number. -/
theorem word?_wordValue (signed : Bool) (width : Width) (word : BitVec width.bits) :
    word? signed width (wordValue signed word) = some word := by
  have hlt := word.isLt
  cases signed with
  | false =>
    have hofInt : BitVec.ofInt width.bits (word.toNat : Int) = word := by
      simp
    have hin : leastWord false width ≤ (word.toNat : Int) ∧
        (word.toNat : Int) ≤ greatestWord false width := by
      simp only [leastWord, greatestWord, Bool.false_eq_true, if_false]
      have : ((2 ^ width.bits : Nat) : Int) = 2 ^ width.bits := by simp
      omega
    simp only [word?, wordValue, Bool.false_eq_true, if_false, hin, and_self, if_true, hofInt]
  | true =>
    have hofInt : BitVec.ofInt width.bits word.toInt = word := by simp
    have hin : leastWord true width ≤ word.toInt ∧ word.toInt ≤ greatestWord true width := by
      have hlo := BitVec.le_toInt word
      have hhi := BitVec.toInt_lt (x := word)
      simp only [leastWord, greatestWord, if_true]
      omega
    simp only [word?, wordValue, if_true, hin, and_self, hofInt]

/-- The number a word made from a number stands for, when the width holds it. -/
theorem wordValue_of_word? {signed : Bool} {width : Width} {n : Int} {word : BitVec width.bits}
    (h : word? signed width n = some word) : wordValue signed word = n := by
  simp only [word?] at h
  split at h
  · next hin =>
    simp only [Option.some.injEq] at h
    subst h
    cases signed <;> cases width <;>
      simp only [leastWord, greatestWord, Width.bits, wordValue, Bool.false_eq_true, if_false,
        if_true] at hin ⊢
    all_goals
      first
        | (rw [BitVec.toInt_ofInt]; simp only [Int.bmod]; omega)
        | (rw [BitVec.toNat_ofInt]; omega)
  · simp at h

/-- The greatest number that reading from text can yield. -/
def greatestRead : Int := 2 ^ 127 - 1

/-- The least number that reading from text can yield. -/
def leastRead : Int := -(2 ^ 127)

/-- A number in the range of reading, or nothing. -/
def inReach? (n : Int) : Option Int :=
  if leastRead ≤ n ∧ n ≤ greatestRead then some n else none

/-- Digits of a base after at most one sign. -/
def signedDigits? (base : Nat) : List Char → Option Int
  | '-' :: cs => (ofDigits? base cs).bind fun n => inReach? (-(n : Int))
  | '+' :: cs => (ofDigits? base cs).bind fun n => inReach? n
  | cs => (ofDigits? base cs).bind fun n => inReach? n

/-- The number spelled after an outer sign: hexadecimal after `0x` or `0X`, decimal otherwise. -/
def magnitude? : List Char → Option Int
  | '0' :: 'x' :: cs => signedDigits? 16 cs
  | '0' :: 'X' :: cs => signedDigits? 16 cs
  | cs => signedDigits? 10 cs

/-- The integer a text spells, blanks around it aside: an outer sign, then a magnitude that may
carry a sign of its own. -/
def integer? (text : List Char) : Option Int :=
  match Text.trim text with
  | '-' :: cs => (magnitude? cs).map fun n => -n
  | '+' :: cs => magnitude? cs
  | cs => magnitude? cs

end CimBroker.Number
