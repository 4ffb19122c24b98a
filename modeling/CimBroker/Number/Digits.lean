/-
# CimBroker.Number.Digits — natural numbers in positional notation

Writing and reading natural numbers in a base of at most sixteen.  Writing uses lower-case digits
and no leading zero; reading takes digits of either case and any number of leading zeros, and
refuses an empty text.  The main statement is that reading undoes writing (`ofDigits?_digits`).

`padded` fills a column of fixed width, and `decimalInt` writes an integer with its sign.  Digits of
other scripts are not read.
-/

namespace CimBroker.Number

-- powers are those of the core library, also where a library brings powers of its own
attribute [instance (high), default_instance (high + 1)] instPowNat

/-- The digits of `n` in base `base`, most significant first.  Bases below two have no positional
notation; there the text is one digit. -/
def digits (base n : Nat) : List Char :=
  if h : base < 2 ∨ n < base then [n.digitChar]
  else
    have : n / base < n := Nat.div_lt_self (by omega) (by omega)
    digits base (n / base) ++ [(n % base).digitChar]
  termination_by n

/-- The decimal digits of `n`. -/
def decimal (n : Nat) : List Char :=
  digits 10 n

/-- The number that a digit stands for, if it is one in base `base`. -/
def digit? (base : Nat) (c : Char) : Option Nat :=
  let n := c.toNat
  let value :=
    if 48 ≤ n ∧ n ≤ 57 then n - 48
    else if 97 ≤ n ∧ n ≤ 122 then n - 87
    else if 65 ≤ n ∧ n ≤ 90 then n - 55
    else base
  if value < base then some value else none

/-- The digits read on top of the number read so far. -/
def extend? (base : Nat) : Nat → List Char → Option Nat
  | acc, [] => some acc
  | acc, c :: cs => (digit? base c).bind fun d => extend? base (acc * base + d) cs

/-- The number that a non-empty row of digits stands for. -/
def ofDigits? (base : Nat) : List Char → Option Nat
  | [] => none
  | c :: cs => extend? base 0 (c :: cs)

/-- The number that a non-empty row of decimal digits stands for. -/
def ofDecimal? (cs : List Char) : Option Nat :=
  ofDigits? 10 cs

/-- Whether a character is a decimal digit. -/
def isDigit (c : Char) : Bool :=
  48 ≤ c.toNat && c.toNat ≤ 57

/-- The digits of `n`, with zeros in front up to `width` of them. -/
def padded (width n : Nat) : List Char :=
  let ds := decimal n
  List.replicate (width - ds.length) '0' ++ ds

/-- An integer in decimal, a minus sign before the digits of a negative one. -/
def decimalInt (n : Int) : List Char :=
  if n < 0 then '-' :: decimal n.natAbs else decimal n.natAbs

theorem digit?_digitChar {base d : Nat} (hd : d < base) (hb : base ≤ 16) :
    digit? base d.digitChar = some d := by
  have hd16 : d < 16 := by omega
  have key : ∀ d, d < 16 →
      (let n := d.digitChar.toNat
       if 48 ≤ n ∧ n ≤ 57 then n - 48
       else if 97 ≤ n ∧ n ≤ 122 then n - 87
       else if 65 ≤ n ∧ n ≤ 90 then n - 55
       else 16) = d := by decide
  have hk := key d hd16
  simp only [digit?]
  simp only at hk
  split at hk <;> rename_i h1
  · simp only [h1, and_self, if_true, hk, hd]
  · split at hk <;> rename_i h2
    · simp only [h1, h2, and_self, if_true, if_false, hk, hd]
    · split at hk <;> rename_i h3
      · simp only [h1, h2, h3, and_self, if_true, if_false, hk, hd]
      · omega

theorem extend?_append (base : Nat) (xs ys : List Char) (acc : Nat) :
    extend? base acc (xs ++ ys) = (extend? base acc xs).bind fun n => extend? base n ys := by
  induction xs generalizing acc with
  | nil => simp [extend?]
  | cons c xs ih =>
    simp only [List.cons_append, extend?]
    cases digit? base c with
    | none => simp
    | some d => simp [ih]

theorem digits_ne_nil (base n : Nat) : digits base n ≠ [] := by
  rw [digits]
  split <;> simp

theorem ofDigits?_eq_extend? {base : Nat} {cs : List Char} (h : cs ≠ []) :
    ofDigits? base cs = extend? base 0 cs := by
  cases cs with
  | nil => exact absurd rfl h
  | cons c cs => rfl

/-- Reading the digits of a number gives the number. -/
theorem ofDigits?_digits {base : Nat} (h2 : 2 ≤ base) (h16 : base ≤ 16) (n : Nat) :
    ofDigits? base (digits base n) = some n := by
  rw [ofDigits?_eq_extend? (digits_ne_nil base n)]
  induction n using Nat.strongRecOn with
  | ind n ih =>
    rw [digits]
    split
    · next h =>
      have hn : n < base := by omega
      simp [extend?, digit?_digitChar hn h16]
    · next h =>
      have hlt : n / base < n := Nat.div_lt_self (by omega) (by omega)
      have hmod : n % base < base := Nat.mod_lt _ (by omega)
      rw [extend?_append, ih _ hlt]
      simp [extend?, digit?_digitChar hmod h16, Nat.div_add_mod']

end CimBroker.Number
