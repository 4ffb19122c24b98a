/-
# CimBroker.Proofs.Numerals — numbers in decimal, written and read back

Decimal digits are neither blanks nor signs nor the `x` of a hexadecimal prefix, so the reader of
integers sees nothing but digits in what was written.  Numbers with zeros in front of them, as they
stand in fixed columns, read back as well.

`Number.integer?_decimalInt` and `Number.ofDecimal?_padded` are what other modules need of this.
Other bases are left to `CimBroker.Number.Digits`.
-/
import CimBroker.Number.Word
import CimBroker.Proofs.Cutting

namespace CimBroker.Number

/-! ## What digits are -/

/-- The characters of decimal digits. -/
theorem digitChar_toNat {d : Nat} (hd : d < 10) : d.digitChar.toNat = 48 + d := by
  have hall : ∀ d < 10, d.digitChar.toNat = 48 + d := by decide
  exact hall d hd

theorem isDigit_digitChar {d : Nat} (hd : d < 10) : isDigit d.digitChar = true := by
  have hcode := digitChar_toNat hd
  unfold isDigit
  rw [Bool.and_eq_true, decide_eq_true_eq, decide_eq_true_eq]
  omega

/-- A number is written with digits only. -/
theorem isDigit_of_mem_decimal (n : Nat) : ∀ c ∈ decimal n, isDigit c = true := by
  unfold decimal
  induction n using Nat.strongRecOn with
  | ind n ih =>
    intro c hc
    rw [digits] at hc
    split at hc
    · next h =>
      rw [List.mem_singleton] at hc
      rw [hc]
      exact isDigit_digitChar (by omega)
    · next h =>
      have hlt : n / 10 < n := Nat.div_lt_self (by omega) (by omega)
      rcases List.mem_append.mp hc with hfront | hlast
      · exact ih _ hlt c hfront
      · rw [List.mem_singleton] at hlast
        rw [hlast]
        exact isDigit_digitChar (Nat.mod_lt n (by omega))

/-- A digit is no blank. -/
theorem not_blank_of_isDigit {c : Char} (h : isDigit c = true) : Text.isBlank c = false := by
  unfold isDigit at h
  rw [Bool.and_eq_true, decide_eq_true_eq, decide_eq_true_eq] at h
  unfold Text.isBlank
  simp only [Bool.or_eq_false_iff, Bool.and_eq_false_iff, decide_eq_false_iff_not,
    beq_eq_false_iff_ne]
  omega

/-- A character that is no digit is none of the digits. -/
theorem ne_of_isDigit {c d : Char} (hc : isDigit c = true) (hd : isDigit d = false) : c ≠ d := by
  rintro rfl
  exact absurd (hc.symm.trans hd) (by decide)

/-! ## Integers read back -/

/-- A number is written with a first digit. -/
theorem decimal_eq_cons (n : Nat) :
    ∃ c cs, decimal n = c :: cs ∧ isDigit c = true ∧ ∀ d ∈ cs, isDigit d = true := by
  obtain ⟨c, cs, hcs⟩ := List.exists_cons_of_ne_nil (digits_ne_nil 10 n)
  have hall := isDigit_of_mem_decimal n
  rw [show decimal n = c :: cs from hcs] at hall
  exact ⟨c, cs, hcs, hall c List.mem_cons_self, fun d hd => hall d (List.mem_cons_of_mem c hd)⟩

/-- Digits without a sign in front of them are read as they stand. -/
theorem signedDigits?_decimal {n : Nat} (h : n < 2 ^ 127) :
    signedDigits? 10 (decimal n) = some (n : Int) := by
  have hread : ofDigits? 10 (decimal n) = some n := ofDigits?_digits (by omega) (by omega) n
  have hreach : inReach? (n : Int) = some (n : Int) := by
    unfold inReach? leastRead greatestRead
    rw [if_pos (by omega)]
  obtain ⟨c, cs, hcs, hc, -⟩ := decimal_eq_cons n
  rw [hcs] at hread ⊢
  -- neither sign is a digit, so the third case is the one
  unfold signedDigits?
  split
  · next heq => exact absurd (List.cons.inj heq).1 (ne_of_isDigit hc (by decide))
  · next heq => exact absurd (List.cons.inj heq).1 (ne_of_isDigit hc (by decide))
  · rw [hread, Option.bind_some, hreach]

/-- Digits are not taken for a hexadecimal prefix. -/
theorem magnitude?_decimal {n : Nat} (h : n < 2 ^ 127) :
    magnitude? (decimal n) = some (n : Int) := by
  have hsigned := signedDigits?_decimal h
  -- the prefix has its letter in the second place, where a number has a digit or nothing
  obtain ⟨c, cs, hcs, -, hrest⟩ := decimal_eq_cons n
  rw [hcs] at hsigned ⊢
  unfold magnitude?
  split
  · next heq =>
    have hx : isDigit 'x' = true :=
      hrest 'x' (by rw [(List.cons.inj heq).2]; exact List.mem_cons_self)
    exact absurd hx (by decide)
  · next heq =>
    have hx : isDigit 'X' = true :=
      hrest 'X' (by rw [(List.cons.inj heq).2]; exact List.mem_cons_self)
    exact absurd hx (by decide)
  · exact hsigned

/-- **`integer?` reads back what `decimalInt` writes**, as long as the reader reaches that far. -/
theorem integer?_decimalInt {n : Int} (h : n.natAbs < 2 ^ 127) :
    integer? (decimalInt n) = some n := by
  have hmagnitude := magnitude?_decimal h
  have hdigits := isDigit_of_mem_decimal n.natAbs
  unfold integer? decimalInt
  by_cases hneg : n < 0
  · have htrim : Text.trim ('-' :: decimal n.natAbs) = '-' :: decimal n.natAbs := by
      apply Text.trim_eq_self
      intro c hc
      rcases List.mem_cons.mp hc with rfl | hc
      · decide
      · exact not_blank_of_isDigit (hdigits c hc)
    rw [if_pos hneg, htrim]
    show (magnitude? (decimal n.natAbs)).map (fun n => -n) = some n
    rw [hmagnitude, Option.map_some]
    congr 1
    omega
  · have htrim : Text.trim (decimal n.natAbs) = decimal n.natAbs :=
      Text.trim_eq_self fun c hc => not_blank_of_isDigit (hdigits c hc)
    rw [if_neg hneg, htrim]
    obtain ⟨c, cs, hcs, hc, -⟩ := decimal_eq_cons n.natAbs
    rw [hcs] at hmagnitude ⊢
    split
    · next heq => exact absurd (List.cons.inj heq).1 (ne_of_isDigit hc (by decide))
    · next heq => exact absurd (List.cons.inj heq).1 (ne_of_isDigit hc (by decide))
    · rw [hmagnitude]
      congr 1
      omega

/-! ## Fixed columns -/

/-- The digits of a number below a power of the base are no more than its exponent. -/
theorem length_digits_le {base width n : Nat} (hw : 1 ≤ width) (h : n < base ^ width) :
    (digits base n).length ≤ width := by
  induction width generalizing n with
  | zero => omega
  | succ width ih =>
    rw [digits]
    split
    · simp
    · next hmore =>
      -- more than one digit does not fit a single place
      have hpositive : 1 ≤ width := by
        rcases width with _ | width
        · simp at h
          omega
        · omega
      have hfewer : n / base < base ^ width := by
        rw [Nat.pow_succ] at h
        exact Nat.div_lt_of_lt_mul (Nat.mul_comm _ _ ▸ h)
      have hlength := ih hpositive hfewer
      rw [List.length_append, List.length_singleton]
      omega

theorem length_decimal_le {width n : Nat} (hw : 1 ≤ width) (h : n < 10 ^ width) :
    (decimal n).length ≤ width :=
  length_digits_le hw h

/-- A number below a power of ten fills a column exactly. -/
theorem length_padded {width n : Nat} (hw : 1 ≤ width) (h : n < 10 ^ width) :
    (padded width n).length = width := by
  have hlength := length_decimal_le hw h
  unfold padded
  rw [List.length_append, List.length_replicate]
  omega

/-- A column holds digits only. -/
theorem isDigit_of_mem_padded {width n : Nat} : ∀ c ∈ padded width n, isDigit c = true := by
  intro c hc
  rcases List.mem_append.mp hc with hzero | hdigit
  · rw [List.eq_of_mem_replicate hzero]
    rfl
  · exact isDigit_of_mem_decimal n c hdigit

/-- Zeros in front of digits do not count. -/
theorem ofDigits?_replicate_zero {base : Nat} (h2 : 2 ≤ base) (h16 : base ≤ 16) (k n : Nat) :
    ofDigits? base (List.replicate k '0' ++ digits base n) = some n := by
  have hne := digits_ne_nil base n
  have hread := ofDigits?_digits h2 h16 n
  rw [ofDigits?_eq_extend? hne] at hread
  rw [ofDigits?_eq_extend? (List.append_ne_nil_of_right_ne_nil _ hne)]
  induction k with
  | zero => exact hread
  | succ k ih =>
    have hzero : digit? base (Nat.digitChar 0) = some 0 := digit?_digitChar (by omega) h16
    change digit? base '0' = some 0 at hzero
    rw [List.replicate_succ, List.cons_append, extend?, hzero, Option.bind_some, Nat.zero_mul]
    exact ih

/-- **`ofDecimal?` reads a `padded` column back** as the number that it holds. -/
theorem ofDecimal?_padded (width n : Nat) : ofDecimal? (padded width n) = some n :=
  ofDigits?_replicate_zero (by omega) (by omega) _ n

/-- A decimal digit stands for less than ten. -/
theorem lt_of_digit? {base d : Nat} {c : Char} (h : digit? base c = some d) : d < base := by
  unfold digit? at h
  obtain ⟨hlt, hd⟩ := Option.ite_none_right_eq_some.mp h
  rw [← Option.some.inj hd]
  exact hlt

/-- What is read on top of a number has as many places more as there are digits. -/
theorem lt_of_extend? {acc n : Nat} {cs : List Char} (h : extend? 10 acc cs = some n) :
    n < (acc + 1) * 10 ^ cs.length := by
  induction cs generalizing acc with
  | nil =>
    obtain rfl := Option.some.inj h
    simp
  | cons c cs ih =>
    rw [extend?] at h
    obtain ⟨d, hd, hrest⟩ := Option.bind_eq_some_iff.mp h
    have hlt := lt_of_digit? hd
    calc n < (acc * 10 + d + 1) * 10 ^ cs.length := ih hrest
      _ ≤ ((acc + 1) * 10) * 10 ^ cs.length := Nat.mul_le_mul_right _ (by omega)
      _ = (acc + 1) * 10 ^ (c :: cs).length := by
        rw [List.length_cons, Nat.pow_succ', Nat.mul_assoc]

/-- A row of digits stands for a number with no more places than it has. -/
theorem lt_of_ofDecimal? {n : Nat} {cs : List Char} (h : ofDecimal? cs = some n) :
    n < 10 ^ cs.length := by
  cases cs with
  | nil => exact absurd h (by simp [ofDecimal?, ofDigits?])
  | cons c cs =>
    have hlt : n < (0 + 1) * 10 ^ (c :: cs).length := lt_of_extend? h
    omega

/-- A number has no more places than its digits, -/
theorem lt_pow_length_decimal (n : Nat) : n < 10 ^ (decimal n).length :=
  lt_of_ofDecimal? (ofDigits?_digits (by omega) (by omega) n)

/-- and no fewer. -/
theorem pow_length_decimal_le {n : Nat} (h : n ≠ 0) : 10 ^ ((decimal n).length - 1) ≤ n := by
  unfold decimal
  induction n using Nat.strongRecOn with
  | ind n ih =>
    rw [digits]
    split
    · exact Nat.one_le_iff_ne_zero.mpr h
    · next hmore =>
      have hfewer := ih (n / 10) (Nat.div_lt_self (by omega) (by omega)) (by omega)
      have hlength := List.length_pos_of_ne_nil (digits_ne_nil 10 (n / 10))
      obtain ⟨places, hplaces⟩ := Nat.exists_eq_add_of_le hlength
      rw [hplaces] at hfewer
      rw [List.length_append, List.length_singleton, hplaces]
      calc 10 ^ (1 + places + 1 - 1) = 10 ^ (1 + places - 1) * 10 := by
            rw [← Nat.pow_succ]
            congr 1
            omega
        _ ≤ n / 10 * 10 := Nat.mul_le_mul_right 10 hfewer
        _ ≤ n := Nat.div_mul_le_self n 10

end CimBroker.Number
