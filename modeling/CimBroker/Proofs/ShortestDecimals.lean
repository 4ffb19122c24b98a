/-
# CimBroker.Proofs.ShortestDecimals — different words have different texts

The digits of a finite word are the shortest ones in its rounding interval, between the points
halfway to its neighbours.  There are such digits, because the search ends at a grid finer than the
interval (`Rounding.Roomy.covers_search`), and the positional notation of digits stands for their
number (`pointValue_positional`).

The intervals of words with different magnitudes share no number: they are laid out one after
another along the halfway points, and an end belongs to the interval with the even significand
(`Binary.magnitude_eq_of_holds`).  So a text determines the magnitude, the sign stands in front, and
two words that are written alike are the same or both no number (`Binary.plain_eq_iff`).

All of this is about positional notation (`Binary.plain`).  That the reader of numbers takes these
texts back to their words is not shown: the texts are told apart without it.
-/
import CimBroker.Number.Decimal
import CimBroker.Proofs.ExactWidening
import CimBroker.Proofs.Numerals
import Mathlib.Algebra.Order.Field.Power
import Mathlib.Algebra.Order.Ring.Rat
import Mathlib.Tactic.Linarith
import Mathlib.Tactic.Ring
import Mathlib.Tactic.NormNum

namespace CimBroker.Number

/-! ## Intervals -/

theorem zpow_mul_pow_toNat {a : ℚ} (ha : a ≠ 0) (k : ℤ) : a ^ k * a ^ (-k).toNat = a ^ k.toNat := by
  rw [← zpow_natCast, ← zpow_natCast, ← zpow_add₀ ha]
  congr 1
  omega

/-- The number that digits stand for. -/
def Digits.value (d : Digits) : ℚ := d.coefficient * 10 ^ d.exponent

namespace Rounding

variable {r : Rounding} {tie : Tie} {e : ℤ}

/-- The number lies in the interval. -/
def Holds (r : Rounding) (q : ℚ) : Prop :=
  if r.closed then r.low * 2 ^ r.power ≤ q ∧ q ≤ r.high * 2 ^ r.power
  else r.low * 2 ^ r.power < q ∧ q < r.high * 2 ^ r.power

/-- Whether digits lie in the interval is decided on whole numbers. -/
theorem covers_iff (r : Rounding) (n : Nat) (e : ℤ) :
    r.covers n e = true ↔ r.Holds (n * 10 ^ e) := by
  -- both sides are multiplied by what makes them whole
  obtain ⟨s, hs⟩ : ∃ s : ℚ, 10 ^ (-e).toNat * 2 ^ (-r.power).toNat = s := ⟨_, rfl⟩
  have hpos : 0 < s := by
    rw [← hs]
    positivity
  have hten := zpow_mul_pow_toNat (a := 10) (by norm_num) e
  have htwo := zpow_mul_pow_toNat (a := 2) (by norm_num) r.power
  have hmiddle : (n * 10 ^ e * s : ℚ) = (n * 10 ^ e.toNat * 2 ^ (-r.power).toNat : Nat) := by
    push_cast
    rw [← hs, ← hten]
    ring
  have hend (k : Nat) :
      (k * 2 ^ r.power * s : ℚ) = (k * (10 ^ (-e).toNat * 2 ^ r.power.toNat) : Nat) := by
    push_cast
    rw [← hs, ← htwo]
    ring
  have hle (p q : ℚ) : p ≤ q ↔ p * s ≤ q * s := (mul_le_mul_iff_left₀ hpos).symm
  have hlt (p q : ℚ) : p < q ↔ p * s < q * s := (mul_lt_mul_iff_left₀ hpos).symm
  unfold covers Holds
  dsimp only
  split
  · rw [Bool.and_eq_true, decide_eq_true_eq, decide_eq_true_eq, hle, hle (n * 10 ^ e), hmiddle,
      hend, hend, Nat.cast_le, Nat.cast_le]
  · rw [Bool.and_eq_true, decide_eq_true_eq, decide_eq_true_eq, hlt, hlt (n * 10 ^ e), hmiddle,
      hend, hend, Nat.cast_lt, Nat.cast_lt]

/-! ## The search -/

/-- Digits that are found lie in the interval. -/
theorem covers_of_onGrid? {d : Digits} (h : r.onGrid? tie e = some d) :
    r.covers d.coefficient d.exponent = true := by
  unfold onGrid? at h
  dsimp only at h
  split at h
  · next hdown hup =>
    obtain rfl := Option.some.inj h
    dsimp only
    split
    · exact hup
    · exact hdown
  · next hdown hup =>
    obtain rfl := Option.some.inj h
    exact hdown
  · next hdown hup =>
    obtain rfl := Option.some.inj h
    exact hup
  · cases h

/-- A grid on which some digits lie in the interval ends the search there or before. -/
theorem covers_search {n k : Nat} (hk : k < n) (hgrid : r.onGrid? tie (e - k) ≠ none) :
    r.covers (r.search tie n e).coefficient (r.search tie n e).exponent = true := by
  induction n generalizing e k with
  | zero => omega
  | succ n ih =>
    rw [search]
    cases hfound : r.onGrid? tie e with
    | some d => exact covers_of_onGrid? hfound
    | none =>
      cases k with
      | zero =>
        rw [Nat.cast_zero, sub_zero] at hgrid
        exact absurd hfound hgrid
      | succ k =>
        have hnext : e - (k + 1 : Nat) = e - 1 - k := by
          push_cast
          ring
        exact ih (by omega) (hnext ▸ hgrid)

/-- The interval reaches at least a quarter to either side of the value. -/
structure Roomy (r : Rounding) : Prop where
  low : r.low + 1 ≤ r.value
  high : r.value + 1 ≤ r.high

/-- A number less than a quarter below the value lies in the interval. -/
theorem Roomy.holds_of_near (h : r.Roomy) {q : ℚ} (hbelow : q ≤ r.value * 2 ^ r.power)
    (habove : r.value * 2 ^ r.power < q + 2 ^ r.power) : r.Holds q := by
  have hunit : (0 : ℚ) < 2 ^ r.power := by positivity
  have hlow : ((r.low : ℚ) + 1) * 2 ^ r.power ≤ r.value * 2 ^ r.power := by
    gcongr
    exact_mod_cast h.low
  have hhigh : ((r.value : ℚ) + 1) * 2 ^ r.power ≤ r.high * 2 ^ r.power := by
    gcongr
    exact_mod_cast h.high
  unfold Holds
  split
  · constructor <;> linarith
  · constructor <;> linarith

/-- On a grid whose step is no more than a quarter, the neighbour below the value lies in the
interval. -/
theorem Roomy.onGrid?_ne_none (h : r.Roomy) (hfine : (10 : ℚ) ^ e ≤ 2 ^ r.power) :
    r.onGrid? tie e ≠ none := by
  obtain ⟨num, hnum⟩ : ∃ n, r.value * 2 ^ r.power.toNat * 10 ^ (-e).toNat = n := ⟨_, rfl⟩
  obtain ⟨den, hden⟩ : ∃ n, 2 ^ (-r.power).toNat * 10 ^ e.toNat = n := ⟨_, rfl⟩
  have hstep : (0 : ℚ) < 10 ^ e := by positivity
  have hdenpos : 0 < den := by
    rw [← hden]
    positivity
  -- the value in steps of the grid is the quotient of the two
  have hvalue : (r.value * 2 ^ r.power : ℚ) * den = num * 10 ^ e := by
    have hten := zpow_mul_pow_toNat (a := 10) (by norm_num) e
    have htwo := zpow_mul_pow_toNat (a := 2) (by norm_num) r.power
    rw [← hnum, ← hden]
    push_cast
    rw [← hten, ← htwo]
    ring
  have hbelow : ((num / den : Nat) : ℚ) * 10 ^ e ≤ r.value * 2 ^ r.power := by
    have hmul : ((num / den : Nat) * den : ℚ) ≤ num := by
      exact_mod_cast Nat.div_mul_le_self num den
    refine le_of_mul_le_mul_right ?_ (Nat.cast_pos.mpr hdenpos : (0 : ℚ) < den)
    rw [hvalue]
    calc ((num / den : Nat) : ℚ) * 10 ^ e * den = (num / den : Nat) * den * 10 ^ e := by ring
      _ ≤ num * 10 ^ e := by gcongr
  have habove : r.value * 2 ^ r.power < (((num / den : Nat) : ℚ) + 1) * 10 ^ e := by
    have hmul : (num : ℚ) < ((num / den : Nat) + 1) * den := by
      exact_mod_cast Nat.mul_comm den _ ▸ Nat.lt_mul_div_succ num hdenpos
    refine lt_of_mul_lt_mul_right ?_ (Nat.cast_nonneg den)
    rw [hvalue]
    calc (num * 10 ^ e : ℚ) < ((num / den : Nat) + 1) * den * 10 ^ e := by gcongr
      _ = ((num / den : Nat) + 1) * 10 ^ e * den := by ring
  have hcovers : r.covers (num / den) e = true :=
    (covers_iff r _ e).mpr (h.holds_of_near hbelow (by linarith))
  unfold onGrid?
  rw [hnum, hden]
  dsimp only
  rw [hcovers]
  split <;> simp_all

/-- The order of the value is that of a power of ten below it. -/
theorem pow_decimalOrder_le (hvalue : 0 < r.value) :
    (10 : ℚ) ^ r.decimalOrder ≤ r.value * 2 ^ r.power := by
  obtain ⟨num, hnum⟩ : ∃ n, r.value * 2 ^ r.power.toNat = n := ⟨_, rfl⟩
  obtain ⟨den, hden⟩ : ∃ n, 2 ^ (-r.power).toNat = n := ⟨_, rfl⟩
  have hdenpos : (0 : ℚ) < den := by
    rw [← hden]
    positivity
  have hquotient : (r.value * 2 ^ r.power : ℚ) * den = num := by
    have htwo := zpow_mul_pow_toNat (a := 2) (by norm_num) r.power
    rw [← hnum, ← hden]
    push_cast
    rw [← htwo]
    ring
  refine le_of_mul_le_mul_right ?_ hdenpos
  rw [hquotient]
  unfold decimalOrder
  rw [hnum, hden]
  dsimp only
  split
  · next hle =>
    -- as many places as the quotient has, the first of them not counted
    have hden' : 0 < den := Nat.cast_pos.mp hdenpos
    have hquot : num / den ≠ 0 := Nat.ne_of_gt (Nat.div_pos hle hden')
    have hplaces := pow_length_decimal_le hquot
    have hlength := List.length_pos_of_ne_nil (digits_ne_nil 10 (num / den))
    change 0 < (decimal (num / den)).length at hlength
    have hexponent : (((decimal (num / den)).length : Int) - 1) =
        ((decimal (num / den)).length - 1 : Nat) := by
      omega
    rw [hexponent, zpow_natCast]
    calc (10 : ℚ) ^ ((decimal (num / den)).length - 1) * den
        ≤ (num / den : Nat) * den := by
          gcongr
          exact_mod_cast hplaces
      _ ≤ num := by exact_mod_cast Nat.div_mul_le_self num den
  · next hlt =>
    -- the value is below one, and the places are those of its inverse
    have hnumpos : 0 < num := by
      rw [← hnum]
      positivity
    have hplaces := lt_pow_length_decimal (den / num)
    rw [Nat.div_lt_iff_lt_mul hnumpos] at hplaces
    rw [zpow_neg, zpow_natCast, inv_mul_le_iff₀ (by positivity)]
    exact_mod_cast hplaces.le

/-- **Twenty grids are enough**, from the one above the first digit of the value downwards, where
the value has no more than eighteen places in its own units. -/
theorem Roomy.covers_search (h : r.Roomy) (tie : Tie) (hvalue : 0 < r.value)
    (hfew : r.value ≤ 10 ^ 18) :
    let d := r.search tie 20 (r.decimalOrder + 1)
    r.covers d.coefficient d.exponent = true := by
  have hfine : (10 : ℚ) ^ (r.decimalOrder + 1 - (19 : Nat)) ≤ 2 ^ r.power := by
    have horder := pow_decimalOrder_le hvalue
    have hexponent : r.decimalOrder + 1 - (19 : Nat) = r.decimalOrder - (18 : Nat) := by
      push_cast
      ring
    rw [hexponent, zpow_sub₀ (by norm_num), zpow_natCast, div_le_iff₀ (by positivity)]
    calc (10 : ℚ) ^ r.decimalOrder ≤ r.value * 2 ^ r.power := horder
      _ ≤ 10 ^ 18 * 2 ^ r.power := by
        gcongr
        exact_mod_cast hfew
      _ = 2 ^ r.power * 10 ^ 18 := mul_comm _ _
  exact Rounding.covers_search (by decide) (h.onGrid?_ne_none hfine)

end Rounding

/-! ## Trailing zeros -/

/-- Zeros behind a number are powers of ten. -/
theorem extend?_replicate_zero (acc k : Nat) :
    extend? 10 acc (List.replicate k '0') = some (acc * 10 ^ k) := by
  induction k generalizing acc with
  | zero => simp [extend?]
  | succ k ih =>
    have hzero : digit? 10 '0' = some 0 := by decide
    rw [List.replicate_succ, extend?, hzero, Option.bind_some, ih, Nat.pow_succ']
    congr 1
    ring

theorem extend?_decimal (n : Nat) : extend? 10 0 (decimal n) = some n := by
  have hread : ofDigits? 10 (decimal n) = some n := ofDigits?_digits (by omega) (by omega) n
  have hne : decimal n ≠ [] := digits_ne_nil 10 n
  rwa [ofDigits?_eq_extend? hne] at hread

/-- As many zeros as a number ends with, so many powers of ten divide it. -/
theorem pow_dvd_of_trailing (n : Nat) :
    let kept := ((decimal n).reverse.dropWhile (· == '0')).reverse
    10 ^ ((decimal n).length - kept.length) ∣ n := by
  intro kept
  obtain ⟨zeros, hzeros⟩ : ∃ zs, ((decimal n).reverse.takeWhile (· == '0')).reverse = zs :=
    ⟨_, rfl⟩
  have hsplit : decimal n = kept ++ zeros := by
    rw [← hzeros, ← List.reverse_append, List.takeWhile_append_dropWhile, List.reverse_reverse]
  have hlength : (decimal n).length - kept.length = zeros.length := by
    rw [hsplit, List.length_append]
    omega
  have hreplicate : zeros = List.replicate zeros.length '0' := by
    refine List.eq_replicate_length.mpr fun c hc => ?_
    rw [← hzeros, List.mem_reverse] at hc
    have hzero := List.mem_takeWhile_imp hc
    exact eq_of_beq hzero
  have hread := extend?_decimal n
  rw [hsplit, extend?_append] at hread
  obtain ⟨m, -, hm⟩ := Option.bind_eq_some_iff.mp hread
  rw [hreplicate, extend?_replicate_zero, Option.some.injEq] at hm
  rw [hlength, ← hm]
  exact Nat.dvd_mul_left _ _

/-- Leaving out the zeros at the end does not change the number. -/
theorem Digits.value_stripped (d : Digits) : d.stripped.value = d.value := by
  obtain ⟨k, hk⟩ : ∃ k, (decimal d.coefficient).length -
      ((decimal d.coefficient).reverse.dropWhile (· == '0')).reverse.length = k := ⟨_, rfl⟩
  have hdvd : 10 ^ k ∣ d.coefficient := hk ▸ pow_dvd_of_trailing d.coefficient
  obtain ⟨m, hm⟩ := hdvd
  have hquotient : d.coefficient / 10 ^ k = m := by
    rw [hm]
    exact Nat.mul_div_cancel_left m (by positivity)
  unfold value stripped
  dsimp only
  rw [hk, hquotient, hm, zpow_add₀ (by norm_num), zpow_natCast]
  push_cast
  ring

/-! ## Reading positional notation -/

/-- The number that digits with an optional point spell. -/
def pointValue (text : List Char) : ℚ :=
  let whole := text.takeWhile isDigit
  let fraction := (text.dropWhile isDigit).drop 1
  ((extend? 10 0 (whole ++ fraction)).getD 0 : Nat) / 10 ^ fraction.length

theorem pointValue_whole {whole : List Char} (h : ∀ c ∈ whole, isDigit c = true) {n : Nat}
    (hn : extend? 10 0 whole = some n) : pointValue whole = n := by
  have htake : whole.takeWhile isDigit = whole := List.takeWhile_eq_self_iff.mpr h
  have hdrop : whole.dropWhile isDigit = [] := List.dropWhile_eq_nil_iff.mpr h
  unfold pointValue
  simp [htake, hdrop, hn]

theorem pointValue_point {whole fraction : List Char} (h : ∀ c ∈ whole, isDigit c = true) {n : Nat}
    (hn : extend? 10 0 (whole ++ fraction) = some n) :
    pointValue (whole ++ '.' :: fraction) = n / 10 ^ fraction.length := by
  have hpoint : ¬ isDigit '.' = true := by decide
  have htake : (whole ++ '.' :: fraction).takeWhile isDigit = whole := by
    rw [List.takeWhile_append_of_pos h, List.takeWhile_cons_of_neg hpoint, List.append_nil]
  have hdrop : (whole ++ '.' :: fraction).dropWhile isDigit = '.' :: fraction := by
    rw [List.dropWhile_append_of_pos h, List.dropWhile_cons_of_neg hpoint]
  unfold pointValue
  simp [htake, hdrop, hn]

section Shifted

variable {ds : List Char} {n : Nat} (hread : extend? 10 0 ds = some n)
include hread

theorem pointValue_zeros (hdigits : ∀ c ∈ ds, isDigit c = true) (k : Nat) :
    pointValue (ds ++ List.replicate k '0') = n * 10 ^ k := by
  have hall : ∀ c ∈ ds ++ List.replicate k '0', isDigit c = true := by
    intro c hc
    rcases List.mem_append.mp hc with hc | hc
    · exact hdigits c hc
    · rw [List.eq_of_mem_replicate hc]
      rfl
  have hzeros : extend? 10 0 (ds ++ List.replicate k '0') = some (n * 10 ^ k) := by
    rw [extend?_append, hread, Option.bind_some, extend?_replicate_zero]
  exact_mod_cast pointValue_whole hall hzeros

theorem pointValue_inside (hdigits : ∀ c ∈ ds, isDigit c = true) (i : Nat) :
    pointValue (ds.take i ++ ['.'] ++ ds.drop i) = n / 10 ^ (ds.length - i) := by
  have hwhole : ∀ c ∈ ds.take i, isDigit c = true := fun c hc => hdigits c (List.mem_of_mem_take hc)
  rw [List.append_assoc, List.singleton_append,
    pointValue_point hwhole (by rwa [List.take_append_drop]), List.length_drop]

theorem pointValue_leading (k : Nat) :
    pointValue (['0', '.'] ++ List.replicate k '0' ++ ds) = n / 10 ^ (k + ds.length) := by
  have hzeros : extend? 10 0 (['0'] ++ (List.replicate k '0' ++ ds)) = some n := by
    have hzero : digit? 10 '0' = some 0 := by decide
    rw [List.singleton_append, extend?, hzero, Option.bind_some, extend?_append,
      extend?_replicate_zero, Option.bind_some, Nat.zero_mul]
    exact hread
  have hsplit : ['0', '.'] ++ List.replicate k '0' ++ ds =
      ['0'] ++ '.' :: (List.replicate k '0' ++ ds) := rfl
  rw [hsplit, pointValue_point (by simp [isDigit]) hzeros, List.length_append,
    List.length_replicate]

end Shifted

/-- **Positional notation says the number.** -/
theorem pointValue_positional (d : Digits) : pointValue d.positional = d.value := by
  have hdigits := isDigit_of_mem_decimal d.coefficient
  have hread := extend?_decimal d.coefficient
  unfold Digits.positional Digits.value
  dsimp only
  split
  · next hexponent =>
    rw [pointValue_zeros hread hdigits, ← zpow_natCast, Int.toNat_of_nonneg hexponent]
  · next hexponent =>
    -- as many places stand behind the point as the exponent says
    obtain ⟨k, hk⟩ : ∃ k : Nat, d.exponent = -(k : Int) := ⟨d.exponent.natAbs, by omega⟩
    rw [hk, zpow_neg, zpow_natCast, ← div_eq_mul_inv]
    split
    · next hpoint =>
      rw [pointValue_inside hread hdigits]
      congr 2
      omega
    · next hpoint =>
      rw [pointValue_leading hread]
      congr 2
      omega

/-! ## Neighbouring words -/

namespace FloatFormat

variable (f : FloatFormat)

/-- The significand of the words of a magnitude. -/
def significandOf (n : Nat) : Nat :=
  if n / 2 ^ f.fractionBits = 0 then n % 2 ^ f.fractionBits
  else 2 ^ f.fractionBits + n % 2 ^ f.fractionBits

/-- The power of the words of a magnitude. -/
def powerOf (n : Nat) : ℤ := f.leastPower + (n / 2 ^ f.fractionBits - 1 : Nat)

/-- The number halfway between the words of a magnitude and of the next. -/
def boundary (n : Nat) : ℚ := (4 * f.significandOf n + 2 : Nat) * 2 ^ (f.powerOf n - 2)

/-- The lower end of the interval of a word, by its magnitude. -/
def lowerEnd (n : Nat) : ℚ :=
  (if n % 2 ^ f.fractionBits = 0 ∧ 1 < n / 2 ^ f.fractionBits then 4 * f.significandOf n - 1
    else 4 * f.significandOf n - 2 : Nat) * 2 ^ (f.powerOf n - 2)

variable {f}

/-- **The interval of a word starts where that of the word before ends**, also where the words
begin to lie twice as far apart. -/
theorem lowerEnd_succ (k : Nat) : f.lowerEnd (k + 1) = f.boundary k := by
  have hpos := Nat.two_pow_pos f.fractionBits
  obtain ⟨p, hp⟩ : ∃ p, 2 ^ f.fractionBits = p := ⟨_, rfl⟩
  obtain ⟨field, hfield⟩ : ∃ n, k / p = n := ⟨_, rfl⟩
  obtain ⟨fraction, hfraction⟩ : ∃ n, k % p = n := ⟨_, rfl⟩
  have hk : p * field + fraction = k := hfield ▸ hfraction ▸ Nat.div_add_mod k p
  have hlt : fraction < p := hfraction ▸ Nat.mod_lt k (hp ▸ hpos)
  unfold lowerEnd boundary powerOf significandOf
  rw [hp, hfield, hfraction]
  by_cases hinside : fraction + 1 < p
  · have hdiv : (k + 1) / p = field := by
      rw [← hk, Nat.add_assoc, Nat.mul_add_div (by omega), Nat.div_eq_of_lt hinside, Nat.add_zero]
    have hmod : (k + 1) % p = fraction + 1 := by
      rw [← hk, Nat.add_assoc, Nat.mul_add_mod, Nat.mod_eq_of_lt hinside]
    rw [hdiv, hmod, if_neg (by omega)]
    congr 2
    split <;> omega
  · have hnext : k + 1 = p * (field + 1) := by
      rw [Nat.mul_add]
      omega
    have hdiv : (k + 1) / p = field + 1 := by
      rw [hnext, Nat.mul_div_cancel_left _ (by omega)]
    have hmod : (k + 1) % p = 0 := by
      rw [hnext, Nat.mul_mod_right]
    rw [hdiv, hmod]
    cases field with
    | zero =>
      -- the least normal word has the power of the subnormal ones
      simp only [Nat.zero_add, Nat.lt_irrefl, and_false, if_false, if_true, Nat.one_ne_zero]
      congr 2
      omega
    | succ field =>
      -- the power of the next word is greater by one
      have hexponent : f.leastPower + ((field + 1 + 1 - 1 : Nat) : ℤ) - 2 =
          f.leastPower + ((field + 1 - 1 : Nat) : ℤ) - 2 + 1 := by
        omega
      rw [if_pos (by omega), if_neg (by omega), if_neg (by omega), hexponent,
        zpow_add_one₀ (by norm_num), Nat.add_zero, ← mul_assoc, mul_right_comm]
      congr 1
      have hdouble : (4 * p - 1) * 2 = 4 * (p + fraction) + 2 := by
        omega
      exact_mod_cast hdouble

theorem boundary_lt_succ (k : Nat) : f.boundary k < f.boundary (k + 1) := by
  rw [← lowerEnd_succ]
  unfold lowerEnd boundary
  have hunit : (0 : ℚ) < 2 ^ (f.powerOf (k + 1) - 2) := by positivity
  refine mul_lt_mul_of_pos_right ?_ hunit
  rw [Nat.cast_lt]
  split <;> omega

theorem boundary_strictMono : StrictMono f.boundary := strictMono_nat_of_lt_succ boundary_lt_succ

/-- Of two words next to each other, one has an even significand. -/
theorem significandOf_mod_two (hf : 1 ≤ f.fractionBits) (n : Nat) :
    f.significandOf n % 2 = n % 2 := by
  obtain ⟨i, hi⟩ := Nat.exists_eq_add_of_le hf
  have heven : 2 ^ f.fractionBits = 2 * 2 ^ i := by
    rw [hi, Nat.pow_add, Nat.pow_one]
  have hmod : n % (2 * 2 ^ i) % 2 = n % 2 := Nat.mod_mul_right_mod n 2 (2 ^ i)
  unfold significandOf
  rw [heven]
  split <;> omega

end FloatFormat

namespace Binary

variable {f : FloatFormat} {x y : Binary f}

/-- What the interval of a word says, by its magnitude. -/
theorem holds_rounding {q : ℚ} (h : x.rounding.Holds q) (hx : x.magnitudeBits ≠ 0) :
    f.boundary (x.magnitudeBits - 1) ≤ q ∧ q ≤ f.boundary x.magnitudeBits ∧
      (q = f.boundary (x.magnitudeBits - 1) ∨ q = f.boundary x.magnitudeBits →
        f.significandOf x.magnitudeBits % 2 = 0) := by
  obtain ⟨k, hk⟩ := Nat.exists_eq_succ_of_ne_zero hx
  have hlow : (x.rounding.low * 2 ^ x.rounding.power : ℚ) = f.boundary (x.magnitudeBits - 1) := by
    rw [hk, Nat.succ_sub_one, ← FloatFormat.lowerEnd_succ, ← Nat.succ_eq_add_one, ← hk]
    rfl
  have hhigh : (x.rounding.high * 2 ^ x.rounding.power : ℚ) = f.boundary x.magnitudeBits := rfl
  unfold Rounding.Holds at h
  rw [hlow, hhigh] at h
  split at h
  · next hclosed =>
    exact ⟨h.1, h.2, fun _ => of_decide_eq_true hclosed⟩
  · refine ⟨h.1.le, h.2.le, fun hend => ?_⟩
    rcases hend with rfl | rfl
    · exact absurd h.1 (lt_irrefl _)
    · exact absurd h.2 (lt_irrefl _)

/-- **No number rounds to words of different magnitudes.** -/
theorem magnitude_eq_of_holds (hf : 1 ≤ f.fractionBits) {q : ℚ} (hx : x.rounding.Holds q)
    (hy : y.rounding.Holds q) (hx0 : x.magnitudeBits ≠ 0) (hy0 : y.magnitudeBits ≠ 0) :
    x.magnitudeBits = y.magnitudeBits := by
  have hnot {x y : Binary f} (hx : x.rounding.Holds q) (hy : y.rounding.Holds q)
      (hx0 : x.magnitudeBits ≠ 0) (hy0 : y.magnitudeBits ≠ 0) :
      ¬ x.magnitudeBits < y.magnitudeBits := by
    intro hlt
    obtain ⟨-, hhigh, hxeven⟩ := holds_rounding hx hx0
    obtain ⟨hlow, -, hyeven⟩ := holds_rounding hy hy0
    -- the number is the boundary between the two, which are next to each other
    have hmono : f.boundary x.magnitudeBits ≤ f.boundary (y.magnitudeBits - 1) :=
      FloatFormat.boundary_strictMono.monotone (by omega)
    have hnext : x.magnitudeBits = y.magnitudeBits - 1 :=
      FloatFormat.boundary_strictMono.injective
        (le_antisymm hmono (hlow.trans hhigh))
    have hxend := hxeven (.inr (le_antisymm hhigh (hmono.trans hlow)))
    have hyend := hyeven (.inl (le_antisymm (hhigh.trans hmono) hlow))
    rw [FloatFormat.significandOf_mod_two hf] at hxend hyend
    omega
  have hle := hnot hx hy hx0 hy0
  have hge := hnot hy hx hy0 hx0
  omega

end Binary

/-- The words of the format have fractions, of which eighteen decimal places are enough to write
quarters of their units. -/
structure FloatFormat.Legible (f : FloatFormat) : Prop where
  one_le : 1 ≤ f.fractionBits
  few : 2 ^ (f.fractionBits + 3) ≤ 10 ^ 18

theorem FloatFormat.legible_single : FloatFormat.single.Legible := ⟨by decide, by decide⟩

theorem FloatFormat.legible_double : FloatFormat.double.Legible := ⟨by decide, by decide⟩

namespace Binary

variable {f : FloatFormat} {x y : Binary f}

theorem significand_ne_zero (h : x.magnitudeBits ≠ 0) : x.significand ≠ 0 := by
  have hpos := Nat.two_pow_pos f.fractionBits
  have hparts := Nat.div_add_mod x.magnitudeBits (2 ^ f.fractionBits)
  unfold significand exponentField fractionField
  split
  · next hfield =>
    rw [hfield, Nat.mul_zero, Nat.zero_add] at hparts
    rw [hparts]
    exact h
  · omega

/-- **The shortest digits of a word round to it.** -/
theorem holds_shortest (hf : f.Legible) (h : x.magnitudeBits ≠ 0) (tie : Tie) :
    x.rounding.Holds (x.shortest tie).value := by
  have hpositive := Nat.pos_of_ne_zero (significand_ne_zero h)
  have hroomy : x.rounding.Roomy := by
    unfold rounding
    refine ⟨?_, Nat.add_le_add_left (by decide) _⟩
    dsimp only
    split <;> omega
  have hvalue : 0 < x.rounding.value := by
    show 0 < 4 * x.significand
    omega
  have hfew : x.rounding.value ≤ 10 ^ 18 := by
    have hlt := significand_lt x
    have hbits := hf.few
    rw [Nat.pow_succ] at hlt
    rw [Nat.pow_add] at hbits
    show 4 * x.significand ≤ _
    omega
  have hcovers := hroomy.covers_search tie hvalue hfew
  rw [Rounding.covers_iff] at hcovers
  unfold shortest
  dsimp only
  rw [Digits.value_stripped]
  exact hcovers

/-! ## Texts -/

/-- The text of a word without its sign. -/
def unsignedText (x : Binary f) : List Char :=
  if x.isNaN then "NaN".toList
  else if x.isInfinite then "inf".toList
  else if x.isZero then ['0']
  else (x.shortest .up).positional

theorem plain_eq (x : Binary f) :
    x.plain = (if x.negative && !x.isNaN then ['-'] else []) ++ x.unsignedText := by
  unfold plain unsignedText
  cases x.isNaN <;> cases x.isInfinite <;> cases x.isZero <;> cases x.negative <;> rfl

end Binary

/-- Positional notation starts with a digit. -/
theorem Digits.positional_eq_cons (d : Digits) :
    ∃ c cs, d.positional = c :: cs ∧ isDigit c = true := by
  obtain ⟨c, cs, hcons, hc, -⟩ := decimal_eq_cons d.coefficient
  unfold positional
  dsimp only
  rw [hcons]
  split
  · exact ⟨c, _, rfl, hc⟩
  · split
    · next hpoint =>
      obtain ⟨k, hk⟩ : ∃ k : Nat, (((c :: cs).length : Int) + d.exponent).toNat = k + 1 :=
        ⟨(((c :: cs).length : Int) + d.exponent).toNat - 1, by omega⟩
      rw [hk]
      exact ⟨c, _, rfl, hc⟩
    · exact ⟨'0', _, rfl, rfl⟩

namespace Binary

variable {f : FloatFormat} {x y : Binary f}

/-- The first character tells what kind of word it is. -/
theorem unsignedText_eq_cons (x : Binary f) : ∃ c cs, x.unsignedText = c :: cs ∧
    (x.isNaN = true ∧ c = 'N' ∨ x.isNaN = false ∧ x.isInfinite = true ∧ c = 'i' ∨
      x.isNaN = false ∧ x.isInfinite = false ∧ isDigit c = true) := by
  unfold unsignedText
  cases hnan : x.isNaN with
  | true => exact ⟨'N', _, rfl, .inl ⟨rfl, rfl⟩⟩
  | false =>
    cases hinf : x.isInfinite with
    | true => exact ⟨'i', _, rfl, .inr (.inl ⟨rfl, rfl, rfl⟩)⟩
    | false =>
      cases x.isZero with
      | true => exact ⟨'0', _, rfl, .inr (.inr ⟨rfl, rfl, rfl⟩)⟩
      | false =>
        obtain ⟨c, cs, hcons, hc⟩ := (x.shortest .up).positional_eq_cons
        exact ⟨c, cs, hcons, .inr (.inr ⟨rfl, rfl, hc⟩)⟩

/-- The text of a finite word spells a number that rounds to it, and zero only for zero. -/
theorem pointValue_unsignedText (hf : f.Legible) (hnan : x.isNaN = false)
    (hinf : x.isInfinite = false) :
    x.magnitudeBits = 0 ∧ pointValue x.unsignedText = 0 ∨
      x.magnitudeBits ≠ 0 ∧ 0 < pointValue x.unsignedText ∧
        x.rounding.Holds (pointValue x.unsignedText) := by
  unfold unsignedText
  rw [hnan, hinf]
  cases hzero : x.isZero with
  | true =>
    refine .inl ⟨eq_of_beq hzero, ?_⟩
    have hread : pointValue ['0'] = (0 : Nat) :=
      pointValue_whole (List.forall_mem_singleton.mpr (by decide)) (by decide)
    exact hread.trans Nat.cast_zero
  | false =>
    have hmagnitude : x.magnitudeBits ≠ 0 := ne_of_beq_false hzero
    have hholds := holds_shortest hf hmagnitude .up
    refine .inr ⟨hmagnitude, ?_⟩
    show 0 < pointValue (x.shortest .up).positional ∧
      x.rounding.Holds (pointValue (x.shortest .up).positional)
    rw [pointValue_positional]
    refine ⟨?_, hholds⟩
    obtain ⟨hlow, -⟩ := holds_rounding hholds hmagnitude
    refine lt_of_lt_of_le ?_ hlow
    unfold FloatFormat.boundary
    positivity

/-- Words with one text have one magnitude. -/
theorem magnitude_eq_of_unsignedText (hf : f.Legible) (h : x.unsignedText = y.unsignedText) :
    x.isNaN = true ∧ y.isNaN = true ∨
      x.isNaN = false ∧ y.isNaN = false ∧ x.magnitudeBits = y.magnitudeBits := by
  obtain ⟨c, cs, hx, hxkind⟩ := x.unsignedText_eq_cons
  obtain ⟨c', cs', hy, hykind⟩ := y.unsignedText_eq_cons
  obtain rfl : c = c' := by
    rw [hx, hy] at h
    exact (List.cons.inj h).1
  have hdistinct : isDigit 'N' = false ∧ isDigit 'i' = false ∧ 'N' ≠ 'i' := by decide
  rcases hxkind with ⟨hxnan, rfl⟩ | ⟨hxnan, hxinf, rfl⟩ | ⟨hxnan, hxinf, hdigit⟩
  · rcases hykind with ⟨hynan, -⟩ | ⟨-, -, hc⟩ | ⟨-, -, hc⟩
    · exact .inl ⟨hxnan, hynan⟩
    · exact absurd hc hdistinct.2.2
    · exact absurd (hdistinct.1.symm.trans hc) (by decide)
  · rcases hykind with ⟨-, hc⟩ | ⟨hynan, hyinf, -⟩ | ⟨-, -, hc⟩
    · exact absurd hc.symm hdistinct.2.2
    · exact .inr ⟨hxnan, hynan, (eq_of_beq hxinf).trans (eq_of_beq hyinf).symm⟩
    · exact absurd (hdistinct.2.1.symm.trans hc) (by decide)
  · rcases hykind with ⟨-, rfl⟩ | ⟨-, -, rfl⟩ | ⟨hynan, hyinf, -⟩
    · exact absurd (hdistinct.1.symm.trans hdigit) (by decide)
    · exact absurd (hdistinct.2.1.symm.trans hdigit) (by decide)
    · refine .inr ⟨hxnan, hynan, ?_⟩
      -- both texts spell one number
      have hxvalue := pointValue_unsignedText hf hxnan hxinf
      have hyvalue := pointValue_unsignedText hf hynan hyinf
      rw [← h] at hyvalue
      rcases hxvalue with ⟨hx0, hzero⟩ | ⟨hx0, hpositive, hxholds⟩
      · rcases hyvalue with ⟨hy0, -⟩ | ⟨-, hpositive, -⟩
        · rw [hx0, hy0]
        · exact absurd hzero hpositive.ne'
      · rcases hyvalue with ⟨-, hzero⟩ | ⟨hy0, -, hyholds⟩
        · exact absurd hzero hpositive.ne'
        · exact magnitude_eq_of_holds hf.one_le hxholds hyholds hx0 hy0

theorem eq_of_magnitude (hsign : x.negative = y.negative)
    (hmagnitude : x.magnitudeBits = y.magnitudeBits) : x = y := by
  have hword (x : Binary f) : x.word.toNat =
      (if x.negative then 2 ^ (f.exponentBits + f.fractionBits) else 0) + x.magnitudeBits := by
    have hbits : 2 ^ f.bits = 2 * 2 ^ (f.exponentBits + f.fractionBits) := by
      rw [FloatFormat.bits, Nat.add_assoc, Nat.pow_add]
    have hlt := x.word.isLt
    rw [hbits] at hlt
    unfold negative magnitudeBits
    by_cases hhigh : 2 ^ (f.exponentBits + f.fractionBits) ≤ x.word.toNat
    · rw [if_pos (by simpa using hhigh), Nat.mod_eq_sub_mod hhigh, Nat.mod_eq_of_lt (by omega)]
      omega
    · rw [if_neg (by simpa using hhigh), Nat.mod_eq_of_lt (by omega), Nat.zero_add]
  obtain ⟨word⟩ := x
  obtain ⟨word'⟩ := y
  refine congrArg Binary.mk (BitVec.eq_of_toNat_eq ?_)
  have hx := hword ⟨word⟩
  have hy := hword ⟨word'⟩
  rw [hsign, hmagnitude] at hx
  exact hx.trans hy.symm

/-- A minus is the sign where no text starts with one. -/
theorem signed_inj {sign sign' : Bool} {c c' : Char} {text text' : List Char} (hc : c ≠ '-')
    (hc' : c' ≠ '-') (h : (if sign then ['-'] else []) ++ c :: text =
      (if sign' then ['-'] else []) ++ c' :: text') : sign = sign' ∧ c :: text = c' :: text' := by
  cases sign with
  | false =>
    cases sign' with
    | false => exact ⟨rfl, h⟩
    | true => exact absurd (List.cons.inj h).1 hc
  | true =>
    cases sign' with
    | false => exact absurd (List.cons.inj h).1.symm hc'
    | true => exact ⟨rfl, (List.cons.inj h).2⟩

/-- **Words that are written alike are the same**, or both no number. -/
theorem plain_eq_iff (hf : f.Legible) :
    x.plain = y.plain ↔ x = y ∨ x.isNaN = true ∧ y.isNaN = true := by
  constructor
  · intro h
    rw [plain_eq, plain_eq] at h
    have hminus (z : Binary f) : ∃ c cs, z.unsignedText = c :: cs ∧ c ≠ '-' := by
      obtain ⟨c, cs, hcons, hkind⟩ := z.unsignedText_eq_cons
      refine ⟨c, cs, hcons, ?_⟩
      rcases hkind with ⟨-, rfl⟩ | ⟨-, -, rfl⟩ | ⟨-, -, hdigit⟩
      · decide
      · decide
      · exact ne_of_isDigit hdigit rfl
    obtain ⟨c, cs, hx, hxminus⟩ := hminus x
    obtain ⟨c', cs', hy, hyminus⟩ := hminus y
    have hparts : (x.negative && !x.isNaN) = (y.negative && !y.isNaN) ∧
        x.unsignedText = y.unsignedText := by
      rw [hx, hy] at h ⊢
      exact signed_inj hxminus hyminus h
    obtain ⟨hsign, htext⟩ := hparts
    rcases magnitude_eq_of_unsignedText hf htext with hnan | ⟨hxnan, hynan, hmagnitude⟩
    · exact .inr hnan
    · rw [hxnan, hynan, Bool.not_false, Bool.and_true, Bool.and_true] at hsign
      exact .inl (eq_of_magnitude hsign hmagnitude)
  · rintro (rfl | ⟨hx, hy⟩)
    · rfl
    · rw [plain, plain, if_pos hx, if_pos hy]

end Binary

end CimBroker.Number
