/-
# CimBroker.Proofs.ExactWidening — floating-point words in a wider format

Converting a word to another format rounds its value to the nearest word there.  Where the other
format has no fewer exponent bits and no fewer fraction bits, there is nothing to round: the
quotient that the word stands for is a whole number of units of the last place, and the rounded
significand is that number (`Binary.ofRatio_exact`).  So a finite word becomes a finite word of the
same value, with its sign also where the value is zero; an infinity becomes the infinity of its
sign, and what is no number stays none (`Binary.convert_agrees`).

`Binary.widen_agrees` is the case of the two formats that are used.  Converting to a narrower
format, where there is something to round, is left out.
-/
import CimBroker.Number.Binary
import Mathlib.Algebra.Order.Field.Power
import Mathlib.Algebra.Order.Ring.Rat

namespace CimBroker.Number

/-- Every exponent and every fraction of the one format has room in the other. -/
structure FloatFormat.Within (f g : FloatFormat) : Prop where
  two_le : 2 ≤ f.exponentBits
  one_le : 1 ≤ f.fractionBits
  exponent : f.exponentBits ≤ g.exponentBits
  fraction : f.fractionBits ≤ g.fractionBits

/-- The powers and orders of a format lie between those of one that it is within. -/
theorem FloatFormat.Within.powers {f g : FloatFormat} (h : f.Within g) :
    g.leastPower ≤ f.leastPower ∧ 2 ≤ f.specialField ∧ f.specialField ≤ g.specialField ∧
      f.leastPower + f.fractionBits + f.specialField ≤
        g.leastPower + g.fractionBits + g.specialField := by
  obtain ⟨i, hi⟩ := Nat.exists_eq_add_of_le h.two_le
  obtain ⟨j, hj⟩ := Nat.exists_eq_add_of_le (h.two_le.trans h.exponent)
  have hpow : 2 ^ i ≤ 2 ^ j := Nat.pow_le_pow_right (by decide) (by have := h.exponent; omega)
  have hone : 1 ≤ 2 ^ i := Nat.one_le_two_pow
  have hfraction := h.fraction
  have hhalf (k : Nat) : (2 : Int) ^ (2 + k - 1) = 2 * ((2 ^ k : Nat) : Int) := by
    rw [show 2 + k - 1 = k + 1 by omega, pow_succ, mul_comm]
    norm_cast
  have hwhole (k : Nat) : 2 ^ (2 + k) = 4 * 2 ^ k := Nat.pow_add 2 2 k
  simp only [leastPower, specialField, hi, hj, hhalf, hwhole]
  refine ⟨by omega, by omega, by omega, by omega⟩

namespace Binary

variable {f g : FloatFormat}

/-- The number that a finite word stands for. -/
def value (x : Binary f) : ℚ :=
  (if x.negative then -1 else 1) * (x.significand * 2 ^ x.power)

/-- Words of two formats mean the same: the same number with the same sign, the same infinity, or
both no number. -/
inductive Agrees (x : Binary f) (y : Binary g) : Prop
  | finite (hx : x.isFinite) (hy : y.isFinite) (hsign : y.negative = x.negative)
      (hvalue : y.value = x.value)
  | infinite (hx : x.isInfinite) (hy : y.isInfinite) (hsign : y.negative = x.negative)
  | noNumber (hx : x.isNaN) (hy : y.isNaN)

/-! ## Words from their parts -/

theorem infinityBits_lt (f : FloatFormat) :
    f.infinityBits < 2 ^ (f.exponentBits + f.fractionBits) := by
  unfold FloatFormat.infinityBits FloatFormat.specialField
  rw [Nat.pow_add]
  apply Nat.mul_lt_mul_of_pos_right _ (Nat.two_pow_pos _)
  have := Nat.two_pow_pos f.exponentBits
  omega

section OfBits

variable {magnitude : Nat} (h : magnitude < 2 ^ (f.exponentBits + f.fractionBits))
include h

theorem toNat_ofBits (negative : Bool) :
    (ofBits negative magnitude : Binary f).word.toNat =
      (if negative then 2 ^ (f.exponentBits + f.fractionBits) else 0) + magnitude := by
  have hbits : 2 ^ f.bits = 2 * 2 ^ (f.exponentBits + f.fractionBits) := by
    rw [FloatFormat.bits, Nat.add_assoc, Nat.pow_add]
  show (BitVec.ofNat f.bits _).toNat = _
  rw [BitVec.toNat_ofNat, Nat.mod_eq_of_lt]
  split <;> omega

theorem magnitudeBits_ofBits (negative : Bool) :
    (ofBits negative magnitude : Binary f).magnitudeBits = magnitude := by
  unfold magnitudeBits
  rw [toNat_ofBits h]
  split
  · rw [Nat.add_mod_left, Nat.mod_eq_of_lt h]
  · rw [Nat.zero_add, Nat.mod_eq_of_lt h]

theorem negative_ofBits (negative : Bool) :
    (ofBits negative magnitude : Binary f).negative = negative := by
  unfold Binary.negative
  rw [toNat_ofBits h]
  cases negative
  · simpa using h
  · simp

end OfBits

/-- The significand and the power of a word are those that its magnitude was put together from, if
the significand has its leading bit where the power is not the least. -/
theorem parts_of_magnitude {x : Binary f} {steps m : Nat}
    (hx : x.magnitudeBits = steps * 2 ^ f.fractionBits + m) (hm : m < 2 ^ (f.fractionBits + 1))
    (hleading : steps = 0 ∨ 2 ^ f.fractionBits ≤ m) :
    x.significand = m ∧ x.power = f.leastPower + steps := by
  have hpos := Nat.two_pow_pos f.fractionBits
  rw [Nat.pow_succ] at hm
  unfold significand power exponentField fractionField
  rw [hx]
  by_cases hlow : m < 2 ^ f.fractionBits
  · -- the leading bit is missing, so the field of the exponent is zero
    obtain rfl : steps = 0 := by omega
    rw [Nat.zero_mul, Nat.zero_add, Nat.div_eq_of_lt hlow, Nat.mod_eq_of_lt hlow]
    simp
  · have hfield : (steps * 2 ^ f.fractionBits + m) / 2 ^ f.fractionBits = steps + 1 := by
      have hone : m / 2 ^ f.fractionBits = 1 := Nat.div_eq_of_lt_le (by omega) (by omega)
      rw [Nat.mul_comm, Nat.mul_add_div hpos, hone]
    have hfraction : (steps * 2 ^ f.fractionBits + m) % 2 ^ f.fractionBits =
        m - 2 ^ f.fractionBits := by
      rw [Nat.mul_comm, Nat.mul_add_mod, Nat.mod_eq_sub_mod (by omega), Nat.mod_eq_of_lt (by omega)]
    rw [hfield, hfraction, if_neg (by omega)]
    exact ⟨by omega, by simp⟩

/-! ## Rounding where there is nothing to round -/

theorem divideToEven_mul (q : Nat) {d : Nat} (hd : 0 < d) : divideToEven (q * d) d = q := by
  unfold divideToEven
  rw [Nat.mul_div_cancel q hd, Nat.mul_mod_left]
  simp [hd]

theorem log2_mul_twoPow {m : Nat} (hm : m ≠ 0) (a : Nat) : (m * 2 ^ a).log2 = m.log2 + a := by
  have hlow := Nat.log2_self_le hm
  have hhigh := Nat.lt_log2_self (n := m)
  rw [Nat.log2_eq_iff (Nat.mul_ne_zero hm (Nat.two_pow_pos a).ne')]
  constructor
  · rw [Nat.pow_add]
    exact Nat.mul_le_mul_right _ hlow
  · rw [Nat.add_right_comm, Nat.pow_add]
    exact Nat.mul_lt_mul_of_pos_right hhigh (Nat.two_pow_pos a)

/-- The order of a number is that of its significand, moved by the power. -/
theorem binaryOrder_scaled {m : Nat} (hm : m ≠ 0) (k : Int) :
    binaryOrder (scaled m k).1 (scaled m k).2 = m.log2 + k := by
  have hguess : ((m * 2 ^ k.toNat).log2 : Int) - ((2 ^ (-k).toNat).log2 : Nat) = m.log2 + k := by
    rw [log2_mul_twoPow hm, Nat.log2_two_pow]
    omega
  unfold binaryOrder scaled
  dsimp only
  rw [hguess, if_pos]
  -- the power of two at the guessed order, times the denominator, is one factor of the numerator
  have hexponents : (-k).toNat + (m.log2 + k).toNat =
      m.log2 + (k.toNat + (-(m.log2 + k)).toNat) := by
    omega
  calc 2 ^ (-k).toNat * 2 ^ (m.log2 + k).toNat
      = 2 ^ m.log2 * 2 ^ (k.toNat + (-(m.log2 + k)).toNat) := by
        rw [← Nat.pow_add, ← Nat.pow_add, hexponents]
    _ ≤ m * 2 ^ (k.toNat + (-(m.log2 + k)).toNat) :=
        Nat.mul_le_mul_right _ (Nat.log2_self_le hm)
    _ = m * 2 ^ k.toNat * 2 ^ (-(m.log2 + k)).toNat := by rw [Nat.pow_add, Nat.mul_assoc]

/-- A number that is a whole number of units rounds to this number of them. -/
theorem divideToEven_scaled (m : Nat) {k unit : Int} (hunit : unit ≤ k) :
    divideToEven ((scaled m k).1 * 2 ^ (-unit).toNat) ((scaled m k).2 * 2 ^ unit.toNat) =
      m * 2 ^ (k - unit).toNat := by
  have hexponents : k.toNat + (-unit).toNat = (k - unit).toNat + ((-k).toNat + unit.toNat) := by
    omega
  unfold scaled
  dsimp only
  rw [Nat.mul_assoc, ← Nat.pow_add, ← Nat.pow_add, hexponents, Nat.pow_add, ← Nat.mul_assoc]
  exact divideToEven_mul _ (Nat.two_pow_pos _)

/-- **A number with room in the format is rounded to itself**: its significand is no longer than
those of the format, its power is none below the least, and its order none above the greatest. -/
theorem ofRatio_exact (negative : Bool) {m : Nat} {k : Int} (hm : m ≠ 0)
    (hbits : m < 2 ^ (f.fractionBits + 1)) (hleast : f.leastPower ≤ k)
    (hgreatest : m.log2 + k + 2 ≤ f.leastPower + f.fractionBits + f.specialField)
    (hspecial : 2 ≤ f.specialField) :
    let y : Binary f := ofRatio negative (scaled m k).1 (scaled m k).2
    y.isFinite ∧ y.negative = negative ∧ (y.significand : ℚ) * 2 ^ y.power = m * 2 ^ k := by
  have hlog : m.log2 < f.fractionBits + 1 := (Nat.log2_lt hm).mpr hbits
  -- the unit of the last place, and how many of them there are
  obtain ⟨unit, hunit⟩ : ∃ unit, max (m.log2 + k - f.fractionBits) f.leastPower = unit := ⟨_, rfl⟩
  have hunit_le : unit ≤ k := by omega
  obtain ⟨rounded, hrounded⟩ : ∃ r, m * 2 ^ (k - unit).toNat = r := ⟨_, rfl⟩
  have hhigh : rounded < 2 ^ (f.fractionBits + 1) := by
    calc rounded = m * 2 ^ (k - unit).toNat := hrounded.symm
      _ < 2 ^ (m.log2 + 1) * 2 ^ (k - unit).toNat :=
        Nat.mul_lt_mul_of_pos_right Nat.lt_log2_self (Nat.two_pow_pos _)
      _ = 2 ^ (m.log2 + 1 + (k - unit).toNat) := (Nat.pow_add 2 _ _).symm
      _ ≤ 2 ^ (f.fractionBits + 1) := Nat.pow_le_pow_right (by decide) (by omega)
  have hleading : (unit - f.leastPower).toNat = 0 ∨ 2 ^ f.fractionBits ≤ rounded := by
    by_cases hlow : m.log2 + k - f.fractionBits ≤ f.leastPower
    · exact .inl (by omega)
    · right
      calc 2 ^ f.fractionBits = 2 ^ m.log2 * 2 ^ (k - unit).toNat := by
            rw [← Nat.pow_add]
            congr 1
            omega
        _ ≤ m * 2 ^ (k - unit).toNat := Nat.mul_le_mul_right _ (Nat.log2_self_le hm)
        _ = rounded := hrounded
  obtain ⟨magnitude, hmagnitude⟩ :
      ∃ n, (unit - f.leastPower).toNat * 2 ^ f.fractionBits + rounded = n := ⟨_, rfl⟩
  have hfinite : magnitude < f.infinityBits := by
    have hsteps : (unit - f.leastPower).toNat + 2 ≤ f.specialField := by omega
    have hproduct := Nat.mul_le_mul_right (2 ^ f.fractionBits) hsteps
    rw [Nat.pow_succ] at hhigh
    rw [FloatFormat.infinityBits]
    rw [Nat.add_mul] at hproduct
    omega
  have hy : (ofRatio negative (scaled m k).1 (scaled m k).2 : Binary f) =
      ofBits negative magnitude := by
    have hnum : (scaled m k).1 ≠ 0 := Nat.mul_ne_zero hm (Nat.two_pow_pos _).ne'
    unfold ofRatio
    rw [if_neg hnum]
    dsimp only
    rw [binaryOrder_scaled hm, hunit, divideToEven_scaled m hunit_le, hrounded, hmagnitude,
      Nat.min_eq_left hfinite.le]
  have hroom := hfinite.trans (infinityBits_lt f)
  dsimp only
  rw [hy]
  have hword := magnitudeBits_ofBits hroom negative
  obtain ⟨hsignificand, hpower⟩ :=
    parts_of_magnitude (hword.trans hmagnitude.symm) hhigh hleading
  refine ⟨?_, negative_ofBits hroom negative, ?_⟩
  · rw [isFinite, hword]
    exact decide_eq_true hfinite
  · have hsteps : f.leastPower + (unit - f.leastPower).toNat = unit := by omega
    rw [hsignificand, hpower, hsteps, ← hrounded, Nat.cast_mul, Nat.cast_pow, Nat.cast_ofNat,
      mul_assoc, ← zpow_natCast, ← zpow_add₀ two_ne_zero]
    congr 2
    omega

/-! ## Converting -/

theorem exponentField_lt {x : Binary f} (hx : x.isFinite) : x.exponentField < f.specialField := by
  have hfinite : x.magnitudeBits < f.infinityBits := of_decide_eq_true hx
  exact Nat.div_lt_of_lt_mul (Nat.mul_comm _ _ ▸ hfinite)

theorem significand_lt (x : Binary f) : x.significand < 2 ^ (f.fractionBits + 1) := by
  have hfraction : x.fractionField < 2 ^ f.fractionBits := Nat.mod_lt _ (Nat.two_pow_pos _)
  rw [significand, Nat.pow_succ]
  split <;> omega

/-- A finite word becomes a finite word of its sign and value. -/
theorem convert_finite (h : f.Within g) {x : Binary f} (hx : x.isFinite) :
    let y : Binary g := ofRatio x.negative x.ratio.1 x.ratio.2
    y.isFinite ∧ y.negative = x.negative ∧
      (y.significand : ℚ) * 2 ^ y.power = x.significand * 2 ^ x.power := by
  obtain ⟨hleast, hspecial, hfields, hgreatest⟩ := h.powers
  by_cases hzero : x.significand = 0
  · have hnum : x.ratio.1 = 0 := by simp [ratio, scaled, hzero]
    have hroom : 0 < 2 ^ (g.exponentBits + g.fractionBits) := Nat.two_pow_pos _
    have hword := magnitudeBits_ofBits hroom x.negative
    have hmagnitude : (ofBits x.negative 0 : Binary g).magnitudeBits =
        0 * 2 ^ g.fractionBits + 0 := by
      rw [hword, Nat.zero_mul]
    have hparts := parts_of_magnitude hmagnitude (Nat.two_pow_pos _) (.inl rfl)
    dsimp only
    rw [ofRatio, if_pos hnum, hparts.1, hzero]
    refine ⟨?_, negative_ofBits hroom _, by simp⟩
    rw [isFinite, hword, FloatFormat.infinityBits]
    apply decide_eq_true
    exact Nat.mul_pos (by omega) (Nat.two_pow_pos _)
  · have hfield := exponentField_lt hx
    have hsignificand := significand_lt x
    have hlog := (Nat.log2_lt hzero).mpr hsignificand
    have hpower : x.power = f.leastPower + (x.exponentField - 1 : Nat) := rfl
    have hfraction := h.fraction
    apply ofRatio_exact x.negative hzero
    · exact hsignificand.trans_le (Nat.pow_le_pow_right (by decide) (by omega))
    · omega
    · omega
    · omega

/-- There is a word for what is no number in a format that has fractions. -/
theorem isNaN_nan (hfraction : 1 ≤ f.fractionBits) : (nan : Binary f).isNaN := by
  have hquiet : 2 ^ (f.fractionBits - 1) < 2 ^ f.fractionBits :=
    Nat.pow_lt_pow_right (by decide) (by omega)
  have hnext : f.infinityBits + 2 ^ f.fractionBits = 2 ^ (f.exponentBits + f.fractionBits) := by
    rw [FloatFormat.infinityBits, FloatFormat.specialField, Nat.pow_add, ← Nat.succ_mul,
      Nat.succ_eq_add_one, Nat.sub_add_cancel (Nat.two_pow_pos _)]
  have hpos := Nat.two_pow_pos (f.fractionBits - 1)
  rw [isNaN, nan, magnitudeBits_ofBits (by omega)]
  apply decide_eq_true
  omega

/-- **Converting to a format with room for it** (`Within`) keeps what a word means (`Agrees`). -/
theorem convert_agrees (h : f.Within g) (x : Binary f) : x.Agrees (x.convert : Binary g) := by
  unfold convert
  rcases lt_trichotomy x.magnitudeBits f.infinityBits with hx | hx | hx
  · have hfinite : x.isFinite = true := decide_eq_true hx
    have hnan : x.isNaN = false := decide_eq_false hx.not_gt
    have hinfinite : x.isInfinite = false := beq_eq_false_iff_ne.mpr hx.ne
    obtain ⟨hy, hsign, hvalue⟩ := convert_finite h hfinite
    rw [hnan, hinfinite, if_neg Bool.false_ne_true, if_neg Bool.false_ne_true]
    refine .finite hfinite hy hsign ?_
    rw [value, value, hvalue, hsign]
  · have hinfinite : x.isInfinite = true := beq_iff_eq.mpr hx
    have hnan : x.isNaN = false := decide_eq_false (by omega)
    have hroom := infinityBits_lt g
    rw [hnan, hinfinite, if_neg Bool.false_ne_true, if_pos rfl]
    refine .infinite hinfinite ?_ (negative_ofBits hroom _)
    exact beq_iff_eq.mpr (magnitudeBits_ofBits hroom x.negative)
  · have hnan : x.isNaN = true := decide_eq_true hx
    rw [hnan, if_pos rfl]
    exact .noNumber hnan (isNaN_nan (h.one_le.trans h.fraction))

/-- **Widening is exact**: `widen` keeps what a single-precision word means (`Agrees`). -/
theorem widen_agrees (x : Single) : x.Agrees x.widen :=
  convert_agrees ⟨by decide, by decide, by decide, by decide⟩ x

end Binary
end CimBroker.Number
