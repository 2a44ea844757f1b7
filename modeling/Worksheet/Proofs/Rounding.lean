import Mathlib
import Worksheet.Number.Decimal

/-!
# Rounding to the nearest double depends on the value only

`nearest` is given a fraction. That it is a function of the value of this fraction is not seen in
its definition, which works on numerator and denominator. This module shows it
(`nearest_congr`), by way of the exponent: `log2Quotient n d` is the logarithm of the rational
number `n / d` (`log2Quotient_eq_log`), and a common factor does not change a rounded quotient
(`roundQuotient_congr`). Then

* `nearest_self`: the value of a double is rounded to this double;
* `nearest_eq_infinity`, `nearest_eq_zero`: what is too great or too small for all doubles;
* `Decimal.nearest_eq`: so the answers that a decimal gets at once are those of `nearest`;
* `Decimal.nearest_congr`: decimals of one value are read alike.
-/

namespace Worksheet.Number

/-! ## Powers as a fraction -/

theorem power_pos {base : Nat} (h : 0 < base) (e : Int) : 0 < power base e := Nat.pow_pos h

theorem power_of_nonpos (base : Nat) {e : Int} (h : e ≤ 0) : power base e = 1 := by
  rw [power, Int.toNat_of_nonpos h]
  exact Nat.pow_zero base

theorem power_div_power (base : Nat) (h : 0 < base) (e : Int) :
    (power base e : ℚ) / power base (-e) = (base : ℚ) ^ e := by
  have hbase : (base : ℚ) ≠ 0 := by exact_mod_cast h.ne'
  have hnat : ∀ i : Int, (power base i : ℚ) = (base : ℚ) ^ (i.toNat : Int) := fun i => by
    rw [zpow_natCast]
    exact Nat.cast_pow base i.toNat
  rw [hnat, hnat, ← zpow_sub₀ hbase]
  congr 1
  omega

theorem power_two_div (e : Int) : (power 2 e : ℚ) / power 2 (-e) = 2 ^ e := by
  exact_mod_cast power_div_power 2 (by decide) e

theorem power_ten_div (e : Int) : (power 10 e : ℚ) / power 10 (-e) = 10 ^ e := by
  exact_mod_cast power_div_power 10 (by decide) e

/-! ## Rounded quotients -/

theorem roundQuotient_mul_left {k : Nat} (h : 0 < k) (n d : Nat) :
    roundQuotient (k * n) (k * d) = roundQuotient n d := by
  have hless : 2 * (k * (n % d)) < k * d ↔ 2 * (n % d) < d := by
    rw [Nat.mul_left_comm, Nat.mul_lt_mul_left h]
  have hhalf : 2 * (k * (n % d)) = k * d ↔ 2 * (n % d) = d := by
    rw [Nat.mul_left_comm, Nat.mul_right_inj h.ne']
  simp only [roundQuotient, Nat.mul_div_mul_left _ _ h, Nat.mul_mod_mul_left, hless, hhalf]

theorem roundQuotient_congr {n d n' d' : Nat} (hd : 0 < d) (hd' : 0 < d')
    (h : n * d' = n' * d) : roundQuotient n d = roundQuotient n' d' := by
  rw [← roundQuotient_mul_left hd' n d, ← roundQuotient_mul_left hd n' d', Nat.mul_comm d' n, h,
    Nat.mul_comm n' d, Nat.mul_comm d' d]

theorem roundQuotient_mul_self (k : Nat) {d : Nat} (h : 0 < d) : roundQuotient (k * d) d = k := by
  simp [roundQuotient, Nat.mul_div_cancel k h, h]

theorem roundQuotient_eq_zero {n d : Nat} (h : 2 * n < d) : roundQuotient n d = 0 := by
  have hlt : n < d := by omega
  simp [roundQuotient, Nat.div_eq_of_lt hlt, Nat.mod_eq_of_lt hlt, h]

theorem div_le_roundQuotient (n d : Nat) : n / d ≤ roundQuotient n d := by
  unfold roundQuotient
  simp only
  split <;> omega

/-! ## The exponent of a fraction -/

section Fraction

variable {n d : Nat}

/-- To compare with a power of two is to compare the fraction with it. -/
theorem mul_power_le_iff (hd : 0 < d) (e : Int) :
    d * power 2 e ≤ n * power 2 (-e) ↔ (2 : ℚ) ^ e ≤ (n : ℚ) / d := by
  have hd' : (0 : ℚ) < d := by exact_mod_cast hd
  have hpos : (0 : ℚ) < power 2 (-e) := by exact_mod_cast power_pos (by decide) (-e)
  rw [← power_two_div, div_le_div_iff₀ hpos hd', ← Nat.cast_le (α := ℚ)]
  push_cast
  rw [mul_comm (d : ℚ)]

theorem two_zpow_le_iff {q : ℚ} (h : 0 < q) (e : Int) : (2 : ℚ) ^ e ≤ q ↔ e ≤ Int.log 2 q := by
  exact_mod_cast Int.zpow_le_iff_le_log Nat.one_lt_two h

theorem lt_two_zpow_iff {q : ℚ} (h : 0 < q) (e : Int) : q < (2 : ℚ) ^ e ↔ Int.log 2 q < e := by
  exact_mod_cast Int.lt_zpow_iff_log_lt Nat.one_lt_two h

theorem two_zpow_log2_le (h : n ≠ 0) : (2 : ℚ) ^ (n.log2 : Int) ≤ n := by
  rw [zpow_natCast]
  exact_mod_cast Nat.log2_self_le h

theorem lt_two_zpow_log2 (n : Nat) : (n : ℚ) < 2 ^ ((n.log2 : Int) + 1) := by
  rw [← Nat.cast_succ, zpow_natCast]
  exact_mod_cast Nat.lt_log2_self

/-- The first estimate of the exponent is too great by one at most. -/
theorem log2Quotient_eq_log (hn : 0 < n) (hd : 0 < d) :
    log2Quotient n d = Int.log 2 ((n : ℚ) / d) := by
  have hn' : (0 : ℚ) < n := by exact_mod_cast hn
  have hd' : (0 : ℚ) < d := by exact_mod_cast hd
  have hq : (0 : ℚ) < n / d := by positivity
  have hupper : (n : ℚ) / d < 2 ^ ((n.log2 : Int) - d.log2 + 1) := by
    rw [div_lt_iff₀ hd']
    calc (n : ℚ) < 2 ^ ((n.log2 : Int) + 1) := lt_two_zpow_log2 n
      _ = 2 ^ ((n.log2 : Int) - d.log2 + 1) * 2 ^ (d.log2 : Int) := by
        rw [← zpow_add₀ two_ne_zero]
        congr 1
        omega
      _ ≤ 2 ^ ((n.log2 : Int) - d.log2 + 1) * d := by
        gcongr
        exact two_zpow_log2_le hd.ne'
  have hlower : (2 : ℚ) ^ ((n.log2 : Int) - d.log2 - 1) ≤ n / d := by
    rw [le_div_iff₀ hd']
    calc (2 : ℚ) ^ ((n.log2 : Int) - d.log2 - 1) * d
        ≤ 2 ^ ((n.log2 : Int) - d.log2 - 1) * 2 ^ ((d.log2 : Int) + 1) := by
          gcongr
          exact (lt_two_zpow_log2 d).le
      _ = 2 ^ (n.log2 : Int) := by
          rw [← zpow_add₀ two_ne_zero]
          congr 1
          omega
      _ ≤ n := two_zpow_log2_le hn.ne'
  rw [lt_two_zpow_iff hq] at hupper
  rw [two_zpow_le_iff hq] at hlower
  simp only [log2Quotient, mul_power_le_iff hd, two_zpow_le_iff hq]
  split <;> omega

theorem lastPlace_eq (hn : 0 < n) (hd : 0 < d) :
    lastPlace n d = max (Int.log 2 ((n : ℚ) / d) - 52) (-1074) := by
  rw [lastPlace, log2Quotient_eq_log hn hd]

/-! ## Nearest -/

theorem nearest_zero (d : Nat) : nearest 0 d = 0 := rfl

theorem nearest_of_pos (hn : 0 < n) (d : Nat) :
    nearest n d = min infinity ((lastPlace n d + 1074).toNat * hiddenBit +
      roundQuotient (n * power 2 (-lastPlace n d)) (d * power 2 (lastPlace n d))) := by
  rw [nearest, if_neg hn.ne']

/-- Fractions of one value are rounded to the same double. -/
theorem nearest_congr {n' d' : Nat} (hd : 0 < d) (hd' : 0 < d')
    (h : (n : ℚ) / d = n' / d') : nearest n d = nearest n' d' := by
  have hd₀ : (d : ℚ) ≠ 0 := by exact_mod_cast hd.ne'
  have hd₀' : (d' : ℚ) ≠ 0 := by exact_mod_cast hd'.ne'
  have hcross : n * d' = n' * d := by
    rw [div_eq_div_iff hd₀ hd₀'] at h
    exact_mod_cast h
  rcases Nat.eq_zero_or_pos n with rfl | hn
  · obtain rfl : n' = 0 := by simpa [hd.ne'] using hcross.symm
    rw [nearest_zero, nearest_zero]
  · have hn' : 0 < n' := Nat.pos_of_ne_zero fun h₀ => by
      rw [h₀, Nat.zero_mul] at hcross
      exact (Nat.mul_pos hn hd').ne' hcross
    have hplace : lastPlace n d = lastPlace n' d' := by
      rw [lastPlace_eq hn hd, lastPlace_eq hn' hd', h]
    have hpower : 0 < power 2 (lastPlace n' d') := power_pos (by decide) _
    rw [nearest_of_pos hn, nearest_of_pos hn', hplace,
      roundQuotient_congr (Nat.mul_pos hd hpower) (Nat.mul_pos hd' hpower)]
    rw [mul_mul_mul_comm, hcross, mul_mul_mul_comm]

/-- Where the last place is not held at the least one, no significand is less than the hidden
bit. -/
theorem hiddenBit_le_roundQuotient (hd : 0 < d) (hq : (0 : ℚ) < n / d)
    (hplace : lastPlace n d = Int.log 2 ((n : ℚ) / d) - 52) : hiddenBit ≤
      roundQuotient (n * power 2 (-lastPlace n d)) (d * power 2 (lastPlace n d)) := by
  have hpower : 0 < power 2 (lastPlace n d) := power_pos (by decide) _
  have hhidden : (hiddenBit : ℚ) = 2 ^ (52 : Int) := by norm_num [hiddenBit]
  refine le_trans ?_ (div_le_roundQuotient _ _)
  rw [Nat.le_div_iff_mul_le (Nat.mul_pos hd hpower), ← Nat.mul_assoc,
    mul_power_le_iff (Nat.mul_pos (by decide) hd), Nat.cast_mul, mul_comm, ← div_div, hhidden,
    le_div_iff₀ (by positivity), hplace]
  calc (2 : ℚ) ^ (Int.log 2 ((n : ℚ) / d) - 52) * 2 ^ (52 : Int)
      = 2 ^ (Int.log 2 ((n : ℚ) / d)) := by
        rw [← zpow_add₀ two_ne_zero, Int.sub_add_cancel]
    _ ≤ (n : ℚ) / d := (two_zpow_le_iff hq _).mpr le_rfl

/-- The greatest finite double is less than `2 ^ 1024`. -/
theorem nearest_eq_infinity (hd : 0 < d) (h : (2 : ℚ) ^ (1024 : Int) ≤ (n : ℚ) / d) :
    nearest n d = infinity := by
  have hq : (0 : ℚ) < n / d := lt_of_lt_of_le (by positivity) h
  have hn : 0 < n := Nat.pos_of_ne_zero fun h₀ => by simp [h₀] at hq
  have hlog : (1024 : Int) ≤ Int.log 2 ((n : ℚ) / d) := (two_zpow_le_iff hq 1024).mp h
  have hplace : lastPlace n d = Int.log 2 ((n : ℚ) / d) - 52 := by
    rw [lastPlace_eq hn hd]
    omega
  rw [nearest_of_pos hn]
  apply Nat.min_eq_left
  calc infinity = 2046 * hiddenBit + hiddenBit := rfl
    _ ≤ (lastPlace n d + 1074).toNat * hiddenBit + _ := by
      gcongr
      · omega
      · exact hiddenBit_le_roundQuotient hd hq hplace

/-- The least positive double is `2 ^ (-1074)`. -/
theorem nearest_eq_zero (hd : 0 < d) (h : (n : ℚ) / d < 2 ^ (-1075 : Int)) :
    nearest n d = 0 := by
  rcases Nat.eq_zero_or_pos n with rfl | hn
  · exact nearest_zero d
  have hn' : (0 : ℚ) < n := by exact_mod_cast hn
  have hd' : (0 : ℚ) < d := by exact_mod_cast hd
  have hplace : lastPlace n d = -1074 := by
    have hlog := (lt_two_zpow_iff (div_pos hn' hd') _).mp h
    rw [lastPlace_eq hn hd]
    omega
  have hless : 2 * (n * power 2 (-lastPlace n d)) < d * power 2 (lastPlace n d) := by
    rw [← Nat.mul_assoc, ← not_le, mul_power_le_iff hd, not_le, hplace, Nat.cast_mul, mul_div_assoc]
    calc ((2 : Nat) : ℚ) * (n / d) < 2 * 2 ^ (-1075 : Int) := by
          rw [Nat.cast_ofNat]
          gcongr
      _ = 2 ^ (-1074 : Int) := (zpow_one_add₀ two_ne_zero _).symm
  rw [nearest_of_pos hn, roundQuotient_eq_zero hless, hplace]
  rfl

end Fraction

/-! ## The value of a double -/

theorem denominator_pos (bits : Nat) : 0 < denominator bits := power_pos (by decide) _

theorem significand_pos {bits : Nat} (h : 0 < bits) : 0 < significand bits := by
  unfold significand
  split
  · exact h
  · exact Nat.add_pos_left (by decide) _

theorem numerator_pos {bits : Nat} (h : 0 < bits) : 0 < numerator bits :=
  Nat.mul_pos (significand_pos h) (power_pos (by decide) _)

theorem numerator_div_denominator (bits : Nat) :
    (numerator bits : ℚ) / denominator bits = significand bits * 2 ^ exponent bits := by
  rw [numerator, denominator, Nat.cast_mul, mul_div_assoc, power_two_div]

/-- The magnitude bits of a double are its place among the multiples of its last place. -/
theorem units_eq (bits : Nat) :
    (exponent bits + 1074).toNat * hiddenBit + significand bits = bits := by
  unfold exponent significand hiddenBit
  split <;> omega

/-- The last place of a double is that of the doubles about its value. -/
theorem lastPlace_self {bits : Nat} (h : 0 < bits) :
    lastPlace (numerator bits) (denominator bits) = exponent bits := by
  have hsig : (0 : ℚ) < significand bits := by exact_mod_cast significand_pos h
  have hq : (0 : ℚ) < significand bits * 2 ^ exponent bits := by positivity
  have hlog : Int.log 2 ((significand bits : ℚ) * 2 ^ exponent bits) < 53 + exponent bits := by
    rw [← lt_two_zpow_iff hq, zpow_add₀ two_ne_zero]
    gcongr
    have hlt : significand bits < 2 ^ 53 := by
      unfold significand hiddenBit
      split <;> omega
    exact_mod_cast hlt
  rw [lastPlace_eq (numerator_pos h) (denominator_pos bits), numerator_div_denominator]
  rcases Nat.lt_or_ge bits hiddenBit with hsub | hnormal
  · have hexp : exponent bits = -1074 := by
      rw [exponent, Nat.div_eq_of_lt hsub]
      rfl
    omega
  · have hlow : 52 + exponent bits ≤ Int.log 2 ((significand bits : ℚ) * 2 ^ exponent bits) := by
      rw [← two_zpow_le_iff hq, zpow_add₀ two_ne_zero]
      gcongr
      have hle : 2 ^ 52 ≤ significand bits := by
        rw [significand, if_neg (not_lt.mpr hnormal)]
        exact Nat.le_add_right _ _
      exact_mod_cast hle
    have hexp : -1074 ≤ exponent bits := by
      unfold exponent
      omega
    omega

/-- The value of a double is rounded to it. -/
theorem nearest_self {bits : Nat} (h : 0 < bits) (hfinite : bits < infinity) :
    nearest (numerator bits) (denominator bits) = bits := by
  rw [nearest_of_pos (numerator_pos h), lastPlace_self h, numerator, denominator,
    Nat.mul_assoc, Nat.mul_comm (power 2 _),
    roundQuotient_mul_self _ (Nat.mul_pos (power_pos (by decide) _) (power_pos (by decide) _)),
    units_eq]
  exact Nat.min_eq_right hfinite.le

/-! ## Decimals -/

/-- A decimal place is worth more than three binary ones. -/
theorem two_zpow_le_ten_zpow {k : Int} (h : 0 ≤ k) : (2 : ℚ) ^ (3 * k) ≤ 10 ^ k := by
  rw [zpow_mul]
  exact zpow_le_zpow_left₀ h (by norm_num) (by norm_num)

theorem ten_zpow_le_two_zpow {k : Int} (h : k ≤ 0) : (10 : ℚ) ^ k ≤ 2 ^ (3 * k) := by
  have hinv := two_zpow_le_ten_zpow (Int.neg_nonneg_of_nonpos h)
  rw [Int.mul_neg, zpow_neg, zpow_neg] at hinv
  exact (inv_le_inv₀ (by positivity) (by positivity)).mp hinv

namespace Decimal

/-- The number that a decimal is. -/
def value (d : Decimal) : ℚ := d.coefficient * 10 ^ d.exponent

theorem value_nonneg (d : Decimal) : 0 ≤ d.value := by
  unfold value
  positivity

theorem denominator_pos (d : Decimal) : 0 < d.denominator := power_pos (by decide) _

theorem numerator_div_denominator (d : Decimal) :
    (d.numerator : ℚ) / d.denominator = d.value := by
  rw [numerator, denominator, Nat.cast_mul, mul_div_assoc, power_ten_div, value]

theorem two_zpow_le_value {d : Decimal} (hpos : 0 < d.coefficient) (h : 400 < d.exponent) :
    (2 : ℚ) ^ (1024 : Int) ≤ d.value := by
  have hone : (1 : ℚ) ≤ d.coefficient := by exact_mod_cast hpos
  calc (2 : ℚ) ^ (1024 : Int) ≤ 2 ^ (3 * d.exponent) := zpow_le_zpow_right₀ one_le_two (by omega)
    _ ≤ 10 ^ d.exponent := two_zpow_le_ten_zpow (by omega)
    _ = 1 * 10 ^ d.exponent := (one_mul _).symm
    _ ≤ d.value := by
      unfold value
      gcongr

theorem value_lt_two_zpow {d : Decimal} (h : d.exponent + d.coefficient.log2 < -400) :
    d.value < 2 ^ (-1075 : Int) := by
  calc d.value < 2 ^ ((d.coefficient.log2 : Int) + 1) * 10 ^ d.exponent := by
        unfold value
        gcongr
        exact lt_two_zpow_log2 _
    _ ≤ 2 ^ ((d.coefficient.log2 : Int) + 1) * 2 ^ (3 * d.exponent) := by
      gcongr
      exact ten_zpow_le_two_zpow (by omega)
    _ = 2 ^ ((d.coefficient.log2 : Int) + 1 + 3 * d.exponent) := (zpow_add₀ two_ne_zero _ _).symm
    _ ≤ 2 ^ (-1075 : Int) := zpow_le_zpow_right₀ one_le_two (by omega)

/-- The answers that are given at once are right. -/
theorem nearest_eq (d : Decimal) : d.nearest = Number.nearest d.numerator d.denominator := by
  rcases Nat.eq_zero_or_pos d.coefficient with hzero | hpos
  · rw [nearest, if_pos hzero, numerator, hzero, Nat.zero_mul, nearest_zero]
  rw [nearest, if_neg hpos.ne']
  split_ifs with hgreat hsmall
  · have hvalue := two_zpow_le_value hpos hgreat
    rw [← numerator_div_denominator] at hvalue
    exact (nearest_eq_infinity d.denominator_pos hvalue).symm
  · have hvalue := value_lt_two_zpow hsmall
    rw [← numerator_div_denominator] at hvalue
    exact (nearest_eq_zero d.denominator_pos hvalue).symm
  · rfl

/-- Decimals of one value are read as the same double. -/
theorem nearest_congr {d d' : Decimal} (h : d.value = d'.value) : d.nearest = d'.nearest := by
  rw [nearest_eq, nearest_eq]
  apply Number.nearest_congr d.denominator_pos d'.denominator_pos
  rw [numerator_div_denominator, numerator_div_denominator, h]

end Decimal

end Worksheet.Number
