import Mathlib
import Worksheet.Proofs.Double
import Worksheet.Proofs.Rounding

/-!
# Rounding is correct

`nearest` gives the double nearest to a number, and the even one of two equally near; from half a
place beyond the greatest double on it gives infinity. `IsNearest` says so of a double, against all
other doubles, and `isNearest_ofMagnitude` that the double with the rounded magnitude has it.

Rounding takes the nearest multiple of a unit, the last place of the doubles about the number
(`RoundsInUnits`). A double with a last place of more weight is a multiple of this unit as well, and
one with a last place of less weight lies below all doubles that come into question; so no double is
nearer than the nearest multiple (`exists_multiple`).
-/

namespace Worksheet.Number

/-! ## The value of a double -/

/-- The number that a finite double is, by its magnitude bits. -/
def finiteValue (bits : Nat) : ℚ := significand bits * 2 ^ exponent bits

theorem significand_lt (bits : Nat) : significand bits < 2 ^ 53 := by
  unfold significand hiddenBit
  split <;> omega

theorem exponent_ge (bits : Nat) : -1074 ≤ exponent bits := by
  unfold exponent
  omega

theorem significand_mod_two (bits : Nat) : significand bits % 2 = bits % 2 := by
  unfold significand hiddenBit
  split <;> omega

theorem finiteValue_zero : finiteValue 0 = 0 := by simp [finiteValue, significand, hiddenBit]

theorem finiteValue_nonneg (bits : Nat) : 0 ≤ finiteValue bits := by
  unfold finiteValue
  positivity

/-- A significand that is rounded up to the next power of two carries into the exponent. -/
theorem finiteValue_units {e : ℤ} {m : Nat} (he : -1074 ≤ e) (hm : m ≤ 2 ^ 53)
    (hnormal : e = -1074 ∨ hiddenBit ≤ m) :
    finiteValue ((e + 1074).toNat * hiddenBit + m) = m * 2 ^ e := by
  rcases Nat.lt_or_ge m (2 ^ 53) with hlt | hcarry
  · have hparts : significand ((e + 1074).toNat * hiddenBit + m) = m ∧
        exponent ((e + 1074).toNat * hiddenBit + m) = e := by
      unfold significand exponent hiddenBit at *
      split <;> omega
    rw [finiteValue, hparts.1, hparts.2]
  · have hparts : significand ((e + 1074).toNat * hiddenBit + m) = 2 ^ 52 ∧
        exponent ((e + 1074).toNat * hiddenBit + m) = e + 1 := by
      unfold significand exponent hiddenBit at *
      split <;> omega
    rw [finiteValue, hparts.1, hparts.2, le_antisymm hm hcarry, zpow_add_one₀ two_ne_zero]
    push_cast
    ring

theorem hiddenBit_le_significand (bits : Nat) :
    exponent bits = -1074 ∨ hiddenBit ≤ significand bits := by
  unfold exponent significand hiddenBit
  split <;> omega

/-- The next magnitude bits are those of the next multiple of the last place. -/
theorem finiteValue_succ (bits : Nat) :
    finiteValue (bits + 1) = (significand bits + 1) * 2 ^ exponent bits := by
  have hnormal : exponent bits = -1074 ∨ hiddenBit ≤ significand bits + 1 :=
    (hiddenBit_le_significand bits).imp_right fun hle => hle.trans (Nat.le_succ _)
  have hnext := finiteValue_units (exponent_ge bits) (significand_lt bits) hnormal
  rwa [Nat.succ_eq_add_one, ← Nat.add_assoc, units_eq, Nat.cast_succ] at hnext

/-- Magnitude bits have the order of the values of doubles. -/
theorem finiteValue_strictMono : StrictMono finiteValue := by
  apply strictMono_nat_of_lt_succ
  intro bits
  rw [finiteValue_succ, finiteValue]
  gcongr
  exact lt_add_one _

/-! ## The nearest multiple of a unit -/

section Quotient

variable {n d : Nat}

/-- The rounded quotient is the integer below or the one above, by the fraction between. -/
theorem roundQuotient_cases (n : Nat) (hd : 0 < d) :
    ∃ (k : Nat) (r : ℚ), 0 ≤ r ∧ r < 1 ∧ (n : ℚ) / d = k + r ∧
      ((roundQuotient n d = k ∧ (r < 1 / 2 ∨ r = 1 / 2 ∧ k % 2 = 0)) ∨
        (roundQuotient n d = k + 1 ∧ (1 / 2 < r ∨ r = 1 / 2 ∧ k % 2 = 1))) := by
  have hd' : (0 : ℚ) < d := by exact_mod_cast hd
  have hrest : (n % d : Nat) < d := Nat.mod_lt n hd
  refine ⟨n / d, ((n % d : Nat) : ℚ) / d, by positivity, ?_, ?_, ?_⟩
  · rw [div_lt_one hd']
    exact_mod_cast hrest
  · rw [div_eq_iff hd'.ne', add_mul, div_mul_cancel₀ _ hd'.ne']
    exact_mod_cast (Nat.div_add_mod' n d).symm
  · have hless : ((n % d : Nat) : ℚ) / d < 1 / 2 ↔ 2 * (n % d) < d := by
      rw [div_lt_div_iff₀ hd' two_pos, one_mul, mul_comm]
      exact_mod_cast Iff.rfl
    have hhalf : ((n % d : Nat) : ℚ) / d = 1 / 2 ↔ 2 * (n % d) = d := by
      rw [div_eq_div_iff hd'.ne' two_ne_zero, one_mul, mul_comm]
      exact_mod_cast Iff.rfl
    have hgreater : 1 / 2 < ((n % d : Nat) : ℚ) / d ↔ d < 2 * (n % d) := by
      rw [div_lt_div_iff₀ two_pos hd', one_mul, mul_comm _ 2]
      exact_mod_cast Iff.rfl
    rw [hless, hhalf, hgreater]
    simp only [roundQuotient]
    split <;> omega

theorem distance_of_le {j k : Nat} {r : ℚ} (hr : 0 ≤ r) (h : j ≤ k) :
    |(j : ℚ) - (k + r)| = (k - j) + r := by
  have hle : (j : ℚ) ≤ k := by exact_mod_cast h
  rw [abs_of_nonpos (by linarith)]
  ring

theorem distance_of_lt {j k : Nat} {r : ℚ} (hr : r < 1) (h : k < j) :
    |(j : ℚ) - (k + r)| = (j - (k + 1)) + (1 - r) := by
  have hle : (k : ℚ) + 1 ≤ j := by exact_mod_cast h
  rw [abs_of_nonneg (by linarith)]
  ring

/-- No integer is nearer than the rounded quotient, and if another is as near the rounded quotient
is even. -/
theorem roundQuotient_nearest (n : Nat) (hd : 0 < d) (j : Nat) :
    |(roundQuotient n d : ℚ) - n / d| ≤ |(j : ℚ) - n / d| ∧
      (j ≠ roundQuotient n d → |(j : ℚ) - n / d| = |(roundQuotient n d : ℚ) - n / d| →
        roundQuotient n d % 2 = 0) := by
  obtain ⟨k, r, hr, hr', hq, ⟨hround, hhalf⟩ | ⟨hround, hhalf⟩⟩ := roundQuotient_cases n hd
  · rw [hround, hq, distance_of_le hr le_rfl, sub_self, zero_add]
    rcases Nat.lt_or_ge k j with hlt | hle
    · have hj : (k : ℚ) + 1 ≤ j := by exact_mod_cast hlt
      rw [distance_of_lt hr' hlt]
      refine ⟨?_, fun _ heq => ?_⟩
      · rcases hhalf with h | ⟨h, -⟩ <;> linarith
      · rcases hhalf with h | ⟨-, h⟩
        · linarith
        · exact h
    · have hj : (j : ℚ) ≤ k := by exact_mod_cast hle
      rw [distance_of_le hr hle]
      refine ⟨by linarith, fun hne heq => absurd ?_ hne⟩
      have hsame : (j : ℚ) = k := by linarith
      exact_mod_cast hsame
  · rw [hround, hq, distance_of_lt hr' (Nat.lt_succ_self k), Nat.cast_succ, sub_self, zero_add]
    rcases Nat.lt_or_ge k j with hlt | hle
    · have hj : (k : ℚ) + 1 ≤ j := by exact_mod_cast hlt
      rw [distance_of_lt hr' hlt]
      refine ⟨by linarith, fun hne heq => absurd ?_ hne⟩
      have hsame : (j : ℚ) = k + 1 := by linarith
      exact_mod_cast hsame
    · have hj : (j : ℚ) ≤ k := by exact_mod_cast hle
      rw [distance_of_le hr hle]
      refine ⟨?_, fun _ heq => ?_⟩
      · rcases hhalf with h | ⟨h, -⟩ <;> linarith
      · rcases hhalf with h | ⟨-, h⟩
        · linarith
        · omega

end Quotient

/-- So many units of `2 ^ e` are nearest to a number, and `2 ^ e` is the weight of the last place of
the doubles about it. -/
structure RoundsInUnits (q : ℚ) (e : ℤ) (m : Nat) : Prop where
  least : -1074 ≤ e
  upper : q < 2 ^ (e + 53)
  lower : e = -1074 ∨ 2 ^ (e + 52) ≤ q
  nearest : ∀ j : Nat, |m * 2 ^ e - q| ≤ |j * 2 ^ e - q|
  even : ∀ j : Nat, j ≠ m → |j * 2 ^ e - q| = |m * 2 ^ e - q| → m % 2 = 0

theorem roundsInUnits_nearest {n d : Nat} (hn : 0 < n) (hd : 0 < d) :
    RoundsInUnits (n / d) (lastPlace n d)
      (roundQuotient (n * power 2 (-lastPlace n d)) (d * power 2 (lastPlace n d))) := by
  have hn' : (0 : ℚ) < n := by exact_mod_cast hn
  have hd' : (0 : ℚ) < d := by exact_mod_cast hd
  have hq : (0 : ℚ) < n / d := by positivity
  have hplace := lastPlace_eq hn hd
  generalize lastPlace n d = e at hplace ⊢
  have hpower : (0 : ℚ) < 2 ^ e := by positivity
  have hscaled : ((n * power 2 (-e) : Nat) : ℚ) / ((d * power 2 e : Nat) : ℚ) = n / d / 2 ^ e := by
    rw [Nat.cast_mul, Nat.cast_mul, mul_div_mul_comm, ← power_two_div, ← inv_div (power 2 e : ℚ),
      div_eq_mul_inv _ ((power 2 e : ℚ) / _)]
  have hround := roundQuotient_nearest (n * power 2 (-e))
    (Nat.mul_pos hd (power_pos (by decide : 0 < 2) e))
  rw [hscaled] at hround
  generalize roundQuotient (n * power 2 (-e)) (d * power 2 e) = m at hround ⊢
  have hdistance (j : Nat) : |(j : ℚ) * 2 ^ e - n / d| = |(j : ℚ) - n / d / 2 ^ e| * 2 ^ e := by
    rw [← abs_of_pos hpower, ← abs_mul, abs_of_pos hpower, sub_mul, div_mul_cancel₀ _ hpower.ne']
  refine ⟨by omega, ?_, ?_, fun j => ?_, fun j hne heq => ?_⟩
  · rw [lt_two_zpow_iff hq]
    omega
  · rw [two_zpow_le_iff hq]
    omega
  · rw [hdistance, hdistance]
    exact mul_le_mul_of_nonneg_right (hround j).1 hpower.le
  · rw [hdistance, hdistance] at heq
    exact (hround j).2 hne (mul_right_cancel₀ hpower.ne' heq)

namespace RoundsInUnits

variable {q : ℚ} {e : ℤ} {m : Nat}

theorem mul_two_zpow_add (e : ℤ) (k : Nat) : (2 : ℚ) ^ (e + k) = (2 ^ k : Nat) * 2 ^ e := by
  rw [zpow_add₀ two_ne_zero, zpow_natCast, mul_comm]
  norm_cast

theorem le (h : RoundsInUnits q e m) : m ≤ 2 ^ 53 := by
  have hpower : (0 : ℚ) < 2 ^ e := by positivity
  have hupper : q < (2 ^ 53 : Nat) * 2 ^ e := mul_two_zpow_add e 53 ▸ h.upper
  have hnear := h.nearest (2 ^ 53)
  rw [abs_of_pos (sub_pos.mpr hupper)] at hnear
  have hle : (m : ℚ) * 2 ^ e ≤ (2 ^ 53 : Nat) * 2 ^ e := by
    linarith [le_abs_self ((m : ℚ) * 2 ^ e - q)]
  exact_mod_cast le_of_mul_le_mul_right hle hpower

theorem hiddenBit_le (h : RoundsInUnits q e m) : e = -1074 ∨ hiddenBit ≤ m := by
  refine h.lower.imp_right fun hlower => ?_
  have hpower : (0 : ℚ) < 2 ^ e := by positivity
  have hlower : (2 ^ 52 : Nat) * 2 ^ e ≤ q := (mul_two_zpow_add e 52).symm.trans_le hlower
  have hnear := h.nearest (2 ^ 52)
  rw [abs_of_nonpos (sub_nonpos.mpr hlower)] at hnear
  have hle : ((2 ^ 52 : Nat) : ℚ) * 2 ^ e ≤ m * 2 ^ e := by
    linarith [neg_abs_le ((m : ℚ) * 2 ^ e - q)]
  exact_mod_cast le_of_mul_le_mul_right hle hpower

/-- The bits of the double that is so many units. -/
theorem finiteValue_eq (h : RoundsInUnits q e m) :
    finiteValue ((e + 1074).toNat * hiddenBit + m) = m * 2 ^ e :=
  finiteValue_units h.least h.le h.hiddenBit_le

/-- A multiple of the unit is as near as any double, and nearer than a double that is no such
multiple. -/
theorem exists_multiple (h : RoundsInUnits q e m) (other : Nat) :
    ∃ j : Nat, |j * 2 ^ e - q| ≤ |finiteValue other - q| ∧
      (|j * 2 ^ e - q| = |finiteValue other - q| → finiteValue other = j * 2 ^ e) := by
  rcases le_or_gt e (exponent other) with hle | hlt
  · have hexponent : exponent other = e + ((exponent other - e).toNat : ℤ) := by omega
    have hvalue : finiteValue other =
        (significand other * 2 ^ (exponent other - e).toNat : Nat) * 2 ^ e := by
      rw [finiteValue, hexponent, mul_two_zpow_add, Nat.cast_mul, mul_assoc]
      congr 4
      omega
    exact ⟨_, by rw [hvalue], fun _ => hvalue⟩
  · have hlower : (2 ^ 52 : Nat) * 2 ^ e ≤ q := by
      rw [← mul_two_zpow_add]
      exact h.lower.resolve_left (by have := exponent_ge other; omega)
    have hbelow : finiteValue other < (2 ^ 52 : Nat) * 2 ^ e := by
      calc finiteValue other < (2 ^ 53 : Nat) * 2 ^ exponent other := by
            unfold finiteValue
            gcongr
            exact significand_lt other
        _ = 2 ^ (exponent other + 53) := (mul_two_zpow_add _ 53).symm
        _ ≤ 2 ^ (e + 52) := zpow_le_zpow_right₀ one_le_two (by omega)
        _ = (2 ^ 52 : Nat) * 2 ^ e := mul_two_zpow_add e 52
    have hnearer : |((2 ^ 52 : Nat) : ℚ) * 2 ^ e - q| < |finiteValue other - q| := by
      rw [abs_of_nonpos (by linarith), abs_of_nonpos (by linarith)]
      linarith
    exact ⟨2 ^ 52, hnearer.le, fun heq => absurd heq hnearer.ne⟩

theorem nearest_double (h : RoundsInUnits q e m) (other : Nat) :
    |(m : ℚ) * 2 ^ e - q| ≤ |finiteValue other - q| := by
  obtain ⟨j, hj, -⟩ := h.exists_multiple other
  exact (h.nearest j).trans hj

theorem even_double (h : RoundsInUnits q e m) {other : Nat}
    (hne : finiteValue other ≠ m * 2 ^ e)
    (heq : |finiteValue other - q| = |(m : ℚ) * 2 ^ e - q|) : m % 2 = 0 := by
  -- A double that is as near as the nearest multiple is a multiple itself.
  obtain ⟨j, hj, hmultiple⟩ := h.exists_multiple other
  have hsame := le_antisymm (heq ▸ hj) (h.nearest j)
  have hvalue := hmultiple (hsame.trans heq.symm)
  exact h.even j (fun hjm => hne (hjm ▸ hvalue)) hsame

end RoundsInUnits

/-! ## Overflow -/

/-- Half a place beyond the greatest finite double. -/
def overflow : ℚ := 2 ^ 1024 - 2 ^ 970

theorem overflow_eq : overflow = (2 ^ 53 - 1 / 2) * 2 ^ (971 : ℤ) := by
  have htop : (2 : ℚ) ^ 1024 = 2 ^ 53 * 2 ^ 971 := pow_add 2 53 971
  have hhalf : (2 : ℚ) ^ 971 = 2 * 2 ^ 970 := pow_succ' 2 970
  have hunit : (2 : ℚ) ^ (971 : ℤ) = 2 ^ 971 := zpow_natCast 2 971
  rw [overflow, htop, hunit, hhalf]
  generalize (2 : ℚ) ^ 970 = half
  ring

theorem overflow_lt_two_zpow : overflow < 2 ^ (1024 : ℤ) := by
  have htop : (2 : ℚ) ^ (1024 : ℤ) = 2 ^ 1024 := zpow_natCast 2 1024
  rw [overflow, htop]
  exact sub_lt_self _ (by positivity)

theorem two_zpow_le_overflow : (2 : ℚ) ^ (1023 : ℤ) ≤ overflow := by
  have htop : (2 : ℚ) ^ (1023 : ℤ) = 2 ^ 52 * 2 ^ (971 : ℤ) := zpow_add₀ two_ne_zero 52 971
  rw [overflow_eq, htop]
  gcongr
  norm_num

namespace RoundsInUnits

variable {q : ℚ} {e : ℤ} {m : Nat}

/-- Below the threshold the greatest significand is not rounded up. -/
theorem lt_of_lt_overflow (h : RoundsInUnits q 971 m) (hq : q < overflow) : m < 2 ^ 53 := by
  by_contra hge
  obtain rfl : m = 2 ^ 53 := le_antisymm h.le (not_lt.mp hge)
  have hunit : (0 : ℚ) < 2 ^ (971 : ℤ) := by positivity
  have hnear := h.nearest (2 ^ 53 - 1)
  rw [overflow_eq] at hq
  generalize (2 : ℚ) ^ (971 : ℤ) = unit at hunit hq hnear
  push_cast at hnear
  rw [abs_of_pos (by linarith)] at hnear
  exact absurd hnear (not_le.mpr (abs_lt.mpr ⟨by linarith, by linarith⟩))

/-- From the threshold on it is; at the threshold itself because it is odd. -/
theorem le_of_overflow_le (h : RoundsInUnits q 971 m) (hq : overflow ≤ q) : 2 ^ 53 ≤ m := by
  by_contra hlt
  have hunit : (0 : ℚ) < 2 ^ (971 : ℤ) := by positivity
  have hupper : q < (2 ^ 53 : Nat) * 2 ^ (971 : ℤ) := mul_two_zpow_add 971 53 ▸ h.upper
  have hnear := h.nearest (2 ^ 53)
  have heven := h.even (2 ^ 53) (by omega)
  have hle : (m : ℚ) + 1 ≤ 2 ^ 53 := by exact_mod_cast not_le.mp hlt
  rw [overflow_eq] at hq
  generalize (2 : ℚ) ^ (971 : ℤ) = unit at hunit hupper hq hnear heven
  have hm := mul_le_mul_of_nonneg_right hle hunit.le
  rw [Nat.cast_pow, Nat.cast_ofNat] at hupper hnear heven
  rw [abs_of_pos (by linarith : 0 < 2 ^ 53 * unit - q), abs_of_neg (by linarith)] at hnear heven
  have hsame : ((m : ℚ) + 1) * unit = 2 ^ 53 * unit := by linarith
  have hgreatest : m + 1 = 2 ^ 53 := by exact_mod_cast mul_right_cancel₀ hunit.ne' hsame
  have := heven (by linarith)
  omega

/-- A number is rounded to infinity from the threshold on. -/
theorem infinity_le_iff (h : RoundsInUnits q e m) :
    infinity ≤ (e + 1074).toNat * hiddenBit + m ↔ overflow ≤ q := by
  have hle := h.le
  constructor
  · intro hinfinity
    by_contra hq
    rw [not_le] at hq
    have hexponent : e ≤ 971 := by
      by_contra hgreat
      have hlower := h.lower.resolve_left (by omega)
      have hpower : (2 : ℚ) ^ (1024 : ℤ) ≤ 2 ^ (e + 52) :=
        zpow_le_zpow_right₀ one_le_two (by omega)
      linarith [overflow_lt_two_zpow]
    rcases hexponent.lt_or_eq with hlt | rfl
    · simp only [infinity, hiddenBit] at hinfinity
      omega
    · have hlt := h.lt_of_lt_overflow hq
      simp only [infinity, hiddenBit] at hinfinity
      omega
  · intro hq
    have hexponent : 971 ≤ e := by
      by_contra hsmall
      have hpower : (2 : ℚ) ^ (e + 53) ≤ 2 ^ (1023 : ℤ) :=
        zpow_le_zpow_right₀ one_le_two (by omega)
      linarith [two_zpow_le_overflow, h.upper]
    rcases hexponent.lt_or_eq with hlt | rfl
    · have hnormal := h.hiddenBit_le.resolve_left (by omega)
      simp only [infinity, hiddenBit] at hnormal ⊢
      omega
    · have hge := h.le_of_overflow_le hq
      simp only [infinity, hiddenBit]
      omega

end RoundsInUnits

/-! ## Magnitude bits -/

/-- A number that is not negative is rounded to the double with these magnitude bits. -/
structure RoundsTo (q : ℚ) (bits : Nat) : Prop where
  finite : bits < infinity
  nearest : ∀ other, |finiteValue bits - q| ≤ |finiteValue other - q|
  even : ∀ other < infinity, other ≠ bits →
    |finiteValue other - q| = |finiteValue bits - q| → significand bits % 2 = 0

theorem RoundsInUnits.roundsTo {q : ℚ} {e : ℤ} {m : Nat} (h : RoundsInUnits q e m)
    (hq : q < overflow) : RoundsTo q ((e + 1074).toNat * hiddenBit + m) := by
  have hfinite : (e + 1074).toNat * hiddenBit + m < infinity := by
    rw [← not_le, h.infinity_le_iff, not_le]
    exact hq
  refine ⟨hfinite, fun other => ?_, fun other hother hne heq => ?_⟩
  · rw [h.finiteValue_eq]
    exact h.nearest_double other
  · have hvalue : finiteValue other ≠ m * 2 ^ e := fun hsame =>
      hne (finiteValue_strictMono.injective (hsame.trans h.finiteValue_eq.symm))
    rw [h.finiteValue_eq] at heq
    have heven := h.even_double hvalue heq
    rw [significand_mod_two, hiddenBit]
    omega

theorem roundsTo_nearest {n d : Nat} (hd : 0 < d) (h : (n : ℚ) / d < overflow) :
    RoundsTo (n / d) (nearest n d) := by
  rcases Nat.eq_zero_or_pos n with rfl | hn
  · rw [nearest_zero, Nat.cast_zero, zero_div]
    refine ⟨by decide, fun other => ?_, fun _ _ _ _ => rfl⟩
    rw [finiteValue_zero, sub_zero, abs_zero]
    exact abs_nonneg _
  · have hunits := (roundsInUnits_nearest hn hd).roundsTo h
    rwa [nearest_of_pos hn, min_eq_right hunits.finite.le]

theorem nearest_eq_infinity_of_le {n d : Nat} (hd : 0 < d) (h : overflow ≤ (n : ℚ) / d) :
    nearest n d = infinity := by
  have hn : 0 < n := Nat.pos_of_ne_zero fun hzero => by
    have hpos : (0 : ℚ) < 2 ^ (1023 : ℤ) := by positivity
    rw [hzero, Nat.cast_zero, zero_div] at h
    exact absurd (hpos.trans_le two_zpow_le_overflow) (not_lt.mpr h)
  rw [nearest_of_pos hn]
  exact min_eq_left ((roundsInUnits_nearest hn hd).infinity_le_iff.mpr h)

/-- The magnitude bits of the double nearest to a number that is not negative, or to infinity. -/
def nearestTo : WithTop ℚ → Nat
  | ⊤ => infinity
  | (q : ℚ) => nearest q.num.natAbs q.den

theorem nearest_le_infinity (n d : Nat) : nearest n d ≤ infinity := by
  unfold nearest
  split
  · exact Nat.zero_le _
  · exact min_le_left _ _

theorem nearestTo_le_infinity : (v : WithTop ℚ) → nearestTo v ≤ infinity
  | ⊤ => le_rfl
  | (_ : ℚ) => nearest_le_infinity _ _

theorem cast_natAbs_div {q : ℚ} (h : 0 ≤ q) : (q.num.natAbs : ℚ) / q.den = q := by
  have hnum : ((q.num.natAbs : ℤ) : ℚ) = q.num := by
    rw [Int.natAbs_of_nonneg (Rat.num_nonneg.mpr h)]
  rw [← Int.cast_natCast, hnum, Rat.num_div_den]

theorem nearestTo_div (n : Nat) {d : Nat} (hd : 0 < d) :
    nearestTo ((n : ℚ) / d : ℚ) = nearest n d :=
  nearest_congr (Rat.den_pos _) hd (cast_natAbs_div (by positivity))

/-- A decimal is read as the double nearest to its value. -/
theorem Decimal.nearest_eq_nearestTo (d : Decimal) : d.nearest = nearestTo d.value := by
  rw [← d.numerator_div_denominator, nearestTo_div _ d.denominator_pos, ← d.nearest_eq]

theorem roundsTo_nearestTo {q : ℚ} (hq : 0 ≤ q) (h : q < overflow) : RoundsTo q (nearestTo q) := by
  have hround := roundsTo_nearest q.den_pos (cast_natAbs_div hq ▸ h)
  rwa [cast_natAbs_div hq] at hround

theorem nearestTo_eq_infinity {v : WithTop ℚ} (hv : 0 ≤ v) (h : overflow ≤ v) :
    nearestTo v = infinity := by
  induction v using WithTop.recTopCoe with
  | top => rfl
  | coe q =>
    rw [← WithTop.coe_zero, WithTop.coe_le_coe] at hv
    rw [WithTop.coe_le_coe] at h
    exact nearest_eq_infinity_of_le q.den_pos (h.trans_eq (cast_natAbs_div hv).symm)

/-! ## Doubles with a sign -/

/-- A number with a sign. -/
def signedValue (negative : Bool) (q : ℚ) : ℚ := if negative then -q else q

/-- The number that a finite double is. -/
def value (x : Float) : ℚ := signedValue (isNegative x) (finiteValue (magnitude x))

/-- A finite double is the nearest to a number, and the even one if another is as near. -/
structure IsNearest (q : ℚ) (x : Float) : Prop where
  finite : magnitude x < infinity
  nearest : ∀ y, magnitude y < infinity → |value x - q| ≤ |value y - q|
  even : ∀ y, magnitude y < infinity → y ≠ x → |value y - q| = |value x - q| →
    significand (magnitude x) % 2 = 0

theorem distance_signedValue (negative : Bool) (a q : ℚ) :
    |signedValue negative a - signedValue negative q| = |a - q| := by
  cases negative with
  | false => rfl
  | true =>
    have hneg : -a - -q = -(a - q) := by ring
    exact (congrArg abs hneg).trans (abs_neg _)

theorem distance_signedValue_not (negative : Bool) {a q : ℚ} (ha : 0 ≤ a) (hq : 0 ≤ q) :
    |signedValue (!negative) a - signedValue negative q| = a + q := by
  cases negative with
  | false =>
    have hneg : -a - q = -(a + q) := by ring
    exact (congrArg abs hneg).trans ((abs_neg _).trans (abs_of_nonneg (by linarith)))
  | true =>
    have hsum : a - -q = a + q := by ring
    exact (congrArg abs hsum).trans (abs_of_nonneg (by linarith))

theorem isNegative_ofMagnitude (negative : Bool) {bits : Nat} (h : bits ≤ infinity) :
    isNegative (ofMagnitude negative bits) = negative := by
  rw [isNegative, toNat_toBits_ofMagnitude negative h]
  simp only [infinity] at h
  cases negative with
  | false => simp [signBit]; omega
  | true => simp

theorem value_ofMagnitude (negative : Bool) {bits : Nat} (h : bits ≤ infinity) :
    value (ofMagnitude negative bits) = signedValue negative (finiteValue bits) := by
  rw [value, isNegative_ofMagnitude negative h, magnitude_ofMagnitude negative h]

/-- A double of the other sign is no nearer than zero. -/
theorem RoundsTo.isNearest {q : ℚ} {bits : Nat} (h : RoundsTo q bits) (hq : 0 ≤ q)
    (negative : Bool) : IsNearest (signedValue negative q) (ofMagnitude negative bits) := by
  have hmagnitude := magnitude_ofMagnitude negative h.finite.le
  have hzero : |finiteValue bits - q| ≤ q := by
    have hzero := h.nearest 0
    rwa [finiteValue_zero, zero_sub, abs_neg, abs_of_nonneg hq] at hzero
  have hvalue := value_ofMagnitude negative h.finite.le
  refine ⟨hmagnitude.trans_lt h.finite, fun y _ => ?_, fun y hy hne heq => ?_⟩
  · rw [hvalue, distance_signedValue, value]
    rcases Bool.eq_or_eq_not (isNegative y) negative with hsame | hother
    · rw [hsame, distance_signedValue]
      exact h.nearest _
    · rw [hother, distance_signedValue_not _ (finiteValue_nonneg _) hq]
      linarith [finiteValue_nonneg (magnitude y)]
  · rw [hvalue, distance_signedValue, value] at heq
    rw [hmagnitude]
    rcases Bool.eq_or_eq_not (isNegative y) negative with hsame | hother
    · rw [hsame, distance_signedValue] at heq
      refine h.even _ hy (fun hbits => hne ?_) heq
      rw [← ofMagnitude_magnitude y, hsame, hbits]
    · rw [hother, distance_signedValue_not _ (finiteValue_nonneg _) hq] at heq
      rcases Nat.eq_zero_or_pos bits with rfl | hpos
      · rfl
      · refine h.even 0 (by decide) hpos.ne ?_
        rw [finiteValue_zero, zero_sub, abs_neg, abs_of_nonneg hq]
        linarith [finiteValue_nonneg (magnitude y)]

end Worksheet.Number
