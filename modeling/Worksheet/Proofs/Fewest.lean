import Worksheet.Proofs.Shortest

/-!
# The shortest decimal has the fewest digits

How many digits a decimal needs is said by the numbers alone (`FitsDigits`): zeros at either end do
not count, so units do not matter. The search goes by units. The two meet in the greatest power of
ten that is not above the double (`powerOfTenAbove_spec`). A decimal with fewer digits than the
coarsest one takes from this power down to its unit, or with as many in a finer unit, lies below the
power, and then the power, which lies between it and the double, is read as the double, too. But the
power is a multiple of every unit that was tried. So no decimal that is read as the double fits
fewer digits than the shortest, and none that fits as many is closer (`shortest_fewest`).
-/

namespace Worksheet.Number

variable {bits : Nat} {first : Int} {d : Decimal} {n : Nat} {q : ℚ}

/-! ## The first digit -/

theorem two_zpow_le_finiteValue (hpos : 0 < bits) : (2 : ℚ) ^ (-1074 : ℤ) ≤ finiteValue bits := by
  have hsig : (1 : ℚ) ≤ significand bits := by exact_mod_cast significand_pos hpos
  calc (2 : ℚ) ^ (-1074 : ℤ) ≤ 2 ^ exponent bits :=
        zpow_le_zpow_right₀ one_le_two (exponent_ge bits)
    _ = 1 * 2 ^ exponent bits := (one_mul _).symm
    _ ≤ finiteValue bits := by
        unfold finiteValue
        gcongr

theorem finiteValue_lt_two_zpow (hfinite : bits < infinity) :
    finiteValue bits < 2 ^ (1024 : ℤ) := by
  have hsig : (significand bits : ℚ) < 2 ^ 53 := by exact_mod_cast significand_lt bits
  have hexp : exponent bits ≤ 971 := by
    unfold exponent hiddenBit
    unfold infinity at hfinite
    omega
  calc finiteValue bits < 2 ^ 53 * 2 ^ exponent bits := by
        unfold finiteValue
        gcongr
    _ ≤ 2 ^ 53 * 2 ^ (971 : ℤ) := by
        gcongr
        exact one_le_two
    _ = 2 ^ (1024 : ℤ) := (zpow_add₀ two_ne_zero 53 971).symm

theorem ten_zpow_le_finiteValue (hpos : 0 < bits) : (10 : ℚ) ^ (-324 : ℤ) ≤ finiteValue bits := by
  have hpower : (2 : ℚ) ^ 1074 ≤ 10 ^ 324 := by
    exact_mod_cast (by decide +kernel : 2 ^ 1074 ≤ 10 ^ 324)
  refine le_trans ?_ (two_zpow_le_finiteValue hpos)
  rw [zpow_neg, zpow_neg]
  exact inv_anti₀ (by positivity) hpower

theorem finiteValue_lt_ten_zpow (hfinite : bits < infinity) :
    finiteValue bits < 10 ^ (309 : ℤ) := by
  have hpower : (2 : ℚ) ^ 1024 < 10 ^ 309 := by
    exact_mod_cast (by decide +kernel : 2 ^ 1024 < 10 ^ 309)
  exact (finiteValue_lt_two_zpow hfinite).trans hpower

/-- The power that is found is the least one above the double. -/
theorem powerOfTenAbove_spec (hpos : 0 < bits) (hfinite : bits < infinity) :
    (10 : ℚ) ^ (powerOfTenAbove bits - 1) ≤ finiteValue bits ∧
      finiteValue bits < 10 ^ powerOfTenAbove bits := by
  have hlast : belowPowerOfTen bits ((632 : Nat) - 323) = true :=
    (belowPowerOfTen_iff bits _).mpr (finiteValue_lt_ten_zpow hfinite)
  have hfound := List.findIdx_lt_length_of_exists
    (p := fun i : Nat => belowPowerOfTen bits (i - 323))
    ⟨632, List.mem_range.mpr (by decide : 632 < 633), hlast⟩
  have hat := List.findIdx_getElem (w := hfound)
  have hbefore := fun i => @List.not_of_lt_findIdx _
    (fun i : Nat => belowPowerOfTen bits (i - 323)) (List.range 633) i
  simp only [List.getElem_range] at hat hbefore
  rw [powerOfTenAbove]
  generalize (List.range 633).findIdx (fun i : Nat => belowPowerOfTen bits (i - 323)) = found
    at hat hbefore ⊢
  refine ⟨?_, (belowPowerOfTen_iff bits _).mp hat⟩
  rcases Nat.eq_zero_or_pos found with rfl | hlater
  · exact ten_zpow_le_finiteValue hpos
  · have hnot := hbefore (found - 1) (by omega)
    have hplace : ((found - 1 : Nat) : Int) - 323 = found - 323 - 1 := by omega
    rw [hplace, ← Bool.not_eq_true, belowPowerOfTen_iff, not_lt] at hnot
    exact hnot

/-! ## Digits that a number needs -/

/-- A number that is written with so many decimal digits, up to zeros at either end. -/
def FitsDigits (n : Nat) (q : ℚ) : Prop := ∃ (c : Nat) (k : ℤ), c < 10 ^ n ∧ q = c * 10 ^ k

theorem FitsDigits.mono {m : Nat} (h : FitsDigits n q) (hle : n ≤ m) : FitsDigits m q := by
  obtain ⟨c, k, hc, hq⟩ := h
  exact ⟨c, k, hc.trans_le (Nat.pow_le_pow_right (by decide) hle), hq⟩

/-- A power of ten has one digit. -/
theorem fitsDigits_power (k : ℤ) : FitsDigits 1 (10 ^ k) := ⟨1, k, by decide, by simp⟩

/-- A number below a power of ten in a unit has the digits that are left between them. -/
theorem lt_power_of_digits {c : Nat} {k unit : ℤ} (hc : c < 10 ^ n) (h : n + k ≤ unit) :
    (c : ℚ) * 10 ^ k < 10 ^ unit := by
  have hc' : (c : ℚ) < 10 ^ n := by exact_mod_cast hc
  calc (c : ℚ) * 10 ^ k < 10 ^ n * 10 ^ k := by gcongr
    _ = 10 ^ (n + k : ℤ) := by rw [zpow_add₀ (by norm_num), zpow_natCast]
    _ ≤ 10 ^ unit := zpow_le_zpow_right₀ (by norm_num) h

/-- A multiple of a unit is a multiple of every finer one. -/
theorem multiple_eq (c : Nat) {k unit : ℤ} (h : unit ≤ k) :
    (c : ℚ) * 10 ^ k = (c * 10 ^ (k - unit).toNat : Nat) * 10 ^ unit := by
  have hplaces : ((k - unit).toNat : ℤ) + unit = k := by omega
  rw [Nat.cast_mul, mul_assoc, Nat.cast_pow, Nat.cast_ofNat, ← zpow_natCast,
    ← zpow_add₀ (by norm_num), hplaces]

/-- A whole number that is no multiple of ten needs all its places, in any unit. -/
theorem lt_of_fitsDigits {c : Nat} {k : ℤ} (hc : c % 10 ≠ 0) (h : FitsDigits n (c * 10 ^ k)) :
    c < 10 ^ n := by
  obtain ⟨m, unit, hm, heq⟩ := h
  rcases le_or_gt unit k with hle | hlt
  · rw [multiple_eq c hle, mul_left_inj' (by positivity), Nat.cast_inj] at heq
    calc c ≤ c * 10 ^ (k - unit).toNat := Nat.le_mul_of_pos_right _ (by positivity)
      _ = m := heq
      _ < 10 ^ n := hm
  · rw [multiple_eq m hlt.le, mul_left_inj' (by positivity), Nat.cast_inj] at heq
    have hten : 10 ∣ 10 ^ (unit - k).toNat := dvd_pow_self 10 (by omega)
    exact absurd (Nat.mod_eq_zero_of_dvd (heq ▸ hten.mul_left m)) hc

theorem ReadAs.of_multiple {c : Nat} {k unit : ℤ} (h : ReadAs bits k c) (hle : unit ≤ k) :
    ReadAs bits unit (c * 10 ^ (k - unit).toNat) := by
  rw [ReadAs, ← multiple_eq c hle]
  exact h

/-- The closest multiple of a unit is closer than those of coarser units, too. -/
theorem Closest.le_of_multiple (h : Closest bits d) {c : Nat} {k : ℤ} (hread : ReadAs bits k c)
    (hle : d.exponent ≤ k) :
    |d.value - finiteValue bits| ≤ |(c : ℚ) * 10 ^ k - finiteValue bits| := by
  rw [multiple_eq c hle]
  exact h.closest _ (hread.of_multiple hle)

namespace Coarsest

/-- The number of digits from the first place down to the unit of a decimal. -/
theorem fitsDigits (h : Coarsest bits first d) (habove : finiteValue bits < 10 ^ (first + 1)) :
    FitsDigits (first - d.exponent + 1).toNat d.value := by
  have hunit : (0 : ℚ) < 10 ^ d.exponent := by positivity
  have hplaces := h.exponent_le
  have hsplit : (10 : ℚ) ^ (first + 1) =
      (10 ^ (first - d.exponent + 1).toNat : Nat) * 10 ^ d.exponent := by
    rw [Nat.cast_pow, Nat.cast_ofNat, ← zpow_natCast, ← zpow_add₀ (by norm_num)]
    congr 1
    omega
  have hlt : d.value < (10 ^ (first - d.exponent + 1).toNat + 1 : Nat) * 10 ^ d.exponent := by
    have hnear := (abs_le.mp h.near).2
    rw [Nat.cast_succ, add_one_mul, ← hsplit]
    linarith
  have hcoefficient : d.coefficient < 10 ^ (first - d.exponent + 1).toNat + 1 := by
    have hcast := (mul_lt_mul_iff_left₀ hunit).mp hlt
    exact_mod_cast hcast
  rcases (Nat.lt_succ_iff.mp hcoefficient).lt_or_eq with hless | hpower
  · exact ⟨d.coefficient, d.exponent, hless, rfl⟩
  · rw [Decimal.value, hpower, ← hsplit]
    exact (fitsDigits_power _).mono (by omega)

/-- A number below the first place of a double is read as the double only if this place is, too. -/
theorem readAs_first (hpos : 0 < bits) (hfinite : bits < infinity)
    (hbelow : (10 : ℚ) ^ first ≤ finiteValue bits) (hq : 0 ≤ q) (hlt : q < 10 ^ first)
    (hread : nearestTo q = bits) : ReadAs bits first 1 := by
  rw [ReadAs, Nat.cast_one, one_mul]
  exact nearestTo_of_between hq hlt.le hbelow hread (nearestTo_finiteValue hpos hfinite)

/-- What is read as the double has no fewer digits than the coarsest decimal has from its first
place down to its unit. -/
theorem digits_le (h : Coarsest bits first d) (hpos : 0 < bits) (hfinite : bits < infinity)
    (hbelow : (10 : ℚ) ^ first ≤ finiteValue bits) (hq : FitsDigits n q)
    (hread : nearestTo q = bits) : (first - d.exponent + 1).toNat ≤ n := by
  by_contra hfewer
  obtain ⟨c, k, hc, rfl⟩ := hq
  have hn : n ≠ 0 := by
    rintro rfl
    obtain rfl : c = 0 := by simpa using hc
    rw [Nat.cast_zero, zero_mul] at hread
    exact hpos.ne hread
  have hcoarse := h.coarsest first (by omega) le_rfl
  rcases lt_or_ge first k with hfirst | hfirst
  · exact hcoarse _ (ReadAs.of_multiple hread hfirst.le)
  rcases lt_or_ge d.exponent k with hunit | hunit
  · exact h.coarsest k hunit hfirst c hread
  · have hlt : (c : ℚ) * 10 ^ k < 10 ^ first := lt_power_of_digits hc (by omega)
    exact hcoarse 1 (readAs_first hpos hfinite hbelow (by positivity) hlt hread)

/-- Nothing that is read as the double is closer to it, if it has no more digits than these. -/
theorem closest_of_digits (h : Coarsest bits first d) (hpos : 0 < bits) (hfinite : bits < infinity)
    (hbelow : (10 : ℚ) ^ first ≤ finiteValue bits) (hq : FitsDigits n q)
    (hn : n ≤ (first - d.exponent + 1).toNat) (hread : nearestTo q = bits) :
    |d.value - finiteValue bits| ≤ |q - finiteValue bits| := by
  obtain ⟨c, k, hc, rfl⟩ := hq
  have hplaces := h.exponent_le
  rcases le_or_gt d.exponent k with hunit | hunit
  · exact h.le_of_multiple hread hunit
  · have hlt : (c : ℚ) * 10 ^ k < 10 ^ first := lt_power_of_digits hc (by omega)
    have hfirst := h.le_of_multiple
      (readAs_first hpos hfinite hbelow (by positivity) hlt hread) h.exponent_le
    rw [Nat.cast_one, one_mul, abs_of_nonpos (by linarith : (10 : ℚ) ^ first - _ ≤ 0)] at hfirst
    rw [abs_of_nonpos (by linarith : (c : ℚ) * 10 ^ k - _ ≤ 0)]
    linarith

end Coarsest

/-! ## The shortest decimal -/

/-- No number that is read as a double has fewer digits than its shortest decimal, and none that has
as many is closer to the double. -/
theorem shortest_fewest (hpos : 0 < bits) (hfinite : bits < infinity) (hq : FitsDigits n q)
    (hread : nearestTo q = bits) :
    FitsDigits n (shortest bits).value ∧
      ((∀ m < n, ¬ FitsDigits m (shortest bits).value) →
        |(shortest bits).value - finiteValue bits| ≤ |q - finiteValue bits|) := by
  have hcoarsest := coarsest_shortest hpos hfinite
  obtain ⟨hbelow, habove⟩ := powerOfTenAbove_spec hpos hfinite
  have hfits := hcoarsest.fitsDigits (by rwa [Int.sub_add_cancel])
  refine ⟨hfits.mono (hcoarsest.digits_le hpos hfinite hbelow hq hread), fun hfewest => ?_⟩
  apply hcoarsest.closest_of_digits hpos hfinite hbelow hq _ hread
  by_contra hmore
  exact hfewest _ (not_le.mp hmore) hfits

end Worksheet.Number
