import Mathlib
import Worksheet.Proofs.Monotone

/-!
# The shortest decimal of a double

`shortest` tries coarser units first and takes from each the closest of its multiples that are read
as the double. Only the two multiples next to the double are looked at: another that is read as the
double has one of these between (`exists_neighbour`). So a unit that is passed over has no multiple
that is read as the double, and the one in which the search ends gives the closest
(`closest_of_closestAt?`, `not_readAs_of_closestAt?`).

The search has to be seen to end. It does, for a double is a multiple of the last unit that is tried
(`value_floorAt`). What it finds is the coarsest decimal that is read as the double
(`coarsest_shortest`), and so the shortest decimal of a positive finite double reads as this double
(`nearest_shortest`).
-/

namespace Worksheet.Number

variable {bits : Nat} {unit : Int} {d : Decimal}

/-! ## Comparisons -/

/-- Both sides of the comparisons in the search are scaled alike, so that they are whole numbers. -/
theorem exists_scale (bits : Nat) (unit : Int) : ∃ scale : ℚ, 0 < scale ∧
    ((numerator bits * power 10 (-unit) : Nat) : ℚ) = finiteValue bits * scale ∧
      ((denominator bits * power 10 unit : Nat) : ℚ) = 10 ^ unit * scale := by
  have hden : (0 : ℚ) < denominator bits := by exact_mod_cast denominator_pos bits
  have hunit : (0 : ℚ) < power 10 (-unit) := by exact_mod_cast power_pos (by decide) (-unit)
  refine ⟨denominator bits * power 10 (-unit), mul_pos hden hunit, ?_, ?_⟩
  · rw [finiteValue, ← numerator_div_denominator]
    push_cast
    field_simp
  · rw [← power_ten_div]
    push_cast
    field_simp

theorem scaled_le_iff (bits : Nat) (unit : Int) (a b : Nat) :
    a * (numerator bits * power 10 (-unit)) ≤ b * (denominator bits * power 10 unit) ↔
      (a : ℚ) * finiteValue bits ≤ b * 10 ^ unit := by
  obtain ⟨scale, hscale, hnum, hden⟩ := exists_scale bits unit
  rw [← Nat.cast_le (α := ℚ), Nat.cast_mul, Nat.cast_mul b, hnum, hden, ← mul_assoc, ← mul_assoc,
    mul_le_mul_iff_left₀ hscale]

theorem le_scaled_iff (bits : Nat) (unit : Int) (a b : Nat) :
    b * (denominator bits * power 10 unit) ≤ a * (numerator bits * power 10 (-unit)) ↔
      (b : ℚ) * 10 ^ unit ≤ a * finiteValue bits := by
  obtain ⟨scale, hscale, hnum, hden⟩ := exists_scale bits unit
  rw [← Nat.cast_le (α := ℚ), Nat.cast_mul, Nat.cast_mul a, hnum, hden, ← mul_assoc, ← mul_assoc,
    mul_le_mul_iff_left₀ hscale]

theorem floorAt_le (bits : Nat) (unit : Int) :
    ((floorAt bits unit).coefficient : ℚ) * 10 ^ unit ≤ finiteValue bits := by
  have hle := le_scaled_iff bits unit 1 (floorAt bits unit).coefficient
  rw [Nat.cast_one, one_mul, one_mul] at hle
  exact hle.mp (Nat.div_mul_le_self _ _)

theorem lt_floorAt (bits : Nat) (unit : Int) :
    finiteValue bits < ((floorAt bits unit).coefficient + 1 : Nat) * 10 ^ unit := by
  have hpos : 0 < denominator bits * power 10 unit :=
    Nat.mul_pos (denominator_pos bits) (power_pos (by decide) unit)
  have hle := le_scaled_iff bits unit 1 ((floorAt bits unit).coefficient + 1)
  rw [Nat.cast_one, one_mul, one_mul] at hle
  rw [← not_le, ← hle, not_le]
  exact (Nat.lt_mul_div_succ _ hpos).trans_eq (Nat.mul_comm _ _)

theorem le_middle_of_compareMiddle (h : compareMiddle bits d ≠ .gt) :
    2 * finiteValue bits ≤ (2 * d.coefficient + 1) * 10 ^ d.exponent := by
  have hle := (scaled_le_iff bits d.exponent 2 (2 * d.coefficient + 1)).mp (Nat.compare_ne_gt.mp h)
  exact_mod_cast hle

theorem middle_le_of_compareMiddle (h : compareMiddle bits d ≠ .lt) :
    (2 * d.coefficient + 1) * 10 ^ d.exponent ≤ 2 * finiteValue bits := by
  have hle := (le_scaled_iff bits d.exponent 2 (2 * d.coefficient + 1)).mp (Nat.compare_ne_lt.mp h)
  exact_mod_cast hle

theorem belowPowerOfTen_iff (bits : Nat) (k : Int) :
    belowPowerOfTen bits k = true ↔ finiteValue bits < 10 ^ k := by
  have hle := (le_scaled_iff bits k 1 1).not
  rw [one_mul, one_mul, Nat.cast_one, one_mul, one_mul, not_le, not_le] at hle
  rw [belowPowerOfTen, decide_eq_true_eq]
  exact hle

/-! ## One unit -/

theorem exponent_floorAt (bits : Nat) (unit : Int) : (floorAt bits unit).exponent = unit := rfl

/-- A multiple of a unit that is read as a double. -/
def ReadAs (bits : Nat) (unit : Int) (c : Nat) : Prop := nearestTo (c * 10 ^ unit : ℚ) = bits

/-- The multiples of a unit next to a double: the last one up to it and the first one above. -/
def Neighbour (bits : Nat) (unit : Int) (k : Nat) : Prop :=
  k = (floorAt bits unit).coefficient ∨ k = (floorAt bits unit).coefficient + 1

/-- If any multiple of a unit is read as a double, then one next to the double is, which is no
farther away. -/
theorem exists_neighbour (hpos : 0 < bits) (hfinite : bits < infinity) {c : Nat}
    (h : ReadAs bits unit c) : ∃ k, Neighbour bits unit k ∧ ReadAs bits unit k ∧
      |(k : ℚ) * 10 ^ unit - finiteValue bits| ≤ |(c : ℚ) * 10 ^ unit - finiteValue bits| := by
  have hself := nearestTo_finiteValue hpos hfinite
  have hbelow := floorAt_le bits unit
  have habove := lt_floorAt bits unit
  rcases Nat.lt_or_ge (floorAt bits unit).coefficient c with hlt | hle
  · have hmultiple : ((floorAt bits unit).coefficient + 1 : Nat) * (10 : ℚ) ^ unit ≤
        c * 10 ^ unit := by
      gcongr
      exact hlt
    refine ⟨_, .inr rfl, ?_, ?_⟩
    · exact nearestTo_of_between (finiteValue_nonneg bits) habove.le hmultiple hself h
    · rw [abs_of_pos (by linarith), abs_of_pos (by linarith)]
      linarith
  · have hmultiple : (c : ℚ) * 10 ^ unit ≤ (floorAt bits unit).coefficient * 10 ^ unit := by
      gcongr
    refine ⟨_, .inl rfl, ?_, ?_⟩
    · exact nearestTo_of_between (by positivity) hmultiple hbelow h hself
    · rw [abs_of_nonpos (by linarith), abs_of_nonpos (by linarith)]
      linarith

/-- A decimal that is read as a double, no farther from it than a unit or than any other multiple of
this unit that is read as the double. -/
structure Closest (bits : Nat) (d : Decimal) : Prop where
  reads : ReadAs bits d.exponent d.coefficient
  near : |d.value - finiteValue bits| ≤ 10 ^ d.exponent
  closest : ∀ c, ReadAs bits d.exponent c →
    |d.value - finiteValue bits| ≤ |(c : ℚ) * 10 ^ d.exponent - finiteValue bits|

theorem Closest.of_neighbours (hpos : 0 < bits) (hfinite : bits < infinity) {c : Nat}
    (hc : Neighbour bits unit c) (hreads : ReadAs bits unit c)
    (hnearer : ∀ k, Neighbour bits unit k → ReadAs bits unit k →
      |(c : ℚ) * 10 ^ unit - finiteValue bits| ≤ |(k : ℚ) * 10 ^ unit - finiteValue bits|) :
    Closest bits ⟨c, unit⟩ where
  reads := hreads
  near := by
    have hunit : (0 : ℚ) < 10 ^ unit := by positivity
    have hbelow := floorAt_le bits unit
    have habove := lt_floorAt bits unit
    rw [Nat.cast_succ, add_one_mul] at habove
    rw [Decimal.value, abs_le]
    rcases hc with rfl | rfl
    · constructor <;> linarith
    · rw [Nat.cast_succ, add_one_mul]
      constructor <;> linarith
  closest k hk := by
    obtain ⟨k', hneighbour, hreads', hle⟩ := exists_neighbour hpos hfinite hk
    exact (hnearer k' hneighbour hreads').trans hle

theorem floorAt_nearer (h : compareMiddle bits (floorAt bits unit) ≠ .gt) :
    |((floorAt bits unit).coefficient : ℚ) * 10 ^ unit - finiteValue bits| ≤
      |((floorAt bits unit).coefficient + 1 : Nat) * (10 : ℚ) ^ unit - finiteValue bits| := by
  have hbelow := floorAt_le bits unit
  have habove := lt_floorAt bits unit
  have hmiddle := le_middle_of_compareMiddle h
  rw [exponent_floorAt] at hmiddle
  rw [abs_of_nonpos (by linarith), abs_of_pos (by linarith)]
  push_cast
  linarith

theorem floorAt_farther (h : compareMiddle bits (floorAt bits unit) ≠ .lt) :
    |((floorAt bits unit).coefficient + 1 : Nat) * (10 : ℚ) ^ unit - finiteValue bits| ≤
      |((floorAt bits unit).coefficient : ℚ) * 10 ^ unit - finiteValue bits| := by
  have hbelow := floorAt_le bits unit
  have habove := lt_floorAt bits unit
  have hmiddle := middle_le_of_compareMiddle h
  rw [exponent_floorAt] at hmiddle
  rw [abs_of_pos (by linarith), abs_of_nonpos (by linarith)]
  push_cast
  linarith

theorem beq_nearest_iff {k : Nat} :
    ((⟨k, unit⟩ : Decimal).nearest == bits) = true ↔ ReadAs bits unit k := by
  rw [beq_iff_eq, Decimal.nearest_eq_nearestTo]
  rfl

theorem not_readAs_of_beq {k : Nat} (h : ((⟨k, unit⟩ : Decimal).nearest == bits) = false) :
    ¬ ReadAs bits unit k := by
  rw [← beq_nearest_iff, h]
  exact Bool.false_ne_true

/-- Of the two next to a double, the lower one is the closest if it is read as the double, and the
upper one is not or is not nearer. -/
theorem closest_floorAt (hpos : 0 < bits) (hfinite : bits < infinity)
    (hreads : ReadAs bits unit (floorAt bits unit).coefficient)
    (hmiddle : ReadAs bits unit ((floorAt bits unit).coefficient + 1) →
      compareMiddle bits (floorAt bits unit) ≠ .gt) : Closest bits (floorAt bits unit) := by
  apply Closest.of_neighbours hpos hfinite (.inl rfl) hreads
  rintro k (rfl | rfl) hk
  · exact le_rfl
  · exact floorAt_nearer (hmiddle hk)

theorem closest_succ_floorAt (hpos : 0 < bits) (hfinite : bits < infinity)
    (hreads : ReadAs bits unit ((floorAt bits unit).coefficient + 1))
    (hmiddle : ReadAs bits unit (floorAt bits unit).coefficient →
      compareMiddle bits (floorAt bits unit) ≠ .lt) :
    Closest bits ⟨(floorAt bits unit).coefficient + 1, unit⟩ := by
  apply Closest.of_neighbours hpos hfinite (.inr rfl) hreads
  rintro k (rfl | rfl) hk
  · exact floorAt_farther (hmiddle hk)
  · exact le_rfl

/-- What is found in a unit is the closest of its multiples. -/
theorem closest_of_closestAt? (hpos : 0 < bits) (hfinite : bits < infinity)
    (h : closestAt? bits unit = some d) : d.exponent = unit ∧ Closest bits d := by
  simp only [closestAt?] at h
  split at h
  · cases h
  · rename_i hbelow habove
    cases h
    exact ⟨rfl, closest_floorAt hpos hfinite (beq_nearest_iff.mp hbelow) fun hreads =>
      absurd hreads (not_readAs_of_beq habove)⟩
  · rename_i hbelow habove
    cases h
    exact ⟨rfl, closest_succ_floorAt hpos hfinite (beq_nearest_iff.mp habove) fun hreads =>
      absurd hreads (not_readAs_of_beq hbelow)⟩
  · rename_i hbelow habove
    have hfloor := closest_floorAt hpos hfinite (beq_nearest_iff.mp hbelow)
    have hsucc := closest_succ_floorAt hpos hfinite (beq_nearest_iff.mp habove)
    split at h
    · rename_i hmiddle
      cases h
      exact ⟨rfl, hfloor fun _ => by rw [hmiddle]; decide⟩
    · rename_i hmiddle
      cases h
      exact ⟨rfl, hsucc fun _ => by rw [hmiddle]; decide⟩
    · rename_i hmiddle
      split_ifs at h
      · cases h
        exact ⟨rfl, hfloor fun _ => by rw [hmiddle]; decide⟩
      · cases h
        exact ⟨rfl, hsucc fun _ => by rw [hmiddle]; decide⟩

/-- A unit in which nothing is found has no multiple that is read as the double. -/
theorem not_readAs_of_closestAt? (hpos : 0 < bits) (hfinite : bits < infinity)
    (h : closestAt? bits unit = none) (c : Nat) : ¬ ReadAs bits unit c := by
  intro hc
  obtain ⟨k, hk, hreads, -⟩ := exists_neighbour hpos hfinite hc
  simp only [closestAt?] at h
  split at h
  · rename_i hbelow habove
    rcases hk with rfl | rfl
    · exact not_readAs_of_beq hbelow hreads
    · exact not_readAs_of_beq habove hreads
  · cases h
  · cases h
  · split at h <;> cases h

/-! ## The last unit -/

/-- A double is a multiple of every power of ten, below one, that has as many places as it has
binary ones. -/
theorem denominator_dvd (h : unit ≤ min (exponent bits) 0) :
    denominator bits * power 10 unit ∣ numerator bits * power 10 (-unit) := by
  have hplaces : (-exponent bits).toNat ≤ (-unit).toNat := by omega
  rw [power_of_nonpos 10 (by omega), Nat.mul_one]
  apply Dvd.dvd.mul_left
  calc denominator bits ∣ 10 ^ (-exponent bits).toNat := pow_dvd_pow_of_dvd (by decide) _
    _ ∣ 10 ^ (-unit).toNat := pow_dvd_pow 10 hplaces

theorem value_floorAt (h : unit ≤ min (exponent bits) 0) :
    (floorAt bits unit).value = (numerator bits : ℚ) / denominator bits := by
  have hunit : (power 10 (-unit) : ℚ) ≠ 0 := by exact_mod_cast (power_pos (by decide) _).ne'
  have hunit' : (power 10 unit : ℚ) ≠ 0 := by exact_mod_cast (power_pos (by decide) _).ne'
  have hden : (denominator bits : ℚ) ≠ 0 := by exact_mod_cast (denominator_pos bits).ne'
  rw [Decimal.value, floorAt, ← power_ten_div, Nat.cast_div (denominator_dvd h)]
  · push_cast
    field_simp
  · exact_mod_cast mul_ne_zero hden hunit'

theorem Closest.of_value_eq (hpos : 0 < bits) (hfinite : bits < infinity)
    (h : d.value = finiteValue bits) : Closest bits d where
  reads := by
    rw [ReadAs, ← Decimal.value, h, nearestTo_finiteValue hpos hfinite]
  near := by
    rw [h, sub_self, abs_zero]
    positivity
  closest c _ := by
    rw [h, sub_self, abs_zero]
    exact abs_nonneg _

/-! ## The search through the units -/

/-- A decimal that is read as a double, in the coarsest unit up to a first one that has such a
multiple, and the closest of these. -/
structure Coarsest (bits : Nat) (first : Int) (d : Decimal) : Prop extends Closest bits d where
  exponent_le : d.exponent ≤ first
  coarsest : ∀ unit, d.exponent < unit → unit ≤ first → ∀ c, ¬ ReadAs bits unit c

/-- A search that goes down to a unit of which the double is a multiple finds the coarsest. -/
theorem coarsest_coarsestFrom (hpos : 0 < bits) (hfinite : bits < infinity) (steps : Nat)
    (unit : Int) (hlast : unit - steps ≤ min (exponent bits) 0) :
    Coarsest bits unit (coarsestFrom bits steps unit) := by
  induction steps generalizing unit with
  | zero =>
    have hvalue : (floorAt bits unit).value = finiteValue bits := by
      rw [value_floorAt (by simpa using hlast), numerator_div_denominator]
      rfl
    exact ⟨.of_value_eq hpos hfinite hvalue, le_rfl, fun _ hgt hle => absurd hle hgt.not_ge⟩
  | succ steps ih =>
    rw [coarsestFrom]
    split
    · rename_i d hd
      obtain ⟨rfl, hclosest⟩ := closest_of_closestAt? hpos hfinite hd
      exact ⟨hclosest, le_rfl, fun _ hgt hle => absurd hle hgt.not_ge⟩
    · rename_i hnone
      obtain ⟨hclosest, hle, hcoarsest⟩ := ih (unit - 1) (by rw [Nat.cast_succ] at hlast; omega)
      refine ⟨hclosest, by omega, fun unit' hgt hle' => ?_⟩
      rcases hle'.lt_or_eq with hlt | rfl
      · exact hcoarsest unit' hgt (by omega)
      · exact not_readAs_of_closestAt? hpos hfinite hnone

theorem coarsest_shortest (hpos : 0 < bits) (hfinite : bits < infinity) :
    Coarsest bits (powerOfTenAbove bits - 1) (shortest bits) :=
  coarsest_coarsestFrom hpos hfinite _ _ (by omega)

/-- The shortest decimal of a positive finite double reads as this double. -/
theorem nearest_shortest (hpos : 0 < bits) (hfinite : bits < infinity) :
    (shortest bits).nearest = bits := by
  rw [Decimal.nearest_eq_nearestTo]
  exact (coarsest_shortest hpos hfinite).reads

theorem shortest_pos (hpos : 0 < bits) (hfinite : bits < infinity) :
    0 < (shortest bits).coefficient := by
  have hread := nearest_shortest hpos hfinite
  apply Nat.pos_of_ne_zero
  intro hzero
  rw [Decimal.nearest, if_pos hzero] at hread
  exact hpos.ne hread

end Worksheet.Number
