import Worksheet.Proofs.Nearest

/-!
# Rounding keeps the order

Magnitude bits are ordered like the values of doubles (`finiteValue_strictMono`). Were a number
rounded to a greater double than a greater number is, both would lie on the wrong side of the middle
between these doubles. So rounding is monotone (`nearestTo_mono`), and what lies between two numbers
that are read as one double is read as this double, too (`nearestTo_of_between`).
-/

namespace Worksheet.Number

/-- The double nearest to a number lies on the same side of a middle between doubles. -/
theorem RoundsTo.middle_le {q : ℚ} {bits other : Nat} (h : RoundsTo q bits) (hlt : other < bits) :
    finiteValue other + finiteValue bits ≤ 2 * q := by
  have hvalue := finiteValue_strictMono hlt
  have hnear := h.nearest other
  by_contra hbelow
  rw [abs_of_pos (by linarith)] at hnear
  rcases abs_cases (finiteValue other - q) with ⟨habs, -⟩ | ⟨habs, -⟩
  · linarith
  · linarith

theorem RoundsTo.le_middle {q : ℚ} {bits other : Nat} (h : RoundsTo q bits) (hlt : bits < other) :
    2 * q ≤ finiteValue bits + finiteValue other := by
  have hvalue := finiteValue_strictMono hlt
  have hnear := h.nearest other
  by_contra habove
  rw [abs_of_neg (by linarith)] at hnear
  rcases abs_cases (finiteValue other - q) with ⟨habs, -⟩ | ⟨habs, -⟩
  · linarith
  · linarith

theorem nearestTo_mono {q q' : ℚ} (hq : 0 ≤ q) (h : q ≤ q') : nearestTo q ≤ nearestTo q' := by
  have hq' : 0 ≤ q' := hq.trans h
  rcases le_or_gt overflow q' with hgreat | hfits
  · rw [nearestTo_eq_infinity (WithTop.coe_nonneg.mpr hq') (WithTop.coe_le_coe.mpr hgreat)]
    exact nearestTo_le_infinity q
  · by_contra hlt
    have hmiddle := (roundsTo_nearestTo hq (h.trans_lt hfits)).middle_le (not_le.mp hlt)
    have hmiddle' := (roundsTo_nearestTo hq' hfits).le_middle (not_le.mp hlt)
    obtain rfl : q = q' := le_antisymm h (by linarith)
    exact hlt le_rfl

/-- What lies between two numbers that are read as one double is read as it. -/
theorem nearestTo_of_between {q r q' : ℚ} {bits : Nat} (hq : 0 ≤ q) (hqr : q ≤ r) (hrq' : r ≤ q')
    (h : nearestTo q = bits) (h' : nearestTo q' = bits) : nearestTo r = bits := by
  apply le_antisymm
  · rw [← h']
    exact nearestTo_mono (hq.trans hqr) hrq'
  · rw [← h]
    exact nearestTo_mono hq hqr

/-- A double is read as itself. -/
theorem nearestTo_finiteValue {bits : Nat} (hpos : 0 < bits) (hfinite : bits < infinity) :
    nearestTo (finiteValue bits) = bits := by
  rw [finiteValue, ← numerator_div_denominator, nearestTo_div _ (denominator_pos bits),
    nearest_self hpos hfinite]

end Worksheet.Number
