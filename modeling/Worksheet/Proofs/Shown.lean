import Worksheet.Proofs.Numeral
import Worksheet.Proofs.Significant

/-!
# How a cell shows a number

A cell shows a number by the digits of its shortest decimal, positionally or with an exponent
(`Text.Positional`, `Text.Scientific`; no text is both). Which it is depends on where the first
digit stands (`Layout.magnitudeText_shape`), and so on the shortest decimal and not on the number
itself. It comes to the same, since rounding keeps the order: the two powers of ten at the bounds
are the shortest decimals of the doubles that they are read as (`positional_range_iff`).

A text that is read as the number may be any decimal literal. Its value fits as many digits as the
literal has significant ones (`fitsDigits_decimal?`), so what is known of the values that are read
as a double (`shortest_fewest`) is known of the texts (`significantDigits_le`).
-/

namespace Worksheet

open Text

/-! ## Shapes of texts -/

namespace Text

/-- Digits without a zero in front, unless it is the only one. -/
structure Unpadded (cs : List Char) : Prop where
  digits : Digits cs
  ne_nil : cs ≠ []
  first : cs.head? = some '0' → cs = ['0']

/-- Digits, at least one, without zeros at either end. -/
structure Trimmed (cs : List Char) : Prop where
  digits : Digits cs
  ne_nil : cs ≠ []
  first : cs.head? ≠ some '0'
  last : cs.getLast? ≠ some '0'

/-- A point with digits behind it, of which the last is not zero, or nothing. -/
inductive Fraction : List Char → Prop where
  | none : Fraction []
  | point {digits : List Char} : Digits digits → digits ≠ [] → digits.getLast? ≠ some '0' →
      Fraction ('.' :: digits)

/-- A whole number and a fraction. -/
inductive Positional : List Char → Prop where
  | mk {whole fraction : List Char} : Unpadded whole → Fraction fraction →
      Positional (whole ++ fraction)

/-- A number from one up to ten, and an exponent with its sign. -/
inductive Scientific : List Char → Prop where
  | mk {first sign : Char} {fraction exponent : List Char} : first.isDigit = true → first ≠ '0' →
      Fraction fraction → sign = '+' ∨ sign = '-' → Unpadded exponent →
      Scientific (first :: (fraction ++ 'e' :: sign :: exponent))

theorem Digits.not_mem_e {digits : List Char} (h : Digits digits) : 'e' ∉ digits :=
  fun he => absurd (h 'e' he) (by decide)

theorem Fraction.not_mem_e {fraction : List Char} (h : Fraction fraction) : 'e' ∉ fraction := by
  cases h with
  | none => exact List.not_mem_nil
  | point hdigits => simpa using hdigits.not_mem_e

/-- No text is both. -/
theorem Positional.not_scientific {cs : List Char} (h : Positional cs) : ¬ Scientific cs := by
  intro hscientific
  have he : 'e' ∈ cs := by
    cases hscientific
    simp
  obtain ⟨hwhole, hfraction⟩ := h
  rcases List.mem_append.mp he with hin | hin
  · exact hwhole.digits.not_mem_e hin
  · exact hfraction.not_mem_e hin

/-! ## The digits of a number -/

theorem head?_toDigits {n : Nat} (h : 0 < n) : (Nat.toDigits 10 n).head? ≠ some '0' := by
  induction n using Nat.strong_induction_on with
  | _ n ih =>
    rcases Nat.lt_or_ge n 10 with hlt | hge
    · have hdigit : ∀ m : Fin 10, 0 < m.val → Nat.digitChar m ≠ '0' := by decide
      rw [Nat.toDigits_of_lt_base hlt, List.head?_cons]
      exact fun heq => hdigit ⟨n, hlt⟩ h (Option.some.inj heq)
    · rw [Nat.toDigits_of_base_le (by decide) hge,
        List.head?_append_of_ne_nil _ Nat.toDigits_ne_nil]
      exact ih _ (by omega) (by omega)

theorem unpadded_toDigits (n : Nat) : Unpadded (Nat.toDigits 10 n) where
  digits := .toDigits n
  ne_nil := Nat.toDigits_ne_nil
  first h := by
    rcases Nat.eq_zero_or_pos n with rfl | hpos
    · rfl
    · exact absurd h (head?_toDigits hpos)

/-- The digits of a positive number, without the zeros at the end. -/
theorem trimmed_toDigits {n : Nat} (h : 0 < n) :
    Trimmed ((Nat.toDigits 10 n).rdropWhile (· == '0')) := by
  have hprefix := List.rdropWhile_prefix (· == '0') (Nat.toDigits 10 n)
  have hne : (Nat.toDigits 10 n).rdropWhile (· == '0') ≠ [] := by
    intro hnil
    obtain ⟨c, rest, hdigits⟩ := List.exists_cons_of_ne_nil (Nat.toDigits_ne_nil (b := 10) (n := n))
    have hzero := List.rdropWhile_eq_nil_iff.mp hnil c (by simp [hdigits])
    apply head?_toDigits h
    rw [hdigits, List.head?_cons, beq_iff_eq.mp hzero]
  refine ⟨(Digits.toDigits n).sublist hprefix.sublist, hne, ?_, ?_⟩
  · obtain ⟨zeros, hzeros⟩ := hprefix
    have hfirst := head?_toDigits h
    rw [← hzeros, List.head?_append_of_ne_nil _ hne] at hfirst
    exact hfirst
  · rw [List.getLast?_eq_some_getLast hne, Ne, Option.some.injEq]
    simpa using List.rdropWhile_last_not (· == '0') _ hne

end Text

namespace Number

open Literal

/-! ## The shapes of layouts -/

namespace Layout

variable (layout : Layout) {digits : List Char}

theorem positional_of_parts (hpoint : layout.pointZero = false) {whole fraction : List Char}
    (hwhole : Unpadded whole) (hfraction : Digits fraction)
    (hlast : fraction.getLast? ≠ some '0') :
    Positional (if fraction.isEmpty then whole ++ (if layout.pointZero then ['.', '0'] else [])
      else whole ++ '.' :: fraction) := by
  by_cases hempty : fraction = []
  · rw [hempty, hpoint]
    exact .mk hwhole .none
  · rw [if_neg (by simpa using hempty)]
    exact .mk hwhole (.point hfraction hempty hlast)

theorem positional_shape (hpoint : layout.pointZero = false) (h : Trimmed digits) (exponent : Int) :
    Positional (layout.positional digits exponent) := by
  unfold positional
  apply layout.positional_of_parts hpoint
  · split_ifs with hneg
    · exact unpadded_toDigits 0
    · obtain ⟨first, rest, hdigits⟩ := List.exists_cons_of_ne_nil h.ne_nil
      refine ⟨(h.digits.sublist (List.take_sublist _ _)).append (.replicate _), ?_, ?_⟩
      · simp [hdigits]
      · intro hzero
        have hfirst := h.first
        rw [hdigits] at hzero hfirst
        exact absurd (by simpa using hzero) hfirst
  · split_ifs with hneg
    · exact (Digits.replicate _).append h.digits
    · exact h.digits.sublist (List.drop_sublist _ _)
  · split_ifs with hneg
    · rw [List.getLast?_append_of_ne_nil _ h.ne_nil]
      exact h.last
    · rw [List.getLast?_drop]
      split_ifs
      · simp
      · exact h.last

theorem scientific_shape (hwidth : layout.exponentWidth = 1) (h : Trimmed digits) (exponent : Int) :
    Scientific (layout.scientific digits exponent) := by
  obtain ⟨first, rest, rfl⟩ := List.exists_cons_of_ne_nil h.ne_nil
  have hzeros : 1 - (Nat.toDigits 10 exponent.natAbs).length = 0 :=
    Nat.sub_eq_zero_of_le (List.length_pos_iff.mpr Nat.toDigits_ne_nil)
  have hfraction : Fraction (if (first :: rest).length ≤ 1 then [] else '.' :: rest) := by
    split_ifs with hsingle
    · exact .none
    · have hne : rest ≠ [] := by
        rintro rfl
        exact hsingle le_rfl
      refine .point (h.digits.sublist (List.sublist_cons_self _ _)) hne ?_
      have hlast := h.last
      rwa [List.getLast?_cons_of_ne_nil hne] at hlast
  have hsign : (if exponent < 0 then '-' else '+') = '+' ∨
      (if exponent < 0 then '-' else '+') = '-' := by
    split_ifs <;> simp
  have hshape := Scientific.mk (h.digits first List.mem_cons_self)
    (fun hzero => h.first (congrArg some hzero)) hfraction hsign (unpadded_toDigits exponent.natAbs)
  convert hshape using 1
  simp [scientific, hwidth, hzeros]

/-- Where the first digit of a positive decimal stands. -/
def place (d : Decimal) : Int := d.exponent + (Nat.toDigits 10 d.coefficient).length - 1

theorem magnitudeText_shape {d : Decimal} (hd : 0 < d.coefficient) :
    (Positional (cellLayout.magnitudeText d) ↔ -6 ≤ place d ∧ place d < 21) ∧
      (Scientific (cellLayout.magnitudeText d) ↔ ¬ (-6 ≤ place d ∧ place d < 21)) := by
  have hdigits := trimmed_toDigits hd
  have hpositional := cellLayout.positional_shape rfl hdigits (place d)
  have hscientific := cellLayout.scientific_shape rfl hdigits (place d)
  have htext : cellLayout.magnitudeText d = if -6 ≤ place d ∧ place d < 21 then
      cellLayout.positional ((Nat.toDigits 10 d.coefficient).rdropWhile (· == '0')) (place d)
    else cellLayout.scientific ((Nat.toDigits 10 d.coefficient).rdropWhile (· == '0')) (place d) :=
    rfl
  rw [htext]
  split_ifs with hrange
  · exact ⟨iff_of_true hpositional hrange,
      iff_of_false hpositional.not_scientific (not_not.mpr hrange)⟩
  · exact ⟨iff_of_false (fun h => h.not_scientific hscientific) hrange,
      iff_of_true hscientific hrange⟩

theorem le_of_length_toDigits {n : Nat} (h : 0 < n) :
    10 ^ ((Nat.toDigits 10 n).length - 1) ≤ n := by
  rcases Nat.eq_zero_or_pos ((Nat.toDigits 10 n).length - 1) with hsingle | hmore
  · rw [hsingle]
    exact h
  · rw [← not_lt, ← Nat.length_toDigits_le_iff (by decide) hmore]
    omega

theorem lt_of_length_toDigits (n : Nat) : n < 10 ^ (Nat.toDigits 10 n).length :=
  (Nat.length_toDigits_le_iff (by decide) (List.length_pos_iff.mpr Nat.toDigits_ne_nil)).mp le_rfl

/-- The first digit of a decimal is the greatest power of ten that is not above it. -/
theorem place_spec {d : Decimal} (hd : 0 < d.coefficient) :
    (10 : ℚ) ^ place d ≤ d.value ∧ d.value < 10 ^ (place d + 1) := by
  have hlength : 0 < (Nat.toDigits 10 d.coefficient).length :=
    List.length_pos_iff.mpr Nat.toDigits_ne_nil
  have hlower : (10 : ℚ) ^ ((Nat.toDigits 10 d.coefficient).length - 1) ≤ d.coefficient := by
    exact_mod_cast le_of_length_toDigits hd
  have hupper : (d.coefficient : ℚ) < 10 ^ (Nat.toDigits 10 d.coefficient).length := by
    exact_mod_cast lt_of_length_toDigits d.coefficient
  have hplace : place d = ((Nat.toDigits 10 d.coefficient).length - 1 : Nat) + d.exponent := by
    unfold place
    omega
  have hnext : place d + 1 = (Nat.toDigits 10 d.coefficient).length + d.exponent := by
    unfold place
    omega
  rw [hnext, hplace, zpow_add₀ (by norm_num), zpow_add₀ (by norm_num), zpow_natCast, zpow_natCast,
    Decimal.value]
  constructor <;> gcongr

theorem le_place_iff {d : Decimal} (hd : 0 < d.coefficient) (k : Int) :
    k ≤ place d ↔ (10 : ℚ) ^ k ≤ d.value := by
  obtain ⟨hlower, hupper⟩ := place_spec hd
  constructor
  · intro hle
    exact (zpow_le_zpow_right₀ (by norm_num) hle).trans hlower
  · intro hle
    have hlt := (zpow_lt_zpow_iff_right₀ (by norm_num)).mp (hle.trans_lt hupper)
    omega

end Layout

/-! ## The bounds of positional writing -/

variable {bits : Nat}

/-- If the shortest decimal of the double nearest to a power of ten is this power, then the shortest
decimals of greater doubles are not below the power, and those of less doubles are. -/
theorem le_shortest_iff (hpos : 0 < bits) (hfinite : bits < infinity) {k : Int}
    (hshortest : (shortest (nearestTo (10 ^ k : ℚ))).value = 10 ^ k) :
    (10 : ℚ) ^ k ≤ (shortest bits).value ↔
      finiteValue (nearestTo (10 ^ k : ℚ)) ≤ finiteValue bits := by
  have hread : nearestTo (shortest bits).value = bits := by
    rw [← Decimal.nearest_eq_nearestTo, nearest_shortest hpos hfinite]
  rw [finiteValue_strictMono.le_iff_le]
  constructor
  · intro hle
    rw [← hread]
    exact nearestTo_mono (by positivity) hle
  · intro hle
    by_contra hlt
    have hge := nearestTo_mono (shortest bits).value_nonneg (not_le.mp hlt).le
    rw [hread] at hge
    rw [le_antisymm hle hge] at hshortest
    exact hlt hshortest.ge

theorem abs_value (x : Float) : |value x| = finiteValue (magnitude x) := by
  have hnonneg := finiteValue_nonneg (magnitude x)
  unfold value signedValue
  split_ifs
  · rw [abs_neg, abs_of_nonneg hnonneg]
  · exact abs_of_nonneg hnonneg

theorem value_power (k : Int) : (⟨1, k⟩ : Decimal).value = 10 ^ k := by
  rw [Decimal.value, Nat.cast_one, one_mul]

theorem nearest_power (k : Int) : (⟨1, k⟩ : Decimal).nearest = nearestTo (10 ^ k : ℚ) := by
  rw [Decimal.nearest_eq_nearestTo, value_power]

/-- The double that a power of ten is read as. -/
theorem value_read_power {text : String} {k : Int}
    (h : decimal? text.toList = some (decimal false ⟨1, k⟩)) :
    value (read text) = finiteValue (nearestTo (10 ^ k : ℚ)) := by
  have hread := read_of_decimal? h
  rw [String.ofList_toList, toFloat, nearest_power] at hread
  rw [hread, value_ofMagnitude false (nearestTo_le_infinity _)]
  rfl

theorem le_place_shortest_iff (hpos : 0 < bits) (hfinite : bits < infinity) {text : String}
    {k : Int} (htext : decimal? text.toList = some (decimal false ⟨1, k⟩))
    (hshortest : (shortest (⟨1, k⟩ : Decimal).nearest).value = 10 ^ k) :
    k ≤ Layout.place (shortest bits) ↔ value (read text) ≤ finiteValue bits := by
  rw [nearest_power] at hshortest
  rw [Layout.le_place_iff (shortest_pos hpos hfinite), value_read_power htext]
  exact le_shortest_iff hpos hfinite hshortest

/-- The least double and the first beyond the greatest that are written positionally. -/
theorem positional_range_iff (hpos : 0 < bits) (hfinite : bits < infinity) :
    (-6 ≤ Layout.place (shortest bits) ∧ Layout.place (shortest bits) < 21) ↔
      value (read "1e-6") ≤ finiteValue bits ∧ finiteValue bits < value (read "1e21") := by
  have hleast : decimal? "1e-6".toList = some (decimal false ⟨1, -6⟩) := by decide +kernel
  have hbeyond : decimal? "1e21".toList = some (decimal false ⟨1, 21⟩) := by decide +kernel
  -- The double that is read from a millionth lies below it, so that its first digit is another.
  have hleast' : shortest (⟨1, -6⟩ : Decimal).nearest = ⟨10, -7⟩ := by decide +kernel
  have hbeyond' : shortest (⟨1, 21⟩ : Decimal).nearest = ⟨1, 21⟩ := by decide +kernel
  have hlower := le_place_shortest_iff hpos hfinite hleast (by rw [hleast', Decimal.value]; norm_num)
  have hupper := le_place_shortest_iff hpos hfinite hbeyond (by rw [hbeyond', value_power])
  rw [← not_le, ← not_le, hlower, hupper]

/-! ## The digits that are shown -/

/-- What is read as a decimal literal is read as the double nearest to it, with its sign. -/
theorem nearestTo_of_read {text : String} {x : Float} {negative : Bool} {d : Decimal}
    (h : decimal? (trim text.toList) = some (decimal negative d)) (hread : read text = x) :
    isNegative x = negative ∧ nearestTo d.value = magnitude x := by
  have hfloat : read text = ofMagnitude negative (nearestTo d.value) := by
    rw [read, ofChars?, h, ← Decimal.nearest_eq_nearestTo]
    rfl
  rw [← hread, hfloat]
  exact ⟨isNegative_ofMagnitude negative (nearestTo_le_infinity _),
    (magnitude_ofMagnitude negative (nearestTo_le_infinity _)).symm⟩

/-- A decimal of the value of the shortest one has no more digits than any that is read as the same
double, and is no farther from it than any with as many. -/
theorem significantDigits_le {x : Float} (hpos : 0 < magnitude x) (hfinite : magnitude x < infinity)
    {cs : List Char} {negative : Bool} {d : Decimal}
    (hcs : decimal? cs = some (decimal negative d))
    (hd : d.value = (shortest (magnitude x)).value) {text : String} {negative' : Bool}
    {other : Decimal} (htext : decimal? (trim text.toList) = some (decimal negative' other))
    (hread : read text = x) :
    (significantDigits cs).length ≤ (significantDigits (trim text.toList)).length ∧
      ((significantDigits (trim text.toList)).length = (significantDigits cs).length →
        |signedValue (isNegative x) d.value - value x| ≤
          |signedValue negative' other.value - value x|) := by
  obtain ⟨rfl, hnearest⟩ := nearestTo_of_read htext hread
  obtain ⟨hfits, hclosest⟩ := shortest_fewest hpos hfinite
    ((fitsDigits_decimal? htext _).mpr le_rfl) hnearest
  rw [← hd] at hfits hclosest
  refine ⟨(fitsDigits_decimal? hcs _).mp hfits, fun hsame => ?_⟩
  rw [value, distance_signedValue, distance_signedValue]
  apply hclosest
  intro m hm hfewer
  have hle := (fitsDigits_decimal? hcs m).mp hfewer
  omega

/-- **A cell shows the shortest digits.** A finite number other than zero is shown as a decimal
literal that is read as this number. No decimal literal that is read as it, in whatever way it is
written, has fewer significant digits, and none that has as many is closer to the number. The text
is positional just if the number is at least a millionth and less than a thousand million million
million, whatever its sign, and scientific otherwise. -/
theorem display_shortest {x : Float} (hfinite : magnitude x < infinity) (hzero : magnitude x ≠ 0) :
    ∃ (body : List Char) (d : Decimal),
      (display x).toList = signed (isNegative x) body ∧
      decimal? (display x).toList = some (decimal (isNegative x) d) ∧ read (display x) = x ∧
      (∀ (text : String) (negative : Bool) (other : Decimal),
        decimal? (trim text.toList) = some (decimal negative other) → read text = x →
          (significantDigits (display x).toList).length ≤
            (significantDigits (trim text.toList)).length ∧
          ((significantDigits (trim text.toList)).length =
              (significantDigits (display x).toList).length →
            |signedValue (isNegative x) d.value - value x| ≤
              |signedValue negative other.value - value x|)) ∧
      (Positional body ↔ value (read "1e-6") ≤ |value x| ∧ |value x| < value (read "1e21")) ∧
      (Scientific body ↔
        ¬ (value (read "1e-6") ≤ |value x| ∧ |value x| < value (read "1e21"))) := by
  have hpos := Nat.pos_of_ne_zero hzero
  have hnumber : x.isNaN = false := by
    rw [← Bool.not_eq_true, isNaN_iff, not_lt]
    exact hfinite.le
  have hsigned : x.toBits ≠ 0x8000000000000000 := fun heq =>
    hzero (toBits_eq_negativeZero_iff.mp heq).2
  have hcoefficient := shortest_pos hpos hfinite
  obtain ⟨d, hvalue, hliteral⟩ := cellLayout.magnitudeText_spells hcoefficient
  obtain ⟨hpositional, hscientific⟩ := Layout.magnitudeText_shape hcoefficient
  rw [positional_range_iff hpos hfinite, ← abs_value] at hpositional hscientific
  have htext : (display x).toList =
      signed (isNegative x) (cellLayout.magnitudeText (shortest (magnitude x))) := by
    rw [display_eq hnumber, if_neg hzero, if_pos hfinite, String.toList_ofList]
  have hdecimal : decimal? (display x).toList = some (decimal (isNegative x) d) := by
    rw [htext]
    exact hliteral _
  exact ⟨_, d, htext, hdecimal, read_display_self hnumber hsigned,
    fun text negative other hother hread =>
      significantDigits_le hpos hfinite hdecimal hvalue hother hread, hpositional, hscientific⟩

/-- Digits that do not count are zeros also in a whole number. -/
example : display (Float.ofBits 0x43B0000000000000) = "1152921504606847000" := by decide +kernel

/-- Below a power of two doubles are closer to one another than above it. The closest decimal with
sixteen digits ends in a one, but is read as the double below. -/
theorem display_shortest_power :
    magnitude (Float.ofBits 0x3D30000000000000) < infinity ∧
      magnitude (Float.ofBits 0x3D30000000000000) ≠ 0 ∧
      display (Float.ofBits 0x3D30000000000000) = "5.684341886080802e-14" ∧
      ∀ (text : String) (negative : Bool) (other : Decimal),
        decimal? (trim text.toList) = some (decimal negative other) →
          read text = Float.ofBits 0x3D30000000000000 →
            16 ≤ (significantDigits (trim text.toList)).length := by
  have hfinite : magnitude (Float.ofBits 0x3D30000000000000) < infinity := by decide +kernel
  have hzero : magnitude (Float.ofBits 0x3D30000000000000) ≠ 0 := by decide +kernel
  have hshown : display (Float.ofBits 0x3D30000000000000) = "5.684341886080802e-14" := by
    decide +kernel
  refine ⟨hfinite, hzero, hshown, fun text negative other hother hread => ?_⟩
  obtain ⟨body, d, -, -, -, hfewest, -⟩ := display_shortest hfinite hzero
  have hle := (hfewest text negative other hother hread).1
  have hdigits : (significantDigits "5.684341886080802e-14".toList).length = 16 := by
    decide +kernel
  rwa [hshown, hdigits] at hle

end Number

end Worksheet
