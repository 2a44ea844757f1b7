import Mathlib
import Worksheet.Number.Display
import Worksheet.Proofs.Coordinates
import Worksheet.Proofs.Reading
import Worksheet.Proofs.Shortest

/-!
# Numbers are read as they were shown

A `Layout` sets the digits of a decimal around a point, with zeros in between, or puts an exponent
behind them. Whatever the layout, the text is a decimal literal, and the decimal that it is read as
has the value of the one that was written (`Layout.magnitudeText_spells`). It need not be the same
decimal: zeros at its end may have gone into the exponent or come out of it. As decimals of one
value are read as the same double and the shortest decimal of a double is read as this double, what
a cell shows is read as the number that it shows (`read_display`), but for the sign of zero.
-/

namespace Worksheet

open Text

/-! ## Digits -/

/-- A row of the digits 0 to 9. -/
def Text.Digits (cs : List Char) : Prop := ∀ c ∈ cs, c.isDigit = true

namespace Text.Digits

variable {cs : List Char}

theorem append {cs' : List Char} (h : Digits cs) (h' : Digits cs') : Digits (cs ++ cs') :=
  List.forall_mem_append.mpr ⟨h, h'⟩

theorem replicate (n : Nat) : Digits (List.replicate n '0') := fun c hc => by
  rw [List.eq_of_mem_replicate hc]
  rfl

theorem toDigits (n : Nat) : Digits (Nat.toDigits 10 n) := fun _ hc => isDigit_of_mem_toDigits hc

theorem sublist {cs' : List Char} (h : Digits cs) (hsub : cs'.Sublist cs) : Digits cs' :=
  fun c hc => h c (hsub.subset hc)

theorem isDecimalDigit (h : Digits cs) : ∀ c ∈ cs, isDecimalDigit c = true :=
  fun c hc => isDecimalDigit_of_isDigit (h c hc)

/-- Digits are read as they are written. -/
theorem digitsValue (h : Digits cs) : digitsValue cs = Nat.ofDigitChars 10 cs 0 := by
  rw [Text.digitsValue, Nat.ofDigitChars_eq_foldl]
  refine List.foldl_ext _ _ 0 fun n c hc => ?_
  rw [digit?_of_isDigit (h c hc), Option.getD_some]

end Text.Digits

namespace Number

namespace Literal

/-! ## Decimal literals -/

/-- A minus sign in front, or nothing. -/
def signed (negative : Bool) (cs : List Char) : List Char := if negative then '-' :: cs else cs

theorem exists_sign (negative : Bool) (cs : List Char) :
    ∃ sign, signed negative cs = sign ++ cs ∧ Sign sign negative := by
  cases negative with
  | true => exact ⟨_, rfl, .minus⟩
  | false => exact ⟨_, rfl, .none⟩

/-- The exponent is read as it is written, with zeros in front or without. -/
theorem exponent?_write (zeros : Nat) (e : Int) :
    exponent? ('e' :: (if e < 0 then '-' else '+') ::
      (List.replicate zeros '0' ++ Nat.toDigits 10 e.natAbs)) = some e := by
  have hdigits : Digits (List.replicate zeros '0' ++ Nat.toDigits 10 e.natAbs) :=
    (Digits.replicate zeros).append (.toDigits _)
  have hne : List.replicate zeros '0' ++ Nat.toDigits 10 e.natAbs ≠ [] := by
    simp [Nat.toDigits_ne_nil]
  have hvalue : digitsValue (List.replicate zeros '0' ++ Nat.toDigits 10 e.natAbs) = e.natAbs := by
    rw [hdigits.digitsValue, Nat.ofDigitChars_append, Nat.ofDigitChars_replicate_zero,
      Nat.mul_zero, Nat.ofDigitChars_ten_toDigits]
  rw [exponent?_eq_some_iff]
  rcases lt_or_ge e 0 with hneg | hnonneg
  · have hwritten := Exponent.written (.inl rfl) .minus hne hdigits.isDecimalDigit
    rw [hvalue, if_pos rfl, ← Int.abs_eq_natAbs, abs_of_neg hneg, neg_neg] at hwritten
    rwa [if_pos hneg]
  · have hwritten := Exponent.written (.inl rfl) .plus hne hdigits.isDecimalDigit
    rw [hvalue, if_neg Bool.false_ne_true, ← Int.abs_eq_natAbs, abs_of_nonneg hnonneg] at hwritten
    rwa [if_neg (not_lt.mpr hnonneg)]

/-- A literal is read by its parts: digits, more of them behind a point, an exponent. -/
theorem decimal?_eq {before behind fraction rest : List Char} {e : Int} (hne : before ≠ [])
    (hbefore : Digits before) (hbehind : Digits behind)
    (hfraction : fraction = '.' :: behind ∨ fraction = [] ∧ behind = [])
    (hrest : exponent? rest = some e)
    (hhead : ∀ c ∈ rest.head?, isDecimalDigit c = false ∧ c ≠ '.') (negative : Bool) :
    decimal? (signed negative (before ++ (fraction ++ rest))) =
      some (decimal negative ⟨digitsValue (before ++ behind), e - behind.length⟩) := by
  obtain ⟨sign, hsign, hsign'⟩ := exists_sign negative (before ++ (fraction ++ rest))
  have hstop : ∀ d ∈ rest.head?, isDecimalDigit d = false := fun d hd => (hhead d hd).1
  have hafter : takeFraction (fraction ++ rest) = (behind, rest) := by
    rcases hfraction with rfl | ⟨rfl, rfl⟩
    · exact takeDigits_append hbehind.isDecimalDigit hstop
    · exact takeFraction_of_head fun d hd => (hhead d hd).2
  have hfirst : ∀ d ∈ (fraction ++ rest).head?, isDecimalDigit d = false := by
    rcases hfraction with rfl | ⟨rfl, rfl⟩
    · rintro d ⟨⟩
      decide
    · exact hstop
  rw [hsign]
  exact decimal?_eq_of_steps (takeSign_digits hsign' hne hbefore.isDecimalDigit _)
    (takeDigits_append hbefore.isDecimalDigit hfirst) hafter (.inl hne) hrest

theorem read_of_decimal? {cs : List Char} {literal : Literal} (h : decimal? cs = some literal) :
    read (String.ofList cs) = literal.toFloat := by
  rw [read, String.toList_ofList, trim_of_not_isBlank (numeral_of_decimal? h).not_isBlank, ofChars?,
    h]
  rfl

/-! ## Texts with a value -/

/-- A text is a decimal literal for a number, with a sign in front or without. -/
def Spells (cs : List Char) (q : ℚ) : Prop :=
  ∃ d : Decimal, d.value = q ∧
    ∀ negative, decimal? (signed negative cs) = some (decimal negative d)

theorem spells_of_parts {before behind fraction rest : List Char} {e : Int} (hne : before ≠ [])
    (hbefore : Digits before) (hbehind : Digits behind)
    (hfraction : fraction = '.' :: behind ∨ fraction = [] ∧ behind = [])
    (hrest : exponent? rest = some e)
    (hhead : ∀ c ∈ rest.head?, isDecimalDigit c = false ∧ c ≠ '.') :
    Spells (before ++ (fraction ++ rest))
      (Nat.ofDigitChars 10 (before ++ behind) 0 * 10 ^ (e - behind.length)) := by
  refine ⟨_, ?_, decimal?_eq hne hbefore hbehind hfraction hrest hhead⟩
  rw [Decimal.value, (hbefore.append hbehind).digitsValue]

/-- A text is read as the double nearest to what it spells. -/
theorem Spells.read {cs : List Char} {d : Decimal} (h : Spells cs d.value) (negative : Bool) :
    read (String.ofList (signed negative cs)) = ofMagnitude negative d.nearest := by
  obtain ⟨d', hvalue, hread⟩ := h
  rw [read_of_decimal? (hread negative), toFloat, Decimal.nearest_congr hvalue]

end Literal

/-! ## Layouts -/

namespace Layout

open Literal

variable (layout : Layout) {digits : List Char}

/-- Whole and fraction with a point between them, which may be left out if nothing is behind it. -/
theorem spells_point (whole fraction : List Char) (hne : whole ≠ []) (hwhole : Digits whole)
    (hfraction : Digits fraction) :
    Spells (if fraction.isEmpty then whole ++ (if layout.pointZero then ['.', '0'] else [])
        else whole ++ '.' :: fraction)
      (Nat.ofDigitChars 10 (whole ++ fraction) 0 * 10 ^ (-(fraction.length : Int))) := by
  have hparts : ∀ {behind rest : List Char}, Digits behind →
      (rest = '.' :: behind ∨ rest = [] ∧ behind = []) → Spells (whole ++ rest)
        (Nat.ofDigitChars 10 (whole ++ behind) 0 * 10 ^ (-(behind.length : Int))) := by
    intro behind rest hbehind hrest
    have hspells := spells_of_parts hne hwhole hbehind hrest (rfl : exponent? [] = some 0) (by simp)
    rwa [List.append_nil, Int.zero_sub] at hspells
  split_ifs with hempty hzero
  · rw [List.isEmpty_iff.mp hempty]
    have hspells : Spells (whole ++ ['.', '0']) _ := hparts (.replicate 1) (.inl rfl)
    rw [Nat.ofDigitChars_append, Nat.ofDigitChars_replicate_zero] at hspells
    convert hspells using 1
    simp
    ring
  · rw [List.isEmpty_iff.mp hempty]
    exact hparts (fun c hc => by cases hc) (.inr ⟨rfl, rfl⟩)
  · exact hparts hfraction (.inl rfl)

/-- A point that is set so many places behind the first digit, with zeros where digits are missing,
shifts the number that the digits write. -/
theorem ofDigitChars_places (digits : List Char) (places : Nat) :
    (Nat.ofDigitChars 10 (digits.take places ++ List.replicate (places - digits.length) '0' ++
        digits.drop places) 0 : ℚ) * 10 ^ (-((digits.drop places).length : Int)) =
      Nat.ofDigitChars 10 digits 0 * 10 ^ ((places : Int) - digits.length) := by
  rcases le_or_gt digits.length places with hfits | hlonger
  · have hzeros : ((places - digits.length : Nat) : Int) = (places : Int) - digits.length := by
      omega
    rw [List.take_of_length_le hfits, List.drop_of_length_le hfits, List.append_nil,
      Nat.ofDigitChars_append, Nat.ofDigitChars_replicate_zero, ← hzeros, zpow_natCast]
    simp [mul_comm]
  · rw [Nat.sub_eq_zero_of_le hlonger.le, List.replicate_zero, List.append_nil,
      List.take_append_drop, List.length_drop]
    congr 2
    omega

theorem positional_spells (hne : digits ≠ []) (hdigits : Digits digits) (exponent : Int) :
    Spells (layout.positional digits exponent)
      (Nat.ofDigitChars 10 digits 0 * 10 ^ (exponent + 1 - digits.length)) := by
  unfold positional
  simp only
  rcases lt_or_ge exponent 0 with hneg | hnonneg
  · simp only [if_pos hneg]
    have hspells := layout.spells_point ['0'] _ (by simp) (.replicate 1)
      ((Digits.replicate ((-exponent).toNat - 1)).append hdigits)
    have hlength : (-((List.replicate ((-exponent).toNat - 1) '0' ++ digits).length : Int)) =
        exponent + 1 - digits.length := by
      rw [List.length_append, List.length_replicate]
      omega
    have hvalue : Nat.ofDigitChars 10
        (['0'] ++ (List.replicate ((-exponent).toNat - 1) '0' ++ digits)) 0 =
          Nat.ofDigitChars 10 digits 0 := by
      simp [Nat.ofDigitChars_append, Nat.ofDigitChars_cons]
    rwa [hlength, hvalue] at hspells
  · simp only [if_neg (not_lt.mpr hnonneg)]
    have hwhole : Digits (digits.take (exponent.toNat + 1) ++
        List.replicate (exponent.toNat + 1 - digits.length) '0') :=
      (hdigits.sublist (List.take_sublist _ _)).append (.replicate _)
    have hspells := layout.spells_point _ _ (by simp [hne]) hwhole
      (hdigits.sublist (List.drop_sublist (exponent.toNat + 1) digits))
    have hplaces : ((exponent.toNat + 1 : Nat) : Int) = exponent + 1 := by omega
    rwa [ofDigitChars_places, hplaces] at hspells

theorem scientific_spells (hne : digits ≠ []) (hdigits : Digits digits) (exponent : Int) :
    Spells (layout.scientific digits exponent)
      (Nat.ofDigitChars 10 digits 0 * 10 ^ (exponent + 1 - digits.length)) := by
  obtain ⟨first, others, rfl⟩ := List.exists_cons_of_ne_nil hne
  have hfirst : Digits [first] := hdigits.sublist (by simp)
  have hothers : Digits others := hdigits.sublist (List.sublist_cons_self _ _)
  have hfraction : (if (first :: others).length ≤ 1 then [] else '.' :: others) = '.' :: others ∨
      (if (first :: others).length ≤ 1 then [] else '.' :: others) = [] ∧ others = [] := by
    split_ifs with hsingle
    · exact .inr ⟨rfl, by simpa using hsingle⟩
    · exact .inl rfl
  have hspells := spells_of_parts (by simp) hfirst hothers hfraction
    (exponent?_write (layout.exponentWidth - (Nat.toDigits 10 exponent.natAbs).length) exponent)
    (by rintro c ⟨⟩; decide)
  convert hspells using 1
  · simp [scientific]
  · congr 2
    simp only [List.length_cons]
    omega

/-- Digits without the zeros at their end, and these zeros. -/
theorem exists_zeros (all : List Char) : ∃ zeros,
    all = (all.reverse.dropWhile (· == '0')).reverse ++ List.replicate zeros '0' := by
  have hzeros : ∀ c ∈ all.reverse.takeWhile (· == '0'), c = '0' := fun c hc =>
    beq_iff_eq.mp (List.mem_takeWhile_imp (p := (· == '0')) hc)
  refine ⟨(all.reverse.takeWhile (· == '0')).length, ?_⟩
  rw [← List.reverse_replicate, ← List.eq_replicate_of_mem hzeros, ← List.reverse_append,
    List.takeWhile_append_dropWhile, List.reverse_reverse]

/-- A decimal is read as the number that it is, whatever the layout. -/
theorem magnitudeText_spells {d : Decimal} (hd : 0 < d.coefficient) :
    Spells (layout.magnitudeText d) d.value := by
  obtain ⟨zeros, hall⟩ := exists_zeros (Nat.toDigits 10 d.coefficient)
  simp only [magnitudeText]
  generalize ((Nat.toDigits 10 d.coefficient).reverse.dropWhile (· == '0')).reverse = digits
    at hall ⊢
  have hcoefficient : d.coefficient = 10 ^ zeros * Nat.ofDigitChars 10 digits 0 := by
    rw [← Nat.ofDigitChars_replicate_zero, ← Nat.ofDigitChars_append, ← hall,
      Nat.ofDigitChars_ten_toDigits]
  have hne : digits ≠ [] := by
    rintro rfl
    rw [hcoefficient] at hd
    simp at hd
  have hdigits : Digits digits := (Digits.toDigits d.coefficient).sublist
    (hall ▸ List.sublist_append_left _ _)
  have hlength : (Nat.toDigits 10 d.coefficient).length = digits.length + zeros := by
    rw [hall, List.length_append, List.length_replicate]
  have hvalue : d.value = Nat.ofDigitChars 10 digits 0 *
      10 ^ (d.exponent + (Nat.toDigits 10 d.coefficient).length - 1 + 1 - digits.length) := by
    have hexponent : d.exponent + (Nat.toDigits 10 d.coefficient).length - 1 + 1 - digits.length =
        zeros + d.exponent := by omega
    rw [hexponent, Decimal.value, hcoefficient, zpow_add₀ (by norm_num), zpow_natCast]
    push_cast
    ring
  split_ifs
  · rw [hvalue]
    exact layout.positional_spells hne hdigits _
  · rw [hvalue]
    exact layout.scientific_spells hne hdigits _

end Layout

/-! ## What a cell shows -/

open Literal

theorem display_eq {x : Float} (h : x.isNaN = false) :
    display x = if magnitude x = 0 then "0" else String.ofList (signed (isNegative x)
      (if magnitude x < infinity then cellLayout.magnitudeText (shortest (magnitude x))
        else "Infinity".toList)) := by
  have hpoint : cellLayout.pointZero = false := rfl
  have hsign : cellLayout.signedZero = false := rfl
  by_cases hzero : magnitude x = 0
  · simp only [display, Layout.write, h, hzero, hpoint, hsign, bne_self_eq_false, Bool.or_self,
      Bool.and_false, Bool.false_eq_true, if_true, if_false]
  · simp only [display, Layout.write, h, hzero, hsign, bne_iff_ne.mpr hzero, Bool.true_or,
      Bool.and_true, Bool.false_eq_true, if_false, signed]
    rfl

theorem read_infinity (negative : Bool) :
    read (String.ofList (signed negative "Infinity".toList)) = ofMagnitude negative infinity := by
  cases negative <;> rfl

/-- What is shown is read as the number that it shows; zero loses its sign. -/
theorem read_display {x : Float} (h : x.isNaN = false) :
    read (display x) = ofMagnitude (isNegative x && magnitude x != 0) (magnitude x) := by
  rw [display_eq h]
  split_ifs with hzero hfinite
  · rw [hzero, bne_self_eq_false, Bool.and_false]
    rfl
  · have hpos : 0 < magnitude x := Nat.pos_of_ne_zero hzero
    have hspells := cellLayout.magnitudeText_spells (shortest_pos hpos hfinite)
    rw [hspells.read, nearest_shortest hpos hfinite, bne_iff_ne.mpr hzero, Bool.and_true]
  · have hinfinite : magnitude x = infinity := by
      have hle := (isNumber_iff x).mp (by rw [isNumber, h]; rfl)
      omega
    rw [read_infinity, hinfinite, bne_iff_ne.mpr (by decide), Bool.and_true]

/-- Only the zero with a sign is not read as itself. -/
theorem read_display_self {x : Float} (h : x.isNaN = false)
    (hzero : x.toBits ≠ 0x8000000000000000) : read (display x) = x := by
  conv_rhs => rw [← ofMagnitude_magnitude x]
  rw [read_display h]
  congr 1
  cases hneg : isNegative x with
  | false => rfl
  | true =>
    rw [Bool.true_and, bne_iff_ne]
    exact fun hmag => hzero (toBits_eq_negativeZero_iff.mpr ⟨hneg, hmag⟩)

theorem magnitude_read_display {x : Float} (h : x.isNaN = false) :
    magnitude (read (display x)) = magnitude x := by
  rw [read_display h, magnitude_ofMagnitude]
  rwa [← isNumber_iff, isNumber, Bool.not_eq_true']

/-- What shows no number is not shown like one. -/
theorem isNaN_of_display_eq {x y : Float} (hx : x.isNaN = false) (h : display x = display y) :
    y.isNaN = false := by
  by_contra hy
  rw [Bool.not_eq_false] at hy
  have hread : read (display y) = nan := by
    rw [display, Layout.write, if_pos hy]
    rfl
  have hmag := magnitude_read_display hx
  rw [h, hread] at hmag
  have hnan : infinity < magnitude x := by
    rw [← hmag]
    decide
  rw [← isNaN_iff, hx] at hnan
  cases hnan

/-- Reading undoes displaying: every number comes back bit for bit, but for the zero with a sign,
which comes back without. So numbers that are shown alike are equal, and what was read is shown as
before. -/
theorem display_roundTrip {x : Float} (hx : x.isNaN = false) :
    (read (display x)).toBits = (if x.toBits = 0x8000000000000000 then 0 else x.toBits) ∧
      (∀ y : Float, display x = display y → (x == y) = true) ∧
      display (read (display x)) = display x := by
  refine ⟨?_, fun y hxy => ?_, ?_⟩
  · split_ifs with hzero
    · rw [read_display hx, (toBits_eq_negativeZero_iff.mp hzero).2, bne_self_eq_false,
        Bool.and_false]
      rfl
    · rw [read_display_self hx hzero]
  · have hy := isNaN_of_display_eq hx hxy
    have hmag : magnitude x = magnitude y := by
      rw [← magnitude_read_display hx, hxy, magnitude_read_display hy]
    rcases Nat.eq_zero_or_pos (magnitude x) with hzero | hpos
    · exact beq_of_magnitude_eq_zero hzero (hmag ▸ hzero)
    · have hsigned : ∀ z : Float, 0 < magnitude z → z.toBits ≠ 0x8000000000000000 :=
        fun z hz heq => hz.ne' (toBits_eq_negativeZero_iff.mp heq).2
      rw [← read_display_self hx (hsigned x hpos), hxy,
        read_display_self hy (hsigned y (hmag ▸ hpos))]
      exact beq_self hy
  · by_cases hzero : x.toBits = 0x8000000000000000
    · have hmag := (toBits_eq_negativeZero_iff.mp hzero).2
      rw [read_display hx, hmag, bne_self_eq_false, Bool.and_false, display_eq hx, if_pos hmag]
      rfl
    · rw [read_display_self hx hzero]

theorem display_roundTrip_least :
    (Float.ofBits 1).isNaN = false ∧ (read (display (Float.ofBits 1))).toBits = 1 := by
  refine ⟨rfl, ?_⟩
  have hbits : (Float.ofBits 1).toBits = 1 := rfl
  rw [(display_roundTrip rfl).1, hbits]
  rfl

end Number

end Worksheet
