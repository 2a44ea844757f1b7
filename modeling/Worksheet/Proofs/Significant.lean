import Worksheet.Proofs.Fewest
import Worksheet.Proofs.Reading

/-!
# Significant digits

The significant digits of a decimal literal are the digits before its exponent, without the zeros at
both ends. Neither the point nor the exponent changes them: a literal is its significant digits, as
a whole number, times a power of ten. This whole number is no multiple of ten and has as many places
as there are digits, so that no decimal of the same value has fewer (`fitsDigits_iff`).
-/

namespace Worksheet

namespace Text

/-- The zeros of all scripts. -/
def isZero (c : Char) : Bool := digit? c == some 0

/-- Digits without the zeros at both ends. -/
def stripZeros (digits : List Char) : List Char := (digits.dropWhile isZero).rdropWhile isZero

/-- The letters that stand before an exponent end the digits of a decimal literal. -/
def beforeExponent (c : Char) : Bool := c != 'e' && c != 'E'

/-- The digits of a decimal literal before its exponent, without the zeros at both ends. -/
def significantDigits (cs : List Char) : List Char :=
  stripZeros ((cs.takeWhile beforeExponent).filter isDecimalDigit)

end Text

open Text

namespace Number

open Literal

/-! ## The value of digits -/

theorem digit_le_nine (c : Char) : (digit? c).getD 0 ≤ 9 := by
  cases hc : digit? c with
  | none => exact Nat.zero_le _
  | some n => exact Nat.le_of_lt_succ (digit?_lt_ten hc)

theorem digitsValue_singleton (c : Char) : digitsValue [c] = (digit? c).getD 0 := by
  simp [digitsValue]

theorem digitsValue_cons (c : Char) (cs : List Char) :
    digitsValue (c :: cs) = (digit? c).getD 0 * 10 ^ cs.length + digitsValue cs := by
  rw [← List.singleton_append, digitsValue_append, digitsValue_singleton]

theorem digitsValue_lt (cs : List Char) : digitsValue cs < 10 ^ cs.length := by
  induction cs with
  | nil => exact Nat.one_pos
  | cons c cs ih =>
    calc digitsValue (c :: cs) = (digit? c).getD 0 * 10 ^ cs.length + digitsValue cs :=
          digitsValue_cons c cs
      _ < 9 * 10 ^ cs.length + 10 ^ cs.length :=
          Nat.add_lt_add_of_le_of_lt (Nat.mul_le_mul_right _ (digit_le_nine c)) ih
      _ = 10 ^ (c :: cs).length := by rw [List.length_cons]; ring

theorem digitsValue_of_isZero {cs : List Char} (h : ∀ c ∈ cs, isZero c = true) :
    digitsValue cs = 0 := by
  induction cs with
  | nil => rfl
  | cons c cs ih =>
    obtain ⟨hc, hcs⟩ := List.forall_mem_cons.mp h
    rw [digitsValue_cons, ih hcs, beq_iff_eq.mp hc]
    simp

/-! ## Digits without zeros at the ends -/

variable {c : Char} {digits : List Char}

/-- A digit that is not zero counts. -/
theorem digit_pos (hdigit : isDecimalDigit c = true) (hzero : isZero c = false) :
    0 < (digit? c).getD 0 := by
  obtain ⟨n, hn⟩ := Option.isSome_iff_exists.mp hdigit
  rw [isZero, hn, beq_eq_false_iff_ne] at hzero
  rw [hn, Option.getD_some]
  exact Nat.pos_of_ne_zero fun h => hzero (congrArg some h)

/-- Digits with no zero in front have as many places as there are. -/
theorem le_digitsValue (hdigit : isDecimalDigit c = true) (hzero : isZero c = false)
    (cs : List Char) : 10 ^ cs.length ≤ digitsValue (c :: cs) := by
  rw [digitsValue_cons]
  exact Nat.le_add_right_of_le (Nat.le_mul_of_pos_left _ (digit_pos hdigit hzero))

/-- Digits with no zero at the end are no multiple of ten. -/
theorem digitsValue_mod_ten (hdigit : isDecimalDigit c = true) (hzero : isZero c = false)
    (cs : List Char) : digitsValue (cs ++ [c]) % 10 ≠ 0 := by
  have hpos := digit_pos hdigit hzero
  have hle := digit_le_nine c
  rw [digitsValue_append, digitsValue_singleton, List.length_singleton]
  omega

/-- Zeros in front are worth nothing, and each zero at the end is a factor ten. -/
theorem exists_stripZeros (digits : List Char) : ∃ before after,
    (∀ c ∈ before, isZero c = true) ∧ (∀ c ∈ after, isZero c = true) ∧
      digits = before ++ (stripZeros digits ++ after) := by
  refine ⟨digits.takeWhile isZero, (digits.dropWhile isZero).rtakeWhile isZero,
    fun c hc => List.mem_takeWhile_imp hc, fun c hc => List.mem_rtakeWhile_imp hc, ?_⟩
  rw [stripZeros, List.rdropWhile_append_rtakeWhile, List.takeWhile_append_dropWhile]

theorem exists_digitsValue_eq (digits : List Char) :
    ∃ zeros, digitsValue digits = digitsValue (stripZeros digits) * 10 ^ zeros := by
  obtain ⟨before, after, hbefore, hafter, hdigits⟩ := exists_stripZeros digits
  refine ⟨after.length, ?_⟩
  conv_lhs => rw [hdigits]
  rw [digitsValue_append, digitsValue_append, digitsValue_of_isZero hbefore,
    digitsValue_of_isZero hafter, Nat.zero_mul, Nat.zero_add, Nat.add_zero]

theorem stripZeros_sublist (digits : List Char) : (stripZeros digits).Sublist digits :=
  (List.rdropWhile_prefix _ _).sublist.trans (List.dropWhile_sublist _)

theorem stripZeros_first {cs : List Char} (h : stripZeros digits = c :: cs) :
    isZero c = false := by
  have hprefix : c :: cs <+: digits.dropWhile isZero := h ▸ List.rdropWhile_prefix _ _
  obtain ⟨rest, hrest⟩ := hprefix
  have hfirst := List.head?_dropWhile_not isZero digits
  rw [← hrest] at hfirst
  simpa using hfirst

theorem stripZeros_last {cs : List Char} (h : stripZeros digits = cs ++ [c]) :
    isZero c = false := by
  have hlast := List.rdropWhile_last_not isZero (digits.dropWhile isZero)
  rw [← stripZeros, h] at hlast
  simpa using hlast (by simp)

/-! ## Digits that a number needs -/

/-- What is left of digits has as many places as digits, and no factor ten. -/
theorem stripZeros_spec (hdigits : DecimalDigits digits) (hne : stripZeros digits ≠ []) :
    10 ^ ((stripZeros digits).length - 1) ≤ digitsValue (stripZeros digits) ∧
      digitsValue (stripZeros digits) % 10 ≠ 0 := by
  have hstripped : DecimalDigits (stripZeros digits) := fun c hc =>
    hdigits c ((stripZeros_sublist digits).subset hc)
  constructor
  · obtain ⟨first, rest, hfirst⟩ := List.exists_cons_of_ne_nil hne
    rw [hfirst] at hstripped ⊢
    exact le_digitsValue (hstripped first List.mem_cons_self) (stripZeros_first hfirst) rest
  · obtain ⟨init, last, hlast⟩ := (List.eq_nil_or_concat' _).resolve_left hne
    rw [hlast] at hstripped ⊢
    exact digitsValue_mod_ten (hstripped last (by simp)) (stripZeros_last hlast) init

/-- The number that digits write, wherever the point is, fits a number of digits just if those fit
it that are left without the zeros at both ends. -/
theorem fitsDigits_iff (hdigits : DecimalDigits digits) (e : ℤ) (n : Nat) :
    FitsDigits n (digitsValue digits * 10 ^ e) ↔ (stripZeros digits).length ≤ n := by
  obtain ⟨zeros, hvalue⟩ := exists_digitsValue_eq digits
  have hscaled : (digitsValue digits : ℚ) * 10 ^ e =
      digitsValue (stripZeros digits) * 10 ^ (zeros + e) := by
    rw [hvalue, zpow_add₀ (by norm_num), zpow_natCast]
    push_cast
    ring
  rw [hscaled]
  constructor
  · intro hfits
    by_cases hne : stripZeros digits = []
    · rw [hne]
      exact Nat.zero_le n
    · obtain ⟨hplaces, hten⟩ := stripZeros_spec hdigits hne
      have hlt := hplaces.trans_lt (lt_of_fitsDigits hten hfits)
      have hless := (Nat.pow_lt_pow_iff_right (by decide)).mp hlt
      omega
  · intro hle
    have hlt := (digitsValue_lt (stripZeros digits)).trans_le
      (Nat.pow_le_pow_right (by decide) hle)
    exact ⟨_, _, hlt, rfl⟩

/-! ## The significant digits of a literal -/

theorem beforeExponent_of_isDecimalDigit (h : isDecimalDigit c = true) :
    beforeExponent c = true := by
  rw [← Bool.not_eq_false]
  intro hmark
  simp only [beforeExponent, Bool.and_eq_false_iff, bne_eq_false_iff_eq] at hmark
  rcases hmark with rfl | rfl <;> exact absurd h (by decide)

theorem Exponent.takeWhile_eq_nil {exponent : List Char} {e : ℤ} (h : Exponent exponent e) :
    exponent.takeWhile beforeExponent = [] := by
  cases h with
  | none => rfl
  | written hmark => rcases hmark with rfl | rfl <;> rfl

/-- The digits before the exponent are those before the point and those behind it. -/
theorem mantissa_digits {sign before fraction behind exponent : List Char} {negative : Bool} {e : ℤ}
    (hsign : Sign sign negative) (hbefore : DecimalDigits before) (hbehind : DecimalDigits behind)
    (hfraction : fraction = '.' :: behind ∨ fraction = [] ∧ behind = [])
    (he : Exponent exponent e) :
    ((sign ++ (before ++ (fraction ++ exponent))).takeWhile beforeExponent).filter isDecimalDigit =
      before ++ behind := by
  have hkept : ∀ {cs : List Char}, DecimalDigits cs → ∀ c ∈ cs, beforeExponent c = true :=
    fun hcs c hc => beforeExponent_of_isDecimalDigit (hcs c hc)
  have hsign' : (∀ c ∈ sign, beforeExponent c = true) ∧ sign.filter isDecimalDigit = [] := by
    cases hsign with
    | none => exact ⟨List.forall_mem_nil _, rfl⟩
    | plus | minus => exact ⟨List.forall_mem_singleton.mpr rfl, rfl⟩
  have hfraction' : (∀ c ∈ fraction, beforeExponent c = true) ∧
      fraction.filter isDecimalDigit = behind := by
    rcases hfraction with rfl | ⟨rfl, rfl⟩
    · have hpoint : ¬ isDecimalDigit '.' = true := by decide
      rw [List.forall_mem_cons, List.filter_cons_of_neg hpoint, List.filter_eq_self]
      exact ⟨⟨rfl, hkept hbehind⟩, hbehind⟩
    · exact ⟨List.forall_mem_nil _, rfl⟩
  rw [List.takeWhile_append_of_pos hsign'.1, List.takeWhile_append_of_pos (hkept hbefore),
    List.takeWhile_append_of_pos hfraction'.1, he.takeWhile_eq_nil, List.append_nil,
    List.filter_append, List.filter_append, hsign'.2, hfraction'.2, List.filter_eq_self.mpr hbefore,
    List.nil_append]

theorem significantDigits_of_decimal? {cs : List Char} {negative : Bool} {d : Decimal}
    (h : decimal? cs = some (decimal negative d)) : ∃ digits, DecimalDigits digits ∧
      significantDigits cs = stripZeros digits ∧ d.coefficient = digitsValue digits := by
  obtain ⟨sign, before, fraction, behind, exponent, negative', e, rfl, hsign, hbefore, hbehind,
    hfraction, -, he, hliteral⟩ := exists_parts h
  refine ⟨before ++ behind, List.forall_mem_append.mpr ⟨hbefore, hbehind⟩, ?_, ?_⟩
  · rw [significantDigits, mantissa_digits hsign hbefore hbehind hfraction he]
  · cases hliteral
    rfl

/-- No decimal of the value of a literal has fewer digits than it has significant ones. -/
theorem fitsDigits_decimal? {cs : List Char} {negative : Bool} {d : Decimal}
    (h : decimal? cs = some (decimal negative d)) (n : Nat) :
    FitsDigits n d.value ↔ (significantDigits cs).length ≤ n := by
  obtain ⟨digits, hdigits, hsignificant, hcoefficient⟩ := significantDigits_of_decimal? h
  rw [Decimal.value, hcoefficient, hsignificant]
  exact fitsDigits_iff hdigits d.exponent n

end Number

end Worksheet
