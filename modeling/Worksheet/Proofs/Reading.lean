import Mathlib
import Worksheet.Number.Literal
import Worksheet.Proofs.Coordinates
import Worksheet.Proofs.Nearest

/-!
# The texts that are numbers

`Number.Numeral` is the grammar of numbers: the texts that are read as one, with the sign and the
exact number that each of them writes. A decimal literal may have any number of digits, of any
script, before and behind its point and in its exponent; the word for infinity may have a sign; and
whole numbers in base sixteen, eight or two have none.

The three readers are tried in turn, but no text is taken by two of them, so that the first to take
a text takes it for what it is (`Numeral.ofChars?`, `Literal.numeral_of_ofChars?`). As every literal
becomes a double by one rounding, of the number that it writes (`Literal.toFloat_eq`), a text is
read as the double nearest to its number, and texts of one number are read alike
(`read_decides`).
-/

namespace Worksheet.Number

open Text

/-! ## The grammar -/

/-- A sign, or none for a number that is not negative. -/
inductive Sign : List Char → Bool → Prop where
  | none : Sign [] false
  | plus : Sign ['+'] false
  | minus : Sign ['-'] true

/-- A row of digits of any script. -/
def DecimalDigits (cs : List Char) : Prop := ∀ c ∈ cs, isDecimalDigit c = true

/-- Digits with a point among them, at either end or nowhere, and the number that they write. -/
inductive Mantissa : List Char → ℚ → Prop where
  | whole {digits : List Char} : digits ≠ [] → DecimalDigits digits →
      Mantissa digits (digitsValue digits)
  | pointed {before behind : List Char} : before ≠ [] ∨ behind ≠ [] → DecimalDigits before →
      DecimalDigits behind → Mantissa (before ++ '.' :: behind)
        (digitsValue before + digitsValue behind / 10 ^ behind.length)

/-- The letter `e` with a sign, or without, and digits; or no exponent, which is that of one. -/
inductive Exponent : List Char → ℤ → Prop where
  | none : Exponent [] 0
  | written {mark : Char} {sign digits : List Char} {negative : Bool} :
      mark = 'e' ∨ mark = 'E' → Sign sign negative → digits ≠ [] → DecimalDigits digits →
      Exponent (mark :: (sign ++ digits))
        (if negative then -(digitsValue digits : ℤ) else digitsValue digits)

/-- The number that a row of digits writes in a base, the first digit weighing most. -/
def rowValue (base : Nat) (digits : List Char) : Nat :=
  digits.foldl (fun n c => base * n + (Literal.baseDigit? base c).getD 0) 0

/-- The texts that are numbers, with the sign and the magnitude of the number. -/
inductive Numeral : List Char → Bool → WithTop ℚ → Prop where
  | decimal {sign mantissa exponent : List Char} {negative : Bool} {m : ℚ} {e : ℤ} :
      Sign sign negative → Mantissa mantissa m → Exponent exponent e →
      Numeral (sign ++ (mantissa ++ exponent)) negative (m * 10 ^ e : ℚ)
  | infinity {sign : List Char} {negative : Bool} : Sign sign negative →
      Numeral (sign ++ "Infinity".toList) negative ⊤
  | based {letter : Char} {digits : List Char} {base : Nat} : Literal.base? letter = some base →
      digits ≠ [] → (∀ c ∈ digits, (Literal.baseDigit? base c).isSome = true) →
      Numeral ('0' :: letter :: digits) false (rowValue base digits : ℚ)

/-! ## The characters of numerals -/

section Characters

variable {c : Char}

/-- The characters that stand in numerals: digits of any script, signs and the point, and letters,
though not all of them. -/
def isNumeralChar (c : Char) : Bool :=
  isDecimalDigit c || c.isAlpha || c == '+' || c == '-' || c == '.'

theorem isNumeralChar_of_isDecimalDigit (h : isDecimalDigit c = true) : isNumeralChar c = true := by
  simp [isNumeralChar, h]

theorem isNumeralChar_of_isAlpha (h : c.isAlpha = true) : isNumeralChar c = true := by
  simp [isNumeralChar, h]

/-- The characters of numerals belong to one another: none of them is blank. -/
theorem not_isBlank_of_isNumeralChar (h : isNumeralChar c = true) : isBlank c = false := by
  simp only [isNumeralChar, Bool.or_eq_true, beq_iff_eq] at h
  rcases h with (((hdigit | hletter) | rfl) | rfl) | rfl
  · obtain ⟨n, hn⟩ := Option.isSome_iff_exists.mp hdigit
    exact not_isBlank_of_digit? hn
  · exact not_isBlank_of_isAlpha hletter
  all_goals decide

/-- And none of them is a mark between the parts of a formula. -/
theorem not_isMark_of_isNumeralChar (h : isNumeralChar c = true) : Token.isMark c = false := by
  rw [Bool.eq_false_iff]
  intro hmark
  rcases Token.isMark_iff.mp hmark with rfl | rfl | rfl
  all_goals exact absurd h (by decide)

theorem Sign.isNumeralChar {cs : List Char} {negative : Bool} (h : Sign cs negative) :
    ∀ c ∈ cs, isNumeralChar c = true := by
  cases h with
  | none => exact List.forall_mem_nil _
  | plus | minus => exact List.forall_mem_singleton.mpr rfl

theorem Mantissa.isNumeralChar {cs : List Char} {m : ℚ} (h : Mantissa cs m) :
    ∀ c ∈ cs, isNumeralChar c = true := by
  cases h with
  | whole _ hdigits => exact fun c hc => isNumeralChar_of_isDecimalDigit (hdigits c hc)
  | pointed _ hbefore hbehind =>
    rw [List.forall_mem_append, List.forall_mem_cons]
    exact ⟨fun c hc => isNumeralChar_of_isDecimalDigit (hbefore c hc), rfl,
      fun c hc => isNumeralChar_of_isDecimalDigit (hbehind c hc)⟩

theorem Exponent.isNumeralChar {cs : List Char} {e : ℤ} (h : Exponent cs e) :
    ∀ c ∈ cs, isNumeralChar c = true := by
  cases h with
  | none => exact List.forall_mem_nil _
  | written hmark hsign _ hdigits =>
    rw [List.forall_mem_cons, List.forall_mem_append]
    refine ⟨?_, hsign.isNumeralChar,
      fun c hc => isNumeralChar_of_isDecimalDigit (hdigits c hc)⟩
    rcases hmark with rfl | rfl <;> rfl

/-- The letters of the bases. -/
theorem letter_of_base? {base : Nat} (h : Literal.base? c = some base) :
    c = 'x' ∨ c = 'X' ∨ c = 'o' ∨ c = 'O' ∨ c = 'b' ∨ c = 'B' := by
  by_contra hnot
  simp only [not_or] at hnot
  simp [Literal.base?, hnot] at h

theorem isAlpha_of_base? {base : Nat} (h : Literal.base? c = some base) : c.isAlpha = true := by
  rcases letter_of_base? h with rfl | rfl | rfl | rfl | rfl | rfl <;> rfl

/-- The digits of every base are letters and digits. -/
theorem isAlphanum_of_baseDigit? {base : Nat} (h : (Literal.baseDigit? base c).isSome = true) :
    c.isAlphanum = true := by
  rw [Char.isAlphanum, Bool.or_eq_true, Char.isAlpha, Bool.or_eq_true]
  by_contra hnot
  obtain ⟨hletter, hdigit⟩ := not_or.mp hnot
  obtain ⟨hupper, hlower⟩ := not_or.mp hletter
  have hlower' : ¬ ('a' ≤ c ∧ c ≤ 'f') := fun ⟨ha, hf⟩ =>
    hlower (Bool.and_eq_true_iff.mpr ⟨decide_eq_true ha,
      decide_eq_true (le_trans hf (by decide : 'f' ≤ 'z'))⟩)
  have hupper' : ¬ ('A' ≤ c ∧ c ≤ 'F') := fun ⟨ha, hf⟩ =>
    hupper (decide_eq_true ⟨ha, le_trans hf (by decide : 'F' ≤ 'Z')⟩)
  simp [Literal.baseDigit?, hdigit, hlower', hupper'] at h

theorem Numeral.isNumeralChar {cs : List Char} {negative : Bool} {v : WithTop ℚ}
    (h : Numeral cs negative v) : ∀ c ∈ cs, isNumeralChar c = true := by
  cases h with
  | decimal hsign hmantissa he =>
    rw [List.forall_mem_append, List.forall_mem_append]
    exact ⟨hsign.isNumeralChar, hmantissa.isNumeralChar, he.isNumeralChar⟩
  | infinity hsign =>
    have hword : ∀ c ∈ "Infinity".toList, c.isAlpha = true := List.all_eq_true.mp rfl
    rw [List.forall_mem_append]
    exact ⟨hsign.isNumeralChar, fun c hc => isNumeralChar_of_isAlpha (hword c hc)⟩
  | based hbase _ hdigits =>
    rw [List.forall_mem_cons, List.forall_mem_cons]
    refine ⟨rfl, isNumeralChar_of_isAlpha (isAlpha_of_base? hbase), fun c hc => ?_⟩
    rcases Bool.or_eq_true_iff.mp (isAlphanum_of_baseDigit? (hdigits c hc)) with halpha | hdigit
    · exact isNumeralChar_of_isAlpha halpha
    · exact isNumeralChar_of_isDecimalDigit (isDecimalDigit_of_isDigit hdigit)

/-- There are no blanks in a numeral. -/
theorem Numeral.not_isBlank {cs : List Char} {negative : Bool} {v : WithTop ℚ}
    (h : Numeral cs negative v) : ∀ c ∈ cs, isBlank c = false :=
  fun c hc => not_isBlank_of_isNumeralChar (h.isNumeralChar c hc)

end Characters

/-! ## What a literal is -/

namespace Literal

def isNegative : Literal → Bool
  | decimal negative _ => negative
  | infinity negative => negative
  | whole _ => false

/-- The magnitude of the number that a literal is. -/
def magnitude : Literal → WithTop ℚ
  | decimal _ d => (d.value : ℚ)
  | infinity _ => ⊤
  | whole n => (n : ℚ)

/-- Every literal becomes a double by rounding its number. -/
theorem toFloat_eq (literal : Literal) :
    literal.toFloat = ofMagnitude literal.isNegative (nearestTo literal.magnitude) := by
  cases literal with
  | decimal negative d =>
    rw [magnitude, ← d.nearest_eq_nearestTo]
    rfl
  | infinity negative => rfl
  | whole n =>
    have hround := nearestTo_div n Nat.one_pos
    rw [Nat.cast_one, div_one] at hround
    rw [magnitude, hround]
    rfl

/-! ## The parts of a literal -/

theorem takeSign_append {sign rest : List Char} {negative : Bool} (h : Sign sign negative)
    (hrest : ∀ c ∈ rest.head?, c ≠ '-' ∧ c ≠ '+') : takeSign (sign ++ rest) = (negative, rest) := by
  cases h with
  | none =>
    rw [List.nil_append]
    unfold takeSign
    split
    · exact absurd rfl (hrest '-' rfl).1
    · exact absurd rfl (hrest '+' rfl).2
    · rfl
  | plus => rfl
  | minus => rfl

theorem sign_of_takeSign {cs rest : List Char} {negative : Bool}
    (h : takeSign cs = (negative, rest)) : ∃ sign, cs = sign ++ rest ∧ Sign sign negative := by
  unfold takeSign at h
  split at h <;> cases h
  · exact ⟨_, rfl, .minus⟩
  · exact ⟨_, rfl, .plus⟩
  · exact ⟨_, rfl, .none⟩

/-- The digits in front are taken, up to what is no digit. -/
theorem takeDigits_append {digits rest : List Char} (hdigits : DecimalDigits digits)
    (hrest : ∀ c ∈ rest.head?, isDecimalDigit c = false) :
    takeDigits (digits ++ rest) = (digits, rest) := by
  rw [takeDigits, List.span_eq_takeWhile_dropWhile, List.takeWhile_append_of_pos hdigits,
    List.dropWhile_append_of_pos hdigits]
  cases rest with
  | nil => simp
  | cons c rest => simp [hrest c rfl]

theorem takeDigits_self {digits : List Char} (h : DecimalDigits digits) :
    takeDigits digits = (digits, []) := by
  have htake := takeDigits_append h (by simp : ∀ c ∈ ([] : List Char).head?, _)
  rwa [List.append_nil] at htake

theorem digits_of_takeDigits {cs digits rest : List Char} (h : takeDigits cs = (digits, rest)) :
    cs = digits ++ rest ∧ DecimalDigits digits := by
  rw [takeDigits, List.span_eq_takeWhile_dropWhile] at h
  cases h
  exact ⟨List.takeWhile_append_dropWhile.symm, fun c hc => List.mem_takeWhile_imp hc⟩

theorem ne_sign_of_isDecimalDigit {c : Char} (h : isDecimalDigit c = true) : c ≠ '-' ∧ c ≠ '+' := by
  constructor <;>
  · rintro rfl
    revert h
    decide

/-- A sign is taken off digits, whatever is behind them. -/
theorem takeSign_digits {sign digits : List Char} {negative : Bool} (h : Sign sign negative)
    (hne : digits ≠ []) (hdigits : DecimalDigits digits) (rest : List Char) :
    takeSign (sign ++ (digits ++ rest)) = (negative, digits ++ rest) := by
  obtain ⟨d, digits, rfl⟩ := List.exists_cons_of_ne_nil hne
  refine takeSign_append h ?_
  rintro c ⟨⟩
  exact ne_sign_of_isDecimalDigit (hdigits d List.mem_cons_self)

theorem exponent?_eq_some_iff {cs : List Char} {e : ℤ} : exponent? cs = some e ↔ Exponent cs e := by
  constructor
  · intro h
    cases cs with
    | nil =>
      cases h
      exact .none
    | cons mark cs =>
      rcases hsign : takeSign cs with ⟨negative, rest⟩
      rcases hdigits : takeDigits rest with ⟨digits, end'⟩
      obtain ⟨sign, rfl, hsign'⟩ := sign_of_takeSign hsign
      obtain ⟨rfl, hdigits'⟩ := digits_of_takeDigits hdigits
      simp only [exponent?, hsign, hdigits, Option.ite_none_right_eq_some, Bool.and_eq_true,
        Bool.or_eq_true, beq_iff_eq, Bool.not_eq_true', List.isEmpty_eq_false_iff,
        List.isEmpty_iff, Option.some.injEq] at h
      obtain ⟨⟨⟨hmark, hne⟩, rfl⟩, rfl⟩ := h
      rw [List.append_nil]
      exact .written hmark hsign' hne hdigits'
  · intro h
    cases h with
    | none => rfl
    | @written mark sign digits negative hmark hsign hne hdigits =>
      have htake := takeSign_digits hsign hne hdigits []
      rw [List.append_nil] at htake
      simp only [exponent?, htake, takeDigits_self hdigits]
      rw [if_pos]
      simpa [hne] using hmark

/-! ## Decimal literals -/

theorem foldl_digits (cs : List Char) (n : Nat) :
    cs.foldl (fun n c => 10 * n + (digit? c).getD 0) n = n * 10 ^ cs.length + digitsValue cs := by
  rw [digitsValue]
  induction cs generalizing n with
  | nil => simp
  | cons c cs ih =>
    rw [List.foldl_cons, ih, List.foldl_cons, ih (10 * 0 + _), List.length_cons]
    ring

theorem digitsValue_append (cs ds : List Char) :
    digitsValue (cs ++ ds) = digitsValue cs * 10 ^ ds.length + digitsValue ds := by
  rw [digitsValue, List.foldl_append, foldl_digits]
  rfl

/-- The digits behind the point count among the others, with a smaller exponent. -/
theorem value_pointed (before behind : List Char) (e : ℤ) :
    Decimal.value ⟨digitsValue (before ++ behind), e - behind.length⟩ =
      (digitsValue before + digitsValue behind / 10 ^ behind.length) * 10 ^ e := by
  have hpower : (10 : ℚ) ^ behind.length ≠ 0 := by positivity
  rw [Decimal.value, digitsValue_append, zpow_sub₀ (by norm_num), zpow_natCast]
  push_cast
  field_simp

theorem value_whole (digits : List Char) (e : ℤ) :
    Decimal.value ⟨digitsValue (digits ++ []), e - ([] : List Char).length⟩ =
      digitsValue digits * 10 ^ e := by
  rw [value_pointed]
  simp [digitsValue]

theorem takeFraction_cases {cs behind rest : List Char} (h : takeFraction cs = (behind, rest)) :
    cs = '.' :: (behind ++ rest) ∧ DecimalDigits behind ∨ cs = rest ∧ behind = [] := by
  unfold takeFraction at h
  split at h
  · obtain ⟨rfl, hbehind⟩ := digits_of_takeDigits h
    exact .inl ⟨rfl, hbehind⟩
  · cases h
    exact .inr ⟨rfl, rfl⟩

theorem takeFraction_of_head {cs : List Char} (h : ∀ c ∈ cs.head?, c ≠ '.') :
    takeFraction cs = ([], cs) := by
  unfold takeFraction
  split
  · exact absurd rfl (h '.' rfl)
  · rfl

/-- The parts of what is read as a decimal literal: the digits before the point and behind it, if
there is a point, make up the coefficient. -/
theorem exists_parts {cs : List Char} {literal : Literal} (h : decimal? cs = some literal) :
    ∃ (sign before fraction behind exponent : List Char) (negative : Bool) (e : ℤ),
      cs = sign ++ (before ++ (fraction ++ exponent)) ∧ Sign sign negative ∧
      DecimalDigits before ∧ DecimalDigits behind ∧
      (fraction = '.' :: behind ∨ fraction = [] ∧ behind = []) ∧ (before ≠ [] ∨ behind ≠ []) ∧
      Exponent exponent e ∧
      literal = decimal negative ⟨digitsValue (before ++ behind), e - behind.length⟩ := by
  rcases hsign : takeSign cs with ⟨negative, rest⟩
  rcases hbefore : takeDigits rest with ⟨before, rest'⟩
  rcases hfraction : takeFraction rest' with ⟨behind, exponent⟩
  obtain ⟨sign, rfl, hsign'⟩ := sign_of_takeSign hsign
  obtain ⟨rfl, hbefore'⟩ := digits_of_takeDigits hbefore
  simp only [decimal?, hsign, hbefore, hfraction, Option.ite_none_left_eq_some,
    Bool.and_eq_true, List.isEmpty_iff, Option.map_eq_some_iff, exponent?_eq_some_iff] at h
  obtain ⟨hne, e, he, rfl⟩ := h
  rcases takeFraction_cases hfraction with ⟨rfl, hbehind⟩ | ⟨rfl, rfl⟩
  · exact ⟨sign, before, '.' :: behind, behind, exponent, negative, e, rfl, hsign', hbefore',
      hbehind, .inl rfl, not_and_or.mp hne, he, rfl⟩
  · exact ⟨sign, before, [], [], rest', negative, e, rfl, hsign', hbefore', List.forall_mem_nil _,
      .inr ⟨rfl, rfl⟩, not_and_or.mp hne, he, rfl⟩

/-- What is read as a decimal literal is one, and writes this number. -/
theorem numeral_of_decimal? {cs : List Char} {literal : Literal} (h : decimal? cs = some literal) :
    Numeral cs literal.isNegative literal.magnitude := by
  obtain ⟨sign, before, fraction, behind, exponent, negative, e, rfl, hsign, hbefore, hbehind,
    rfl | ⟨rfl, rfl⟩, hne, he, rfl⟩ := exists_parts h
  · have hnumeral := Numeral.decimal hsign (.pointed hne hbefore hbehind) he
    rwa [← value_pointed, List.append_assoc] at hnumeral
  · have hwhole := Mantissa.whole (hne.resolve_right (by simp)) hbefore
    have hnumeral := Numeral.decimal hsign hwhole he
    rwa [← value_whole] at hnumeral

theorem Exponent.head {cs : List Char} {e : ℤ} (h : Exponent cs e) :
    ∀ c ∈ cs.head?, isDecimalDigit c = false ∧ c ≠ '.' := by
  cases h with
  | none => simp
  | written hmark =>
    rintro c ⟨⟩
    rcases hmark with rfl | rfl <;> decide

theorem decimal?_eq_of_steps {cs afterSign afterDigits afterFraction before behind : List Char}
    {negative : Bool} {e : ℤ} (hsign : takeSign cs = (negative, afterSign))
    (hbefore : takeDigits afterSign = (before, afterDigits))
    (hfraction : takeFraction afterDigits = (behind, afterFraction))
    (hne : before ≠ [] ∨ behind ≠ []) (he : exponent? afterFraction = some e) :
    decimal? cs = some (decimal negative ⟨digitsValue (before ++ behind), e - behind.length⟩) := by
  have hsome : (before.isEmpty && behind.isEmpty) = false := by
    rw [Bool.and_eq_false_iff, List.isEmpty_eq_false_iff, List.isEmpty_eq_false_iff]
    exact hne
  simp only [decimal?, hsign, hbefore, hfraction, hsome, he]
  rfl

/-- A decimal literal is read as the number that it writes. -/
theorem decimal?_of_parts {sign mantissa exponent : List Char} {negative : Bool} {m : ℚ} {e : ℤ}
    (hsign : Sign sign negative) (hmantissa : Mantissa mantissa m) (he : Exponent exponent e) :
    ∃ d : Decimal, decimal? (sign ++ (mantissa ++ exponent)) = some (decimal negative d) ∧
      d.value = m * 10 ^ e := by
  have hhead := Exponent.head he
  have hstop : ∀ c ∈ exponent.head?, isDecimalDigit c = false := fun c hc => (hhead c hc).1
  rw [← exponent?_eq_some_iff] at he
  cases hmantissa with
  | whole hne hdigits =>
    exact ⟨_, decimal?_eq_of_steps (takeSign_digits hsign hne hdigits _)
      (takeDigits_append hdigits hstop) (takeFraction_of_head fun c hc => (hhead c hc).2)
      (.inl hne) he, value_whole _ e⟩
  | @pointed before behind hne hbefore hbehind =>
    have hfirst : ∀ c ∈ (before ++ '.' :: behind ++ exponent).head?, c ≠ '-' ∧ c ≠ '+' := by
      intro c hc
      cases before with
      | nil =>
        cases hc
        decide
      | cons b before =>
        cases hc
        exact ne_sign_of_isDecimalDigit (hbefore c List.mem_cons_self)
    have hdigits : takeDigits (before ++ '.' :: behind ++ exponent) =
        (before, '.' :: (behind ++ exponent)) := by
      rw [List.append_assoc]
      exact takeDigits_append hbefore (by rintro c ⟨⟩; decide)
    exact ⟨_, decimal?_eq_of_steps (takeSign_append hsign hfirst) hdigits
      (takeDigits_append hbehind hstop) hne he, value_pointed _ _ e⟩

/-! ## The other literals -/

theorem infinity?_eq_some_iff {cs : List Char} {literal : Literal} :
    infinity? cs = some literal ↔ ∃ sign negative, Sign sign negative ∧
      cs = sign ++ "Infinity".toList ∧ literal = infinity negative := by
  constructor
  · intro h
    rcases hsign : takeSign cs with ⟨negative, rest⟩
    obtain ⟨sign, rfl, hsign'⟩ := sign_of_takeSign hsign
    simp only [infinity?, hsign, Option.ite_none_right_eq_some, Option.some.injEq] at h
    obtain ⟨rfl, rfl⟩ := h
    exact ⟨sign, negative, hsign', rfl, rfl⟩
  · rintro ⟨sign, negative, hsign, rfl, rfl⟩
    cases hsign <;> rfl

theorem decimal?_infinity {sign : List Char} {negative : Bool} (h : Sign sign negative) :
    decimal? (sign ++ "Infinity".toList) = none := by
  cases h <;> rfl

theorem base?_letter {letter : Char} {base : Nat} (h : base? letter = some base) :
    isDecimalDigit letter = false ∧ letter ≠ '.' ∧ letter ≠ 'e' ∧ letter ≠ 'E' := by
  rcases letter_of_base? h with rfl | rfl | rfl | rfl | rfl | rfl <;> decide

/-- The letter of a base does not go on with a decimal literal. -/
theorem decimal?_based {letter : Char} {base : Nat} (h : base? letter = some base)
    (digits : List Char) : decimal? ('0' :: letter :: digits) = none := by
  have hletter := base?_letter h
  have hdigits : takeDigits ('0' :: letter :: digits) = (['0'], letter :: digits) :=
    takeDigits_append (List.forall_mem_singleton.mpr rfl : DecimalDigits ['0'])
      (by rintro c ⟨⟩; exact hletter.1)
  have hfraction : takeFraction (letter :: digits) = ([], letter :: digits) :=
    takeFraction_of_head (by rintro c ⟨⟩; exact hletter.2.1)
  have hexponent : exponent? (letter :: digits) = none := by
    simp [exponent?, hletter.2.2]
  have hsign : takeSign ('0' :: letter :: digits) = (false, '0' :: letter :: digits) := rfl
  simp only [decimal?, hsign, hdigits, hfraction, hexponent]
  rfl

theorem mapM_baseDigit?_eq_some_iff {base : Nat} {digits : List Char} {values : List Nat} :
    digits.mapM (baseDigit? base) = some values ↔
      (∀ c ∈ digits, (baseDigit? base c).isSome = true) ∧
        values = digits.map fun c => (baseDigit? base c).getD 0 := by
  induction digits generalizing values with
  | nil => simp
  | cons c digits ih =>
    rw [List.mapM_cons, List.map_cons, List.forall_mem_cons]
    cases hc : baseDigit? base c with
    | none => simp
    | some v =>
      simp only [Option.bind_eq_bind, Option.bind_some, Option.isSome_some, true_and,
        Option.getD_some, Option.bind_eq_some_iff, ih, pure, Option.some.injEq]
      constructor
      · rintro ⟨_, ⟨hdigits, rfl⟩, rfl⟩
        exact ⟨hdigits, rfl⟩
      · rintro ⟨hdigits, rfl⟩
        exact ⟨_, ⟨hdigits, rfl⟩, rfl⟩

theorem rowValue_eq (base : Nat) (digits : List Char) :
    (digits.map fun c => (baseDigit? base c).getD 0).foldl (base * · + ·) 0 =
      rowValue base digits :=
  List.foldl_map

theorem whole?_eq_some_iff {cs : List Char} {literal : Literal} :
    whole? cs = some literal ↔ ∃ letter digits base, cs = '0' :: letter :: digits ∧
      base? letter = some base ∧ digits ≠ [] ∧
      (∀ c ∈ digits, (baseDigit? base c).isSome = true) ∧
      literal = whole (rowValue base digits) := by
  constructor
  · intro h
    unfold whole? at h
    split at h
    · rename_i letter digits
      obtain ⟨base, hbase, h⟩ := Option.bind_eq_some_iff.mp h
      obtain ⟨values, hvalues, h⟩ := Option.bind_eq_some_iff.mp h
      obtain ⟨hdigits, rfl⟩ := mapM_baseDigit?_eq_some_iff.mp hvalues
      rw [Option.ite_none_left_eq_some, List.isEmpty_iff, List.map_eq_nil_iff, rowValue_eq] at h
      obtain ⟨hne, hliteral⟩ := h
      exact ⟨letter, digits, base, rfl, hbase, hne, hdigits, (Option.some.inj hliteral).symm⟩
    · cases h
  · rintro ⟨letter, digits, base, rfl, hbase, hne, hdigits, rfl⟩
    have hvalues := mapM_baseDigit?_eq_some_iff.mpr ⟨hdigits, rfl⟩
    simp only [whole?, hbase, hvalues, rowValue_eq, Option.bind_eq_bind, Option.bind_some]
    simp [hne]

/-! ## The grammar is what is read -/

theorem numeral_of_ofChars? {cs : List Char} {literal : Literal} (h : ofChars? cs = some literal) :
    Numeral cs literal.isNegative literal.magnitude := by
  simp only [ofChars?, Option.orElse_eq_orElse, Option.orElse_eq_or, Option.or_eq_some_iff] at h
  rcases h with hdecimal | ⟨-, hinfinity | ⟨-, hwhole⟩⟩
  · exact numeral_of_decimal? hdecimal
  · obtain ⟨sign, negative, hsign, rfl, rfl⟩ := infinity?_eq_some_iff.mp hinfinity
    exact .infinity hsign
  · obtain ⟨letter, digits, base, rfl, hbase, hne, hdigits, rfl⟩ := whole?_eq_some_iff.mp hwhole
    exact .based hbase hne hdigits

end Literal

theorem Numeral.ofChars? {cs : List Char} {negative : Bool} {v : WithTop ℚ}
    (h : Numeral cs negative v) : ∃ literal, Literal.ofChars? cs = some literal ∧
      literal.isNegative = negative ∧ literal.magnitude = v := by
  simp only [Literal.ofChars?, Option.orElse_eq_orElse, Option.orElse_eq_or, Option.or_eq_some_iff]
  cases h with
  | decimal hsign hmantissa he =>
    obtain ⟨d, hread, hvalue⟩ := Literal.decimal?_of_parts hsign hmantissa he
    exact ⟨_, .inl hread, rfl, congrArg _ hvalue⟩
  | infinity hsign =>
    exact ⟨_, .inr ⟨Literal.decimal?_infinity hsign,
      .inl (Literal.infinity?_eq_some_iff.mpr ⟨_, _, hsign, rfl, rfl⟩)⟩, rfl, rfl⟩
  | based hbase hne hdigits =>
    have hread := Literal.whole?_eq_some_iff.mpr ⟨_, _, _, rfl, hbase, hne, hdigits, rfl⟩
    exact ⟨_, .inr ⟨Literal.decimal?_based hbase _, .inr ⟨rfl, hread⟩⟩, rfl, rfl⟩

theorem Mantissa.nonneg {cs : List Char} {m : ℚ} (h : Mantissa cs m) : 0 ≤ m := by
  cases h <;> positivity

theorem Numeral.nonneg {cs : List Char} {negative : Bool} {v : WithTop ℚ}
    (h : Numeral cs negative v) : 0 ≤ v := by
  cases h with
  | decimal _ hmantissa _ =>
    have hm := hmantissa.nonneg
    exact WithTop.coe_nonneg.mpr (by positivity)
  | infinity => exact le_top
  | based => exact WithTop.coe_nonneg.mpr (by positivity)

/-! ## Reading -/

theorem Numeral.read_eq {text : String} {negative : Bool} {v : WithTop ℚ}
    (h : Numeral (trim text.toList) negative v) :
    read text = ofMagnitude negative (nearestTo v) := by
  obtain ⟨literal, hliteral, rfl, rfl⟩ := h.ofChars?
  rw [read, hliteral]
  exact literal.toFloat_eq

theorem isNaN_read_iff (text : String) :
    (read text).isNaN = true ↔ ∀ negative v, ¬ Numeral (trim text.toList) negative v := by
  constructor
  · intro hnan negative v hnumeral
    rw [isNaN_iff, hnumeral.read_eq,
      magnitude_ofMagnitude negative (nearestTo_le_infinity v)] at hnan
    exact absurd (nearestTo_le_infinity v) (not_le.mpr hnan)
  · intro hnone
    have hread : Literal.ofChars? (trim text.toList) = none := by
      rw [Option.eq_none_iff_forall_ne_some]
      exact fun literal h => hnone _ _ (Literal.numeral_of_ofChars? h)
    rw [read, hread]
    rfl

/-- **A text is read as the double nearest to the number that it writes.** It is no number just if
it is none of the numerals, without the blanks around it. Otherwise the double has the sign of the
numeral, also at zero; it is the nearest to the number below the threshold, and infinity from there
on; and whatever numerals write a number, they are read as the same double. -/
theorem read_decides (text : String) :
    ((read text).isNaN = true ↔ ∀ negative v, ¬ Numeral (trim text.toList) negative v) ∧
    (∀ negative v, Numeral (trim text.toList) negative v →
      isNegative (read text) = negative ∧
      (∀ q : ℚ, v = q → q < overflow → IsNearest (signedValue negative q) (read text)) ∧
      (overflow ≤ v → magnitude (read text) = infinity)) ∧
    ∀ (text' : String) (negative : Bool) (v : WithTop ℚ), Numeral (trim text.toList) negative v →
      Numeral (trim text'.toList) negative v → read text' = read text := by
  refine ⟨isNaN_read_iff text, fun negative v h => ?_, fun text' negative v h h' => ?_⟩
  · have hv := h.nonneg
    rw [h.read_eq]
    refine ⟨isNegative_ofMagnitude negative (nearestTo_le_infinity v), ?_, fun hle => ?_⟩
    · rintro q rfl hq
      have hnonneg := WithTop.coe_nonneg.mp hv
      exact (roundsTo_nearestTo hnonneg hq).isNearest hnonneg negative
    · rw [magnitude_ofMagnitude negative (nearestTo_le_infinity v), nearestTo_eq_infinity hv hle]
  · rw [h.read_eq, h'.read_eq]

/-- A whole number is read alike in base sixteen and in base ten. -/
example : read "0x10" = read "16" := by decide +kernel

end Worksheet.Number
