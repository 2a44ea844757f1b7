import Worksheet.Number.Nearest

/-!
# Decimals and doubles

A decimal is a coefficient times a power of ten. `Decimal.nearest` is the double that it reads as,
and `shortest` is the way back: among the decimals with the fewest digits that read as a given
double, the one closest to it.
-/

namespace Worksheet.Number

/-- The number `coefficient * 10 ^ exponent`. -/
structure Decimal where
  coefficient : Nat
  exponent : Int
deriving DecidableEq, Repr

def Decimal.numerator (d : Decimal) : Nat := d.coefficient * power 10 d.exponent

def Decimal.denominator (d : Decimal) : Nat := power 10 (-d.exponent)

/-- The magnitude bits of the double nearest to a decimal. Exponents that settle the answer by
themselves are answered at once: no double other than zero lies below `10 ^ (-324)`, and none but
infinity is nearest to a number above `10 ^ 309`. -/
def Decimal.nearest (d : Decimal) : Nat :=
  if d.coefficient = 0 then 0
  else if 400 < d.exponent then infinity
  else if d.exponent + d.coefficient.log2 < -400 then 0
  else Number.nearest d.numerator d.denominator

/-! ## The fewest digits that read back -/

def numerator (bits : Nat) : Nat := significand bits * power 2 (exponent bits)

def denominator (bits : Nat) : Nat := power 2 (-exponent bits)

def belowPowerOfTen (bits : Nat) (k : Int) : Bool :=
  numerator bits * power 10 (-k) < denominator bits * power 10 k

/-- The least power of ten above a positive finite double. The least such double is less than
`10 ^ (-323)` and the greatest less than `10 ^ 309`. -/
def powerOfTenAbove (bits : Nat) : Int :=
  ((List.range 633).findIdx fun i : Nat => belowPowerOfTen bits (i - 323) : Nat) - 323

/-- The greatest multiple of `10 ^ unit` that does not exceed a double. -/
def floorAt (bits : Nat) (unit : Int) : Decimal :=
  ⟨numerator bits * power 10 (-unit) / (denominator bits * power 10 unit), unit⟩

/-- Compares a double with the middle between a decimal and the next multiple of its unit. -/
def compareMiddle (bits : Nat) (d : Decimal) : Ordering :=
  compare (2 * (numerator bits * power 10 (-d.exponent)))
    ((2 * d.coefficient + 1) * (denominator bits * power 10 d.exponent))

/-- The multiple of `10 ^ unit` closest to a double among those that read as it, the even one of
two equally close. Only the multiples next to the double come into question: any other that reads
as it has one of these between. -/
def closestAt? (bits : Nat) (unit : Int) : Option Decimal :=
  let below := floorAt bits unit
  let above : Decimal := ⟨below.coefficient + 1, unit⟩
  match below.nearest == bits, above.nearest == bits with
  | false, false => none
  | true, false => some below
  | false, true => some above
  | true, true =>
    match compareMiddle bits below with
    | .lt => some below
    | .gt => some above
    | .eq => some (if below.coefficient % 2 = 0 then below else above)

/-- The closest decimal that reads as a double, in the coarsest unit from `10 ^ unit` down to
`10 ^ (unit - steps)` that has one. -/
def coarsestFrom (bits : Nat) : Nat → Int → Decimal
  | 0, unit => floorAt bits unit
  | steps + 1, unit =>
    match closestAt? bits unit with
    | some d => d
    | none => coarsestFrom bits steps (unit - 1)

/-- The shortest decimal that reads as a positive finite double. The search begins with one digit;
it ends at the latest where every digit is written, for the double is a multiple of that unit. -/
def shortest (bits : Nat) : Decimal :=
  let first := powerOfTenAbove bits - 1
  coarsestFrom bits (first - min (exponent bits) 0).toNat first

end Worksheet.Number
