import Worksheet.Number.Decimal

/-!
# Numbers as text

A number is shown with the fewest digits that read back as the same double. A `Layout` says how
the digits are set: where positional writing ends, how an exponent looks, and what stands for the
values without digits.
-/

namespace Worksheet.Number

/-- The decisions of a way to write numbers. -/
structure Layout where
  /-- The least exponent of the leading digit that is written positionally. -/
  positionalFrom : Int
  /-- The least exponent of the leading digit, above the former, that is not. -/
  positionalBelow : Int
  /-- Whether a whole number keeps a zero behind its point. -/
  pointZero : Bool
  /-- The least number of digits of an exponent. -/
  exponentWidth : Nat
  /-- Whether the zero below zero keeps its sign. -/
  signedZero : Bool
  infinityText : String
  nanText : String

namespace Layout

/-- Digits around the point: `exponent` is that of the leading digit, and zeros fill the places
between the digits and the point. -/
def positional (layout : Layout) (digits : List Char) (exponent : Int) : List Char :=
  let whole :=
    if exponent < 0 then ['0']
    else digits.take (exponent.toNat + 1) ++
      List.replicate (exponent.toNat + 1 - digits.length) '0'
  let fraction :=
    if exponent < 0 then List.replicate ((-exponent).toNat - 1) '0' ++ digits
    else digits.drop (exponent.toNat + 1)
  if fraction.isEmpty then whole ++ (if layout.pointZero then ['.', '0'] else [])
  else whole ++ '.' :: fraction

/-- One digit, a point and the others if there are any, and the exponent with its sign. -/
def scientific (layout : Layout) (digits : List Char) (exponent : Int) : List Char :=
  let size := Nat.toDigits 10 exponent.natAbs
  let fraction := if digits.length ≤ 1 then [] else '.' :: digits.drop 1
  digits.take 1 ++ fraction ++ 'e' :: (if exponent < 0 then '-' else '+') ::
    List.replicate (layout.exponentWidth - size.length) '0' ++ size

/-- A positive decimal, without the zeros at the end of its digits. -/
def magnitudeText (layout : Layout) (d : Decimal) : List Char :=
  let all := Nat.toDigits 10 d.coefficient
  let digits := (all.reverse.dropWhile (· == '0')).reverse
  let exponent := d.exponent + all.length - 1
  if layout.positionalFrom ≤ exponent ∧ exponent < layout.positionalBelow then
    layout.positional digits exponent
  else layout.scientific digits exponent

def write (layout : Layout) (x : Float) : String :=
  let bits := magnitude x
  let unsigned :=
    if bits = 0 then (if layout.pointZero then ['0', '.', '0'] else ['0'])
    else if bits < infinity then layout.magnitudeText (shortest bits)
    else layout.infinityText.toList
  if x.isNaN then layout.nanText
  else String.ofList
    (if isNegative x && (bits != 0 || layout.signedZero) then '-' :: unsigned else unsigned)

end Layout

/-- How cells show their values: positionally from a millionth up to, but not including, a
thousand million million million, and with an unpadded exponent otherwise. -/
def cellLayout : Layout where
  positionalFrom := -6
  positionalBelow := 21
  pointZero := false
  exponentWidth := 1
  signedZero := false
  infinityText := "Infinity"
  nanText := "nan"

/-- How messages show a number that stands where a row or a column is wanted: always recognisable
as no whole number, and positionally over a narrower range. -/
def messageLayout : Layout where
  positionalFrom := -4
  positionalBelow := 16
  pointZero := true
  exponentWidth := 2
  signedZero := true
  infinityText := "inf"
  nanText := "nan"

def display (x : Float) : String := cellLayout.write x

end Worksheet.Number
