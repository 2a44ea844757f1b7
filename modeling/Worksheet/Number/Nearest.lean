/-!
# Rounding to the nearest double

A double without its sign is known by its magnitude bits: its 64 bits less the sign bit, read as a
natural number. Magnitude bits grow with the value, so the next number above is the next double,
and `infinity` comes right after the greatest finite double.

`nearest n d` are the magnitude bits of the double nearest to the fraction `n / d`. Everything
that becomes a double here, decimal or not, goes through this one function.
-/

namespace Worksheet.Number

/-! ## Powers and bits -/

/-- The power with an exponent that is not negative, and one for a negative exponent. So every
power of `base` is the fraction `power base e / power base (-e)`. -/
def power (base : Nat) (e : Int) : Nat := Nat.pow base e.toNat

/-- The bit of a significand above the 52 that are stored. It is also the number of doubles with one
exponent. -/
def hiddenBit : Nat := 0x10000000000000

def signBit : Nat := 0x8000000000000000

def infinity : Nat := 0x7FF0000000000000

/-- The magnitude bits of a finite double, taken apart: the double is
`significand * 2 ^ exponent`. -/
def significand (bits : Nat) : Nat :=
  if bits < hiddenBit then bits else hiddenBit + bits % hiddenBit

/-- The weight of the last place of a finite double, as a power of two. The doubles without the
hidden bit are spaced like the smallest with it. -/
def exponent (bits : Nat) : Int :=
  (max (bits / hiddenBit) 1 : Nat) - 1075

/-- The integer nearest to `n / d`; halfway between two integers it is the even one. -/
def roundQuotient (n d : Nat) : Nat :=
  let q := n / d
  if 2 * (n % d) < d ∨ 2 * (n % d) = d ∧ q % 2 = 0 then q else q + 1

/-- The greatest power of two that is at most `n / d`, for positive `n` and `d`. -/
def log2Quotient (n d : Nat) : Int :=
  let estimate : Int := (n.log2 : Int) - d.log2
  if d * power 2 estimate ≤ n * power 2 (-estimate) then estimate else estimate - 1

/-- The weight of the last place of the doubles about `n / d`: a significand has 53 binary places,
fewer only where that would take the last place below `2 ^ (-1074)`. -/
def lastPlace (n d : Nat) : Int :=
  max (log2Quotient n d - 52) (-1074)

/-- The magnitude bits of the double nearest to `n / d`, the one with an even significand if two
are equally near; from halfway beyond the greatest finite double on, those of infinity. A
significand that is rounded up to the next power of two carries into the exponent by itself. -/
def nearest (n d : Nat) : Nat :=
  if n = 0 then 0
  else
    let place := lastPlace n d
    let rounded := roundQuotient (n * power 2 (-place)) (d * power 2 place)
    min infinity ((place + 1074).toNat * hiddenBit + rounded)

def ofMagnitude (negative : Bool) (bits : Nat) : Float :=
  Float.ofBits (UInt64.ofNat (if negative then signBit + bits else bits))

def isNegative (x : Float) : Bool :=
  decide (signBit ≤ x.toBits.toNat)

def magnitude (x : Float) : Nat :=
  x.toBits.toNat % signBit

def nan : Float := Float.ofBits 0x7FF8000000000000

/-- Whether a value is a number; the infinities are. -/
def isNumber (x : Float) : Bool := !x.isNaN

end Worksheet.Number
