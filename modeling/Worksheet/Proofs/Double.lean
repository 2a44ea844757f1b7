import Mathlib
import Worksheet.Number.Nearest

/-!
# Doubles and their bits

`Float` is given by 64 bits, and every NaN has the same ones. `ofMagnitude` makes a double from a
sign and magnitude bits, `isNegative` and `magnitude` take it apart again. This module shows that
the two are inverse:

* `ofMagnitude_magnitude`: a double is made from its own sign and magnitude bits;
* `toNat_toBits_ofMagnitude`: magnitude bits up to infinity are found again, with their sign;
* `isNaN_iff`: the NaNs are the doubles with magnitude bits above infinity.

The work is the one fact below them, `pack_unpack`: to read bits as sign, exponent and significand
and to write these as bits gives the bits back.
-/

namespace Worksheet.Number

open Float.Model (Format)
open Float.Model.UnpackedFloat

/-! ## The three fields -/

section Fields

variable (b : BitVec 64)

theorem toNat_unpackMantissa :
    (@unpackMantissa Format.binary64 b).toNat = b.toNat % 2 ^ 52 := by
  simp [unpackMantissa, BitVec.extractLsb, BitVec.extractLsb']

theorem toNat_unpackExponent :
    (@unpackExponent Format.binary64 b).toNat = b.toNat / 2 ^ 52 % 2 ^ 11 := by
  simp [unpackExponent, BitVec.extractLsb, BitVec.extractLsb', Nat.shiftRight_eq_div_pow]

theorem toNat_unpackSign : (@unpackSign Format.binary64 b).toNat = b.toNat / 2 ^ 63 := by
  have hlt := b.isLt
  simp [unpackSign, BitVec.extractLsb, BitVec.extractLsb', Nat.shiftRight_eq_div_pow]
  omega

theorem unpackExponent_eq_iff :
    @unpackExponent Format.binary64 b = -1#11 ↔ b.toNat / 2 ^ 52 % 2 ^ 11 = 2047 := by
  rw [← toNat_unpackExponent, ← BitVec.toNat_inj]
  rfl

theorem unpackMantissa_eq_iff :
    @unpackMantissa Format.binary64 b = 0#52 ↔ b.toNat % 2 ^ 52 = 0 := by
  rw [← toNat_unpackMantissa, ← BitVec.toNat_inj]
  rfl

end Fields

theorem toNat_packComponents (s : Sign) (e : BitVec 11) (m : BitVec 52) :
    (packComponents Format.binary64 s e m).toNat =
      s.toBitVec.toNat * 2 ^ 63 + e.toNat * 2 ^ 52 + m.toNat := by
  have hm := m.isLt
  have he := e.isLt
  simp only [packComponents, BitVec.toNat_append]
  rw [← Nat.shiftLeft_add_eq_or_of_lt hm, ← Nat.shiftLeft_add_eq_or_of_lt he]
  simp only [Nat.shiftLeft_eq]
  omega

theorem toBitVec_ofBitVec (b : BitVec 1) : (Sign.ofBitVec b).toBitVec = b := by
  revert b
  decide

theorem packComponents_unpack (b : BitVec 64) :
    packComponents Format.binary64 (Sign.ofBitVec (@unpackSign Format.binary64 b))
      (@unpackExponent Format.binary64 b) (@unpackMantissa Format.binary64 b) = b := by
  apply BitVec.eq_of_toNat_eq
  rw [toNat_packComponents, toBitVec_ofBitVec, toNat_unpackSign, toNat_unpackExponent,
    toNat_unpackMantissa]
  omega

/-! ## Packing what was unpacked -/

theorem pack_subnormal (s : Sign) (m : BitVec 52) (hm : 0 < m.toNat) :
    pack Format.binary64 (.finite s m.toNat (-1074) hm) = packComponents Format.binary64 s 0 m := by
  have hlog : m.toNat.log2 < 52 := (Nat.log2_lt (by omega)).mpr m.isLt
  simp only [pack]
  rw [if_neg (by decide), if_neg (by change _ ≠ 53; omega), BitVec.ofNat_toNat, BitVec.setWidth_eq]
  rfl

theorem toNat_one_append (m : BitVec 52) : (1#1 ++ m).toNat = 2 ^ 52 + m.toNat := by
  rw [BitVec.toNat_append, ← Nat.shiftLeft_add_eq_or_of_lt m.isLt]
  rfl

theorem pack_normal (s : Sign) (e : BitVec 11) (m : BitVec 52) (he : e ≠ -1#11)
    (hm : 0 < (1#1 ++ m).toNat) :
    pack Format.binary64 (.finite s (1#1 ++ m).toNat (e.toNat - 1075) hm) =
      packComponents Format.binary64 s e m := by
  have hlt := m.isLt
  have htop : e.toNat ≠ 2047 := fun h => he (BitVec.eq_of_toNat_eq h)
  have helt := e.isLt
  have hlog : (1#1 ++ m).toNat.log2 = 52 := by
    rw [toNat_one_append, Nat.log2_eq_iff (by omega)]
    omega
  have hbias : ((e.toNat : Int) - 1075 + Format.binary64.exponentBias +
      Format.binary64.mantissaBitsWithoutImplicit).toNat = e.toNat := by
    change ((e.toNat : Int) - 1075 + 1023 + 52).toNat = e.toNat
    omega
  have hplaces : 52 + 1 = Format.binary64.mantissaBits := rfl
  simp only [pack, hbias, hlog]
  rw [if_neg (by change ¬ 2048 ≤ _; omega), if_pos hplaces, BitVec.ofNat_toNat, BitVec.setWidth_eq]
  congr 1
  apply BitVec.eq_of_toNat_eq
  rw [BitVec.toNat_ofNat, toNat_one_append]
  omega

/-- Writing the unpacked parts gives the bits back, if a NaN among them is the one that is
written. -/
theorem pack_unpack {b : BitVec 64} (h : Format.binary64.Valid b) :
    pack Format.binary64 (unpack Format.binary64 b) = b := by
  have hparts := packComponents_unpack b
  unfold unpack
  simp only
  split
  case isTrue hexp =>
    split
    case isTrue hman => rwa [hexp, hman] at hparts
    case isFalse hman => exact (h.eq_packedNaN hexp hman).symm
  case isFalse hexp =>
    split
    case isTrue hzero =>
      rw [hzero] at hparts
      split
      case isTrue hman => rwa [hman] at hparts
      case isFalse hman =>
        rw [hzero]
        exact (pack_subnormal _ _ _).trans hparts
    case isFalse => exact (pack_normal _ _ _ hexp _).trans hparts

theorem toBits_ofBits {b : UInt64} (h : Format.binary64.Valid b.toBitVec) :
    (Float.ofBits b).toBits = b :=
  congrArg UInt64.ofBitVec (pack_unpack h)

theorem ofBits_toBits (x : Float) : Float.ofBits x.toBits = x := by
  obtain ⟨bits, valid⟩ := x
  have hbits : (Float.Model.ofBits bits).toBits = bits := toBits_ofBits valid
  exact congrArg Float.ofModel (by rw [Float.Model.mk.injEq]; exact hbits)

/-! ## Sign and magnitude bits -/

theorem isNaN_unpack_iff (b : BitVec 64) : (unpack Format.binary64 b).isNaN = true ↔
    @unpackExponent Format.binary64 b = -1#11 ∧ @unpackMantissa Format.binary64 b ≠ 0#52 := by
  unfold unpack
  simp only
  split_ifs <;> simp_all [isNaN]

theorem isNaN_iff (x : Float) : x.isNaN = true ↔ infinity < magnitude x := by
  have hlt := x.toBits.toBitVec.isLt
  have hunpack := isNaN_unpack_iff x.toBits.toBitVec
  rw [unpackExponent_eq_iff, Ne, unpackMantissa_eq_iff] at hunpack
  refine hunpack.trans ?_
  change _ ↔ infinity < x.toBits.toBitVec.toNat % signBit
  simp only [infinity, signBit]
  omega

theorem isNumber_iff (x : Float) : isNumber x = true ↔ magnitude x ≤ infinity := by
  rw [isNumber, Bool.not_eq_true', ← Bool.not_eq_true, isNaN_iff, not_lt]

theorem valid_of_le {b : UInt64} (h : b.toNat % signBit ≤ infinity) :
    Format.binary64.Valid b.toBitVec where
  eq_packedNaN hexp hman := by
    rw [unpackExponent_eq_iff] at hexp
    rw [Ne, unpackMantissa_eq_iff] at hman
    have hnat : b.toBitVec.toNat = b.toNat := rfl
    simp only [infinity, signBit] at h
    omega

/-- The bits of a double are its sign and its magnitude bits. -/
theorem toNat_toBits (x : Float) :
    x.toBits.toNat = if isNegative x then signBit + magnitude x else magnitude x := by
  have hlt := x.toBits.toNat_lt
  by_cases hsign : signBit ≤ x.toBits.toNat <;>
    simp only [isNegative, magnitude, hsign, decide_true, decide_false, if_true,
      Bool.false_eq_true, if_false] <;>
    simp only [signBit] at hsign ⊢ <;> omega

theorem ofMagnitude_magnitude (x : Float) : ofMagnitude (isNegative x) (magnitude x) = x := by
  rw [ofMagnitude, ← toNat_toBits, UInt64.ofNat_toNat, ofBits_toBits]

/-- Magnitude bits that are no NaN's stay what they are in the double made from them. -/
theorem toNat_toBits_ofMagnitude (negative : Bool) {bits : Nat} (h : bits ≤ infinity) :
    (ofMagnitude negative bits).toBits.toNat = if negative then signBit + bits else bits := by
  simp only [infinity] at h
  have hnat : (UInt64.ofNat (if negative then signBit + bits else bits)).toNat =
      if negative then signBit + bits else bits := by
    simp only [UInt64.toNat_ofNat', signBit]
    split <;> omega
  have hvalid : Format.binary64.Valid
      (UInt64.ofNat (if negative then signBit + bits else bits)).toBitVec := by
    apply valid_of_le
    rw [hnat]
    simp only [signBit, infinity]
    split <;> omega
  rw [ofMagnitude, toBits_ofBits hvalid, hnat]

theorem magnitude_ofMagnitude (negative : Bool) {bits : Nat} (h : bits ≤ infinity) :
    magnitude (ofMagnitude negative bits) = bits := by
  rw [magnitude, toNat_toBits_ofMagnitude negative h]
  simp only [infinity, signBit] at h ⊢
  split <;> omega

/-- The bits of the zero that has a sign. -/
theorem toBits_eq_negativeZero_iff {x : Float} :
    x.toBits = 0x8000000000000000 ↔ isNegative x = true ∧ magnitude x = 0 := by
  have hlt := x.toBits.toNat_lt
  rw [← UInt64.toNat_inj, isNegative, magnitude, decide_eq_true_eq]
  simp only [signBit, UInt64.reduceToNat]
  omega

/-! ## Equality -/

theorem beq_unpacked_self {u : Float.Model.UnpackedFloat} (h : u.isNaN = false) :
    u.beq u = true := by
  cases u with
  | notANumber => cases h
  | infinity s => cases s <;> rfl
  | zero s => rfl
  | finite s m e hm =>
    cases s <;> simp [Float.Model.UnpackedFloat.beq, Float.Model.UnpackedFloat.compare]

theorem beq_self {x : Float} (h : x.isNaN = false) : (x == x) = true := beq_unpacked_self h

/-- Zeros are equal whatever their signs. -/
theorem beq_of_magnitude_eq_zero {x y : Float} (hx : magnitude x = 0) (hy : magnitude y = 0) :
    (x == y) = true := by
  rw [← ofMagnitude_magnitude x, ← ofMagnitude_magnitude y, hx, hy]
  cases isNegative x <;> cases isNegative y <;> rfl

end Worksheet.Number
