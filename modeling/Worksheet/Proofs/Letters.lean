import Worksheet.Text.DecimalDigit
import Worksheet.Token.Scan

/-!
# Letters, digits, blanks and marks

No two of these classes of characters have a member in common. Letters and digits are among the
first 128 characters, so that what is to be known of all of them is known by going through these
(`forall_ascii`).
-/

namespace Worksheet

theorem forall_ascii {P : Char → Prop} (h : ∀ n : Fin 128, P (Char.ofNat n)) {c : Char}
    (hc : c.toNat < 128) : P c := by
  have hn := h ⟨c.toNat, hc⟩
  rwa [Char.ofNat_toNat] at hn

namespace Text

variable {c : Char}

theorem toNat_lt_of_isAlpha (h : c.isAlpha = true) : c.toNat < 128 := by
  have hupperLast : 'Z'.val.toNat = 90 := rfl
  have hlowerLast : 'z'.val.toNat = 122 := rfl
  change c.val.toNat < 128
  rcases Bool.or_eq_true_iff.mp h with hupper | hlower
  · have hle : c.val ≤ 'Z'.val := (of_decide_eq_true hupper).2
    rw [UInt32.le_iff_toNat_le] at hle
    omega
  · have hle : c.val ≤ 'z'.val := of_decide_eq_true (Bool.and_eq_true_iff.mp hlower).2
    rw [UInt32.le_iff_toNat_le] at hle
    omega

theorem toNat_lt_of_isDigit (h : c.isDigit = true) : c.toNat < 128 := by
  have h9 : '9'.val.toNat = 57 := rfl
  have hle : c.val ≤ '9'.val := of_decide_eq_true (Bool.and_eq_true_iff.mp h).2
  rw [UInt32.le_iff_toNat_le] at hle
  change c.val.toNat < 128
  omega

theorem not_isBlank_of_isAlpha (h : c.isAlpha = true) : isBlank c = false :=
  forall_ascii (P := fun c => c.isAlpha = true → isBlank c = false) (by decide)
    (toNat_lt_of_isAlpha h) h

theorem not_isBlank_of_isDigit (h : c.isDigit = true) : isBlank c = false :=
  forall_ascii (P := fun c => c.isDigit = true → isBlank c = false) (by decide)
    (toNat_lt_of_isDigit h) h

theorem digit?_of_isDigit (h : c.isDigit = true) : digit? c = some (c.toNat - '0'.toNat) :=
  forall_ascii (P := fun c => c.isDigit = true → digit? c = some (c.toNat - '0'.toNat))
    (by decide) (toNat_lt_of_isDigit h) h

theorem isDecimalDigit_of_isDigit (h : c.isDigit = true) : isDecimalDigit c = true := by
  rw [isDecimalDigit, digit?_of_isDigit h]
  rfl

/-- A number is written in digits. -/
theorem isDigit_of_mem_toDigits {n : Nat} (h : c ∈ Nat.toDigits 10 n) : c.isDigit = true :=
  Nat.isDigit_of_mem_toDigits (by decide) (by decide) h

theorem not_isDigit_of_isAlpha (h : c.isAlpha = true) : c.isDigit = false :=
  forall_ascii (P := fun c => c.isAlpha = true → c.isDigit = false) (by decide)
    (toNat_lt_of_isAlpha h) h

theorem not_isDecimalDigit_of_isAlpha (h : c.isAlpha = true) : isDecimalDigit c = false :=
  forall_ascii (P := fun c => c.isAlpha = true → isDecimalDigit c = false) (by decide)
    (toNat_lt_of_isAlpha h) h

theorem not_isAlpha_of_isDecimalDigit (h : isDecimalDigit c = true) : c.isAlpha = false := by
  cases halpha : c.isAlpha with
  | false => rfl
  | true => rw [not_isDecimalDigit_of_isAlpha halpha] at h; cases h

theorem not_isAlpha_of_isBlank (h : isBlank c = true) : c.isAlpha = false := by
  cases halpha : c.isAlpha with
  | false => rfl
  | true => rw [not_isBlank_of_isAlpha halpha] at h; cases h

theorem not_isDigit_of_isBlank (h : isBlank c = true) : c.isDigit = false := by
  cases hdigit : c.isDigit with
  | false => rfl
  | true => rw [not_isBlank_of_isDigit hdigit] at h; cases h

end Text

namespace Token

variable {c : Char}

theorem isMark_iff : isMark c = true ↔ c = ',' ∨ c = '(' ∨ c = ')' := by
  simp [isMark, or_assoc]

theorem not_isMark_of_isAlpha (h : c.isAlpha = true) : isMark c = false :=
  forall_ascii (P := fun c => c.isAlpha = true → isMark c = false) (by decide)
    (Text.toNat_lt_of_isAlpha h) h

end Token

end Worksheet
