import Mathlib
import Worksheet.Proofs.RoundTrip

/-!
# Cells and their names

A cell is written as the letters of its column and the number of its row. The letters count in base
twenty-six without a zero, which `Column.indexOfLetters` undoes (`Column.indexOfLetters_letters`),
and no letter begins a number, so that the name says where the column ends and the row begins: no
two cells with a named column are written alike (`Ref.write_injective`).

Coordinates are the names of cells of the sheet and no others. What is written for a cell of the
sheet is read as this cell again; for a cell outside it has a second letter, a sign or a third digit
and is refused (`Ref.inSheet_of_namedBy_write`). So the names of cells outside never stand for a
cell inside (`Ref.coordinates_correspond`).
-/

namespace Worksheet

open Text

namespace Column

/-! ## The letters of a column -/

/-- The letters from A to Z, with their values from one to twenty-six. -/
theorem value_letter : ∀ n : Fin 26, (letter n).toNat - 'A'.toNat + 1 = n + 1 := by decide

theorem isAlpha_letter : ∀ n : Fin 26, (letter n).isAlpha = true := by decide

theorem letters_of_lt {n : Nat} (h : n < 26) : letters n = [letter n] := by
  rw [letters, if_pos h]

theorem letters_of_le {n : Nat} (h : 26 ≤ n) :
    letters n = letters (n / 26 - 1) ++ [letter (n % 26)] := by
  rw [letters, if_neg (by omega)]

theorem letters_ne_nil (n : Nat) : letters n ≠ [] := by
  rcases Nat.lt_or_ge n 26 with hlt | hle
  · simp [letters_of_lt hlt]
  · simp [letters_of_le hle]

theorem isAlpha_letters (n : Nat) : ∀ c ∈ letters n, c.isAlpha = true := by
  induction n using letters.induct with
  | case1 n hlt =>
    rw [letters_of_lt hlt, List.forall_mem_singleton]
    exact isAlpha_letter ⟨n, hlt⟩
  | case2 n hge ih =>
    rw [letters_of_le (by omega), List.forall_mem_append, List.forall_mem_singleton]
    exact ⟨ih, isAlpha_letter ⟨n % 26, Nat.mod_lt _ (by decide)⟩⟩

/-- The values of the letters count from one, so that the columns of one length go on where those of
the length below end. -/
theorem foldl_letters (n : Nat) :
    (letters n).foldl (fun n c => 26 * n + (c.toNat - 'A'.toNat + 1)) 0 = n + 1 := by
  induction n using letters.induct with
  | case1 n hlt =>
    have hvalue := value_letter ⟨n, hlt⟩
    rw [letters_of_lt hlt, List.foldl_cons, List.foldl_nil, hvalue, Nat.mul_zero, Nat.zero_add]
  | case2 n hge ih =>
    have hvalue := value_letter ⟨n % 26, Nat.mod_lt _ (by decide)⟩
    rw [letters_of_le (by omega), List.foldl_append, ih, List.foldl_cons, List.foldl_nil, hvalue]
    simp only
    omega

theorem indexOfLetters_letters (n : Nat) : indexOfLetters (letters n) = n := by
  rw [indexOfLetters, foldl_letters]
  omega

/-- The last name of two letters and the first of three. -/
example : letters 701 = "ZZ".toList ∧ letters 702 = "AAA".toList := by decide +kernel

theorem letters_injective {m n : Nat} (h : letters m = letters n) : m = n := by
  have hindex := indexOfLetters_letters m
  rw [h, indexOfLetters_letters] at hindex
  omega

/-- Only the columns of a sheet are named by a single letter. -/
theorem lt_of_letters_eq_singleton {n : Nat} {c : Char} (h : letters n = [c]) :
    n < columnCount := by
  by_contra hge
  rw [letters_of_le (Nat.not_lt.mp hge), List.append_eq_singleton_iff] at h
  rcases h with ⟨hnil, -⟩ | ⟨-, hnil⟩
  · exact letters_ne_nil _ hnil
  · cases hnil

end Column

/-! ## The number of a row -/

/-- A whole number begins with a sign or is a row of digits. -/
theorem Text.toList_toString_int (i : Int) :
    (toString i).toList =
      if 0 ≤ i then Nat.toDigits 10 i.toNat else '-' :: Nat.toDigits 10 (-i).toNat := by
  rw [Int.toString_eq_repr, Int.repr_eq_if]
  split <;> simp [Nat.repr_eq_ofList_toDigits]

theorem Text.mem_toString_int {i : Int} {c : Char} (h : c ∈ (toString i).toList) :
    c = '-' ∨ c.isDigit = true := by
  rw [toList_toString_int] at h
  split at h
  · exact .inr (isDigit_of_mem_toDigits h)
  · exact (List.mem_cons.mp h).imp_right isDigit_of_mem_toDigits

theorem Text.not_isAlpha_of_mem_toString {i : Int} {c : Char} (h : c ∈ (toString i).toList) :
    c.isAlpha = false := by
  rcases mem_toString_int h with rfl | hdigit
  · rfl
  · exact not_isAlpha_of_isDecimalDigit (isDecimalDigit_of_isDigit hdigit)

theorem Text.not_isBlank_of_mem_toString {i : Int} {c : Char} (h : c ∈ (toString i).toList) :
    isBlank c = false := by
  rcases mem_toString_int h with rfl | hdigit
  · decide
  · exact not_isBlank_of_isDigit hdigit

/-- A number of two digits at most, without a sign, is that of a row of a sheet. -/
theorem Text.row_of_digits {i : Int} (hdigits : ∀ c ∈ (toString i).toList, isDecimalDigit c = true)
    (hlength : (toString i).toList.length ≤ 2) : 0 ≤ i ∧ i < rowCount := by
  rw [toList_toString_int] at hdigits hlength
  split at hlength
  · rename_i hnonneg
    have hlt := (Nat.length_toDigits_le_iff (by decide) (by decide)).mp hlength
    simp only [rowCount]
    omega
  · rename_i hneg
    rw [if_neg hneg] at hdigits
    exact absurd (hdigits '-' List.mem_cons_self) (by decide)

/-! ## Names of cells -/

namespace Ref

variable {r r' : Ref}

/-- The name of a cell: the letters of its column and the digits of its row. -/
def nameOf (r : Ref) : List Char := Column.letters r.column.toNat ++ (toString r.row).toList

theorem write_eq (h : 0 ≤ r.column ∧ r.column < Column.nameCount) :
    r.write = .ok (String.ofList r.nameOf) := by
  simp only [write, Column.name, if_pos h, nameOf, String.ofList_append, String.ofList_toList]
  rfl

theorem not_isBlank_nameOf (r : Ref) : ∀ c ∈ r.nameOf, isBlank c = false := by
  rw [nameOf, List.forall_mem_append]
  exact ⟨fun c hc => not_isBlank_of_isAlpha (Column.isAlpha_letters _ c hc),
    fun c hc => not_isBlank_of_mem_toString hc⟩

/-- The letters of a name end where the number begins. -/
theorem takeWhile_nameOf (r : Ref) :
    r.nameOf.takeWhile Char.isAlpha = Column.letters r.column.toNat :=
  Token.takeWhile_append_of_head (Column.isAlpha_letters _) fun _ hc =>
    not_isAlpha_of_mem_toString (List.mem_of_mem_head? hc)

theorem nameOf_injective (hcolumn : 0 ≤ r.column) (hcolumn' : 0 ≤ r'.column)
    (h : r.nameOf = r'.nameOf) : r = r' := by
  have hletters : Column.letters r.column.toNat = Column.letters r'.column.toNat := by
    rw [← takeWhile_nameOf, h, takeWhile_nameOf]
  have hindex := Column.letters_injective hletters
  rw [nameOf, nameOf, hletters, List.append_cancel_left_eq, String.toList_inj] at h
  have hrow : r.row = r'.row := Int.repr_injective h
  obtain ⟨column, row⟩ := r
  obtain ⟨column', row'⟩ := r'
  simp only [mk.injEq] at hindex hcolumn hcolumn' hrow ⊢
  omega

theorem write_injective (hr : 0 ≤ r.column ∧ r.column < Column.nameCount)
    (hr' : 0 ≤ r'.column ∧ r'.column < Column.nameCount) (h : r.write = r'.write) : r = r' := by
  rw [write_eq hr, write_eq hr', Except.ok.injEq, String.ofList_inj] at h
  exact nameOf_injective hr.1 hr'.1 h

/-! ## Names as coordinates -/

theorem SpelledBy.namedBy {name : List Char} (h : SpelledBy name r) : NamedBy name r := by
  cases h with
  | oneDigit hletter hones => exact .oneDigit hletter (digit?_of_isDigit hones)
  | twoDigits hletter htens hones =>
    exact .twoDigits hletter (digit?_of_isDigit htens) (digit?_of_isDigit hones)

/-- A letter and at most two digits behind it. -/
theorem NamedBy.exists_digits {name : List Char} (h : NamedBy name r) :
    ∃ letter digits, name = letter :: digits ∧ digits.length ≤ 2 ∧
      ∀ d ∈ digits, isDecimalDigit d = true := by
  cases h with
  | oneDigit _ hones => exact ⟨_, _, rfl, by simp, by simp [isDecimalDigit, hones]⟩
  | twoDigits _ htens hones => exact ⟨_, _, rfl, by simp, by simp [isDecimalDigit, htens, hones]⟩

/-- If the name of a cell is a coordinate, of whatever cell, then the cell is one of the sheet. -/
theorem inSheet_of_namedBy_write (hcolumn : 0 ≤ r.column) (h : NamedBy r.nameOf r') :
    r.InSheet := by
  obtain ⟨letter, digits, hname, hlength, hdigits⟩ := h.exists_digits
  obtain ⟨first, others, hletters⟩ :=
    List.exists_cons_of_ne_nil (Column.letters_ne_nil r.column.toNat)
  rw [nameOf, hletters, List.cons_append, List.cons.injEq] at hname
  obtain ⟨-, rfl⟩ := hname
  rw [List.forall_mem_append] at hdigits
  rw [List.length_append] at hlength
  -- A second letter of the column would stand where a digit is due.
  have hsingle : others = [] := by
    rw [List.eq_nil_iff_forall_not_mem]
    intro c hc
    have halpha := Column.isAlpha_letters r.column.toNat c (hletters ▸ List.mem_cons_of_mem _ hc)
    rw [not_isAlpha_of_isDecimalDigit (hdigits.1 c hc)] at halpha
    cases halpha
  rw [hsingle] at hletters
  have hcolumn' := Column.lt_of_letters_eq_singleton hletters
  have hrow := row_of_digits hdigits.2 (by omega)
  unfold InSheet
  omega

theorem ofCoordinate_nameOf (hcolumn : 0 ≤ r.column ∧ r.column < Column.nameCount) :
    ofCoordinate (String.ofList r.nameOf) =
      if r.InSheet then .ok r else .error (.badCoordinate (String.ofList r.nameOf)) := by
  have htrim : trim (String.ofList r.nameOf).toList = r.nameOf := by
    rw [String.toList_ofList, trim_of_not_isBlank r.not_isBlank_nameOf]
  split
  · rename_i hr
    obtain ⟨name, hname, hspelled⟩ := hr.spelledBy_write
    rw [write_eq hcolumn, Except.ok.injEq] at hname
    rw [← hname, String.toList_ofList] at hspelled
    rw [ofCoordinate_eq_ok_iff, htrim]
    exact hspelled.namedBy
  · rename_i hr
    apply ofCoordinate_refused
    intro r' hr'
    rw [htrim] at hr'
    exact hr (inSheet_of_namedBy_write hcolumn.1 hr')

/-- **Coordinates and cells.** A text is a coordinate just if it is, without the blanks around it, a
letter and one or two decimal digits of any script; then it means a cell of the sheet, and all other
texts are refused. No two cells with a named column are written alike. What is written for a cell is
read as this cell if it lies in the sheet, and is refused if it does not. -/
theorem coordinates_correspond :
    (∀ coordinate : String,
      (∀ r, ofCoordinate coordinate = .ok r ↔ NamedBy (trim coordinate.toList) r) ∧
      (∀ r, ofCoordinate coordinate = .ok r → ∃ a : Address, r.address = .ok a) ∧
      ((∀ r, ¬ NamedBy (trim coordinate.toList) r) →
        ofCoordinate coordinate = .error (.badCoordinate coordinate))) ∧
    (∀ r r' : Ref, 0 ≤ r.column ∧ r.column ≤ 18277 → 0 ≤ r'.column ∧ r'.column ≤ 18277 →
      r.write = r'.write → r = r') ∧
    ∀ r : Ref, 0 ≤ r.column ∧ r.column ≤ 18277 → ∃ name, r.write = .ok name ∧
      ofCoordinate name = if r.InSheet then .ok r else .error (.badCoordinate name) := by
  have hnamed : ∀ r : Ref, 0 ≤ r.column ∧ r.column ≤ 18277 →
      0 ≤ r.column ∧ r.column < Column.nameCount := by
    intro r hr
    simp only [Column.nameCount]
    omega
  refine ⟨fun coordinate => ⟨fun r => ofCoordinate_eq_ok_iff, fun r h => ?_, ofCoordinate_refused⟩,
    fun r r' hr hr' => write_injective (hnamed r hr) (hnamed r' hr'), fun r hr => ?_⟩
  · exact address_of_inSheet (ofCoordinate_eq_ok_iff.mp h).inSheet
  · exact ⟨_, write_eq (hnamed r hr), ofCoordinate_nameOf (hnamed r hr)⟩

end Ref

end Worksheet
