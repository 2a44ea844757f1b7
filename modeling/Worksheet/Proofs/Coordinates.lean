import Worksheet.Proofs.Lexeme
import Worksheet.Proofs.References

/-!
# The cell that is meant

A cell is said by its row and its column, each a whole number or a truth value, or by a coordinate:
a letter and one or two decimal digits of any script, with blanks around them or not. What is
neither is refused. A coordinate always names a cell of the sheet.

* `Address.ofData_eq_ok_iff`: a row and a column are those of the cell that they mean.
* `Address.ofCoordinate_eq_ok_iff`: a coordinate is that of the cell that it names.
-/

namespace Worksheet

open Text

/-! ## Rows and columns -/

/-- What a value that is handed in as a row or as a column stands for. -/
inductive Datum.Means : Datum → Int → Prop where
  | whole (n : Int) : Means (whole n) n
  | yes : Means (flag true) 1
  | no : Means (flag false) 0

theorem Datum.index?_eq_some_iff {d : Datum} {n : Int} : d.index? = some n ↔ d.Means n := by
  constructor
  · intro h
    cases d with
    | flag b =>
      cases h
      cases b
      · exact .no
      · exact .yes
    | whole m => cases h; exact .whole _
    | _ => cases h
  · rintro (_ | _ | _) <;> rfl

/-- A row and a column are those of a cell. -/
def Address.GivenBy (a : Address) (row column : Datum) : Prop :=
  row.Means a.row.val ∧ column.Means a.column.val

theorem Ref.address?_eq_some_iff {r : Ref} {a : Address} : r.address? = some a ↔ r = a.ref := by
  constructor
  · exact fun h => (Ref.ref_of_address? h).symm
  · rintro rfl
    exact a.address?_ref

theorem Address.ofData_eq_ok_iff {row column : Datum} {a : Address} :
    Address.ofData row column = .ok a ↔ a.GivenBy row column := by
  unfold GivenBy
  rw [← Datum.index?_eq_some_iff, ← Datum.index?_eq_some_iff]
  cases hrow : row.index? with
  | none => simp [ofData, hrow]
  | some r =>
    cases hcolumn : column.index? with
    | none => simp [ofData, hrow, hcolumn]
    | some c =>
      simp only [ofData, hrow, hcolumn, Option.some.injEq]
      have hmeant : (⟨c, r⟩ : Ref).address? = some a ↔ r = a.row.val ∧ c = a.column.val := by
        rw [Ref.address?_eq_some_iff, ref, Ref.mk.injEq, and_comm]
      rw [← hmeant]
      cases (⟨c, r⟩ : Ref).address? <;> simp

theorem Address.GivenBy.unique {a b : Address} {row column : Datum} (ha : a.GivenBy row column)
    (hb : b.GivenBy row column) : a = b := by
  have hsame := (ofData_eq_ok_iff.mpr ha).symm.trans (ofData_eq_ok_iff.mpr hb)
  cases hsame
  rfl

/-- What is no row and column of a cell is refused. -/
theorem Address.ofData_refused {row column : Datum} (h : ∀ a : Address, ¬ a.GivenBy row column) :
    Address.ofData row column = .error (.outsideSheet row column) := by
  cases hcell : Address.ofData row column with
  | ok a => exact absurd (Address.ofData_eq_ok_iff.mp hcell) (h a)
  | error e =>
    unfold Address.ofData at hcell
    split at hcell
    · split at hcell
      · cases hcell
      · exact hcell.symm
    · exact hcell.symm

/-! ## Coordinates -/

/-- The names of a cell: a letter and one or two decimal digits. -/
inductive Ref.NamedBy : List Char → Ref → Prop where
  | oneDigit {letter ones : Char} {n : Nat} : letter.isAlpha = true → digit? ones = some n →
      NamedBy [letter, ones] ⟨(letter.toUpper.toNat - 'A'.toNat : Nat), n⟩
  | twoDigits {letter tens ones : Char} {m n : Nat} : letter.isAlpha = true →
      digit? tens = some m → digit? ones = some n →
      NamedBy [letter, tens, ones] ⟨(letter.toUpper.toNat - 'A'.toNat : Nat), (10 * m + n : Nat)⟩

/-- A letter is read as the number of its column. -/
theorem Ref.letterIndex?_eq_some_iff {c : Char} {i : Int} :
    letterIndex? c = some i ↔ c.isAlpha = true ∧ i = (c.toUpper.toNat - 'A'.toNat : Nat) := by
  unfold letterIndex?
  split
  · rename_i hletter
    rw [Option.some.injEq, eq_comm]
    exact (and_iff_right hletter).symm
  · rename_i hletter
    simp [hletter]

theorem Ref.NamedBy.ofChars? {cs : List Char} {r : Ref} (h : NamedBy cs r) :
    Ref.ofChars? cs = some r := by
  cases h with
  | oneDigit hletter hones =>
    simp [Ref.ofChars?, letterIndex?_eq_some_iff.mpr ⟨hletter, rfl⟩, isDecimalDigit, digitsValue,
      hones]
  | twoDigits hletter htens hones =>
    simp [Ref.ofChars?, letterIndex?_eq_some_iff.mpr ⟨hletter, rfl⟩, isDecimalDigit, digitsValue,
      htens, hones]

theorem Ref.namedBy_of_ofChars? {cs : List Char} {r : Ref} (h : Ref.ofChars? cs = some r) :
    NamedBy cs r := by
  suffices hnamed : ∃ r', NamedBy cs r' by
    obtain ⟨r', hr'⟩ := hnamed
    rw [hr'.ofChars?] at h
    cases h
    exact hr'
  unfold Ref.ofChars? at h
  split at h
  · rename_i letter digits
    obtain ⟨column, hcolumn, h⟩ := Option.bind_eq_some_iff.mp h
    obtain ⟨hletter, -⟩ := letterIndex?_eq_some_iff.mp hcolumn
    split at h
    · rename_i hdigits
      simp only [Bool.and_eq_true, Bool.or_eq_true, beq_iff_eq, List.all_eq_true] at hdigits
      match digits, hdigits with
      | [ones], ⟨_, hall⟩ =>
        obtain ⟨n, hn⟩ := Option.isSome_iff_exists.mp (hall ones (by simp))
        exact ⟨_, .oneDigit hletter hn⟩
      | [tens, ones], ⟨_, hall⟩ =>
        obtain ⟨m, hm⟩ := Option.isSome_iff_exists.mp (hall tens (by simp))
        obtain ⟨n, hn⟩ := Option.isSome_iff_exists.mp (hall ones (by simp))
        exact ⟨_, .twoDigits hletter hm hn⟩
    · cases h
  · cases h

theorem Text.toNat_toUpper_le {c : Char} (h : c.isAlpha = true) : c.toUpper.toNat ≤ 'Z'.toNat :=
  forall_ascii (P := fun c => c.isAlpha = true → c.toUpper.toNat ≤ 'Z'.toNat) (by decide)
    (toNat_lt_of_isAlpha h) h

/-- What is named by a letter and two digits at most is a cell of the sheet. -/
theorem Ref.NamedBy.inSheet {cs : List Char} {r : Ref} (h : NamedBy cs r) : r.InSheet := by
  have hfirst : 'A'.toNat = 65 := rfl
  have hlast : 'Z'.toNat = 90 := rfl
  unfold Ref.InSheet
  cases h with
  | oneDigit hletter hones =>
    have hcolumn := toNat_toUpper_le hletter
    have hrow := digit?_lt_ten hones
    simp only [rowCount, columnCount]
    omega
  | twoDigits hletter htens hones =>
    have hcolumn := toNat_toUpper_le hletter
    have htens := digit?_lt_ten htens
    have hones := digit?_lt_ten hones
    simp only [rowCount, columnCount]
    omega

theorem Ref.inSheet_of_ofChars? {cs : List Char} {r : Ref} (h : Ref.ofChars? cs = some r) :
    r.InSheet :=
  (Ref.namedBy_of_ofChars? h).inSheet

/-- No digit of any script is blank. -/
theorem Text.not_isBlank_of_digit? {c : Char} {n : Nat} (h : digit? c = some n) :
    isBlank c = false := by
  have hapart : ∀ blanks ∈ blankRanges, ∀ first ∈ zeroDigits,
      blanks.2 < first ∨ first + 10 ≤ blanks.1 := by decide
  obtain ⟨first, hfind, -⟩ := Option.map_eq_some_iff.mp h
  have hdigit := List.find?_some hfind
  rw [Bool.eq_false_iff]
  intro hblank
  obtain ⟨blanks, hmem, hin⟩ := List.any_eq_true.mp hblank
  have := hapart blanks hmem first (List.mem_of_find?_eq_some hfind)
  simp only [Bool.and_eq_true, decide_eq_true_eq] at hdigit hin
  omega

theorem Ref.NamedBy.not_isBlank {name : List Char} {r : Ref} (h : NamedBy name r) :
    ∀ c ∈ name, isBlank c = false := by
  cases h with
  | oneDigit hletter hones =>
    simpa using ⟨not_isBlank_of_isAlpha hletter, not_isBlank_of_digit? hones⟩
  | twoDigits hletter htens hones =>
    simpa using ⟨not_isBlank_of_isAlpha hletter, not_isBlank_of_digit? htens,
      not_isBlank_of_digit? hones⟩

/-! ## Blanks around a coordinate -/

theorem Text.dropWhile_blanks_append {blanks cs : List Char} (hblanks : Blanks blanks)
    (hcs : ∀ c ∈ cs, isBlank c = false) (rest : List Char) (hne : cs ≠ []) :
    (blanks ++ (cs ++ rest)).dropWhile isBlank = cs ++ rest := by
  rw [List.dropWhile_append_of_pos hblanks]
  obtain ⟨c, cs, rfl⟩ := List.exists_cons_of_ne_nil hne
  rw [List.cons_append, List.dropWhile_cons_of_neg]
  simp [hcs c List.mem_cons_self]

theorem Text.Blanks.reverse {cs : List Char} (h : Blanks cs) : Blanks cs.reverse :=
  fun c hc => h c (List.mem_reverse.mp hc)

/-- Blanks around a text without any are removed, and nothing else. -/
theorem Text.trim_blanks_append {before cs after : List Char} (hbefore : Blanks before)
    (hafter : Blanks after) (hcs : ∀ c ∈ cs, isBlank c = false) (hne : cs ≠ []) :
    trim (before ++ (cs ++ after)) = cs := by
  have hback : ∀ c ∈ cs.reverse, isBlank c = false := fun c hc => hcs c (List.mem_reverse.mp hc)
  have hback' := dropWhile_blanks_append hafter.reverse hback [] (by simpa using hne)
  rw [List.append_nil] at hback'
  rw [trim, dropWhile_blanks_append hbefore hcs after hne, List.reverse_append, hback',
    List.reverse_reverse]

theorem Text.trim_of_not_isBlank {cs : List Char} (h : ∀ c ∈ cs, isBlank c = false) :
    trim cs = cs := by
  by_cases hne : cs = []
  · rw [hne]
    rfl
  · have htrim := trim_blanks_append blanks_nil blanks_nil h hne
    rwa [List.nil_append, List.append_nil] at htrim

theorem Text.exists_dropWhile_blanks (cs : List Char) :
    ∃ blanks, Blanks blanks ∧ cs = blanks ++ cs.dropWhile isBlank :=
  ⟨cs.takeWhile isBlank, List.all_eq_true.mp List.all_takeWhile,
    List.takeWhile_append_dropWhile.symm⟩

/-- What is removed at the ends of a text are blanks. -/
theorem Text.exists_trim (cs : List Char) :
    ∃ before after, Blanks before ∧ Blanks after ∧ cs = before ++ (trim cs ++ after) := by
  obtain ⟨before, hbefore, hfront⟩ := exists_dropWhile_blanks cs
  obtain ⟨after, hafter, hback⟩ := exists_dropWhile_blanks (cs.dropWhile isBlank).reverse
  refine ⟨before, after.reverse, hbefore, hafter.reverse, ?_⟩
  have hrest := congrArg List.reverse hback
  rw [List.reverse_reverse, List.reverse_append] at hrest
  rwa [trim, ← hrest]

/-- A coordinate names a cell, perhaps with blanks around the name. -/
def Address.NamedBy (a : Address) (coordinate : String) : Prop :=
  ∃ before name after, coordinate.toList = before ++ (name ++ after) ∧ Blanks before ∧
    Blanks after ∧ Ref.NamedBy name a.ref

theorem Ref.ofCoordinate_eq_ok_iff {coordinate : String} {r : Ref} :
    ofCoordinate coordinate = .ok r ↔ NamedBy (trim coordinate.toList) r := by
  have hread : ofCoordinate coordinate = .ok r ↔ ofChars? (trim coordinate.toList) = some r := by
    unfold ofCoordinate
    split <;> simp [*]
  rw [hread]
  exact ⟨namedBy_of_ofChars?, NamedBy.ofChars?⟩

/-- What names no cell is refused. -/
theorem Ref.ofCoordinate_refused {coordinate : String}
    (h : ∀ r, ¬ NamedBy (trim coordinate.toList) r) :
    ofCoordinate coordinate = .error (.badCoordinate coordinate) := by
  cases hread : ofCoordinate coordinate with
  | ok r => exact absurd (ofCoordinate_eq_ok_iff.mp hread) (h r)
  | error e =>
    unfold ofCoordinate at hread
    split at hread
    · cases hread
    · exact hread.symm

/-- A coordinate is read as the cell that it names. -/
theorem Address.ofCoordinate_eq_ok_iff {coordinate : String} {r : Ref} :
    Ref.ofCoordinate coordinate = .ok r ↔ ∃ a : Address, r = a.ref ∧ a.NamedBy coordinate := by
  rw [Ref.ofCoordinate_eq_ok_iff]
  constructor
  · intro h
    obtain ⟨a, ha⟩ := Ref.inSheet_iff.mp h.inSheet
    obtain ⟨before, after, hbefore, hafter, htext⟩ := exists_trim coordinate.toList
    obtain rfl := Ref.address?_eq_some_iff.mp ha
    exact ⟨a, rfl, before, _, after, htext, hbefore, hafter, h⟩
  · rintro ⟨a, rfl, before, name, after, htext, hbefore, hafter, hname⟩
    have hne : name ≠ [] := by
      rintro rfl
      cases hname
    rwa [htext, trim_blanks_append hbefore hafter hname.not_isBlank hne]

example : Ref.ofCoordinate " b٣ " = .ok ⟨1, 3⟩ := by rfl

theorem Address.NamedBy.unique {a b : Address} {coordinate : String} (ha : a.NamedBy coordinate)
    (hb : b.NamedBy coordinate) : a = b := by
  have hsame := (ofCoordinate_eq_ok_iff.mpr ⟨a, rfl, ha⟩).symm.trans
    (ofCoordinate_eq_ok_iff.mpr ⟨b, rfl, hb⟩)
  have hcell := a.address?_ref
  rw [Except.ok.inj hsame, b.address?_ref] at hcell
  exact (Option.some.inj hcell).symm

theorem Address.ofCoordinate_refused {coordinate : String}
    (h : ∀ a : Address, ¬ a.NamedBy coordinate) :
    Ref.ofCoordinate coordinate = .error (.badCoordinate coordinate) := by
  apply Ref.ofCoordinate_refused
  intro r hr
  obtain ⟨a, -, ha⟩ := ofCoordinate_eq_ok_iff.mp (Ref.ofCoordinate_eq_ok_iff.mpr hr)
  exact h a ha

end Worksheet
