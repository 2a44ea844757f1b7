import Worksheet.Proofs.Writing

/-!
# Writing and reading back

What is written for a formula is read back as that formula. The writer puts no blanks anywhere and
writes a constant as it was read, so that what it writes is a spelling (`Formula.spelling_of_writeWithin`)
if every constant has a text that can stand for one (`Formula.ConstantsRead`). The reader makes no
other constants, so that reading, writing and reading again gives what was read the first time
(`Formula.ofChars_write`).
-/

namespace Worksheet

open Token

/-- The same number, or no number on either side. -/
def Number.Same (x y : Float) : Prop := x = y ∨ x.isNaN = true ∧ y.isNaN = true

namespace Formula

/-- Formulas that have the same constants, references and operations in the same places. -/
inductive Alike : Formula → Formula → Prop where
  | constant {x y : Float} (text : String) : Number.Same x y →
      Alike (constant x text) (constant y text)
  | ref (r : Ref) : Alike (ref r) (ref r)
  | binary {left left' right right' : Formula} (name : String) : Alike left left' →
      Alike right right' → Alike (binary name left right) (binary name left' right')
  | range (name : String) (area : Area) : Alike (range name area) (range name area)
  | missing : Alike missing missing

/-- Every constant has a text that can stand for it in a formula, and the value of that text. -/
def ConstantsRead : Formula → Prop
  | constant value text =>
    Unbroken text.toList ∧ ¬ BeginsReference text.toList ∧ Number.Same value (Number.read text)
  | binary _ left right => left.ConstantsRead ∧ right.ConstantsRead
  | _ => True

/-- The formula with the value of every constant read again from its text. -/
def reread : Formula → Formula
  | constant _ text => constant (Number.read text) text
  | binary name left right => binary name left.reread right.reread
  | f => f

/-! ## Reading constants again -/

theorem openCalls_reread (f : Formula) : f.reread.openCalls = f.openCalls := by
  induction f with
  | binary name left right ihleft ihright => simp only [reread, openCalls, ihleft, ihright]
  | _ => rfl

theorem alike_reread {f : Formula} (hf : f.ConstantsRead) : Alike f.reread f := by
  induction f with
  | constant value text => exact .constant text (hf.2.2.imp Eq.symm And.symm)
  | ref r => exact .ref r
  | binary name left right ihleft ihright => exact .binary name (ihleft hf.1) (ihright hf.2)
  | range name area => exact .range name area
  | missing => exact .missing

/-- The constants of a formula that has a spelling are those that their texts stand for. -/
theorem Spelling.constantsRead {cs : List Char} {f : Formula} (h : Spelling cs f) :
    f.ConstantsRead := by
  induction h with
  | ref => trivial
  | constant _ hrun hreference =>
    simp only [ConstantsRead, String.toList_ofList]
    exact ⟨hrun, hreference, .inl rfl⟩
  | binary _ _ _ _ _ _ _ ihleft ihright => exact ⟨ihleft, ihright⟩
  | range => trivial

theorem Spelling.reread_eq {cs : List Char} {f : Formula} (h : Spelling cs f) : f.reread = f := by
  induction h with
  | binary _ _ _ _ _ _ _ ihleft ihright => rw [reread, ihleft, ihright]
  | _ => rfl

end Formula

/-! ## Written references -/

/-- A column of a sheet is named by a capital letter. -/
theorem Column.letter_spec : ∀ n : Fin columnCount, (letter n).isAlpha = true ∧
    (letter n).toUpper.toNat - 'A'.toNat = n := by decide

theorem Text.digitChar_spec : ∀ n : Fin 10, (Nat.digitChar n).isDigit = true ∧
    (Nat.digitChar n).toNat - '0'.toNat = n := by decide

/-- The number of a row of a sheet has one digit or two. -/
theorem Text.toList_toString_of_lt_hundred {n : Nat} (h : n < 100) :
    (toString n).toList =
      if n < 10 then [Nat.digitChar n] else [Nat.digitChar (n / 10), Nat.digitChar (n % 10)] := by
  rw [Nat.toString_eq_ofList_toDigits, String.toList_ofList]
  split
  · exact Nat.toDigits_of_lt_base ‹_›
  · rw [Nat.toDigits_of_base_le (by decide) (by omega), Nat.toDigits_of_lt_base (by omega)]
    rfl

/-- A cell of a sheet is written as its letter and the digits of its row. -/
theorem Address.spelledBy_write (a : Address) :
    ∃ name, a.ref.write = .ok name ∧ Ref.SpelledBy name.toList a.ref := by
  obtain ⟨⟨row, hrow⟩, column⟩ := a
  obtain ⟨hletter, hcolumn⟩ := Column.letter_spec column
  have hname : Column.name column.val = .ok (String.ofList [Column.letter column]) := by
    have hlt : column.val < 26 := column.isLt
    rw [Column.name, if_pos (by simp only [Column.nameCount]; omega), Int.toNat_natCast,
      Column.letters, if_pos hlt]
  refine ⟨String.ofList [Column.letter column] ++ toString row, ?_, ?_⟩
  · rw [Ref.write, Address.ref, hname]
    rfl
  rw [String.toList_append, String.toList_ofList, Text.toList_toString_of_lt_hundred hrow]
  split
  · rename_i hlt
    obtain ⟨hones, hvalue⟩ := Text.digitChar_spec ⟨row, hlt⟩
    have h := Ref.SpelledBy.oneDigit hletter hones
    rwa [hcolumn, hvalue] at h
  · obtain ⟨htens, htensValue⟩ := Text.digitChar_spec ⟨row / 10, Nat.div_lt_of_lt_mul hrow⟩
    obtain ⟨hones, honesValue⟩ := Text.digitChar_spec ⟨row % 10, Nat.mod_lt _ (by decide)⟩
    have h := Ref.SpelledBy.twoDigits hletter htens hones
    rwa [hcolumn, htensValue, honesValue, Nat.div_add_mod] at h

theorem Ref.InSheet.spelledBy_write {r : Ref} (hr : r.InSheet) :
    ∃ name, r.write = .ok name ∧ Ref.SpelledBy name.toList r := by
  obtain ⟨a, ha⟩ := Ref.inSheet_iff.mp hr
  rw [← Ref.ref_of_address? ha]
  exact a.spelledBy_write

namespace Formula

/-! ## Written formulas -/

/-- An operation name is spelled as it is written. -/
theorem map_toLower_of_isOperationName {name : String} (h : isOperationName name = true) :
    name.toList.map Char.toLower = name.toList := by
  have hall : ∀ name ∈ ["add", "sub", "mul", "div"] ++ ["sum", "prod"],
      name.toList.map Char.toLower = name.toList := by decide
  exact hall name (List.mem_append.mpr (isOperationName_iff.mp h))

/-- What is written for a formula is a spelling of it, but for the values of its constants. -/
theorem spelling_of_writeWithin {f : Formula} {room : Nat} {text : String} (hf : f.WellFormed)
    (hconstants : f.ConstantsRead) (hwrite : f.writeWithin room = .ok text) :
    Spelling text.toList f.reread := by
  induction room generalizing f text with
  | zero => cases hwrite
  | succ room ih =>
    cases f with
    | constant value marked =>
      obtain ⟨hrun, hreference, -⟩ := hconstants
      have hnonempty : marked.isEmpty = false := by
        rw [Bool.eq_false_iff, ne_eq, String.isEmpty_iff, ← String.toList_eq_nil_iff]
        exact hrun.1
      rw [writeWithin, hnonempty] at hwrite
      cases hwrite
      have h := Spelling.constant Text.blanks_nil hrun hreference Text.blanks_nil
      rwa [String.ofList_toList, List.nil_append, List.append_nil] at h
    | ref r =>
      obtain ⟨name, hname, hspelled⟩ := Ref.InSheet.spelledBy_write hf
      obtain rfl : name = text := Except.ok.inj (hname.symm.trans hwrite)
      have h := Spelling.ref Text.blanks_nil hspelled Text.blanks_nil
      rwa [List.nil_append, List.append_nil] at h
    | binary name left right =>
      obtain ⟨hname, hleft, hright⟩ := hf
      obtain ⟨l, hl, hrest⟩ := bind_eq_ok_iff.mp hwrite
      obtain ⟨r, hr, hboth⟩ := bind_eq_ok_iff.mp hrest
      cases hboth
      have hword := map_toLower_of_isOperationName (isOperationName_iff.mpr (.inl hname))
      have h := Spelling.binary Text.blanks_nil Text.blanks_nil Text.blanks_nil hname hword
        (ih hleft hconstants.1 hl) (ih hright hconstants.2 hr)
      simpa [reread] using h
    | range name area =>
      obtain ⟨hname, hstart, hstop⟩ := hf
      obtain ⟨first, hfirst, hfirsts⟩ := hstart.spelledBy_write
      obtain ⟨second, hsecond, hseconds⟩ := hstop.spelledBy_write
      rw [writeWithin, hfirst, hsecond] at hwrite
      cases hwrite
      have hword := map_toLower_of_isOperationName (isOperationName_iff.mpr (.inr hname))
      have h := Spelling.range Text.blanks_nil Text.blanks_nil Text.blanks_nil Text.blanks_nil
        Text.blanks_nil Text.blanks_nil Text.blanks_nil hname hword hfirsts hseconds
      simpa [reread] using h
    | missing => exact hf.elim

/-- What is written for a formula is read as the formula with its constants read again. -/
theorem ofChars_of_write {f : Formula} (hf : f.WellFormed) (hconstants : f.ConstantsRead)
    (hcalls : f.openCalls ≤ nestingLimit) :
    ∃ text, f.write = .ok text ∧ ofChars text.toList = .ok f.reread := by
  have hreadable : f.Readable := ⟨hf, hcalls⟩
  obtain ⟨text, hwrite⟩ := hreadable.exists_write
  rw [← openCalls_reread] at hcalls
  have hspelling := spelling_of_writeWithin hf hconstants hwrite
  exact ⟨text, hwrite, ofChars_eq_ok_iff.mpr ⟨hspelling, hcalls⟩⟩

/-- **Writing and reading back.** A formula that can be read, with no more calls open at once than
the limit, is read back from what is written for it, if numbers that are none count as equal. Every
formula that is read from a text is of this kind, and what is written for it is read as just this
formula. -/
theorem ofChars_write :
    (∀ f : Formula, f.WellFormed → f.ConstantsRead → f.openCalls ≤ nestingLimit →
      ∃ text g, f.write = .ok text ∧ ofChars text.toList = .ok g ∧ Alike g f) ∧
    ∀ cs f, ofChars cs = .ok f →
      (f.WellFormed ∧ f.ConstantsRead ∧ f.openCalls ≤ nestingLimit) ∧
      ∃ text, f.write = .ok text ∧ ofChars text.toList = .ok f := by
  constructor
  · intro f hf hconstants hcalls
    obtain ⟨text, hwrite, hread⟩ := ofChars_of_write hf hconstants hcalls
    exact ⟨text, f.reread, hwrite, hread, alike_reread hconstants⟩
  · intro cs f hread
    have hf := wellFormed_of_ofChars hread
    obtain ⟨hspelling, hcalls⟩ := ofChars_eq_ok_iff.mp hread
    obtain ⟨text, hwrite, hagain⟩ := ofChars_of_write hf hspelling.constantsRead hcalls
    rw [hspelling.reread_eq] at hagain
    exact ⟨⟨hf, hspelling.constantsRead, hcalls⟩, text, hwrite, hagain⟩

/-- A formula whose constants look like an operation name and like the colon of a rectangle. -/
def lookalikes : Formula :=
  binary "add" (constant (Number.read "add") "add")
    (binary "mul" (constant (Number.read ":5") ":5") (ref ⟨3, 47⟩))

theorem constantsRead_lookalikes : lookalikes.ConstantsRead := by
  have hword : Unbroken "add".toList ∧ ¬ BeginsReference "add".toList :=
    ⟨by decide, referenceLength?_eq_none_iff.mp rfl⟩
  have hcolon : Unbroken ":5".toList ∧ ¬ BeginsReference ":5".toList :=
    ⟨by decide, referenceLength?_eq_none_iff.mp rfl⟩
  exact ⟨⟨hword.1, hword.2, .inl rfl⟩, ⟨hcolon.1, hcolon.2, .inl rfl⟩, trivial⟩

theorem ofChars_write_lookalikes :
    ∃ g, ofChars "add(add,mul(:5,D47))".toList = .ok g ∧ Alike g lookalikes := by
  obtain ⟨text, g, hwrite, hread, halike⟩ :=
    ofChars_write.1 lookalikes (by decide) constantsRead_lookalikes (by decide)
  have htext : lookalikes.write = .ok "add(add,mul(:5,D47))" := by
    have hcolumn : Column.name 3 = .ok "D" := by
      rw [Column.name, if_pos (by decide), Column.letters]
      rfl
    simp only [lookalikes, write, writingLimit, writeWithin, Ref.write, hcolumn]
    rfl
  cases htext.symm.trans hwrite
  exact ⟨g, hread, halike⟩

end Formula

end Worksheet
