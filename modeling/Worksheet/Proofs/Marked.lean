import Worksheet.Proofs.AdHoc
import Worksheet.Proofs.History
import Worksheet.Proofs.Replacement

/-!
# Numbers with the mark of a formula in front

A cell may be given a number as it is or with the mark of a formula in front of it. These texts go
different ways: without the mark a text is read as a whole, and what is behind the mark is cut into
tokens first. But a numeral has neither blanks nor marks in it and does not begin like a reference
(`Number.Numeral.unbroken`, `Number.Numeral.not_beginsReference`). So it is one token, and this is a
constant, which is read as a whole again (`Formula.ofChars_numeral`). A constant has its value on
every sheet, and with any depth limit.
-/

namespace Worksheet

open Text Token

/-! ## A numeral is one token -/

theorem Token.not_beginsReference_of_first {c : Char} (h : c.isAlpha = false) (rest : List Char) :
    ¬ BeginsReference (c :: rest) := by
  rintro ⟨letter, digit, rest', hcs, hletter, -⟩
  cases hcs
  rw [h] at hletter
  cases hletter

namespace Number

theorem Mantissa.exists_first {cs : List Char} {m : ℚ} (h : Mantissa cs m) :
    ∃ c rest, cs = c :: rest ∧ c.isAlpha = false := by
  cases h with
  | whole hne hdigits =>
    obtain ⟨c, rest, rfl⟩ := List.exists_cons_of_ne_nil hne
    exact ⟨c, rest, rfl, not_isAlpha_of_isDecimalDigit (hdigits c List.mem_cons_self)⟩
  | @pointed before behind _ hbefore _ =>
    cases before with
    | nil => exact ⟨'.', behind, rfl, rfl⟩
    | cons c before =>
      exact ⟨c, _, rfl, not_isAlpha_of_isDecimalDigit (hbefore c List.mem_cons_self)⟩

/-- A sign is no letter, and without one the text begins as it does behind the sign. -/
theorem Sign.not_beginsReference {sign rest : List Char} {negative : Bool} (h : Sign sign negative)
    (hrest : ¬ BeginsReference rest) : ¬ BeginsReference (sign ++ rest) := by
  cases h with
  | none => exact hrest
  | plus | minus => exact not_beginsReference_of_first rfl rest

namespace Numeral

variable {cs : List Char} {negative : Bool} {v : WithTop ℚ}

theorem ne_nil (h : Numeral cs negative v) : cs ≠ [] := by
  cases h with
  | decimal _ hmantissa _ =>
    obtain ⟨c, rest, rfl, -⟩ := hmantissa.exists_first
    simp
  | infinity => simp
  | based => simp

theorem unbroken (h : Numeral cs negative v) : Unbroken cs :=
  ⟨h.ne_nil, fun c hc => ⟨h.not_isBlank c hc, not_isMark_of_isNumeralChar (h.isNumeralChar c hc)⟩⟩

theorem not_beginsReference (h : Numeral cs negative v) : ¬ BeginsReference cs := by
  cases h with
  | decimal hsign hmantissa _ =>
    apply hsign.not_beginsReference
    obtain ⟨c, rest, rfl, hc⟩ := hmantissa.exists_first
    exact not_beginsReference_of_first hc _
  | infinity hsign =>
    apply hsign.not_beginsReference
    rintro ⟨letter, digit, rest', hcs, -, hdigit⟩
    cases hcs
    exact absurd hdigit (by decide)
  | based => exact not_beginsReference_of_first rfl _

/-- A text that is read as a number is a numeral, with blanks around it or without. -/
theorem exists_of_read {text : String} (h : (read text).isNaN = false) :
    ∃ negative v, Numeral (trim text.toList) negative v := by
  by_contra hnone
  simp only [not_exists] at hnone
  rw [(isNaN_read_iff text).mpr hnone] at h
  cases h

end Numeral

/-- Blanks around a number do not count. -/
theorem read_trim {text : String} (h : (read text).isNaN = false) :
    read (String.ofList (trim text.toList)) = read text := by
  obtain ⟨negative, v, hnumeral⟩ := Numeral.exists_of_read h
  rw [read, read, String.toList_ofList, trim_of_not_isBlank hnumeral.not_isBlank]

end Number

/-! ## A number as a formula -/

variable {text : String}

/-- The formula that a number is. -/
theorem Formula.ofChars_numeral (h : (Number.read text).isNaN = false) :
    ofChars text.toList =
      .ok (.constant (Number.read text) (String.ofList (trim text.toList))) := by
  obtain ⟨negative, v, hnumeral⟩ := Number.Numeral.exists_of_read h
  obtain ⟨before, after, hbefore, hafter, htext⟩ := exists_trim text.toList
  have hspelling :=
    Spelling.constant hbefore hnumeral.unbroken hnumeral.not_beginsReference hafter
  rw [← htext, Number.read_trim h] at hspelling
  exact ofChars_eq_ok_iff.mpr ⟨hspelling, Nat.zero_le _⟩

theorem Entry.formula?_marked (text : String) :
    formula? ("=" ++ text) = Formula.ofChars text.toList := by
  have hcons : ("=" ++ text).toList = formulaMark :: text.toList := String.toList_append
  unfold formula?
  rw [hcons]
  exact if_pos rfl

/-- What is entered for a number, with the mark or without, is a constant with this number. -/
theorem Entry.formula?_number (h : (Number.read text).isNaN = false) {entered : String}
    (hentered : entered = text ∨ entered = "=" ++ text) :
    ∃ written, formula? entered = .ok (.constant (Number.read text) written) := by
  rcases hentered with rfl | rfl
  · exact ⟨_, Entry.formula?_of_isNaN h⟩
  · exact ⟨_, (formula?_marked text).trans (Formula.ofChars_numeral h)⟩

namespace Sheet

/-- A constant has its value wherever it is evaluated, and there is nothing to note about it. -/
theorem measure_constant (s : Sheet) (settings : Settings) (depth : Int) (value : Float)
    (written : String) : s.measure settings depth (.constant value written) = pure value := by
  have hframe : 0 < frameAllowance settings.depthLimit := by
    unfold frameAllowance
    omega
  have hread : s.evaluate settings.depthLimit depth (.constant value written) {} =
      (.ok (value, 0), Memo.cleared {}) := by
    simp only [evaluate, read, Formula.readBy, openFrame, if_pos hframe]
    rfl
  simp only [measure, measureWith, hread, Settings.reported]
  simp

variable {s : Sheet} {entered written : String} {value : Float}

theorem number_of_formula? (settings : Settings)
    (h : Entry.formula? entered = .ok (.constant value written)) :
    s.number settings 0 (Entry.ofText entered) = pure value := by
  apply number_of_measure
  rw [Entry.ofText_of_formula? h]
  exact s.measure_constant settings 0 value written

theorem display_of_formula? (settings : Settings)
    (h : Entry.formula? entered = .ok (.constant value written)) (hvalue : value.isNaN = false) :
    s.display settings (Entry.ofText entered) = pure (Number.display value) := by
  have hnumber : Number.isNumber value = true := by
    rw [Number.isNumber, hvalue]
    rfl
  rw [display_of_number (number_of_formula? settings h), if_pos hnumber]

theorem answer_adHoc_of_formula? (settings : Settings) (m : Memo)
    (h : Entry.formula? entered = .ok (.constant value written)) :
    s.answer settings m (.adHoc entered) = (pure (.number value), m) := by
  simp only [answer, h, measure_constant, pure_bind]

end Sheet

/-- **A number may be entered as a formula.** A text that is read as a number is also a formula,
with blanks around it or without, namely the constant with this number. So it may have the mark of
a formula in front: in every session and for all settings, a cell that was given it last has the
same number and shows the same with the mark as without, and the text evaluates alike by itself.
The reports are the same as a whole, and the memo of the session is left as it was. -/
theorem Session.number_marked (h : (Number.read text).isNaN = false) :
    Formula.ofChars text.toList =
        .ok (.constant (Number.read text) (String.ofList (trim text.toList))) ∧
      ∀ entered, entered = text ∨ entered = "=" ++ text →
        (∀ (settings settings' : Settings) (steps : List Step) (c : Address),
          LastGiven steps c entered → ∀ row column, c.GivenBy row column → ∀ m,
            let s := (run settings {} steps).1.sheet
            s.answer settings' m (.number row column) = (pure (.number (Number.read text)), m) ∧
              s.answer settings' m (.shown row column) =
                (pure (.text (Number.display (Number.read text))), m)) ∧
        ∀ (s : Sheet) (settings : Settings) (m : Memo),
          s.answer settings m (.adHoc entered) = (pure (.number (Number.read text)), m) := by
  refine ⟨Formula.ofChars_numeral h, fun entered hentered => ?_⟩
  obtain ⟨written, hformula⟩ := Entry.formula?_number h hentered
  constructor
  · intro settings settings' steps c hlast row column hc m s
    have hentry : s.entry c = Entry.ofText entered := entry_run settings hlast
    rw [Sheet.answer_number_given hc, Sheet.answer_shown_given hc, hentry,
      Sheet.number_of_formula? settings' hformula,
      Sheet.display_of_formula? settings' hformula h]
    exact ⟨rfl, rfl⟩
  · intro s settings m
    exact Sheet.answer_adHoc_of_formula? settings m hformula

/-- A sign, a digit that is not one of ASCII, an exponent, and blanks on both sides. -/
theorem Session.number_marked_spaced :
    (Number.read " -٣e1 ").isNaN = false ∧
      (run {} {} [.edit (.enter (.whole 0) (.whole 0) "= -٣e1 ")]).1.sheet.answer {} {}
          (.number (.whole 0) (.whole 0)) =
        (pure (.number (Number.read "-30")), {}) := by
  have hnumber : (Number.read " -٣e1 ").isNaN = false := by decide +kernel
  have hvalue : Number.read " -٣e1 " = Number.read "-30" := by decide +kernel
  have hfirst : Address.first.GivenBy (.whole 0) (.whole 0) := ⟨.whole 0, .whole 0⟩
  have hlast : LastGiven [.edit (.enter (.whole 0) (.whole 0) "= -٣e1 ")] Address.first
      "= -٣e1 " := .inl ⟨[], _, [], rfl, .enter _ hfirst, List.forall_mem_nil _⟩
  refine ⟨hnumber, ?_⟩
  rw [← hvalue]
  exact (((number_marked hnumber).2 _ (.inr rfl)).1 {} {} _ _ hlast _ _ hfirst {}).1

end Worksheet
