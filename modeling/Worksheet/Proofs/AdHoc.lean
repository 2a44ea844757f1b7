import Worksheet.Proofs.Exhaustion
import Worksheet.Proofs.Reads

/-!
# Texts that are evaluated without a cell

A text has a value also if it is not put into a cell. The value is the one that a cell with this
text would have, cut-off references included, as long as the evaluation is not given up
(`Sheet.adHoc_agrees`). An evaluation that is given up has no value here, while a cell is then not
a number; `Sheet.deepCircle` is a sheet on which that happens to a circle with the default limit.
-/

namespace Worksheet

theorem Entry.formula?_eq_error_iff {text : String} {why : FormulaError} :
    Entry.formula? text = .error why ↔
      ∃ rest, text.toList = Entry.formulaMark :: rest ∧ Formula.ofChars rest = .error why := by
  unfold Entry.formula?
  split
  · rename_i hnil
    simp [hnil]
  · rename_i c rest hcons
    rw [hcons]
    split
    · rename_i hmark
      simp [hmark]
    · rename_i hother
      simp [hother]

theorem Entry.ofText_of_formula? {text : String} {f : Formula}
    (h : Entry.formula? text = .ok f) : Entry.ofText text = ⟨text, f⟩ := by
  simp only [Entry.ofText, h]

namespace Sheet

variable {s : Sheet} {settings : Settings} {m : Memo} {text : String} {f : Formula}

theorem outcome_adHoc_of_malformed {why : FormulaError} (h : Entry.formula? text = .error why) :
    (s.answer settings m (.adHoc text)).1.outcome = .error (.malformed why) := by
  simp [answer, h]

theorem outcome_adHoc (h : Entry.formula? text = .ok f) :
    (s.answer settings m (.adHoc text)).1.outcome =
      (s.measure settings 0 f).outcome.map .number := by
  simp only [answer, h]
  rw [Report.outcome_bind]
  cases (s.measure settings 0 f).outcome <;> rfl

theorem outcome_numberOf (h : Entry.formula? text = .ok f) (depth : Int) :
    (s.answer settings m (.numberOf text depth)).1.outcome =
      (s.number settings depth ⟨text, f⟩).outcome.map .number := by
  simp only [answer]
  rw [Report.outcome_bind, Entry.outcome_noted, Report.ok_bind, Entry.ofText_of_formula? h,
    Report.outcome_bind]
  cases (s.number settings depth ⟨text, f⟩).outcome <;> rfl

theorem outcomes_of_ok {value : Float} (h : Entry.formula? text = .ok f)
    (hvalue : (s.measure settings 0 f).outcome = .ok value) :
    (s.answer settings m (.adHoc text)).1.outcome = .ok (.number value) ∧
      (s.answer settings m (.numberOf text 0)).1.outcome = .ok (.number value) := by
  rw [outcome_adHoc h, outcome_numberOf h, outcome_number_of_ok hvalue, hvalue]
  exact ⟨rfl, rfl⟩

/-- A text whose evaluation is given up is not a number in a cell, and fails without one. -/
theorem outcomes_of_exhausted (h : Entry.formula? text = .ok f)
    (hgiven : (s.measure settings 0 f).outcome = .error .stackExhausted) :
    (s.answer settings m (.adHoc text)).1.outcome = .error .stackExhausted ∧
      (s.answer settings m (.numberOf text 0)).1.outcome = .ok (.number Number.nan) := by
  rw [outcome_adHoc h, outcome_numberOf h, outcome_number_of_exhausted hgiven, hgiven]
  exact ⟨rfl, rfl⟩

theorem adHoc_malformed_iff (hs : s.WellFormed) :
    (∃ why, (s.answer settings m (.adHoc text)).1.outcome = .error (.malformed why)) ↔
      ∃ rest why, text.toList = Entry.formulaMark :: rest ∧ Formula.ofChars rest = .error why := by
  constructor
  · rintro ⟨why, hwhy⟩
    cases hf : Entry.formula? text with
    | error why' =>
      obtain ⟨rest, hrest, hof⟩ := Entry.formula?_eq_error_iff.mp hf
      exact ⟨rest, why', hrest, hof⟩
    | ok f =>
      have hreadable := Formula.readable_of_formula? hf
      rw [outcome_adHoc hf] at hwhy
      rcases outcome_measure_of_readable hs hreadable settings 0 with ⟨value, h⟩ | h
      · rw [h] at hwhy
        cases hwhy
      · rw [h] at hwhy
        cases hwhy
  · rintro ⟨rest, why, hrest, hof⟩
    have hf := Entry.formula?_eq_error_iff.mpr ⟨rest, hrest, hof⟩
    exact ⟨why, outcome_adHoc_of_malformed hf⟩

/-- **Ad-hoc evaluation.** On a sheet that edits lead to, the evaluation of a text is refused as
malformed exactly if the text begins with the mark of a formula and what follows is none. Otherwise
it has the value that a cell with this text would have, unless it is given up: then it fails, while
the cell would not be a number. -/
theorem adHoc_agrees (hs : s.Reachable) (settings : Settings) (m : Memo) (text : String) :
    ((∃ why, (s.answer settings m (.adHoc text)).1.outcome = .error (.malformed why)) ↔
      ∃ rest why, text.toList = Entry.formulaMark :: rest ∧ Formula.ofChars rest = .error why) ∧
      ∀ f, Entry.formula? text = .ok f →
        ((s.evaluate settings.depthLimit 0 f {}).1 ≠ .error .stackExhausted →
          ∃ x, (s.answer settings m (.adHoc text)).1.outcome = .ok (.number x) ∧
            (s.answer settings m (.numberOf text 0)).1.outcome = .ok (.number x)) ∧
        ((s.evaluate settings.depthLimit 0 f {}).1 = .error .stackExhausted →
          (s.answer settings m (.adHoc text)).1.outcome = .error .stackExhausted ∧
            (s.answer settings m (.numberOf text 0)).1.outcome = .ok (.number Number.nan)) := by
  refine ⟨adHoc_malformed_iff hs.wellFormed, fun f hf => ⟨fun hframes => ?_, fun hgiven => ?_⟩⟩
  · have hreadable := Formula.readable_of_formula? hf
    obtain ⟨value, cutOffs, hevaluate, -, -⟩ :=
      exists_evaluate hs.wellFormed hreadable.wellFormed hframes
    exact ⟨value, outcomes_of_ok hf (outcome_measure_of_evaluate hreadable hevaluate)⟩
  · exact outcomes_of_exhausted hf (outcome_measure_of_error hgiven)

theorem adHoc_doubling :
    doubling.Reachable ∧
      ∃ x, (doubling.answer ⟨3, false⟩ {} (.adHoc "=A0")).1.outcome = .ok (.number x) ∧
        (doubling.answer ⟨3, false⟩ {} (.numberOf "=A0" 0)).1.outcome = .ok (.number x) := by
  have hf : Entry.formula? "=A0" = .ok (.ref ⟨0, 0⟩) := by cbv
  obtain ⟨-, hok⟩ := adHoc_agrees doubling_reachable ⟨3, false⟩ {} "=A0"
  exact ⟨doubling_reachable, (hok _ hf).1 doubling_completes⟩

/-! ## A circle that is given up -/

def deepText : String :=
  "=add(add(add(add(add(add(add(add(add(add(add(add(A0,A0)" ++
    ",A0),A0),A0),A0),A0),A0),A0),A0),A0),A0),A0)"

/-- The sheet whose first cell adds itself to itself, twelve sums deep. -/
def deepCircle : Sheet := empty.write .first (Entry.ofText deepText)

theorem formula?_deepText :
    Entry.formula? deepText = .ok (Formula.repeated ⟨0, 0⟩ 12) := by cbv

theorem entry_deepCircle :
    deepCircle.entry .first = ⟨deepText, Formula.repeated ⟨0, 0⟩ 12⟩ := by
  rw [deepCircle, entry_write_self, Entry.ofText_of_formula? formula?_deepText]

/-- Each level takes 26 frames of the 20 that are allowed for it, so the circle is given up before
the default limit cuts it off. -/
theorem deepCircle_adHoc :
    deepCircle.Reachable ∧ Entry.formula? "=A0" = .ok (.ref ⟨0, 0⟩) ∧
      (deepCircle.answer {} {} (.adHoc "=A0")).1.outcome = .error .stackExhausted ∧
      (deepCircle.answer {} {} (.numberOf "=A0" 0)).1.outcome = .ok (.number Number.nan) := by
  have hf : Entry.formula? "=A0" = .ok (.ref ⟨0, 0⟩) := by cbv
  have hcircle : (deepCircle.entry .first).formula.BeginsWith ⟨0, 0⟩ 12 := by
    rw [entry_deepCircle]
    exact Formula.beginsWith_repeated _ _
  have hgiven : (deepCircle.evaluate (rowCount * columnCount : Nat) 0 (.ref ⟨0, 0⟩) {}).1 =
      .error .stackExhausted :=
    evaluate_exhausts (Address.address_ref .first) hcircle .ref (by decide)
  exact ⟨Reachable.empty.write .first deepText, hf,
    outcomes_of_exhausted hf (outcome_measure_of_error hgiven)⟩

end Sheet

end Worksheet
