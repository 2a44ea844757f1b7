import Worksheet.Proofs.CutOff

/-!
# Reads that cannot fail

Evaluation can fail in three ways besides being given up: at an operation that nobody knows, at a
reference that leads to no cell, and at a part that is missing. None of them occurs in a formula that
a text stands for, and such a formula can be written when its evaluation is noted. An entry whose
evaluation is given up is not a number. So an entry with such a formula has a number wherever it is
evaluated (`Sheet.exists_outcome_number`), and the reads of a sheet that edits lead to all have
answers (`Sheet.reads_succeed`).
-/

namespace Worksheet

theorem Address.exists_ofData {row column : Datum} {i j : Int} (hrow : row.index? = some i)
    (hcolumn : column.index? = some j) (hin : (⟨j, i⟩ : Ref).InSheet) :
    ∃ a, Address.ofData row column = .ok a := by
  obtain ⟨a, ha⟩ := Ref.inSheet_iff.mp hin
  exact ⟨a, by simp only [Address.ofData, hrow, hcolumn, ha]⟩

theorem Ref.exists_address_of_ofCoordinate {coordinate : String} {r : Ref}
    (h : Ref.ofCoordinate coordinate = .ok r) : ∃ a, r.address = .ok a := by
  obtain ⟨a, rfl, -⟩ := Address.ofCoordinate_eq_ok_iff.mp h
  exact ⟨a, a.address_ref⟩

namespace Sheet

variable {s : Sheet} {e : Entry}

/-! ## Numbers of entries -/

theorem outcome_measure_of_evaluate {settings : Settings} {depth : Int} {f : Formula}
    {value : Float} {cutOffs : Nat} (hf : f.Readable)
    (hevaluate : (s.evaluate settings.depthLimit depth f {}).1 = .ok (value, cutOffs)) :
    (s.measure settings depth f).outcome = .ok value := by
  rw [outcome_measure s depth fun _ => hf.exists_write, hevaluate]
  rfl

theorem outcome_measure_of_readable (hs : s.WellFormed) {f : Formula} (hf : f.Readable)
    (settings : Settings) (depth : Int) :
    (∃ value, (s.measure settings depth f).outcome = .ok value) ∨
      (s.measure settings depth f).outcome = .error .stackExhausted := by
  by_cases hframes : (s.evaluate settings.depthLimit depth f {}).1 = .error .stackExhausted
  · exact .inr (outcome_measure_of_error hframes)
  · obtain ⟨value, cutOffs, hevaluate, -, -⟩ := exists_evaluate hs hf.wellFormed hframes
    exact .inl ⟨value, outcome_measure_of_evaluate hf hevaluate⟩

/-- The number of an entry comes from the outcome of the measurement, whatever was noted. -/
theorem outcome_number (s : Sheet) (settings : Settings) (depth : Int) (e : Entry) :
    (s.number settings depth e).outcome =
      tryCatch (s.measure settings depth e.formula).outcome fun
        | .stackExhausted => .ok Number.nan
        | other => .error other := by
  unfold number
  rw [Report.outcome_tryCatch]
  congr 1
  funext why
  cases why with
  | stackExhausted => simp only [Report.outcome_bind, Settings.outcome_note]; rfl
  | _ => rfl

theorem outcome_number_of_ok {settings : Settings} {depth : Int} {value : Float}
    (h : (s.measure settings depth e.formula).outcome = .ok value) :
    (s.number settings depth e).outcome = .ok value := by
  rw [outcome_number, h]
  rfl

/-- An entry whose evaluation is given up is not a number. -/
theorem outcome_number_of_exhausted {settings : Settings} {depth : Int}
    (h : (s.measure settings depth e.formula).outcome = .error .stackExhausted) :
    (s.number settings depth e).outcome = .ok Number.nan := by
  rw [outcome_number, h]
  rfl

theorem exists_outcome_number (hs : s.WellFormed) (he : e.formula.Readable)
    (settings : Settings) (depth : Int) :
    ∃ value, (s.number settings depth e).outcome = .ok value := by
  rcases outcome_measure_of_readable hs he settings depth with ⟨value, h⟩ | h
  · exact ⟨value, outcome_number_of_ok h⟩
  · exact ⟨Number.nan, outcome_number_of_exhausted h⟩

theorem exists_outcome_display (hs : s.WellFormed) (he : e.formula.Readable)
    (settings : Settings) : ∃ text, (s.display settings e).outcome = .ok text := by
  obtain ⟨value, hvalue⟩ := exists_outcome_number hs he settings 0
  unfold display
  rw [Report.outcome_bind, hvalue]
  exact ⟨_, rfl⟩

/-! ## Answers -/

theorem exists_answer_numbers (hs : s.Reachable) (settings : Settings) (m : Memo) :
    ∃ cells, (s.answer settings m .numbers).1.outcome = .ok (.numbers cells) := by
  obtain ⟨cells, hcells⟩ : ∃ cells, Address.all.mapM
      (fun a => (do return (a, ← s.number settings 0 (s.entry a)) : Report _).outcome) =
        .ok cells := by
    refine exists_mapM fun a _ => ?_
    obtain ⟨value, hvalue⟩ := exists_outcome_number hs.wellFormed (hs.readable a) settings 0
    exact ⟨(a, value), by rw [Report.outcome_bind, hvalue]; rfl⟩
  refine ⟨cells, ?_⟩
  simp only [answer]
  rw [Report.outcome_bind, Report.outcome_mapM, hcells]
  rfl

/-- **Reads.** On a sheet that edits lead to, the formulas in all cells are well formed and mention
cells of the sheet only. Whatever the settings, these reads have answers: what a cell holds, shows
and is as a number, by its row and column or by its name; the numbers of all cells; and the number
of a text at any depth. -/
theorem reads_succeed (hs : s.Reachable) (settings : Settings) (m : Memo) :
    (∀ a, (s.entry a).formula.WellFormed ∧ ∀ r ∈ (s.entry a).formula.refs, r.InSheet) ∧
      (∀ (row column : Datum) (i j : Int), row.index? = some i → column.index? = some j →
        (⟨j, i⟩ : Ref).InSheet →
          (∃ text, (s.answer settings m (.text row column)).1.outcome = .ok (.text text)) ∧
          (∃ text, (s.answer settings m (.shown row column)).1.outcome = .ok (.text text)) ∧
          (∃ x, (s.answer settings m (.number row column)).1.outcome = .ok (.number x)) ∧
          ∃ e, (s.answer settings m (.content row column)).1.outcome = .ok (.content e)) ∧
      (∀ (coordinate : String) (r : Ref), Ref.ofCoordinate coordinate = .ok r →
        ∃ text, (s.answer settings m (.shownAt coordinate)).1.outcome = .ok (.text text)) ∧
      (∃ cells, (s.answer settings m .numbers).1.outcome = .ok (.numbers cells)) ∧
      ∀ (text : String) (depth : Int),
        ∃ x, (s.answer settings m (.numberOf text depth)).1.outcome = .ok (.number x) := by
  have hwell := hs.wellFormed
  refine ⟨fun a => ⟨hwell a, hwell.closed a⟩, ?_, ?_, exists_answer_numbers hs settings m, ?_⟩
  · intro row column i j hrow hcolumn hin
    obtain ⟨a, ha⟩ := Address.exists_ofData hrow hcolumn hin
    obtain ⟨text, htext⟩ := exists_outcome_display hwell (hs.readable a) settings
    obtain ⟨x, hx⟩ := exists_outcome_number hwell (hs.readable a) settings 0
    refine ⟨⟨(s.entry a).text, ?_⟩, ⟨text, ?_⟩, ⟨x, ?_⟩, ⟨s.entry a, ?_⟩⟩
    · simp [answer, ha]
    · simp [answer, ha, htext]
    · simp [answer, ha, hx]
    · simp [answer, ha]
  · intro coordinate r hr
    obtain ⟨a, ha⟩ := Ref.exists_address_of_ofCoordinate hr
    obtain ⟨text, htext⟩ := exists_outcome_display hwell (hs.readable a) settings
    exact ⟨text, by simp [answer, hr, ha, htext]⟩
  · intro text depth
    obtain ⟨x, hx⟩ := exists_outcome_number hwell (Entry.readable_ofText text) settings depth
    exact ⟨x, by simp [answer, hx]⟩

/-- The number of the cell that adds itself to itself, asked for with a truth value as its row. -/
theorem reads_doubling :
    doubling.Reachable ∧ ∃ x, (doubling.answer {} {} (.number (.flag false) (.whole 0))).1.outcome =
      .ok (.number x) := by
  obtain ⟨-, hcells, -⟩ := reads_succeed doubling_reachable {} {}
  obtain ⟨-, -, hnumber, -⟩ := hcells (.flag false) (.whole 0) 0 0 rfl rfl (by decide)
  exact ⟨doubling_reachable, hnumber⟩

end Sheet

end Worksheet
