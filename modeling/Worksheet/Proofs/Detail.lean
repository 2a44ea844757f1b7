import Mathlib
import Worksheet.Proofs.Exhaustion
import Worksheet.Proofs.Independence
import Worksheet.Proofs.Reads

/-!
# Events of detail and what requests answer

Whether a session notes events of detail makes no difference to where it leads. It can make one to
what a step answers, since the event of a cut-off holds the formula in writing, and there are two
kinds of formulas that have a value and cannot be written: those that mention a column without a
name, and those that are nested deeper than there is room for in writing. No text stands for either,
but a formula need not come from a text.

* `Formula.Unwritten`: a value that is lost if the event of a cut-off is noted.
* `Session.run_detail`: a step answers differently with detail exactly if such a formula is put to
  it, and is then refused for a column or for its depth.
-/

namespace Worksheet

/-- A formula can be written if its evaluation at a depth is cut off: its columns have names, or
cells are read at this depth, so that its columns are those of the sheet; and it is nested no deeper
than a text can be. -/
def Formula.Reportable (limit depth : Int) (f : Formula) : Prop :=
  (depth ≤ limit ∨ f.Named) ∧ f.nesting ≤ nestingLimit

/-- A formula has a value in whose evaluation references were cut off, and cannot be written. -/
def Formula.Unwritten (s : Sheet) (limit depth : Int) (f : Formula) (why : Error) : Prop :=
  (∃ value cutOffs, (s.evaluate limit depth f {}).1 = .ok (value, cutOffs) ∧ 0 < cutOffs) ∧
    f.write = .error why

theorem exists_of_mapM {α β : Type} {xs : List α} {x : α} {f : α → Except Error β} {ys : List β}
    (h : xs.mapM f = .ok ys) (hx : x ∈ xs) : ∃ y, f x = .ok y := by
  induction xs generalizing ys with
  | nil => cases hx
  | cons first rest ih =>
    rw [List.mapM_cons] at h
    obtain ⟨y, hy, hrest⟩ := bind_eq_ok_iff.mp h
    obtain ⟨ys', hys', -⟩ := bind_eq_ok_iff.mp hrest
    rcases List.mem_cons.mp hx with rfl | hx
    · exact ⟨y, hy⟩
    · exact ih hys' hx

/-- In a formula that has a value every cell has one. -/
theorem Formula.exists_of_valueBy {f : Formula} {cell : Ref → Except Error Float} {value : Float}
    (h : f.valueBy cell = .ok value) {r : Ref} (hr : r ∈ f.refs) : ∃ x, cell r = .ok x := by
  induction f generalizing value with
  | constant value text => cases hr
  | ref r' =>
    obtain rfl : r = r' := by simpa [refs] using hr
    exact ⟨value, h⟩
  | binary name left right ihleft ihright =>
    obtain ⟨x, hx, hrest⟩ := bind_eq_ok_iff.mp h
    obtain ⟨y, hy, -⟩ := bind_eq_ok_iff.mp hrest
    rcases List.mem_append.mp hr with hr | hr
    · exact ihleft hx hr
    · exact ihright hy hr
  | range name area =>
    obtain ⟨values, hvalues, -⟩ := bind_eq_ok_iff.mp h
    exact exists_of_mapM hvalues hr
  | missing => cases h

namespace Sheet

variable {s : Sheet} {limit depth : Int} {f : Formula} {why : Error}

/-! ## Measurements -/

theorem valueAt_of_evaluate {value : Float} {cutOffs : Nat}
    (h : (s.evaluate limit depth f {}).1 = .ok (value, cutOffs)) :
    s.valueAt limit depth f = .ok value := by
  obtain ⟨count, hsame, -⟩ := evaluate_agrees s limit depth f (by rw [h]; nofun)
  rw [h] at hsame
  cases hvalue : s.valueAt limit depth f with
  | error why => rw [hvalue] at hsame; cases hsame
  | ok x =>
    rw [hvalue] at hsame
    cases hsame
    rfl

theorem named_of_valueAt {value : Float} (h : s.valueAt limit depth f = .ok value)
    (hf : f.Reportable limit depth) : f.Named := by
  rcases hf.1 with hdepth | hnamed
  · intro r hr
    obtain ⟨x, hx⟩ := Formula.exists_of_valueBy h hr
    rw [cellValue_of_le s r hdepth] at hx
    obtain ⟨a, ha, -⟩ := bind_eq_ok_iff.mp hx
    obtain rfl := Ref.ref_of_address ha
    exact a.inSheet.column_named
  · exact hnamed

end Sheet

namespace Formula

variable {s : Sheet} {limit depth : Int} {f : Formula} {why : Error}

theorem Reportable.not_unwritten (hf : f.Reportable limit depth) :
    ¬ f.Unwritten s limit depth why := by
  rintro ⟨⟨value, cutOffs, hevaluate, -⟩, hwrite⟩
  have hvalue := Sheet.valueAt_of_evaluate hevaluate
  obtain ⟨text, htext⟩ := (exists_write_iff_of_value hvalue).mpr
    ⟨Sheet.named_of_valueAt hvalue hf, hf.2.trans_lt nestingLimit_lt_writingLimit⟩
  rw [hwrite] at htext
  cases htext

/-- What has a value is refused for a column or for its depth. -/
theorem Unwritten.refused (h : f.Unwritten s limit depth why) :
    (∃ index, why = .badColumnIndex index) ∨ why = .tooDeepToWrite := by
  obtain ⟨⟨value, cutOffs, hevaluate, -⟩, hwrite⟩ := h
  have hwhole := whole_of_valueBy (Sheet.valueAt_of_evaluate hevaluate)
  exact (refused_of_writeWithin hwhole hwrite).imp And.right And.right

theorem Readable.reportable (hf : f.Readable) (limit depth : Int) : f.Reportable limit depth :=
  ⟨.inr hf.wellFormed.named, hf.nesting_le⟩

end Formula

namespace Sheet

variable {s : Sheet} {limit depth : Int} {f : Formula} {why : Error} {e : Entry}

theorem outcome_measure_quiet (s : Sheet) (limit depth : Int) (f : Formula) :
    (s.measure ⟨limit, false⟩ depth f).outcome = (s.evaluate limit depth f {}).1.map Prod.fst :=
  outcome_measure s depth nofun

/-- A measurement that is noted in detail has the same outcome, unless the formula would have to be
written and cannot. -/
theorem outcome_measure_detail (hf : ∀ why, ¬ f.Unwritten s limit depth why) :
    (s.measure ⟨limit, true⟩ depth f).outcome = (s.measure ⟨limit, false⟩ depth f).outcome := by
  rw [outcome_measure_quiet]
  cases hevaluate : (s.evaluate limit depth f {}).1 with
  | error why => exact outcome_measure_of_error hevaluate
  | ok found =>
    obtain ⟨value, cutOffs⟩ := found
    rw [measure_of_evaluate hevaluate]
    split
    · cases hwrite : f.write with
      | ok text => rfl
      | error why => exact absurd ⟨⟨value, cutOffs, hevaluate, ‹_›⟩, hwrite⟩ (hf why)
    · rfl

/-- The value of a formula that cannot be written turns into a refusal. -/
theorem outcome_measure_unwritten (h : f.Unwritten s limit depth why) :
    (∃ value, (s.measure ⟨limit, false⟩ depth f).outcome = .ok value) ∧
      (s.measure ⟨limit, true⟩ depth f).outcome = .error why := by
  obtain ⟨⟨value, cutOffs, hevaluate, hcut⟩, hwrite⟩ := h
  rw [outcome_measure_quiet, hevaluate, measure_of_evaluate hevaluate, if_pos hcut, hwrite]
  exact ⟨⟨value, rfl⟩, rfl⟩

theorem outcome_number_detail (he : ∀ why, ¬ e.formula.Unwritten s limit depth why) :
    (s.number ⟨limit, true⟩ depth e).outcome = (s.number ⟨limit, false⟩ depth e).outcome := by
  rw [outcome_number, outcome_number, outcome_measure_detail he]

theorem outcome_display_detail (he : ∀ why, ¬ e.formula.Unwritten s limit 0 why) :
    (s.display ⟨limit, true⟩ e).outcome = (s.display ⟨limit, false⟩ e).outcome := by
  unfold display
  rw [Report.outcome_bind, Report.outcome_bind, outcome_number_detail he]

/-- Only what is given up is caught, so the refusal shows in place of the value. -/
theorem outcome_display_unwritten (h : e.formula.Unwritten s limit 0 why) :
    (∃ text, (s.display ⟨limit, false⟩ e).outcome = .ok text) ∧
      (s.display ⟨limit, true⟩ e).outcome = .error why := by
  obtain ⟨⟨value, hvalue⟩, hrefused⟩ := outcome_measure_unwritten h
  have hnumber : (s.number ⟨limit, true⟩ 0 e).outcome = .error why := by
    rw [outcome_number, hrefused]
    rcases h.refused with ⟨index, rfl⟩ | rfl <;> rfl
  unfold display
  rw [Report.outcome_bind, Report.outcome_bind, outcome_number_of_ok hvalue, hnumber]
  exact ⟨⟨_, rfl⟩, rfl⟩

end Sheet

/-! ## Queries -/

/-- The formula of a query can be written if its evaluation is cut off. Where a query reads formulas
from texts or from the cells of a sheet, it always can. -/
def Query.Reportable (limit : Int) : Query → Prop
  | valueOfFormula f depth => f.Reportable limit depth
  | shownOf e => e.formula.Reportable limit 0
  | _ => True

/-- The formula of a query has a value and cannot be written. -/
def Query.Unwritten (s : Sheet) (limit : Int) (why : Error) : Query → Prop
  | valueOfFormula f depth => f.Unwritten s limit depth why
  | shownOf e => e.formula.Unwritten s limit 0 why
  | _ => False

theorem Query.Reportable.not_unwritten {s : Sheet} {limit : Int} {q : Query} {why : Error}
    (hq : q.Reportable limit) : ¬ q.Unwritten s limit why := by
  cases q with
  | valueOfFormula f depth => exact Formula.Reportable.not_unwritten hq
  | shownOf e => exact Formula.Reportable.not_unwritten hq
  | _ => exact id

namespace Sheet

variable {s : Sheet} {limit : Int} {q : Query} {why : Error}

/-- A query has the same answer or error with detail and without, unless its formula would have to
be written and cannot. -/
theorem outcome_answer_detail (hs : s.Reachable) (hq : ∀ why, ¬ q.Unwritten s limit why) :
    (s.answer ⟨limit, true⟩ {} q).1.outcome = (s.answer ⟨limit, false⟩ {} q).1.outcome := by
  have hread : ∀ f : Formula, f.Readable → ∀ depth why, ¬ f.Unwritten s limit depth why :=
    fun f hf depth _ => (hf.reportable limit depth).not_unwritten
  have hcell := fun a => hread _ (hs.readable a) 0
  cases q with
  | text row column => rfl
  | shown row column =>
    simp only [answer, Report.outcome_bind, outcome_display_detail (hcell _)]
  | shownAt coordinate =>
    simp only [answer, Report.outcome_bind, outcome_display_detail (hcell _)]
  | number row column =>
    simp only [answer, Report.outcome_bind, outcome_number_detail (hcell _)]
  | content row column => rfl
  | numbers =>
    simp only [answer, Report.outcome_bind, Report.outcome_mapM, outcome_number_detail (hcell _)]
  | adHoc text =>
    cases hformula : Entry.formula? text with
    | error why => simp only [answer, hformula]
    | ok f =>
      have hf := hread f (Formula.readable_of_formula? hformula) 0
      simp only [answer, hformula, Report.outcome_bind, outcome_measure_detail hf]
  | valueOf text depth =>
    cases hformula : Entry.formula? text with
    | error why => simp only [answer, hformula]
    | ok f =>
      have hmeasure := outcome_measure_detail
        (hread f (Formula.readable_of_formula? hformula) depth)
      simp only [measure] at hmeasure
      simp only [answer, hformula, Report.outcome_map, hmeasure]
  | valueOfFormula f depth =>
    have hmeasure := outcome_measure_detail (show ∀ why, ¬ f.Unwritten s limit depth why from hq)
    simp only [measure] at hmeasure
    simp only [answer, Report.outcome_map, hmeasure]
  | numberOf text depth =>
    have hf := hread _ (Entry.readable_ofText text) depth
    simp only [answer, Report.outcome_bind, Entry.outcome_noted, Report.ok_bind,
      outcome_number_detail hf]
  | shownOf e =>
    have hdisplay := outcome_display_detail (show ∀ why, ¬ e.formula.Unwritten s limit 0 why from hq)
    simp only [answer, Report.outcome_bind, hdisplay]

theorem outcome_answer_unwritten (hq : q.Unwritten s limit why) :
    (∃ answer, (s.answer ⟨limit, false⟩ {} q).1.outcome = .ok answer) ∧
      (s.answer ⟨limit, true⟩ {} q).1.outcome = .error why := by
  cases q with
  | valueOfFormula f depth =>
    obtain ⟨⟨value, hvalue⟩, hrefused⟩ := outcome_measure_unwritten hq
    simp only [measure] at hvalue hrefused
    simp only [answer, Report.outcome_map, hvalue, hrefused]
    exact ⟨⟨_, rfl⟩, rfl⟩
  | shownOf e =>
    obtain ⟨⟨text, htext⟩, hrefused⟩ := outcome_display_unwritten hq
    simp only [answer, Report.outcome_bind, htext, hrefused]
    exact ⟨⟨_, rfl⟩, rfl⟩
  | _ => exact hq.elim

end Sheet

/-! ## Sums of one reference -/

namespace Formula

theorem mem_refs_repeated (r : Ref) (k : Nat) : r ∈ (repeated r k).refs := by
  cases k <;> simp [repeated, refs]

theorem wellFormed_repeated {r : Ref} (hr : r.InSheet) (k : Nat) : (repeated r k).WellFormed := by
  induction k with
  | zero => exact hr
  | succ k ih => exact ⟨by decide, ih, hr⟩

theorem valueBy_repeated (r : Ref) (k : Nat) :
    (repeated r k).valueBy (fun _ => .ok Number.nan) = .ok Number.nan := by
  have hsum : BinaryOp.add.apply Number.nan Number.nan = Number.nan := by decide
  induction k with
  | zero => rfl
  | succ k ih =>
    rw [repeated, valueBy, ih]
    exact congrArg Except.ok hsum

end Formula

/-- On an empty sheet such a sum is not a number beyond the depth limit, since its references are cut
off. -/
theorem Sheet.evaluate_repeated {limit : Int} {k : Nat} (r : Ref)
    (hroom : 2 * k + 3 < frameAllowance limit) :
    ∃ cutOffs, (empty.evaluate limit (limit + 1) (.repeated r k) {}).1 =
      .ok (Number.nan, cutOffs) ∧ 0 < cutOffs := by
  have hcomplete : (empty.evaluate limit (limit + 1) (.repeated r k) {}).1 ≠
      .error .stackExhausted := by
    refine evaluate_completes (nestsAtMost_empty k) (Formula.nesting_repeated r k).le ?_ {}
    rwa [Int.sub_self, Int.toNat_zero, Nat.zero_mul]
  obtain ⟨cutOffs, hsame, hcount⟩ := evaluate_agrees _ _ _ _ hcomplete
  have hcell : empty.cellValue limit (limit + 1) = fun _ => .ok Number.nan :=
    funext fun r => cellValue_of_lt _ r (by omega)
  have hvalue : empty.valueAt limit (limit + 1) (.repeated r k) = .ok Number.nan := by
    rw [valueAt, hcell, Formula.valueBy_repeated]
  rw [hvalue] at hsame
  have hchain := chain_succ.mpr ⟨r, Formula.mem_refs_repeated r k, chain_zero empty _⟩
  exact ⟨cutOffs, hsame, (hcount _ hvalue).mpr ⟨0, hchain, by omega⟩⟩

theorem Formula.write_repeated {r : Ref} (hr : r.InSheet) {k : Nat} (hdeep : writingLimit ≤ k) :
    (repeated r k).write = .error .tooDeepToWrite :=
  (wellFormed_repeated hr k).write_of_deep (by rwa [nesting_repeated])

theorem Formula.unwritten_repeated {limit : Int} {r : Ref} {k : Nat} {why : Error}
    (hroom : 2 * k + 3 < frameAllowance limit) (hwrite : (repeated r k).write = .error why) :
    (repeated r k).Unwritten .empty limit (limit + 1) why := by
  obtain ⟨cutOffs, hevaluate, hcut⟩ := Sheet.evaluate_repeated r hroom
  exact ⟨⟨_, cutOffs, hevaluate, hcut⟩, hwrite⟩

/-! ## Sessions -/

def Step.Reportable (limit : Int) : Step → Prop
  | edit _ => True
  | query q => q.Reportable limit

/-- A step puts a formula that has a value and cannot be written. -/
def Step.Unwritten (s : Sheet) (limit : Int) (why : Error) : Step → Prop
  | edit _ => False
  | query q => q.Unwritten s limit why

theorem Step.Reportable.not_unwritten {s : Sheet} {limit : Int} {step : Step} {why : Error}
    (hstep : step.Reportable limit) : ¬ step.Unwritten s limit why := by
  cases step with
  | edit e => exact id
  | query q => exact Query.Reportable.not_unwritten hstep

theorem eq_of_same_errors {x y : Except Error Unit}
    (h : ∀ why, x = .error why ↔ y = .error why) : x = y := by
  cases x with
  | error why => exact ((h why).mp rfl).symm
  | ok u =>
    cases y with
    | error why => cases (h why).mpr rfl
    | ok v => rfl

theorem Step.Unwritten.refused {s : Sheet} {limit : Int} {why : Error} {step : Step}
    (h : step.Unwritten s limit why) :
    (∃ index, why = .badColumnIndex index) ∨ why = .tooDeepToWrite := by
  cases step with
  | edit e => exact h.elim
  | query q =>
    cases q with
    | valueOfFormula f depth => exact Formula.Unwritten.refused h
    | shownOf e => exact Formula.Unwritten.refused h
    | _ => exact h.elim

namespace Session

variable {σ : Session} {limit : Int} {step : Step} {why : Error}

/-- Where a step leads does not depend on what is noted. -/
theorem step_settings (settings settings' : Settings) (hσ : σ.memo = {}) (step : Step) :
    (σ.step settings step).1 = (σ.step settings' step).1 := by
  have hsheet : (σ.step settings step).1.sheet = (σ.step settings' step).1.sheet := by
    refine Sheet.ext_entry fun a => ?_
    by_cases hgives : ∃ text, step.Gives a text
    · obtain ⟨text, htext⟩ := hgives
      rw [entry_step_given htext, entry_step_given htext]
    · have hnone := not_exists.mp hgives
      rw [entry_step_other hnone, entry_step_other hnone]
  have hmemo := (memo_step settings hσ step).trans (memo_step settings' hσ step).symm
  exact ext hsheet hmemo

theorem outcome_query (settings : Settings) (hσ : σ.memo = {}) (q : Query) :
    (σ.step settings (.query q)).2.outcome =
      some <$> (σ.sheet.answer settings {} q).1.outcome := by
  have hreport : (σ.step settings (.query q)).2 = some <$> (σ.sheet.answer settings {} q).1 := by
    rw [← hσ]
    rfl
  rw [hreport, Report.outcome_map]

theorem outcome_step_detail (hσ : σ.memo = {}) (hsheet : σ.sheet.Reachable)
    (hstep : ∀ why, ¬ step.Unwritten σ.sheet limit why) :
    (σ.step ⟨limit, true⟩ step).2.outcome = (σ.step ⟨limit, false⟩ step).2.outcome := by
  cases step with
  | edit e =>
    have hsame : (σ.sheet.edit ⟨limit, true⟩ e).2.outcome =
        (σ.sheet.edit ⟨limit, false⟩ e).2.outcome :=
      eq_of_same_errors fun why => (Edit.outcome_eq_error_iff _ _).trans
        (Edit.outcome_eq_error_iff _ _).symm
    rw [outcome_edit, outcome_edit, hsame]
  | query q =>
    rw [outcome_query _ hσ, outcome_query _ hσ, Sheet.outcome_answer_detail hsheet hstep]

theorem outcome_step_unwritten (hσ : σ.memo = {}) (hstep : step.Unwritten σ.sheet limit why) :
    (∃ answer, (σ.step ⟨limit, false⟩ step).2.outcome = .ok answer) ∧
      (σ.step ⟨limit, true⟩ step).2.outcome = .error why := by
  cases step with
  | edit e => exact hstep.elim
  | query q =>
    obtain ⟨⟨answer, hquiet⟩, hdetailed⟩ := Sheet.outcome_answer_unwritten hstep
    rw [outcome_query _ hσ, outcome_query _ hσ, hquiet, hdetailed]
    exact ⟨⟨_, rfl⟩, rfl⟩

theorem run_detail_from (hσ : σ.memo = {}) (hsheet : σ.sheet.Reachable) (steps : List Step) :
    (σ.run ⟨limit, true⟩ steps).1 = (σ.run ⟨limit, false⟩ steps).1 ∧
      ((∀ step ∈ steps, step.Reportable limit) →
        (σ.run ⟨limit, true⟩ steps).2.map Report.outcome =
          (σ.run ⟨limit, false⟩ steps).2.map Report.outcome) := by
  induction steps generalizing σ with
  | nil => exact ⟨rfl, fun _ => rfl⟩
  | cons step steps ih =>
    have hnext := step_settings ⟨limit, true⟩ ⟨limit, false⟩ hσ step
    have hmemo := memo_step ⟨limit, false⟩ hσ step
    have hreach : (σ.step ⟨limit, false⟩ step).1.sheet.Reachable :=
      reachable_run ⟨limit, false⟩ σ hsheet [step]
    obtain ⟨hlast, hrest⟩ := ih hmemo hreach
    simp only [run, hnext]
    refine ⟨hlast, fun hsteps => ?_⟩
    obtain ⟨hfirst, hlater⟩ := List.forall_mem_cons.mp hsteps
    rw [List.map_cons, List.map_cons, hrest hlater,
      outcome_step_detail hσ hsheet fun _ => Step.Reportable.not_unwritten hfirst]

/-- **Detail.** Whether events of detail are noted makes no difference to where a session leads. The
steps have the same answers and errors as well, as long as every formula that is put to the
evaluator by itself has only columns with names or is evaluated where cells are read, and is nested
no deeper than a text can be. Wherever a session stands, just those steps differ whose formula has a
value but cannot be written: they have an answer without detail, and are refused with detail, either
for a column or for the depth of the formula. -/
theorem run_detail (limit : Int) (steps : List Step) :
    let σ := (run ⟨limit, false⟩ {} steps).1
    (run ⟨limit, true⟩ {} steps).1 = σ ∧
      ((∀ step ∈ steps, step.Reportable limit) →
        (run ⟨limit, true⟩ {} steps).2.map Report.outcome =
          (run ⟨limit, false⟩ {} steps).2.map Report.outcome) ∧
      ∀ step : Step,
        ((∀ why, ¬ step.Unwritten σ.sheet limit why) →
          (σ.step ⟨limit, true⟩ step).2.outcome = (σ.step ⟨limit, false⟩ step).2.outcome) ∧
        ∀ why, step.Unwritten σ.sheet limit why →
          (∃ answer, (σ.step ⟨limit, false⟩ step).2.outcome = .ok answer) ∧
            (σ.step ⟨limit, true⟩ step).2.outcome = .error why ∧
            ((∃ index, why = .badColumnIndex index) ∨ why = .tooDeepToWrite) := by
  intro σ
  obtain ⟨hlast, hreports⟩ := run_detail_from (σ := {}) rfl .empty steps
  have hmemo : σ.memo = {} := memo_run ⟨limit, false⟩ rfl steps
  have hsheet : σ.sheet.Reachable := reachable_run ⟨limit, false⟩ {} .empty steps
  refine ⟨hlast, hreports, fun step => ⟨outcome_step_detail hmemo hsheet, fun why hstep => ?_⟩⟩
  obtain ⟨hanswer, hrefused⟩ := outcome_step_unwritten hmemo hstep
  exact ⟨hanswer, hrefused, hstep.refused⟩

/-- The column ZZZ has a name although it is none of the sheet, the one behind it has none; and
eleven hundred sums are too many to be written inside one another. -/
theorem run_detail_far :
    let named : Step := .query (.valueOfFormula (.ref ⟨18277, 120⟩) 2601)
    let steps : List Step := [.edit (.enterAt "A0" "=A0"), named]
    let far : Step := .query (.valueOfFormula (.ref ⟨18278, 0⟩) 2601)
    let deep : Step := .query (.valueOfFormula (.repeated ⟨0, 0⟩ 1100) 2601)
    ((∀ step ∈ steps, step.Reportable 2600) ∧
        (run ⟨2600, true⟩ {} steps).2.map Report.outcome =
          (run ⟨2600, false⟩ {} steps).2.map Report.outcome) ∧
      ((∀ why, ¬ named.Unwritten .empty 2600 why) ∧
        (({} : Session).step ⟨2600, true⟩ named).2.outcome =
          (({} : Session).step ⟨2600, false⟩ named).2.outcome) ∧
      (far.Unwritten .empty 2600 (.badColumnIndex 18278) ∧
        (({} : Session).step ⟨2600, true⟩ far).2.outcome = .error (.badColumnIndex 18278)) ∧
      deep.Unwritten .empty 2600 .tooDeepToWrite ∧
        (({} : Session).step ⟨2600, true⟩ deep).2.outcome = .error .tooDeepToWrite := by
  intro named steps far deep
  have hnamed : named.Reportable 2600 :=
    ⟨.inr (by simp [Formula.Named, Formula.refs, Column.nameCount]), by decide⟩
  have hsteps : ∀ step ∈ steps, step.Reportable 2600 := by
    intro step hstep
    simp only [steps, List.mem_cons, List.not_mem_nil, or_false] at hstep
    rcases hstep with rfl | rfl
    · trivial
    · exact hnamed
  have hfar : far.Unwritten .empty 2600 (.badColumnIndex 18278) :=
    Formula.unwritten_repeated (k := 0) (by decide) rfl
  have hdeep : deep.Unwritten .empty 2600 .tooDeepToWrite :=
    Formula.unwritten_repeated (by decide) (Formula.write_repeated (by decide) (by decide))
  have hnot : ∀ why, ¬ named.Unwritten .empty 2600 why := fun _ => hnamed.not_unwritten
  have hrefused : ∀ (step : Step) why, step.Unwritten .empty 2600 why →
      (({} : Session).step ⟨2600, true⟩ step).2.outcome = .error why :=
    fun step why h => (((run_detail 2600 []).2.2 step).2 why h).2.1
  exact ⟨⟨hsteps, (run_detail 2600 steps).2.1 hsteps⟩,
    ⟨hnot, ((run_detail 2600 []).2.2 named).1 hnot⟩,
    ⟨hfar, hrefused far _ hfar⟩, hdeep, hrefused deep _ hdeep⟩

theorem outcomes_valueOfFormula (settings : Settings) (f : Formula) (depth : Int) :
    (runSession settings [.query (.valueOfFormula f depth)]).map Report.outcome =
      [(Sheet.empty.measure settings depth f).outcome.map fun x => some (.number x)] := by
  have hreport : runSession settings [.query (.valueOfFormula f depth)] =
      [some <$> Answer.number <$> Sheet.empty.measure settings depth f] := rfl
  rw [hreport, List.map_singleton, Report.outcome_map, Report.outcome_map]
  cases (Sheet.empty.measure settings depth f).outcome <;> rfl

/-- Asking for detail turns the value of such a sum into an error. -/
theorem outcomes_repeated {limit : Int} {r : Ref} {k : Nat} {why : Error}
    (hroom : 2 * k + 3 < frameAllowance limit)
    (hwrite : (Formula.repeated r k).write = .error why) :
    let steps : List Step := [.query (.valueOfFormula (.repeated r k) (limit + 1))]
    (runSession ⟨limit, false⟩ steps).map Report.outcome = [.ok (some (.number Number.nan))] ∧
      (runSession ⟨limit, true⟩ steps).map Report.outcome = [.error why] := by
  intro steps
  obtain ⟨cutOffs, hevaluate, hcut⟩ := Sheet.evaluate_repeated r hroom
  constructor
  · rw [outcomes_valueOfFormula, Sheet.outcome_measure_quiet, hevaluate]
    rfl
  · rw [outcomes_valueOfFormula, Sheet.measure_of_evaluate hevaluate, if_pos hcut, hwrite]
    rfl

/-- The first column behind ZZZ, read one level below the default limit. -/
theorem far_reference_detail :
    (runSession {} [.query (.valueOfFormula (.ref ⟨18278, 0⟩) 2601)]).map Report.outcome =
        [.ok (some (.number Number.nan))] ∧
      (runSession { detailed := true }
          [.query (.valueOfFormula (.ref ⟨18278, 0⟩) 2601)]).map Report.outcome =
        [.error (.badColumnIndex 18278)] := by
  have hroom : 2 * 0 + 3 < frameAllowance 2600 := by decide
  exact outcomes_repeated hroom rfl

/-- Eleven hundred sums inside one another, one level below the default limit. -/
theorem nested_formula_detail :
    (runSession {} [.query (.valueOfFormula (.repeated ⟨0, 0⟩ 1100) 2601)]).map Report.outcome =
        [.ok (some (.number Number.nan))] ∧
      (runSession { detailed := true }
          [.query (.valueOfFormula (.repeated ⟨0, 0⟩ 1100) 2601)]).map Report.outcome =
        [.error .tooDeepToWrite] := by
  have hroom : 2 * 1100 + 3 < frameAllowance 2600 := by decide
  exact outcomes_repeated hroom (Formula.write_repeated (by decide) (by decide))

end Session

end Worksheet
