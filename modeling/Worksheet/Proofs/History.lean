import Worksheet.Proofs.Reachable

/-!
# The texts that cells were given last

A session gives texts to cells in more than one way, may be refused, and looks at its sheet in
between. `Step.Gives` says which texts a step gives to which cells, and `LastGiven` which text a
cell was given last. Whatever a session does, each cell holds the entry of the text that it was
given last, and of the empty text if it was given none (`Session.entry_run`).
-/

namespace Worksheet

/-- A step gives a text to a cell. A series that begins before the first cell of the sheet is
refused there, so that it gives nothing. -/
inductive Step.Gives : Step → Address → String → Prop where
  | enter {a : Address} {row column : Datum} (text : String) : a.GivenBy row column →
      Gives (.edit (.enter row column text)) a text
  | enterAt {a : Address} {coordinate : String} (text : String) : a.NamedBy coordinate →
      Gives (.edit (.enterAt coordinate text)) a text
  | series {a : Address} {start stop : Int} {pattern text : String} : 0 ≤ start →
      start ≤ a.place.val → a.place.val < stop → seriesText pattern a.place.val = .ok text →
      Gives (.edit (.series start stop pattern)) a text

/-- An edit is refused, and why. Of a series it is the first place outside the sheet that is
refused. -/
inductive Edit.RefusedFor : Edit → Error → Prop where
  | enter {row column : Datum} (text : String) : (∀ a : Address, ¬ a.GivenBy row column) →
      RefusedFor (.enter row column text) (.outsideSheet row column)
  | enterAt {coordinate : String} (text : String) : (∀ a : Address, ¬ a.NamedBy coordinate) →
      RefusedFor (.enterAt coordinate text) (.badCoordinate coordinate)
  | series {start place stop : Int} (pattern : String) : start ≤ place → place < stop →
      ¬ (Ref.ofPlace place).InSheet →
      (∀ before, start ≤ before → before < place → (Ref.ofPlace before).InSheet) →
      RefusedFor (.series start stop pattern)
        (.outsideSheet (.whole (Ref.ofPlace place).row) (.whole (Ref.ofPlace place).column))

/-- The text that a cell was given last in a session, the empty text if it was given none. -/
def LastGiven (steps : List Step) (a : Address) (text : String) : Prop :=
  (∃ before step after, steps = before ++ step :: after ∧ step.Gives a text ∧
    ∀ later ∈ after, ∀ other, ¬ later.Gives a other) ∨
  text = "" ∧ ∀ step ∈ steps, ∀ other, ¬ step.Gives a other

/-! ## Edits of one cell -/

@[simp] theorem Entry.text_ofText (text : String) : (Entry.ofText text).text = text := by
  unfold Entry.ofText
  split <;> rfl

theorem Entry.ofText_empty : Entry.ofText "" = Entry.empty := by
  have hread : Number.read "" = Number.nan := rfl
  simp only [ofText, formula?, String.toList_empty, hread, empty]

theorem Ref.address_refused {r : Ref} (h : ¬ r.InSheet) :
    r.address = .error (.outsideSheet (.whole r.row) (.whole r.column)) := by
  have hnone : r.address? = none := dif_neg h
  simp only [Ref.address, hnone]

namespace Report

variable {s s' : Sheet} {report : Report Sheet}

theorem settle_of_ok (h : report.outcome = .ok s') :
    (report.settle s).1 = s' ∧ (report.settle s).2.outcome = .ok () := by
  rw [settle, h]
  exact ⟨rfl, rfl⟩

theorem settle_of_error {why : Error} (h : report.outcome = .error why) :
    (report.settle s).1 = s ∧ (report.settle s).2.outcome = .error why := by
  rw [settle, h]
  exact ⟨rfl, rfl⟩

end Report

namespace Sheet

variable {a : Address}

theorem edit_enter_given (settings : Settings) (s : Sheet) {row column : Datum}
    (h : a.GivenBy row column) (text : String) :
    (s.edit settings (.enter row column text)).1 = s.write a (Entry.ofText text) ∧
      (s.edit settings (.enter row column text)).2.outcome = .ok () := by
  apply Report.settle_of_ok
  rw [outcome_enter, Address.ofData_eq_ok_iff.mpr h]
  rfl

theorem edit_enter_refused (settings : Settings) (s : Sheet) {row column : Datum}
    (h : ∀ a : Address, ¬ a.GivenBy row column) (text : String) :
    (s.edit settings (.enter row column text)).1 = s ∧
      (s.edit settings (.enter row column text)).2.outcome =
        .error (.outsideSheet row column) := by
  apply Report.settle_of_error
  rw [outcome_enter, Address.ofData_refused h]
  rfl

theorem edit_enterAt_named (settings : Settings) (s : Sheet) {coordinate : String}
    (h : a.NamedBy coordinate) (text : String) :
    (s.edit settings (.enterAt coordinate text)).1 = s.write a (Entry.ofText text) ∧
      (s.edit settings (.enterAt coordinate text)).2.outcome = .ok () := by
  apply Report.settle_of_ok
  rw [outcome_enterAt, Address.ofCoordinate_eq_ok_iff.mpr ⟨a, rfl, h⟩, Report.ok_bind,
    Address.address_ref]
  rfl

theorem edit_enterAt_refused (settings : Settings) (s : Sheet) {coordinate : String}
    (h : ∀ a : Address, ¬ a.NamedBy coordinate) (text : String) :
    (s.edit settings (.enterAt coordinate text)).1 = s ∧
      (s.edit settings (.enterAt coordinate text)).2.outcome =
        .error (.badCoordinate coordinate) := by
  apply Report.settle_of_error
  rw [outcome_enterAt, Address.ofCoordinate_refused h]
  rfl

end Sheet

/-! ## Series -/

theorem Area.span_of_lt {low high : Int} (h : high < low) : Area.span low high = [] := by
  rw [Area.span, show (high + 1 - low).toNat = 0 by omega]
  rfl

theorem Area.span_of_le {low high : Int} (h : low ≤ high) :
    Area.span low high = low :: Area.span (low + 1) high := by
  have hsize : (high + 1 - low).toNat = (high + 1 - (low + 1)).toNat + 1 := by omega
  rw [Area.span, hsize, List.range_succ_eq_map, List.map_cons, List.map_map, Area.span]
  refine congrArg₂ _ (by simp) (List.map_congr_left fun i _ => ?_)
  simp only [Function.comp_apply]
  omega

/-- What holds of the empty span and of a span if it holds of the rest holds of every span up to
`high`. -/
theorem Area.span_induction (high : Int) {P : Int → Prop} (hempty : ∀ low, high < low → P low)
    (hcons : ∀ low, low ≤ high → P (low + 1) → P low) (low : Int) : P low := by
  induction hsize : (high + 1 - low).toNat generalizing low with
  | zero => exact hempty low (by omega)
  | succ n ih => exact hcons low (by omega) (ih (low + 1) (by omega))

/-- The places of the cells of a sheet are those from zero on, as many as it has cells. -/
theorem Ref.ofPlace_inSheet_iff {place : Int} :
    (Ref.ofPlace place).InSheet ↔ 0 ≤ place ∧ place < (rowCount * columnCount : Nat) := by
  unfold Ref.InSheet Ref.ofPlace
  rw [Int.fdiv_eq_ediv_of_nonneg _ (by decide), Int.fmod_eq_emod_of_nonneg _ (by decide)]
  simp only [rowCount, columnCount]
  omega

theorem Ref.ofPlace_place (a : Address) : Ref.ofPlace a.place.val = a.ref := by
  obtain ⟨row, column, hcolumn⟩ := a
  unfold Ref.ofPlace Address.ref Address.place
  rw [Int.fdiv_eq_ediv_of_nonneg _ (by decide), Int.fmod_eq_emod_of_nonneg _ (by decide)]
  simp only [columnCount, Ref.mk.injEq] at hcolumn ⊢
  omega

/-- If a place at or behind `start` is outside the sheet, there is a first one. -/
theorem Ref.exists_first_outside {start place : Int} (hle : start ≤ place)
    (hout : ¬ (Ref.ofPlace place).InSheet) :
    ∃ first, start ≤ first ∧ first ≤ place ∧ ¬ (Ref.ofPlace first).InSheet ∧
      ∀ before, start ≤ before → before < first → (Ref.ofPlace before).InSheet := by
  simp only [ofPlace_inSheet_iff] at hout ⊢
  by_cases hstart : 0 ≤ start ∧ start < (rowCount * columnCount : Nat)
  · exact ⟨(rowCount * columnCount : Nat), by omega, by omega, by omega, fun _ _ _ => by omega⟩
  · exact ⟨start, le_rfl, hle, hstart, fun _ _ _ => by omega⟩

theorem Address.exists_place {place : Int} (h : (Ref.ofPlace place).InSheet) :
    ∃ a : Address, place = a.place.val := by
  obtain ⟨hlow, hhigh⟩ := Ref.ofPlace_inSheet_iff.mp h
  obtain ⟨n, rfl⟩ := Int.eq_ofNat_of_zero_le hlow
  refine ⟨Address.ofPlace ⟨n, by exact_mod_cast hhigh⟩, ?_⟩
  rw [Address.place_ofPlace]

/-- Every column that places have is one of a sheet, so there is always a name for it. -/
theorem exists_write_ofPlace (place : Int) : ∃ name, (Ref.ofPlace place).write = .ok name := by
  apply Ref.exists_write_of_column
  unfold Ref.ofPlace
  rw [Int.fmod_eq_emod_of_nonneg _ (by decide)]
  simp only [columnCount, Column.nameCount]
  omega

theorem exists_seriesText (pattern : String) (place : Int) :
    ∃ text, seriesText pattern place = .ok text := by
  obtain ⟨next, hnext⟩ :=
    exists_write_ofPlace ((place + 1).fmod (rowCount * columnCount : Nat))
  obtain ⟨self, hself⟩ := exists_write_ofPlace place
  exact ⟨_, by rw [seriesText, hnext, hself]; rfl⟩

namespace Sheet

variable {settings : Settings} {s : Sheet} {pattern : String}

theorem outcome_enterPlace (settings : Settings) (s : Sheet) {place : Int} {text : String}
    (htext : seriesText pattern place = .ok text) :
    (s.enterPlace settings pattern place).outcome =
      (Ref.ofPlace place).address.map fun a => s.write a (Entry.ofText text) := by
  rw [enterPlace, Report.outcome_bind, Report.outcome_lift, htext, Report.ok_bind, outcome_enter,
    Address.ofData_whole]

/-- Within the sheet a series gives its text to the cell in front and goes on behind it. -/
theorem enterSeries_place (settings : Settings) (s : Sheet) (a : Address) {text : String}
    (htext : seriesText pattern a.place.val = .ok text) (places : List Int) :
    ∃ events, s.enterSeries settings pattern (a.place.val :: places) =
      (((s.write a (Entry.ofText text)).enterSeries settings pattern places).1,
        ⟨events, ((s.write a (Entry.ofText text)).enterSeries settings pattern places).2.outcome⟩)
    := by
  have houtcome := outcome_enterPlace settings s htext
  rw [Ref.ofPlace_place, Address.address_ref] at houtcome
  simp only [enterSeries, houtcome, Except.map]
  exact ⟨_, rfl⟩

/-- Outside the sheet a series ends. -/
theorem enterSeries_refused (settings : Settings) (s : Sheet) (pattern : String) {place : Int}
    (h : ¬ (Ref.ofPlace place).InSheet) (places : List Int) :
    ∃ events, s.enterSeries settings pattern (place :: places) =
      (s, ⟨events, .error
        (.outsideSheet (.whole (Ref.ofPlace place).row) (.whole (Ref.ofPlace place).column))⟩) := by
  obtain ⟨text, htext⟩ := exists_seriesText pattern place
  have houtcome := outcome_enterPlace settings s htext
  rw [Ref.address_refused h] at houtcome
  simp only [enterSeries, houtcome, Except.map]
  exact ⟨_, rfl⟩

/-- A series leaves the other cells as they were. -/
theorem entry_enterSeries_other {a : Address} {high : Int} (low : Int)
    (h : ¬ (0 ≤ low ∧ low ≤ a.place.val ∧ a.place.val ≤ high)) :
    (s.enterSeries settings pattern (Area.span low high)).1.entry a = s.entry a := by
  induction low using Area.span_induction high generalizing s with
  | hempty low hlt =>
    rw [Area.span_of_lt hlt]
    rfl
  | hcons low hle ih =>
    rw [Area.span_of_le hle]
    by_cases hin : (Ref.ofPlace low).InSheet
    · obtain ⟨b, rfl⟩ := Address.exists_place hin
      obtain ⟨text, htext⟩ := exists_seriesText pattern b.place.val
      obtain ⟨events, hplace⟩ := enterSeries_place settings s b htext
        (Area.span (b.place.val + 1) high)
      have hne : b ≠ a := by
        rintro rfl
        omega
      rw [hplace, ih (by omega), entry_write_of_ne s _ hne]
    · obtain ⟨events, hrefused⟩ := enterSeries_refused settings s pattern hin
        (Area.span (low + 1) high)
      rw [hrefused]

/-- A series that begins in the sheet gives texts to its cells up to the end of the sheet. -/
theorem entry_enterSeries_given {a : Address} {low high : Int} {text : String} (hsheet : 0 ≤ low)
    (hlow : low ≤ a.place.val) (hhigh : a.place.val ≤ high)
    (htext : seriesText pattern a.place.val = .ok text) :
    (s.enterSeries settings pattern (Area.span low high)).1.entry a = Entry.ofText text := by
  induction low using Area.span_induction high generalizing s with
  | hempty low hlt => omega
  | hcons low hle ih =>
    have hin : (Ref.ofPlace low).InSheet := by
      have hlt := a.place.isLt
      exact Ref.ofPlace_inSheet_iff.mpr ⟨hsheet, by omega⟩
    obtain ⟨b, rfl⟩ := Address.exists_place hin
    obtain ⟨first, hfirst⟩ := exists_seriesText pattern b.place.val
    obtain ⟨events, hplace⟩ := enterSeries_place settings s b hfirst
      (Area.span (b.place.val + 1) high)
    rw [Area.span_of_le hle, hplace]
    by_cases hba : b = a
    · subst hba
      rw [hfirst] at htext
      cases htext
      rw [entry_enterSeries_other _ (by omega), entry_write_self]
    · have hne : b.place.val ≠ a.place.val := by
        intro hplaces
        apply hba
        rw [← Address.ofPlace_place a, ← Address.ofPlace_place b, Fin.ext hplaces]
      exact ih (by omega) (by omega)

/-- A series all of whose places lie in the sheet is carried out. -/
theorem outcome_enterSeries_ok {high : Int} (low : Int)
    (h : ∀ place, low ≤ place → place ≤ high → (Ref.ofPlace place).InSheet) :
    (s.enterSeries settings pattern (Area.span low high)).2.outcome = .ok () := by
  induction low using Area.span_induction high generalizing s with
  | hempty low hlt =>
    rw [Area.span_of_lt hlt]
    rfl
  | hcons low hle ih =>
    obtain ⟨a, rfl⟩ := Address.exists_place (h low le_rfl hle)
    obtain ⟨text, htext⟩ := exists_seriesText pattern a.place.val
    obtain ⟨events, hplace⟩ := enterSeries_place settings s a htext
      (Area.span (a.place.val + 1) high)
    rw [Area.span_of_le hle, hplace]
    exact ih fun place hlow hhigh => h place (by omega) hhigh

/-- A series ends at its first place outside the sheet. -/
theorem outcome_enterSeries_refused {high place : Int} (low : Int) (hlow : low ≤ place)
    (hhigh : place ≤ high) (hout : ¬ (Ref.ofPlace place).InSheet)
    (hbefore : ∀ before, low ≤ before → before < place → (Ref.ofPlace before).InSheet) :
    (s.enterSeries settings pattern (Area.span low high)).2.outcome = .error
      (.outsideSheet (.whole (Ref.ofPlace place).row) (.whole (Ref.ofPlace place).column)) := by
  induction low using Area.span_induction high generalizing s with
  | hempty low hlt => omega
  | hcons low hle ih =>
    rw [Area.span_of_le hle]
    by_cases hin : (Ref.ofPlace low).InSheet
    · have hne : low ≠ place := by
        rintro rfl
        exact hout hin
      obtain ⟨a, rfl⟩ := Address.exists_place hin
      obtain ⟨text, htext⟩ := exists_seriesText pattern a.place.val
      obtain ⟨events, hplace⟩ := enterSeries_place settings s a htext
        (Area.span (a.place.val + 1) high)
      rw [hplace]
      exact ih (by omega) fun before hlow' hlt => hbefore before (by omega) hlt
    · have hplace : low = place := by
        by_contra hne
        exact hin (hbefore low le_rfl (by omega))
      subst hplace
      obtain ⟨events, hrefused⟩ := enterSeries_refused settings s pattern hin
        (Area.span (low + 1) high)
      rw [hrefused]

end Sheet

/-! ## What a step leaves -/

theorem Edit.outcome_of_refusedFor (settings : Settings) (s : Sheet) {e : Edit} {why : Error}
    (h : e.RefusedFor why) : (s.edit settings e).2.outcome = .error why := by
  cases h with
  | enter text hcell => exact (Sheet.edit_enter_refused settings s hcell text).2
  | enterAt text hcell => exact (Sheet.edit_enterAt_refused settings s hcell text).2
  | series pattern hlow hhigh hout hbefore =>
    exact Sheet.outcome_enterSeries_refused _ hlow (by omega) hout hbefore

/-- An edit that is refused for no reason is carried out. -/
theorem Edit.outcome_of_not_refusedFor (settings : Settings) (s : Sheet) {e : Edit}
    (h : ∀ why, ¬ e.RefusedFor why) : (s.edit settings e).2.outcome = .ok () := by
  cases e with
  | enter row column text =>
    by_cases hcell : ∀ a : Address, ¬ a.GivenBy row column
    · exact absurd (.enter text hcell) (h _)
    · obtain ⟨a, ha⟩ := not_forall_not.mp hcell
      exact (Sheet.edit_enter_given settings s ha text).2
  | enterAt coordinate text =>
    by_cases hcell : ∀ a : Address, ¬ a.NamedBy coordinate
    · exact absurd (.enterAt text hcell) (h _)
    · obtain ⟨a, ha⟩ := not_forall_not.mp hcell
      exact (Sheet.edit_enterAt_named settings s ha text).2
  | series start stop pattern =>
    refine Sheet.outcome_enterSeries_ok _ fun place hlow hhigh => ?_
    by_contra hout
    obtain ⟨first, hfirst, hle, hfirstOut, hbefore⟩ := Ref.exists_first_outside hlow hout
    exact h _ (.series pattern hfirst (by omega) hfirstOut hbefore)

theorem Edit.outcome_eq_error_iff (settings : Settings) (s : Sheet) {e : Edit} {why : Error} :
    (s.edit settings e).2.outcome = .error why ↔ e.RefusedFor why := by
  refine ⟨fun h => ?_, Edit.outcome_of_refusedFor settings s⟩
  by_cases hrefused : ∃ other, e.RefusedFor other
  · obtain ⟨other, hother⟩ := hrefused
    rw [Edit.outcome_of_refusedFor settings s hother] at h
    cases h
    exact hother
  · rw [Edit.outcome_of_not_refusedFor settings s (not_exists.mp hrefused)] at h
    cases h

namespace Session

variable {settings : Settings} {σ : Session} {step : Step} {a : Address}

theorem outcome_edit (settings : Settings) (σ : Session) (e : Edit) :
    (σ.step settings (.edit e)).2.outcome =
      (σ.sheet.edit settings e).2.outcome.map fun _ => none := by
  have hstep : (σ.step settings (.edit e)).2 =
      (σ.sheet.edit settings e).2 >>= fun _ => pure none := rfl
  rw [hstep, Report.outcome_bind]
  cases (σ.sheet.edit settings e).2.outcome <;> rfl

theorem sheet_step_edit (settings : Settings) (σ : Session) (e : Edit) :
    (σ.step settings (.edit e)).1.sheet = (σ.sheet.edit settings e).1 := rfl

/-- After a step that gives it a text a cell holds the entry of this text. -/
theorem entry_step_given {text : String} (h : step.Gives a text) :
    (σ.step settings step).1.sheet.entry a = Entry.ofText text := by
  cases h with
  | enter text hcell =>
    have hedit := Sheet.edit_enter_given settings σ.sheet hcell text
    rw [sheet_step_edit, hedit.1, Sheet.entry_write_self]
  | enterAt text hcell =>
    have hedit := Sheet.edit_enterAt_named settings σ.sheet hcell text
    rw [sheet_step_edit, hedit.1, Sheet.entry_write_self]
  | series hsheet hlow hhigh htext =>
    exact Sheet.entry_enterSeries_given hsheet hlow (by omega) htext

/-- After a step that gives it no text a cell holds what it held. -/
theorem entry_step_other (h : ∀ text, ¬ step.Gives a text) :
    (σ.step settings step).1.sheet.entry a = σ.sheet.entry a := by
  match step, h with
  | .query q, _ => rfl
  | .edit (.enter row column text), h =>
    by_cases hcell : ∃ b : Address, b.GivenBy row column
    · obtain ⟨b, hb⟩ := hcell
      have hne : b ≠ a := by
        rintro rfl
        exact h text (.enter text hb)
      have hedit := Sheet.edit_enter_given settings σ.sheet hb text
      rw [sheet_step_edit, hedit.1, Sheet.entry_write_of_ne _ _ hne]
    · have hedit := Sheet.edit_enter_refused settings σ.sheet (not_exists.mp hcell) text
      rw [sheet_step_edit, hedit.1]
  | .edit (.enterAt coordinate text), h =>
    by_cases hcell : ∃ b : Address, b.NamedBy coordinate
    · obtain ⟨b, hb⟩ := hcell
      have hne : b ≠ a := by
        rintro rfl
        exact h text (.enterAt text hb)
      have hedit := Sheet.edit_enterAt_named settings σ.sheet hb text
      rw [sheet_step_edit, hedit.1, Sheet.entry_write_of_ne _ _ hne]
    · have hedit := Sheet.edit_enterAt_refused settings σ.sheet (not_exists.mp hcell) text
      rw [sheet_step_edit, hedit.1]
  | .edit (.series start stop pattern), h =>
    refine Sheet.entry_enterSeries_other start fun ⟨hsheet, hlow, hhigh⟩ => ?_
    obtain ⟨text, htext⟩ := exists_seriesText pattern a.place.val
    exact h text (.series hsheet hlow (by omega) htext)

/-- A session refuses an edit for what it is, whatever is in its sheet. -/
theorem outcome_edit_eq_error_iff {e : Edit} {why : Error} :
    (σ.step settings (.edit e)).2.outcome = .error why ↔ e.RefusedFor why := by
  rw [outcome_edit, ← Edit.outcome_eq_error_iff settings σ.sheet]
  cases (σ.sheet.edit settings e).2.outcome <;> simp [Except.map]

theorem outcome_text {row column : Datum} (h : a.GivenBy row column) :
    (σ.step settings (.query (.text row column))).2.outcome =
      .ok (some (.text (σ.sheet.entry a).text)) := by
  have hanswer : (σ.sheet.answer settings σ.memo (.text row column)).1.outcome =
      .ok (.text (σ.sheet.entry a).text) := by
    simp only [Sheet.answer, Report.outcome_bind, Report.outcome_lift,
      Address.ofData_eq_ok_iff.mpr h, Report.ok_bind, Report.outcome_pure]
  have hstep : (σ.step settings (.query (.text row column))).2 =
      some <$> (σ.sheet.answer settings σ.memo (.text row column)).1 := rfl
  rw [hstep, Report.outcome_map, hanswer]
  rfl

/-! ## What a session leaves -/

theorem run_append (settings : Settings) (σ : Session) (xs ys : List Step) :
    (σ.run settings (xs ++ ys)).1 = ((σ.run settings xs).1.run settings ys).1 := by
  induction xs generalizing σ with
  | nil => rfl
  | cons x xs ih => exact ih (σ.step settings x).1

theorem entry_run_other {steps : List Step} (h : ∀ step ∈ steps, ∀ text, ¬ step.Gives a text) :
    (σ.run settings steps).1.sheet.entry a = σ.sheet.entry a := by
  induction steps generalizing σ with
  | nil => rfl
  | cons step steps ih =>
    have hrest := @ih (σ.step settings step).1
      fun later hlater => h later (List.mem_cons_of_mem _ hlater)
    exact hrest.trans (entry_step_other (h step List.mem_cons_self))

/-- A session that begins with the empty sheet leaves in every cell the entry of the text that the
cell was given last. -/
theorem entry_run (settings : Settings) {steps : List Step} {text : String}
    (h : LastGiven steps a text) : (run settings {} steps).1.sheet.entry a = Entry.ofText text := by
  rcases h with ⟨before, step, after, rfl, hstep, hafter⟩ | ⟨rfl, hnone⟩
  · rw [run_append]
    exact (entry_run_other hafter).trans (entry_step_given hstep)
  · rw [entry_run_other hnone, Sheet.entry_empty, Entry.ofText_empty]

end Session

theorem exists_lastGiven (steps : List Step) (a : Address) : ∃ text, LastGiven steps a text := by
  induction steps with
  | nil => exact ⟨"", .inr ⟨rfl, by simp⟩⟩
  | cons step steps ih =>
    obtain ⟨text, ⟨before, last, after, rfl, hlast, hafter⟩ | ⟨rfl, hnone⟩⟩ := ih
    · exact ⟨text, .inl ⟨step :: before, last, after, rfl, hlast, hafter⟩⟩
    · by_cases hstep : ∃ text, step.Gives a text
      · obtain ⟨text, htext⟩ := hstep
        exact ⟨text, .inl ⟨[], step, steps, rfl, htext, hnone⟩⟩
      · exact ⟨"", .inr ⟨rfl, List.forall_mem_cons.mpr ⟨not_exists.mp hstep, hnone⟩⟩⟩

/-- A cell was given one text last, and no other. -/
theorem existsUnique_lastGiven (steps : List Step) (a : Address) :
    ∃! text, LastGiven steps a text := by
  obtain ⟨text, htext⟩ := exists_lastGiven steps a
  refine ⟨text, htext, fun other hother => ?_⟩
  have hsame := (Session.entry_run {} hother).symm.trans (Session.entry_run {} htext)
  simpa using congrArg Entry.text hsame

/-- **The sheet is what its cells were given last.** After any session, in which steps may have
failed, every cell holds the entry of the text that it was given last, and shows this text when it
is asked for it. What means no cell is refused and leaves the session as it is, a series is refused
just if it leaves the sheet, and no query changes the sheet. -/
theorem Session.run_lastGiven (settings : Settings) (steps : List Step) :
    let σ := (run settings {} steps).1
    (∀ a, ∃! text, LastGiven steps a text) ∧
    (∀ a text, LastGiven steps a text → σ.sheet.entry a = Entry.ofText text ∧
      ∀ row column, a.GivenBy row column →
        (σ.step settings (.query (.text row column))).2.outcome = .ok (some (.text text))) ∧
    (∀ e why, (σ.step settings (.edit e)).2.outcome = .error why ↔ e.RefusedFor why) ∧
    (∀ row column text, (∀ a : Address, ¬ a.GivenBy row column) →
      (σ.step settings (.edit (.enter row column text))).1 = σ) ∧
    (∀ coordinate text, (∀ a : Address, ¬ a.NamedBy coordinate) →
      (σ.step settings (.edit (.enterAt coordinate text))).1 = σ) ∧
    ∀ q, (σ.step settings (.query q)).1.sheet = σ.sheet := by
  intro σ
  refine ⟨existsUnique_lastGiven steps, fun a text hlast => ⟨entry_run settings hlast, ?_⟩,
    fun e why => outcome_edit_eq_error_iff, fun row column text hcell => ?_,
    fun coordinate text hcell => ?_, fun q => rfl⟩
  · intro row column hcell
    have hentry : σ.sheet.entry a = Entry.ofText text := entry_run settings hlast
    rw [outcome_text hcell, hentry, Entry.text_ofText]
  · have hsheet := (Sheet.edit_enter_refused settings σ.sheet hcell text).1
    exact congrArg (fun sheet => { σ with sheet }) hsheet
  · have hsheet := (Sheet.edit_enterAt_refused settings σ.sheet hcell text).1
    exact congrArg (fun sheet => { σ with sheet }) hsheet

end Worksheet
