import Worksheet.Proofs.Spelling
import Worksheet.Session.Step

/-!
# Sheets that edits lead to

A sheet is `Reachable` if edits lead to it from the empty sheet, whatever they were given and
whether they were carried out or refused. All that an edit does is to write entries that stand for
texts into cells (`Sheet.edit_kept`), so what such writing keeps holds of every reachable sheet
(`Sheet.Reachable.of_write`). In particular the formulas in its cells are such as texts stand for,
and so they are well formed (`Sheet.Reachable.readable`).
-/

namespace Worksheet

/-! ## Outcomes of edits -/

theorem Address.ofData_whole (r : Ref) :
    Address.ofData (.whole r.row) (.whole r.column) = r.address := rfl

theorem Address.exists_columnName (a : Address) : ∃ name, Column.name a.ref.column = .ok name := by
  have hcolumn : 0 ≤ a.ref.column ∧ a.ref.column < Column.nameCount := by
    have hlt := a.column.isLt
    simp only [Address.ref, Column.nameCount, columnCount] at hlt ⊢
    omega
  exact ⟨_, by rw [Column.name, if_pos hcolumn]⟩

@[simp] theorem Entry.outcome_noted (settings : Settings) (text : String) :
    (Entry.noted settings text).outcome = .ok (Entry.ofText text) := by
  unfold Entry.noted Entry.ofText
  cases formula? text with
  | ok f => rfl
  | error why =>
    simp only [Report.outcome_bind, Settings.outcome_note, Report.outcome_pure]
    rfl

namespace Sheet

/-- Once it is known what a text stands for, only the address decides whether it is taken. -/
theorem outcome_place (settings : Settings) (s : Sheet) (row column : Datum) (text : String)
    (entry : Entry) :
    (do
      let address ← Address.ofData row column
      let name ← Column.name address.ref.column
      settings.note (.entered (name ++ row.shown) text)
      return s.write address entry : Report Sheet).outcome =
      (Address.ofData row column).map fun a => s.write a entry := by
  rw [Report.outcome_bind, Report.outcome_lift]
  cases Address.ofData row column with
  | error e => rfl
  | ok a =>
    obtain ⟨name, hname⟩ := a.exists_columnName
    rw [Report.ok_bind, Report.outcome_bind, Report.outcome_lift, hname, Report.ok_bind,
      Report.outcome_bind, Settings.outcome_note]
    rfl

theorem outcome_enter (settings : Settings) (s : Sheet) (row column : Datum) (text : String) :
    (s.enter settings row column text).outcome =
      (Address.ofData row column).map fun a => s.write a (Entry.ofText text) := by
  unfold enter
  rw [Report.outcome_bind, Entry.outcome_noted]
  exact outcome_place settings s row column text (Entry.ofText text)

theorem outcome_enterAt (settings : Settings) (s : Sheet) (coordinate text : String) :
    (s.enterAt settings coordinate text).outcome =
      (Ref.ofCoordinate coordinate >>= Ref.address).map
        fun a => s.write a (Entry.ofText text) := by
  unfold enterAt
  rw [Report.outcome_bind, Report.outcome_lift]
  cases Ref.ofCoordinate coordinate with
  | error why => rfl
  | ok r => exact s.outcome_enter settings (.whole r.row) (.whole r.column) text

theorem exists_write_of_outcome_enter {settings : Settings} {s s' : Sheet} {row column : Datum}
    {text : String} (h : (s.enter settings row column text).outcome = .ok s') :
    ∃ a, s' = s.write a (Entry.ofText text) := by
  rw [outcome_enter] at h
  cases ha : Address.ofData row column with
  | error e => rw [ha] at h; cases h
  | ok a => rw [ha] at h; cases h; exact ⟨a, rfl⟩

end Sheet

/-! ## What edits keep -/

/-- A property of sheets that stays when a cell is given a text. -/
def KeptByWriting (P : Sheet → Prop) : Prop :=
  ∀ s a text, P s → P (s.write a (Entry.ofText text))

namespace Sheet

variable {P : Sheet → Prop} {s : Sheet} {settings : Settings}

/-- What holds of the formula of every text and of the formulas in all cells still does. -/
theorem keptByWriting_formula {Q : Formula → Prop} (h : ∀ text, Q (Entry.ofText text).formula) :
    KeptByWriting fun s => ∀ a, Q (s.entry a).formula := by
  intro s a text hs b
  by_cases hab : a = b
  · rw [← hab, entry_write_self]
    exact h text
  · rw [entry_write_of_ne s _ hab]
    exact hs b

theorem settle_kept {report : Report Sheet} (hs : P s)
    (hreport : ∀ s', report.outcome = .ok s' → P s') : P (report.settle s).1 := by
  unfold Report.settle
  split
  · rename_i s' hs'
    exact hreport s' hs'
  · exact hs

theorem enter_kept (hP : KeptByWriting P) (hs : P s) {row column : Datum} {text : String}
    {s' : Sheet} (h : (s.enter settings row column text).outcome = .ok s') : P s' := by
  obtain ⟨a, rfl⟩ := exists_write_of_outcome_enter h
  exact hP s a text hs

theorem enterAt_kept (hP : KeptByWriting P) (hs : P s) {coordinate text : String} {s' : Sheet}
    (h : (s.enterAt settings coordinate text).outcome = .ok s') : P s' := by
  unfold enterAt at h
  rw [Report.outcome_bind, Report.outcome_lift] at h
  cases hr : Ref.ofCoordinate coordinate with
  | error e => rw [hr] at h; cases h
  | ok r => rw [hr] at h; exact enter_kept hP hs h

theorem enterPlace_kept (hP : KeptByWriting P) (hs : P s) {pattern : String} {place : Int}
    {s' : Sheet} (h : (s.enterPlace settings pattern place).outcome = .ok s') : P s' := by
  unfold enterPlace at h
  rw [Report.outcome_bind, Report.outcome_lift] at h
  cases htext : seriesText pattern place with
  | error e => rw [htext] at h; cases h
  | ok text => rw [htext] at h; exact enter_kept hP hs h

theorem enterSeries_kept (hP : KeptByWriting P) (hs : P s) (pattern : String)
    (places : List Int) : P (s.enterSeries settings pattern places).1 := by
  induction places generalizing s with
  | nil => exact hs
  | cons place places ih =>
    unfold enterSeries
    simp only
    split
    · rename_i s' hs'
      exact ih (enterPlace_kept hP hs hs')
    · exact hs

/-- An edit keeps what writing keeps, also one that is refused or breaks off. -/
theorem edit_kept (hP : KeptByWriting P) (hs : P s) (e : Edit) : P (s.edit settings e).1 := by
  cases e with
  | enter row column text => exact settle_kept hs fun _ h => enter_kept hP hs h
  | enterAt coordinate text => exact settle_kept hs fun _ h => enterAt_kept hP hs h
  | series start stop pattern => exact enterSeries_kept hP hs pattern _

/-! ## Reachable sheets -/

/-- Edits lead from the empty sheet to this one. -/
inductive Reachable : Sheet → Prop where
  | empty : Reachable empty
  | edit {s : Sheet} (settings : Settings) (e : Edit) :
      Reachable s → Reachable (s.edit settings e).1

theorem Reachable.write (hs : s.Reachable) (a : Address) (text : String) :
    (s.write a (Entry.ofText text)).Reachable := by
  have hedit := hs.edit {} (.enter (.whole a.ref.row) (.whole a.ref.column) text)
  have houtcome := s.outcome_enter {} (.whole a.ref.row) (.whole a.ref.column) text
  rw [Address.ofData_whole, Address.address_ref] at houtcome
  simp only [Sheet.edit, Report.settle, houtcome, Except.map] at hedit
  exact hedit

/-- What holds of the empty sheet and is kept by writing holds of every reachable sheet. -/
theorem Reachable.of_write (hP : KeptByWriting P) (hempty : P .empty) (hs : s.Reachable) : P s := by
  induction hs with
  | empty => exact hempty
  | edit settings e _ ih => exact edit_kept hP ih e

/-- The formulas in all cells are well formed. -/
def WellFormed (s : Sheet) : Prop := ∀ a, (s.entry a).formula.WellFormed

end Sheet

/-! ## Formulas of texts -/

/-- What a text can stand for: a well-formed formula with no more calls open at once than the reader
follows. -/
structure Formula.Readable (f : Formula) : Prop where
  wellFormed : f.WellFormed
  openCalls_le : f.openCalls ≤ nestingLimit

theorem Formula.readable_constant (value : Float) (text : String) :
    (constant value text).Readable := ⟨trivial, Nat.zero_le _⟩

theorem Formula.readable_of_formula? {text : String} {f : Formula}
    (h : Entry.formula? text = .ok f) : f.Readable := by
  unfold Entry.formula? at h
  split at h
  · cases h
    exact readable_constant _ _
  · split at h
    · exact ⟨wellFormed_of_ofChars h, (ofChars_eq_ok_iff.mp h).2⟩
    · cases h
      exact readable_constant _ _

theorem Entry.readable_ofText (text : String) : (Entry.ofText text).formula.Readable := by
  unfold Entry.ofText
  split
  · rename_i f hf
    exact Formula.readable_of_formula? hf
  · exact Formula.readable_constant _ _

namespace Sheet

variable {s : Sheet}

theorem Reachable.readable (hs : s.Reachable) (a : Address) : (s.entry a).formula.Readable := by
  refine hs.of_write (keptByWriting_formula Entry.readable_ofText) (fun a => ?_) a
  rw [entry_empty]
  exact Formula.readable_constant _ _

theorem WellFormed.write (hs : s.WellFormed) (a : Address) (text : String) :
    (s.write a (Entry.ofText text)).WellFormed :=
  keptByWriting_formula (fun text => (Entry.readable_ofText text).wellFormed) s a text hs

theorem Reachable.wellFormed (hs : s.Reachable) : s.WellFormed := fun a => (hs.readable a).wellFormed

theorem WellFormed.closed (hs : s.WellFormed) : s.Closed := fun a => (hs a).refs_inSheet

end Sheet

/-- Every session works on a reachable sheet, whatever its steps are. -/
theorem Session.reachable_run (settings : Settings) (σ : Session) (hσ : σ.sheet.Reachable)
    (steps : List Step) : (σ.run settings steps).1.sheet.Reachable := by
  induction steps generalizing σ with
  | nil => exact hσ
  | cons step steps ih =>
    cases step with
    | edit e => exact ih _ (.edit settings e hσ)
    | query q => exact ih _ hσ

end Worksheet
