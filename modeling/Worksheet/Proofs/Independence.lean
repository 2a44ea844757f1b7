import Worksheet.Proofs.Frames
import Worksheet.Proofs.History

/-!
# Queries and what was asked before them

What a query answers and notes depends on the texts in the cells only. The evaluator that a session
keeps forgets everything at the end of each evaluation, also of one that fails
(`Session.memo_run`), and the entry in a cell is determined by its text, so that two sessions which
leave the same texts in the same cells cannot be told apart by asking (`Session.query_independent`).
-/

namespace Worksheet

/-! ## The memo between steps -/

/-- A query that begins with an empty memo leaves one, whether it is answered or not. -/
theorem Sheet.answer_snd (settings : Settings) (s : Sheet) (q : Query) :
    (s.answer settings {} q).2 = {} := by
  cases q with
  | valueOf text depth =>
    cases hread : Entry.formula? text with
    | ok f =>
      simp only [Sheet.answer, hread]
      exact s.evaluate_snd settings.depthLimit depth f {}
    | error why => simp only [Sheet.answer, hread]
  | _ => rfl

namespace Session

theorem memo_step (settings : Settings) {σ : Session} (h : σ.memo = {}) (step : Step) :
    (σ.step settings step).1.memo = {} := by
  cases step with
  | edit e => exact h
  | query q =>
    have hmemo : (σ.step settings (.query q)).1.memo = (σ.sheet.answer settings σ.memo q).2 := rfl
    rw [hmemo, h]
    exact σ.sheet.answer_snd settings q

/-- Between the steps of a session the memo of its evaluator is empty. -/
theorem memo_run (settings : Settings) {σ : Session} (h : σ.memo = {}) (steps : List Step) :
    (σ.run settings steps).1.memo = {} := by
  induction steps generalizing σ with
  | nil => exact h
  | cons step steps ih => exact ih (memo_step settings h step)

end Session

/-! ## Sheets with the same texts -/

theorem Sheet.ext_entry {s t : Sheet} (h : ∀ a, s.entry a = t.entry a) : s = t := by
  obtain ⟨entries⟩ := s
  obtain ⟨others⟩ := t
  congr 1
  refine Vector.ext fun i hi => ?_
  have hentry := h (Address.ofPlace ⟨i, hi⟩)
  simp only [Sheet.entry, Address.place_ofPlace] at hentry
  exact hentry

namespace Session

theorem ext {σ τ : Session} (hsheet : σ.sheet = τ.sheet) (hmemo : σ.memo = τ.memo) : σ = τ := by
  cases σ
  cases τ
  cases hsheet
  cases hmemo
  rfl

/-- What a session leaves in a cell is the entry of the text that is there. -/
theorem entry_run_text (settings : Settings) (steps : List Step) (a : Address) :
    (run settings {} steps).1.sheet.entry a =
      Entry.ofText ((run settings {} steps).1.sheet.entry a).text := by
  obtain ⟨text, htext⟩ := exists_lastGiven steps a
  rw [entry_run settings htext, Entry.text_ofText]

/-- Sessions that leave the same texts in all cells stand at the same place. -/
theorem run_eq_of_texts {settings₁ settings₂ : Settings} {steps₁ steps₂ : List Step}
    (h : ∀ a, ((run settings₁ {} steps₁).1.sheet.entry a).text =
      ((run settings₂ {} steps₂).1.sheet.entry a).text) :
    (run settings₁ {} steps₁).1 = (run settings₂ {} steps₂).1 := by
  have hsheet : (run settings₁ {} steps₁).1.sheet = (run settings₂ {} steps₂).1.sheet :=
    Sheet.ext_entry fun a => by rw [entry_run_text, h a, ← entry_run_text]
  have hmemo : (run settings₁ {} steps₁).1.memo = (run settings₂ {} steps₂).1.memo :=
    (memo_run settings₁ rfl steps₁).trans (memo_run settings₂ rfl steps₂).symm
  exact ext hsheet hmemo

/-- **Nothing is remembered between queries.** After any two sessions that leave the same texts in
all cells, a query has the same report, with the same answer or error and the same events, and it
leaves an empty memo. -/
theorem query_independent (settings settings₁ settings₂ : Settings) (steps₁ steps₂ : List Step)
    (h : ∀ a, ((run settings₁ {} steps₁).1.sheet.entry a).text =
      ((run settings₂ {} steps₂).1.sheet.entry a).text) (q : Query) :
    let σ₁ := (run settings₁ {} steps₁).1
    let σ₂ := (run settings₂ {} steps₂).1
    (σ₁.step settings (.query q)).2 = (σ₂.step settings (.query q)).2 ∧
      (σ₁.step settings (.query q)).1.memo = {} ∧ (σ₂.step settings (.query q)).1.memo = {} := by
  intro σ₁ σ₂
  have hsame : σ₁ = σ₂ := run_eq_of_texts h
  refine ⟨by rw [hsame], ?_, ?_⟩
  · exact memo_step settings (memo_run settings₁ rfl steps₁) _
  · exact memo_step settings (memo_run settings₂ rfl steps₂) _

/-- A session in which two questions have no answer before A0 is given a reference to itself. -/
def troubled : List Step :=
  [.edit (.enter (.whole 0) (.flag false) "=add("), .query (.valueOf "=add(" 0),
    .query (.valueOfFormula .missing 3), .edit (.enter (.flag false) (.whole 0) "=A0")]

/-- A session that gives A0 a reference to itself and does nothing else. -/
def straight : List Step := [.edit (.enterAt " a0 " "=A0")]

theorem exists_lastGiven_both (a : Address) :
    ∃ text, LastGiven troubled a text ∧ LastGiven straight a text := by
  have hwhole : Address.first.GivenBy (.whole 0) (.flag false) := ⟨.whole 0, .no⟩
  have hflag : Address.first.GivenBy (.flag false) (.whole 0) := ⟨.no, .whole 0⟩
  have hname : Address.first.NamedBy " a0 " :=
    ⟨[' '], ['a', '0'], [' '], rfl, by decide, by decide, .oneDigit rfl rfl⟩
  by_cases ha : a = Address.first
  · subst ha
    exact ⟨"=A0", .inl ⟨troubled.take 3, _, [], rfl, .enter _ hflag, by simp⟩,
      .inl ⟨[], _, [], rfl, .enterAt _ hname, by simp⟩⟩
  · refine ⟨"", .inr ⟨rfl, fun step hstep text hgives => ha ?_⟩,
      .inr ⟨rfl, fun step hstep text hgives => ha ?_⟩⟩
    · simp only [troubled, List.mem_cons, List.not_mem_nil, or_false] at hstep
      rcases hstep with rfl | rfl | rfl | rfl
      · cases hgives with
        | enter _ hcell => exact hcell.unique hwhole
      · cases hgives
      · cases hgives
      · cases hgives with
        | enter _ hcell => exact hcell.unique hflag
    · simp only [straight, List.mem_singleton] at hstep
      subst hstep
      cases hgives with
      | enterAt _ hcell => exact hcell.unique hname

theorem query_independent_troubled :
    ((run {} {} troubled).1.step {} (.query (.valueOf "=A0" 0))).2 =
      ((run {} {} straight).1.step {} (.query (.valueOf "=A0" 0))).2 := by
  have htexts : ∀ a, ((run {} {} troubled).1.sheet.entry a).text =
      ((run {} {} straight).1.sheet.entry a).text := by
    intro a
    obtain ⟨text, htroubled, hstraight⟩ := exists_lastGiven_both a
    rw [entry_run {} htroubled, entry_run {} hstraight]
  exact (query_independent {} {} {} troubled straight htexts (.valueOf "=A0" 0)).1

end Session

end Worksheet
