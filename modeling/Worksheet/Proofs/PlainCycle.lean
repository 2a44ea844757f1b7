import Mathlib
import Worksheet.Proofs.Reads

/-!
# Circles of plain references

A reference is plain if it does not stand for the cell of a rectangle. What an operation on two
numbers makes of something that is not a number is not a number either
(`BinaryOp.isNaN_apply`), while an operation on a rectangle passes over it. So where plain
references lead from a formula into a circle of plain references, the value that is cut off at the
depth limit comes back through all the levels above (`Sheet.valueAt_isNaN`, by induction on the
room below the limit), and a cell with such a formula shows its text
(`Sheet.shown_of_reachesPlainCycle`).
-/

namespace Worksheet

/-! ## Operations on what is not a number -/

section NotANumber

open Float.Model (UnpackedFloat pack)

theorem eq_notANumber {u : UnpackedFloat} (h : u.isNaN = true) : u = .notANumber := by
  cases u <;> first | rfl | cases h

theorem isNaN_ofModel_pack {u : UnpackedFloat} (h : u = .notANumber) :
    (Float.ofModel (pack u)).isNaN = true := by
  subst h
  rfl

/-- No operation on two numbers makes a number of an operand that is none. -/
theorem BinaryOp.isNaN_apply (op : BinaryOp) {x y : Float} (h : x.isNaN = true ∨ y.isNaN = true) :
    (op.apply x y).isNaN = true := by
  rcases h with h | h
  · have hx : x.toModel.unpack = .notANumber := eq_notANumber h
    cases op <;> refine isNaN_ofModel_pack ?_ <;> rw [hx] <;> rfl
  · have hy : y.toModel.unpack = .notANumber := eq_notANumber h
    cases op <;> refine isNaN_ofModel_pack ?_ <;> rw [hy] <;> cases x.toModel.unpack <;> rfl

end NotANumber

/-! ## Plain references -/

/-- The references of a formula outside its rectangles. -/
def Formula.plainRefs : Formula → List Ref
  | ref r => [r]
  | binary _ left right => left.plainRefs ++ right.plainRefs
  | _ => []

namespace Sheet

/-- The cell at `r` mentions `r'` outside rectangles. -/
def PlainlyMentions (s : Sheet) (r r' : Ref) : Prop :=
  ∃ a, r.address? = some a ∧ r' ∈ (s.entry a).formula.plainRefs

/-- One can get from a formula along plain references to a cell, and from there back to this
cell. -/
def ReachesPlainCycle (s : Sheet) (f : Formula) : Prop :=
  ∃ r ∈ f.plainRefs, ∃ c, Relation.ReflTransGen s.PlainlyMentions r c ∧
    Relation.TransGen s.PlainlyMentions c c

end Sheet

/-- What a plain reference takes into a formula stays to the end. -/
theorem Formula.isNaN_of_plainRef {f : Formula} {cell : Ref → Except Error Float} {value : Float}
    (hvalue : f.valueBy cell = .ok value) {r : Ref} (hr : r ∈ f.plainRefs) {x : Float}
    (hx : cell r = .ok x) (hnan : x.isNaN = true) : value.isNaN = true := by
  induction f generalizing value with
  | ref r' =>
    obtain rfl := List.mem_singleton.mp hr
    obtain rfl : x = value := Except.ok.inj (hx.symm.trans hvalue)
    exact hnan
  | binary name left right ihleft ihright =>
    obtain ⟨y, hy, hrest⟩ := bind_eq_ok_iff.mp hvalue
    obtain ⟨z, hz, hrest⟩ := bind_eq_ok_iff.mp hrest
    obtain ⟨op, -, hop⟩ := bind_eq_ok_iff.mp hrest
    obtain rfl : op.apply y z = value := Except.ok.inj hop
    apply op.isNaN_apply
    rcases List.mem_append.mp hr with h | h
    · exact .inl (ihleft hy h)
    · exact .inr (ihright hz h)
  | _ => cases hr

namespace Sheet

variable {s : Sheet} {limit depth : Int} {f : Formula}

/-! ## Values -/

/-- The formula in a cell on the way into a circle leads into the circle as well. -/
theorem ReachesPlainCycle.exists_step (h : s.ReachesPlainCycle f) :
    ∃ r ∈ f.plainRefs, ∃ a, r.address? = some a ∧ s.ReachesPlainCycle (s.entry a).formula := by
  obtain ⟨r, hr, c, hreach, hcycle⟩ := h
  refine ⟨r, hr, ?_⟩
  rcases hreach.cases_head with rfl | ⟨b, ⟨a, ha, hb⟩, hrest⟩
  · obtain ⟨b, ⟨a, ha, hb⟩, hrest⟩ := Relation.TransGen.head'_iff.mp hcycle
    exact ⟨a, ha, b, hb, r, hrest, hcycle⟩
  · exact ⟨a, ha, b, hb, c, hrest, hcycle⟩

/-- A formula from which plain references lead into a circle is not a number at any depth. -/
theorem valueAt_isNaN (hs : s.WellFormed) (hf : f.WellFormed) (hcycle : s.ReachesPlainCycle f)
    (limit depth : Int) : ∃ value, s.valueAt limit depth f = .ok value ∧ value.isNaN = true := by
  induction hroom : (limit + 1 - depth).toNat generalizing depth f with
  | zero =>
    obtain ⟨value, hvalue⟩ := exists_valueAt hs hf limit depth
    obtain ⟨r, hr, -⟩ := hcycle
    exact ⟨value, hvalue,
      Formula.isNaN_of_plainRef hvalue hr (cellValue_of_lt s r (by omega)) rfl⟩
  | succ room ih =>
    obtain ⟨value, hvalue⟩ := exists_valueAt hs hf limit depth
    obtain ⟨r, hr, a, ha, hnext⟩ := hcycle.exists_step
    obtain ⟨x, hx, hnan⟩ := ih (hs a) hnext (depth + 1) (by omega)
    have hcell : s.cellValue limit depth r = .ok x := by
      rw [cellValue_of_le s r (by omega), ← Ref.ref_of_address? ha, Address.address_ref]
      exact hx
    exact ⟨value, hvalue, Formula.isNaN_of_plainRef hvalue hr hcell hnan⟩

/-- Nor does giving up an evaluation make it a number. -/
theorem outcome_number_isNaN (hs : s.WellFormed) {e : Entry} (he : e.formula.Readable)
    (hcycle : s.ReachesPlainCycle e.formula) (settings : Settings) (depth : Int) :
    ∃ x, (s.number settings depth e).outcome = .ok x ∧ x.isNaN = true := by
  by_cases hframes : (s.evaluate settings.depthLimit depth e.formula {}).1 = .error .stackExhausted
  · exact ⟨_, outcome_number_of_exhausted (outcome_measure_of_error hframes), rfl⟩
  · obtain ⟨value, cutOffs, hevaluate, hvalue, -⟩ := exists_evaluate hs he.wellFormed hframes
    obtain ⟨x, hx, hnan⟩ := valueAt_isNaN hs he.wellFormed hcycle settings.depthLimit depth
    obtain rfl : value = x := Except.ok.inj (hvalue.symm.trans hx)
    exact ⟨value, outcome_number_of_ok (outcome_measure_of_evaluate he hevaluate), hnan⟩

theorem outcome_display_of_isNaN {e : Entry} {settings : Settings} {x : Float}
    (h : (s.number settings 0 e).outcome = .ok x) (hnan : x.isNaN = true) :
    (s.display settings e).outcome = .ok e.text := by
  have hnumber : Number.isNumber x = false := by
    rw [Number.isNumber, hnan]
    rfl
  rw [display, Report.outcome_bind, h, Report.ok_bind, hnumber]
  rfl

/-- **Circles show as text.** Take a sheet that edits lead to, any depth limit, and a cell from
whose formula plain references lead into a circle of plain references. Whatever else the formulas on
the way compute, the cell is not a number at any depth, and it shows the text that it holds. -/
theorem shown_of_reachesPlainCycle (hs : s.Reachable) {a : Address}
    (hcycle : s.ReachesPlainCycle (s.entry a).formula) (settings : Settings) :
    (∀ depth, ∃ x, (s.number settings depth (s.entry a)).outcome = .ok x ∧ x.isNaN = true) ∧
      ∀ row column, a.GivenBy row column → ∀ m,
        (s.answer settings m (.shown row column)).1.outcome = .ok (.text (s.entry a).text) := by
  have hnumber := outcome_number_isNaN hs.wellFormed (hs.readable a) hcycle settings
  refine ⟨hnumber, fun row column hgiven m => ?_⟩
  obtain ⟨x, hx, hnan⟩ := hnumber 0
  simp [answer, Address.ofData_eq_ok_iff.mpr hgiven, outcome_display_of_isNaN hx hnan]

def circleText : String := "=add(sum(A0:B1),div(A0,A0))"

/-- The sheet whose first cell divides itself by itself, and adds a rectangle with itself in it. -/
def dividingCircle : Sheet := empty.write .first (Entry.ofText circleText)

theorem entry_dividingCircle : dividingCircle.entry .first =
    ⟨circleText, .binary "add" (.range "sum" ⟨⟨0, 0⟩, ⟨1, 1⟩⟩)
      (.binary "div" (.ref ⟨0, 0⟩) (.ref ⟨0, 0⟩))⟩ := by
  have hentry : Entry.ofText circleText = ⟨circleText, .binary "add"
      (.range "sum" ⟨⟨0, 0⟩, ⟨1, 1⟩⟩) (.binary "div" (.ref ⟨0, 0⟩) (.ref ⟨0, 0⟩))⟩ := by cbv
  rw [dividingCircle, entry_write_self, hentry]

theorem shown_dividingCircle :
    dividingCircle.Reachable ∧
      dividingCircle.ReachesPlainCycle (dividingCircle.entry .first).formula ∧
      (dividingCircle.answer ⟨3, true⟩ {} (.shown (.whole 0) (.flag false))).1.outcome =
        .ok (.text circleText) := by
  have hreachable : dividingCircle.Reachable := Reachable.empty.write .first circleText
  have hself : dividingCircle.PlainlyMentions ⟨0, 0⟩ ⟨0, 0⟩ :=
    ⟨.first, rfl, by rw [entry_dividingCircle]; decide⟩
  have hcycle : dividingCircle.ReachesPlainCycle (dividingCircle.entry .first).formula := by
    refine ⟨⟨0, 0⟩, ?_, ⟨0, 0⟩, .refl, .single hself⟩
    rw [entry_dividingCircle]
    decide
  have hgiven : Address.first.GivenBy (.whole 0) (.flag false) := ⟨.whole 0, .no⟩
  have hshown := (shown_of_reachesPlainCycle hreachable hcycle ⟨3, true⟩).2 _ _ hgiven {}
  rw [entry_dividingCircle] at hshown
  exact ⟨hreachable, hcycle, hshown⟩

end Sheet

end Worksheet
