import Worksheet.Proofs.Reachable
import Worksheet.Proofs.Steps

/-!
# Formulas in writing

Three things can keep a formula from being written: a part that is missing, a column that has no
name, and operations that stand deeper inside one another than there is room for. If none of them
does, it can be written (`Formula.exists_writeWithin_iff`, by induction on the room). In a formula
that has a value no part is missing, so such a formula is refused for one of the other two reasons.

Formulas that are read from texts mention cells of the sheet only, and the reader gives up long
before the room for writing is used up. So whatever is read can be written, and with it whatever the
cells of a sheet hold that edits lead to (`Formula.Readable.exists_write`).
-/

namespace Worksheet

/-! ## Columns with names -/

/-- All columns that a formula mentions have names. -/
def Formula.Named (f : Formula) : Prop :=
  ∀ r ∈ f.refs, 0 ≤ r.column ∧ r.column < Column.nameCount

theorem Ref.write_refused {r : Ref} (h : ¬ (0 ≤ r.column ∧ r.column < Column.nameCount)) :
    r.write = .error (.badColumnIndex r.column) := by
  simp only [write, Column.name, if_neg h]
  rfl

theorem Ref.exists_write_iff {r : Ref} :
    (∃ text, r.write = .ok text) ↔ 0 ≤ r.column ∧ r.column < Column.nameCount := by
  refine ⟨fun ⟨text, htext⟩ => ?_, Ref.exists_write_of_column⟩
  by_contra h
  rw [Ref.write_refused h] at htext
  cases htext

theorem Ref.refused_of_write {r : Ref} {why : Error} (h : r.write = .error why) :
    ¬ (0 ≤ r.column ∧ r.column < Column.nameCount) ∧ ∃ index, why = .badColumnIndex index := by
  by_cases hcolumn : 0 ≤ r.column ∧ r.column < Column.nameCount
  · obtain ⟨text, htext⟩ := Ref.exists_write_of_column hcolumn
    rw [htext] at h
    cases h
  · rw [Ref.write_refused hcolumn] at h
    cases h
    exact ⟨hcolumn, _, rfl⟩

theorem Area.start_mem_cells (area : Area) : area.start ∈ area.cells := by
  rw [mem_cells]
  simp only [top, bottom, left, right]
  omega

theorem Area.stop_mem_cells (area : Area) : area.stop ∈ area.cells := by
  rw [mem_cells]
  simp only [top, bottom, left, right]
  omega

namespace Formula

theorem named_range_iff {name : String} {area : Area} :
    (range name area).Named ↔
      (0 ≤ area.start.column ∧ area.start.column < Column.nameCount) ∧
        0 ≤ area.stop.column ∧ area.stop.column < Column.nameCount := by
  constructor
  · exact fun h => ⟨h _ area.start_mem_cells, h _ area.stop_mem_cells⟩
  · intro h r hr
    have hcolumn := (Area.mem_cells.mp hr).2
    simp only [Area.left, Area.right] at hcolumn
    omega

theorem named_binary_iff {name : String} {left right : Formula} :
    (binary name left right).Named ↔ left.Named ∧ right.Named :=
  List.forall_mem_append

/-! ## What can be written -/

/-- No part of a formula is missing. -/
def Whole : Formula → Prop
  | binary _ left right => left.Whole ∧ right.Whole
  | missing => False
  | _ => True

end Formula

section

variable {α β γ : Type} {x : Except Error α} {y : Except Error β}

/-- Two parts are put together if there are both. -/
theorem exists_both_iff {both : α → β → γ} :
    (∃ c, (do let a ← x; let b ← y; return both a b) = .ok c) ↔
      (∃ a, x = .ok a) ∧ ∃ b, y = .ok b := by
  constructor
  · rintro ⟨c, hc⟩
    obtain ⟨a, ha, hrest⟩ := bind_eq_ok_iff.mp hc
    obtain ⟨b, hb, -⟩ := bind_eq_ok_iff.mp hrest
    exact ⟨⟨a, ha⟩, b, hb⟩
  · rintro ⟨⟨a, rfl⟩, b, rfl⟩
    exact ⟨both a b, rfl⟩

theorem both_eq_error {both : α → β → γ} {why : Error}
    (h : (do let a ← x; let b ← y; return both a b) = .error why) :
    x = .error why ∨ y = .error why := by
  cases x with
  | error first =>
    cases h
    exact .inl rfl
  | ok a =>
    cases y with
    | error second =>
      cases h
      exact .inr rfl
    | ok b => cases h

end

namespace Formula

variable {f : Formula} {room : Nat} {why : Error} {cell : Ref → Except Error Float} {value : Float}

/-- A formula can be written exactly if it is whole, the columns in it have names and there is room for
its operations inside one another. -/
theorem exists_writeWithin_iff :
    (∃ text, f.writeWithin room = .ok text) ↔ f.Whole ∧ f.Named ∧ f.nesting < room := by
  -- The operands are written with less room, so the induction is on the room and not on the formula.
  induction room generalizing f with
  | zero => simp [writeWithin]
  | succ room ih =>
    cases f with
    | constant value text => simp [writeWithin, Whole, Named, refs, nesting]
    | ref r =>
      rw [writeWithin, Ref.exists_write_iff]
      simp [Whole, Named, refs, nesting]
    | binary name left right =>
      rw [writeWithin, exists_both_iff, ih, ih, named_binary_iff]
      simp only [Whole, nesting, Nat.add_lt_add_iff_right, max_lt_iff]
      tauto
    | range name area =>
      rw [writeWithin, exists_both_iff, Ref.exists_write_iff, Ref.exists_write_iff, named_range_iff]
      simp [Whole, nesting]
    | missing => simp [writeWithin, Whole]

/-- A formula without a missing part is refused for one of its columns or for its depth. -/
theorem refused_of_writeWithin (hf : f.Whole) (h : f.writeWithin room = .error why) :
    (¬ f.Named ∧ ∃ index, why = .badColumnIndex index) ∨
      (room ≤ f.nesting ∧ why = .tooDeepToWrite) := by
  induction room generalizing f with
  | zero =>
    cases h
    exact .inr ⟨Nat.zero_le _, rfl⟩
  | succ room ih =>
    cases f with
    | constant value text => cases h
    | ref r =>
      obtain ⟨hcolumn, hindex⟩ := Ref.refused_of_write h
      exact .inl ⟨fun hnamed => hcolumn (hnamed r (by simp [refs])), hindex⟩
    | binary name left right =>
      rw [named_binary_iff, nesting]
      rcases both_eq_error h with hleft | hright
      · exact (ih hf.1 hleft).imp (And.imp_left (mt And.left)) (And.imp_left (by omega))
      · exact (ih hf.2 hright).imp (And.imp_left (mt And.right)) (And.imp_left (by omega))
    | range name area =>
      rw [named_range_iff]
      rcases both_eq_error h with hstart | hstop
      · exact .inl ((Ref.refused_of_write hstart).imp_left (mt And.left))
      · exact .inl ((Ref.refused_of_write hstop).imp_left (mt And.right))
    | missing => exact hf.elim

theorem whole_of_valueBy (h : f.valueBy cell = .ok value) : f.Whole := by
  induction f generalizing value with
  | binary name left right ihleft ihright =>
    obtain ⟨x, hx, hrest⟩ := bind_eq_ok_iff.mp h
    obtain ⟨y, hy, -⟩ := bind_eq_ok_iff.mp hrest
    exact ⟨ihleft hx, ihright hy⟩
  | missing => cases h
  | _ => trivial

/-- A formula that has a value can be written exactly if the columns in it have names and there is
room for its operations. -/
theorem exists_write_iff_of_value (h : f.valueBy cell = .ok value) :
    (∃ text, f.write = .ok text) ↔ f.Named ∧ f.nesting < writingLimit :=
  exists_writeWithin_iff.trans (and_iff_right (whole_of_valueBy h))

theorem WellFormed.whole (hf : f.WellFormed) : f.Whole := by
  induction f with
  | binary name left right ihleft ihright => exact ⟨ihleft hf.2.1, ihright hf.2.2⟩
  | missing => exact hf.elim
  | _ => trivial

theorem WellFormed.named (hf : f.WellFormed) : f.Named :=
  fun r hr => (hf.refs_inSheet r hr).column_named

/-- Only its depth can keep a well-formed formula from being written. -/
theorem WellFormed.refused_of_write (hf : f.WellFormed) (h : f.write = .error why) :
    writingLimit ≤ f.nesting ∧ why = .tooDeepToWrite :=
  (refused_of_writeWithin hf.whole h).resolve_left fun ⟨hunnamed, _⟩ => hunnamed hf.named

theorem WellFormed.exists_write_iff (hf : f.WellFormed) :
    (∃ text, f.write = .ok text) ↔ f.nesting < writingLimit := by
  rw [write, exists_writeWithin_iff, and_iff_right hf.whole, and_iff_right hf.named]

theorem WellFormed.write_of_deep (hf : f.WellFormed) (hdeep : writingLimit ≤ f.nesting) :
    f.write = .error .tooDeepToWrite := by
  cases hwrite : f.write with
  | ok text => exact absurd (hf.exists_write_iff.mp ⟨text, hwrite⟩) (not_lt.mpr hdeep)
  | error why => rw [(hf.refused_of_write hwrite).2]

/-! ## Formulas that are read -/

/-- Each operation on two numbers is a call. -/
theorem nesting_le_openCalls (f : Formula) : f.nesting ≤ f.openCalls := by
  induction f with
  | binary name left right ihleft ihright =>
    simp only [nesting, openCalls]
    omega
  | _ => exact Nat.zero_le _

theorem Readable.nesting_le (hf : f.Readable) : f.nesting ≤ nestingLimit :=
  f.nesting_le_openCalls.trans hf.openCalls_le

theorem nestingLimit_lt_writingLimit : nestingLimit < writingLimit := by decide

theorem Readable.exists_write (hf : f.Readable) : ∃ text, f.write = .ok text :=
  hf.wellFormed.exists_write_iff.mpr (hf.nesting_le.trans_lt nestingLimit_lt_writingLimit)

end Formula

end Worksheet
