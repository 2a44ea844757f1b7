import Worksheet.Proofs.Bounded

/-!
# Well-formed formulas

A formula is well formed if its operations are among the six, its references and the corners of its
rectangles lead to cells of a sheet, and no part of it is missing. Such a formula has a value
wherever its cells have values (`Formula.WellFormed.exists_valueBy`).
-/

namespace Worksheet

/-- Known operations, references to cells of the sheet only, and no missing part. -/
def Formula.WellFormed : Formula → Prop
  | constant _ _ => True
  | ref r => r.InSheet
  | binary name left right =>
    name ∈ ["add", "sub", "mul", "div"] ∧ left.WellFormed ∧ right.WellFormed
  | range name area => name ∈ ["sum", "prod"] ∧ area.start.InSheet ∧ area.stop.InSheet
  | missing => False

instance (r : Ref) : Decidable r.InSheet :=
  inferInstanceAs (Decidable ((0 ≤ r.row ∧ r.row < rowCount) ∧ _))

instance Formula.decidableWellFormed : (f : Formula) → Decidable f.WellFormed
  | constant _ _ => isTrue trivial
  | ref r => inferInstanceAs (Decidable r.InSheet)
  | binary name left right =>
    have := left.decidableWellFormed
    have := right.decidableWellFormed
    inferInstanceAs (Decidable (name ∈ _ ∧ left.WellFormed ∧ right.WellFormed))
  | range name area =>
    inferInstanceAs (Decidable (name ∈ _ ∧ area.start.InSheet ∧ area.stop.InSheet))
  | missing => isFalse id

/-! ## Names of operations -/

theorem BinaryOp.isSome_ofName?_iff {name : String} :
    (BinaryOp.ofName? name).isSome ↔ name ∈ ["add", "sub", "mul", "div"] := by
  unfold BinaryOp.ofName?
  split <;> simp_all

theorem RangeOp.isSome_ofName?_iff {name : String} :
    (RangeOp.ofName? name).isSome ↔ name ∈ ["sum", "prod"] := by
  unfold RangeOp.ofName?
  split <;> simp_all

theorem BinaryOp.exists_named {name : String} (h : name ∈ ["add", "sub", "mul", "div"]) :
    ∃ op, BinaryOp.named name = .ok op := by
  obtain ⟨op, hop⟩ := Option.isSome_iff_exists.mp (BinaryOp.isSome_ofName?_iff.mpr h)
  exact ⟨op, by simp only [BinaryOp.named, hop]⟩

theorem RangeOp.exists_named {name : String} (h : name ∈ ["sum", "prod"]) :
    ∃ op, RangeOp.named name = .ok op := by
  obtain ⟨op, hop⟩ := Option.isSome_iff_exists.mp (RangeOp.isSome_ofName?_iff.mpr h)
  exact ⟨op, by simp only [RangeOp.named, hop]⟩

/-! ## Cells of a rectangle -/

theorem Area.mem_span {low high i : Int} : i ∈ Area.span low high ↔ low ≤ i ∧ i ≤ high := by
  simp only [Area.span, List.mem_map, List.mem_range]
  constructor
  · rintro ⟨k, hk, rfl⟩
    omega
  · intro h
    exact ⟨(i - low).toNat, by omega, by omega⟩

theorem Area.mem_cells {area : Area} {r : Ref} :
    r ∈ area.cells ↔
      (area.top ≤ r.row ∧ r.row ≤ area.bottom) ∧ area.left ≤ r.column ∧ r.column ≤ area.right := by
  simp only [Area.cells, List.mem_flatMap, List.mem_map, Area.mem_span]
  constructor
  · rintro ⟨row, hrow, column, hcolumn, rfl⟩
    exact ⟨hrow, hcolumn⟩
  · rintro ⟨hrow, hcolumn⟩
    exact ⟨r.row, hrow, r.column, hcolumn, rfl⟩

theorem Area.inSheet_of_mem_cells {area : Area} (hstart : area.start.InSheet)
    (hstop : area.stop.InSheet) {r : Ref} (hr : r ∈ area.cells) : r.InSheet := by
  rw [Area.mem_cells] at hr
  simp only [Area.top, Area.bottom, Area.left, Area.right] at hr
  unfold Ref.InSheet at hstart hstop ⊢
  omega

theorem Formula.WellFormed.refs_inSheet {f : Formula} (hf : f.WellFormed) :
    ∀ r ∈ f.refs, r.InSheet := by
  induction f with
  | constant value text => simp [refs]
  | ref r => simpa [refs, WellFormed] using hf
  | binary name left right ihleft ihright =>
    intro r hr
    rcases List.mem_append.mp hr with h | h
    · exact ihleft hf.2.1 r h
    · exact ihright hf.2.2 r h
  | range name area => exact fun r hr => Area.inSheet_of_mem_cells hf.2.1 hf.2.2 hr
  | missing => exact hf.elim

/-! ## Values of well-formed formulas -/

theorem exists_mapM {α β : Type} {xs : List α} {f : α → Except Error β}
    (h : ∀ x ∈ xs, ∃ y, f x = .ok y) : ∃ ys, xs.mapM f = .ok ys := by
  induction xs with
  | nil => exact ⟨[], rfl⟩
  | cons x xs ih =>
    obtain ⟨y, hy⟩ := h x List.mem_cons_self
    obtain ⟨ys, hys⟩ := ih fun x' hx' => h x' (List.mem_cons_of_mem _ hx')
    exact ⟨y :: ys, by rw [List.mapM_cons, hy, hys]; rfl⟩

theorem Formula.WellFormed.exists_valueBy {f : Formula} (hf : f.WellFormed)
    {cell : Ref → Except Error Float} (hcell : ∀ r ∈ f.refs, ∃ value, cell r = .ok value) :
    ∃ value, f.valueBy cell = .ok value := by
  induction f with
  | constant value text => exact ⟨value, rfl⟩
  | ref r => exact hcell r (by simp [refs])
  | binary name left right ihleft ihright =>
    obtain ⟨x, hx⟩ := ihleft hf.2.1 fun r hr => hcell r (by simp [refs, hr])
    obtain ⟨y, hy⟩ := ihright hf.2.2 fun r hr => hcell r (by simp [refs, hr])
    obtain ⟨op, hop⟩ := BinaryOp.exists_named hf.1
    exact ⟨op.apply x y, by simp only [valueBy, hx, hy, hop]; rfl⟩
  | range name area =>
    obtain ⟨values, hvalues⟩ := exists_mapM hcell
    obtain ⟨op, hop⟩ := RangeOp.exists_named hf.1
    refine ⟨op.apply values, ?_⟩
    unfold valueBy
    rw [show area.cells.mapM cell = .ok values from hvalues, hop]
    rfl
  | missing => exact hf.elim

/-! ## Columns with names -/

theorem Ref.exists_write_of_column {r : Ref}
    (h : 0 ≤ r.column ∧ r.column < Column.nameCount) : ∃ text, r.write = .ok text :=
  ⟨_, by simp only [Ref.write, Column.name, if_pos h]; rfl⟩

/-- The columns of a sheet are among those that have names. -/
theorem Ref.InSheet.column_named {r : Ref} (hr : r.InSheet) :
    0 ≤ r.column ∧ r.column < Column.nameCount := by
  unfold Ref.InSheet at hr
  simp only [columnCount, Column.nameCount] at hr ⊢
  omega

end Worksheet
