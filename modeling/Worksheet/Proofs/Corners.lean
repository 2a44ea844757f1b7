import Worksheet.Evaluation.Run
import Worksheet.Proofs.WellFormed

/-!
# Rectangles and their corners

Two opposite corners name a rectangle, and it has four such names. Whichever is used, its cells are
the same and in the same order: row by row, each row from the left, no cell twice
(`Area.cells_pairwise`, `Area.cells_of_mem_namings`). All that an evaluation asks of a rectangle is
this list. So formulas that differ only in how their rectangles are named do the same in any
evaluation, step by step (`Formula.Renamed.readBy_eq`): they read the same cells in the same order,
remember the same and fail at the same place.
-/

namespace Worksheet

/-! ## The order of cells -/

/-- One cell comes before another when a sheet is read row by row. -/
def Ref.Before (r r' : Ref) : Prop := r.row < r'.row ∨ r.row = r'.row ∧ r.column < r'.column

theorem Ref.Before.ne {r r' : Ref} (h : r.Before r') : r ≠ r' := by
  rintro rfl
  unfold Before at h
  omega

namespace Area

theorem span_pairwise (low high : Int) : (span low high).Pairwise (· < ·) := by
  rw [span, List.pairwise_map]
  apply List.pairwise_lt_range.imp
  intro i j hij
  omega

/-- The cells of a rectangle come in the order of the sheet. -/
theorem cells_pairwise (area : Area) : area.cells.Pairwise Ref.Before := by
  rw [cells, List.pairwise_flatMap]
  constructor
  · intro row _
    rw [List.pairwise_map]
    exact (span_pairwise area.left area.right).imp fun hcolumn => .inr ⟨rfl, hcolumn⟩
  · apply (span_pairwise area.top area.bottom).imp
    intro row row' hrow r hr r' hr'
    obtain ⟨column, -, rfl⟩ := List.mem_map.mp hr
    obtain ⟨column', -, rfl⟩ := List.mem_map.mp hr'
    exact .inl hrow

theorem cells_nodup (area : Area) : area.cells.Nodup := area.cells_pairwise.imp Ref.Before.ne

/-! ## The names of a rectangle -/

/-- The rectangle with the other two corners for its name. -/
def otherDiagonal (area : Area) : Area :=
  ⟨⟨area.start.column, area.stop.row⟩, ⟨area.stop.column, area.start.row⟩⟩

/-- The rectangle with its corners the other way round. -/
def swapped (area : Area) : Area := ⟨area.stop, area.start⟩

/-- A rectangle by all its names. -/
def namings (area : Area) : List Area :=
  [area, area.swapped, area.otherDiagonal, area.otherDiagonal.swapped]

theorem cells_congr {area area' : Area} (htop : area'.top = area.top)
    (hbottom : area'.bottom = area.bottom) (hleft : area'.left = area.left)
    (hright : area'.right = area.right) : area'.cells = area.cells := by
  rw [cells, cells, htop, hbottom, hleft, hright]

theorem cells_swapped (area : Area) : area.swapped.cells = area.cells :=
  cells_congr (Int.min_comm _ _) (Int.max_comm _ _) (Int.min_comm _ _) (Int.max_comm _ _)

theorem cells_otherDiagonal (area : Area) : area.otherDiagonal.cells = area.cells :=
  cells_congr (Int.min_comm _ _) (Int.max_comm _ _) rfl rfl

theorem cells_of_mem_namings {area area' : Area} (h : area' ∈ area.namings) :
    area'.cells = area.cells := by
  simp only [namings, List.mem_cons, List.not_mem_nil, or_false] at h
  rcases h with rfl | rfl | rfl | rfl
  · rfl
  · exact area.cells_swapped
  · exact area.cells_otherDiagonal
  · rw [cells_swapped, cells_otherDiagonal]

end Area

/-! ## Evaluation -/

/-- Formulas that differ at most in the corners by which their rectangles are named. -/
inductive Formula.Renamed : Formula → Formula → Prop where
  | constant (value : Float) (text : String) : Renamed (constant value text) (constant value text)
  | ref (r : Ref) : Renamed (ref r) (ref r)
  | binary {left left' right right' : Formula} (name : String) : Renamed left left' →
      Renamed right right' → Renamed (binary name left right) (binary name left' right')
  | range {area area' : Area} (name : String) : area' ∈ area.namings →
      Renamed (range name area) (range name area')
  | missing : Renamed missing missing

/-- Working out a formula takes the same steps whatever the names of its rectangles. -/
theorem Formula.Renamed.readBy_eq {f f' : Formula} (h : f.Renamed f') (allowance : Nat)
    (cell : Nat → Ref → Evaluation Float) (frames : Nat) :
    f'.readBy allowance cell frames = f.readBy allowance cell frames := by
  induction h generalizing frames with
  | constant value text => rfl
  | ref r => rfl
  | binary name _ _ ihleft ihright => simp only [readBy, ihleft, ihright]
  | range name hnaming => simp only [readBy, Area.cells_of_mem_namings hnaming]
  | missing => rfl

theorem Sheet.evaluate_renamed {f f' : Formula} (h : f.Renamed f') (s : Sheet) (limit depth : Int)
    (m : Memo) : s.evaluate limit depth f' m = s.evaluate limit depth f m := by
  simp only [evaluate, read, h.readBy_eq]

/-- **Rectangles and their corners.** A rectangle consists of the cells between its corners, each
once, in the order of the sheet, and by each of its four names it is the same list of cells. On any
sheet, with any limit, at any depth and with anything in the memo, an operation of any name on it
has the same value or fails in the same way, with the same number of references cut off. -/
theorem Sheet.evaluate_corners (area : Area) :
    (∀ r : Ref, r ∈ area.cells ↔
      (min area.start.row area.stop.row ≤ r.row ∧ r.row ≤ max area.start.row area.stop.row) ∧
        min area.start.column area.stop.column ≤ r.column ∧
          r.column ≤ max area.start.column area.stop.column) ∧
      area.cells.Nodup ∧ area.cells.Pairwise Ref.Before ∧
      ∀ area' ∈ area.namings, area'.cells = area.cells ∧
        ∀ (s : Sheet) (limit depth : Int) (name : String) (m : Memo),
          s.evaluate limit depth (.range name area') m =
            s.evaluate limit depth (.range name area) m := by
  refine ⟨fun r => Area.mem_cells, area.cells_nodup, area.cells_pairwise, fun area' h => ?_⟩
  refine ⟨Area.cells_of_mem_namings h, fun s limit depth name m => ?_⟩
  exact s.evaluate_renamed (.range name h) limit depth m

/-- Two columns and two rows, from the corner at the right above to the one at the left below. -/
example : (Area.mk ⟨1, -1⟩ ⟨0, 0⟩).cells = [⟨0, -1⟩, ⟨1, -1⟩, ⟨0, 0⟩, ⟨1, 0⟩] := by decide

end Worksheet
