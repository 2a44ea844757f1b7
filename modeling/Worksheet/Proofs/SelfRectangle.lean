import Mathlib
import Worksheet.Proofs.Reads

/-!
# Rectangles that contain their own cell

A cell may hold an operation on a rectangle in which it lies itself. On the level at which the
depth limit cuts it off, all cells of the rectangle are cut off, literals too, and the operation is
left with what it starts from. Each level above puts the literals and the value of the level below
together once more (`SelfRectangle.valueAt_eq_iterate`, by induction on the room below the limit).
So the number of the cell is that one step, done once for each level from the top down to the limit
(`Sheet.number_of_selfRectangle`).
-/

namespace Worksheet

/-! ## Operations on a rectangle as folds -/

namespace RangeOp

/-- What an operation makes of no numbers at all. -/
def identity : RangeOp → Float
  | sum => 0
  | prod => 1

/-- Takes in one more value of a rectangle. A value that is not a number is passed over. -/
def accumulate (op : RangeOp) (total x : Float) : Float :=
  if Number.isNumber x then
    match op with
    | sum => total + x
    | prod => total * x
  else total

theorem accumulate_nan (op : RangeOp) (total : Float) :
    op.accumulate total Number.nan = total := if_neg (by decide)

theorem apply_eq_foldl (op : RangeOp) (values : List Float) :
    op.apply values = values.foldl op.accumulate op.identity := by
  cases op <;> exact List.foldl_filter

end RangeOp

/-- An operation on the values of a rectangle, taken in row by row and each row from the left. -/
def Area.fold (op : RangeOp) (area : Area) (value : Ref → Float) : Float :=
  area.cells.foldl (fun total r => op.accumulate total (value r)) op.identity

theorem Area.fold_nan (op : RangeOp) (area : Area) :
    area.fold op (fun _ => Number.nan) = op.identity :=
  List.foldl_fixed' (fun _ => op.accumulate_nan _) area.cells

theorem mapM_eq_ok {α β : Type} {xs : List α} {f : α → Except Error β} {g : α → β}
    (h : ∀ x ∈ xs, f x = .ok (g x)) : xs.mapM f = .ok (xs.map g) :=
  (mapM_congr_mem h).trans List.mapM_pure

/-- The value of an operation on a rectangle all of whose cells have values. -/
theorem Formula.valueBy_range {name : String} {op : RangeOp} (hop : RangeOp.named name = .ok op)
    {area : Area} {cell : Ref → Except Error Float} {value : Ref → Float}
    (h : ∀ r ∈ area.cells, cell r = .ok (value r)) :
    (range name area).valueBy cell = .ok (area.fold op value) := by
  simp only [valueBy, mapM_eq_ok h, hop, Report.ok_bind, RangeOp.apply_eq_foldl, List.foldl_map]
  rfl

namespace Sheet

/-- The cell `x` holds an operation on a rectangle with `x` in it, and every other cell of the
rectangle holds a literal: a number, or a text that is none. -/
structure SelfRectangle (s : Sheet) (x : Address) (op : RangeOp) (area : Area)
    (value : Ref → Float) : Prop where
  formula : ∃ name, RangeOp.named name = .ok op ∧ (s.entry x).formula = .range name area
  corners : area.start.InSheet ∧ area.stop.InSheet
  contains : x.ref ∈ area.cells
  literal : ∀ a : Address, a.ref ∈ area.cells → a ≠ x →
    ∃ text, (s.entry a).formula = .constant (value a.ref) text

namespace SelfRectangle

variable {s : Sheet} {x : Address} {op : RangeOp} {area : Area} {value : Ref → Float}

/-! ## Values -/

/-- Within the limit the other cells of the rectangle have the values of their literals. -/
theorem cellValue_eq (h : s.SelfRectangle x op area value) {limit depth : Int}
    (hdepth : depth ≤ limit) {v : Float}
    (hv : s.valueAt limit (depth + 1) (s.entry x).formula = .ok v) {r : Ref}
    (hr : r ∈ area.cells) :
    s.cellValue limit depth r = .ok (Function.update value x.ref v r) := by
  obtain ⟨a, ha⟩ := Ref.address_of_inSheet (Area.inSheet_of_mem_cells h.corners.1 h.corners.2 hr)
  obtain rfl := Ref.ref_of_address ha
  rw [cellValue_of_le s _ hdepth, ha]
  change s.valueAt limit (depth + 1) (s.entry a).formula = _
  by_cases hax : a = x
  · subst hax
    rw [Function.update_self]
    exact hv
  · obtain ⟨text, htext⟩ := h.literal a hr hax
    rw [Function.update_of_ne (Address.ref_injective.ne hax), htext]
    rfl

/-- The rectangle is gone through once for each level down to the limit. -/
theorem valueAt_eq_iterate (h : s.SelfRectangle x op area value) (limit depth : Int) :
    s.valueAt limit depth (s.entry x).formula =
      .ok ((fun v => area.fold op (Function.update value x.ref v))^[(limit + 1 - depth).toNat]
        op.identity) := by
  obtain ⟨name, hop, hformula⟩ := h.formula
  induction hroom : (limit + 1 - depth).toNat generalizing depth with
  | zero =>
    have hcells : ∀ r ∈ area.cells, s.cellValue limit depth r = .ok Number.nan :=
      fun r _ => cellValue_of_lt s r (by omega)
    rw [hformula, Function.iterate_zero_apply, ← Area.fold_nan op area]
    exact Formula.valueBy_range hop hcells
  | succ room ih =>
    have hbelow := ih (depth + 1) (by omega)
    have hcells := fun r hr => h.cellValue_eq (by omega) hbelow (r := r) hr
    rw [hformula, Function.iterate_succ_apply']
    exact Formula.valueBy_range hop hcells

/-! ## Numbers -/

/-- The cells of the rectangle lead to no others, and hold no operations on two numbers. -/
theorem nestsWithin (h : s.SelfRectangle x op area value) :
    s.NestsWithin 0 (· ∈ area.cells) := by
  obtain ⟨name, -, hformula⟩ := h.formula
  intro a ha
  by_cases hax : a = x
  · subst hax
    rw [hformula]
    exact ⟨Nat.le_refl 0, fun r hr => hr⟩
  · obtain ⟨text, htext⟩ := h.literal a ha hax
    rw [htext]
    exact ⟨Nat.le_refl 0, fun r hr => by cases hr⟩

theorem completes (h : s.SelfRectangle x op area value) (limit : Int) :
    (s.evaluate limit 0 (s.entry x).formula {}).1 ≠ .error .stackExhausted := by
  obtain ⟨hnesting, hrefs⟩ := h.nestsWithin x h.contains
  refine evaluate_completes_within h.nestsWithin hnesting hrefs ?_ {}
  unfold frameAllowance
  omega

theorem readable (h : s.SelfRectangle x op area value) : (s.entry x).formula.Readable := by
  obtain ⟨name, hop, hformula⟩ := h.formula
  have hname : (RangeOp.ofName? name).isSome := by
    unfold RangeOp.named at hop
    split at hop
    · rename_i found hfound
      exact hfound ▸ rfl
    · cases hop
  rw [hformula]
  exact ⟨⟨RangeOp.isSome_ofName?_iff.mp hname, h.corners⟩, (by decide : 1 ≤ Formula.nestingLimit)⟩

end SelfRectangle

/-- **Rectangles with their own cell.** The cell `x` holds an operation on a rectangle that contains
`x` and otherwise literals. With `f v` for what the operation makes of the rectangle when `v` stands
for `x`, the number of `x` is `f` done `limit + 1` times to what the operation starts from. -/
theorem number_of_selfRectangle {s : Sheet} {x : Address} {op : RangeOp} {area : Area}
    {value : Ref → Float} (h : s.SelfRectangle x op area value) (settings : Settings)
    {row column : Datum} (hgiven : x.GivenBy row column) (m : Memo) :
    let f : Float → Float := fun v => area.fold op (Function.update value x.ref v)
    (s.answer settings m (.number row column)).1.outcome =
      .ok (.number (f^[(settings.depthLimit + 1).toNat] op.identity)) := by
  intro f
  obtain ⟨cutOffs, hevaluate, -⟩ :=
    evaluate_agrees s settings.depthLimit 0 (s.entry x).formula (h.completes settings.depthLimit)
  have hvalue := h.valueAt_eq_iterate settings.depthLimit 0
  rw [Int.sub_zero] at hvalue
  rw [hvalue] at hevaluate
  have hmeasure : (s.measure settings 0 (s.entry x).formula).outcome =
      .ok (f^[(settings.depthLimit + 1).toNat] op.identity) :=
    outcome_measure_of_evaluate h.readable hevaluate
  simp [answer, Address.ofData_eq_ok_iff.mpr hgiven, outcome_number_of_ok hmeasure]

/-- The cell B0. -/
def besideFirst : Address := ⟨⟨0, by decide⟩, ⟨1, by decide⟩⟩

/-- Five in B0, and in A0 the sum of A0 and B0. -/
def accumulating : Sheet :=
  (empty.write besideFirst ⟨"5", .constant (Number.read "5") "5"⟩).write .first
    ⟨"=sum(A0:B0)", .range "sum" ⟨⟨0, 0⟩, ⟨1, 0⟩⟩⟩

theorem accumulating_selfRectangle : accumulating.SelfRectangle .first .sum ⟨⟨0, 0⟩, ⟨1, 0⟩⟩
    fun _ => Number.read "5" where
  formula := ⟨"sum", rfl, by rw [accumulating, entry_write_self]⟩
  corners := by decide
  contains := by decide
  literal a ha hne := by
    have hcells : (Area.mk ⟨0, 0⟩ ⟨1, 0⟩).cells = [Address.first.ref, besideFirst.ref] := by decide
    rw [hcells, List.mem_pair] at ha
    rcases ha with hfirst | hbeside
    · exact absurd (Address.ref_injective hfirst) hne
    · obtain rfl := Address.ref_injective hbeside
      exact ⟨"5", by rw [accumulating, entry_write_of_ne _ _ (by decide), entry_write_self]⟩

/-- Four levels with a limit of three: five, four times. -/
theorem number_of_accumulating :
    accumulating.SelfRectangle .first .sum ⟨⟨0, 0⟩, ⟨1, 0⟩⟩ (fun _ => Number.read "5") ∧
      (accumulating.answer ⟨3, false⟩ {} (.number (.whole 0) (.whole 0))).1.outcome =
        .ok (.number (Number.read "20")) := by
  have hgiven : Address.first.GivenBy (.whole 0) (.whole 0) := ⟨.whole 0, .whole 0⟩
  have hnumber := number_of_selfRectangle accumulating_selfRectangle ⟨3, false⟩ hgiven {}
  have htwenty : (fun v => (Area.mk ⟨0, 0⟩ ⟨1, 0⟩).fold .sum
      (Function.update (fun _ => Number.read "5") Address.first.ref v))^[4] RangeOp.sum.identity =
      Number.read "20" := by
    decide +kernel
  exact ⟨accumulating_selfRectangle, hnumber.trans (by rw [← htwenty]; rfl)⟩

end Sheet

end Worksheet
