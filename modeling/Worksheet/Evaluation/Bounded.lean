import Worksheet.Sheet

/-!
# Evaluation within a depth limit

Reading a cell from a formula goes one level deeper. A cell that is reached below the depth limit
is not read at all: it is not a number there. So evaluation ends on every sheet, also where cells
refer to one another in a circle.

`Sheet.valueAt` is the plain recursion; it says what values are, and computes the same cells over
and over.
-/

namespace Worksheet

/-- The value of a formula, if `cell` gives the values of cells. Of an operation the operands come
first, from left to right, and then its name is looked up. -/
def Formula.valueBy (cell : Ref → Except Error Float) : Formula → Except Error Float
  | constant value _ => .ok value
  | ref r => cell r
  | binary name left right => do
    let x ← left.valueBy cell
    let y ← right.valueBy cell
    let op ← BinaryOp.named name
    return op.apply x y
  | range name area => do
    let values ← area.cells.mapM cell
    let op ← RangeOp.named name
    return op.apply values
  | missing => .error .missingPart

namespace Sheet

/-- The value of a cell that is read at a depth. The formula in it is one level deeper. -/
def cellValue (s : Sheet) (limit depth : Int) (r : Ref) : Except Error Float :=
  if limit < depth then .ok Number.nan
  else do
    let a ← r.address
    (s.entry a).formula.valueBy (s.cellValue limit (depth + 1))
termination_by (limit + 1 - depth).toNat
decreasing_by omega

/-- The value of a formula that is evaluated at a depth. -/
def valueAt (s : Sheet) (limit depth : Int) (f : Formula) : Except Error Float :=
  f.valueBy (s.cellValue limit depth)

end Sheet

end Worksheet
