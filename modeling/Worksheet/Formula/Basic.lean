import Worksheet.Cell
import Worksheet.Operation
import Worksheet.Number.Display

/-!
# Formulas

A formula computes a number from constants and from the numbers in cells. Operations are kept by
name, since formulas need not come from a text: whether the name is known shows when the operation
is carried out.
-/

namespace Worksheet

inductive Formula where
  /-- A number, with the text that it was read from; the text is empty if there was none. -/
  | constant (value : Float) (text : String)
  | ref (cell : Ref)
  | binary (name : String) (left right : Formula)
  | range (name : String) (area : Area)
  /-- A place where a formula should be and is not. -/
  | missing
deriving DecidableEq, Repr

namespace Formula

/-- How many formulas, one inside the other, can be in writing at once. The allowance of an evaluation
does not count here: what is written is written when the evaluation has ended. -/
def writingLimit : Nat := 1000

/-- Writes a formula with `room` for so many formulas one inside the other. Constants are written as
they were read. -/
def writeWithin : Nat → Formula → Except Error String
  | 0, _ => .error .tooDeepToWrite
  | _ + 1, constant value text =>
    .ok (if text.isEmpty && Number.isNumber value then Number.display value else text)
  | _ + 1, ref cell => cell.write
  | room + 1, binary name left right => do
    let l ← left.writeWithin room
    let r ← right.writeWithin room
    return name ++ "(" ++ l ++ "," ++ r ++ ")"
  | _ + 1, range name area => do
    let start ← area.start.write
    let stop ← area.stop.write
    return name ++ "(" ++ start ++ ":" ++ stop ++ ")"
  | _ + 1, missing => .error .missingPart

/-- A formula as text, without the mark that begins one in a cell. -/
def write (f : Formula) : Except Error String := f.writeWithin writingLimit

end Formula

end Worksheet
