import Worksheet.Error
import Worksheet.Number.Nearest

/-!
# The operations of formulas

Four operations on two numbers and two on the numbers of a rectangle. All follow the arithmetic of
doubles; division by zero gives an infinity, or no number for zero by zero.
-/

namespace Worksheet

inductive BinaryOp where
  | add
  | sub
  | mul
  | div
deriving DecidableEq, Repr

namespace BinaryOp

def ofName? : String → Option BinaryOp
  | "add" => some add
  | "sub" => some sub
  | "mul" => some mul
  | "div" => some div
  | _ => none

def named (name : String) : Except Error BinaryOp :=
  match ofName? name with
  | some op => .ok op
  | none => .error (.unknownOperation name)

def apply : BinaryOp → Float → Float → Float
  | add, x, y => x + y
  | sub, x, y => x - y
  | mul, x, y => x * y
  | div, x, y => x / y

end BinaryOp

inductive RangeOp where
  | sum
  | prod
deriving DecidableEq, Repr

namespace RangeOp

def ofName? : String → Option RangeOp
  | "sum" => some sum
  | "prod" => some prod
  | _ => none

def named (name : String) : Except Error RangeOp :=
  match ofName? name with
  | some op => .ok op
  | none => .error (.unknownOperation name)

/-- The values that take part in an operation on a rectangle: those that are numbers. -/
def numbers (values : List Float) : List Float := values.filter Number.isNumber

/-- Adds up or multiplies the numbers among the values, in their order. -/
def apply : RangeOp → List Float → Float
  | sum, values => (numbers values).foldl (· + ·) 0
  | prod, values => (numbers values).foldl (· * ·) 1

end RangeOp

def isOperationName (word : String) : Bool :=
  (BinaryOp.ofName? word).isSome || (RangeOp.ofName? word).isSome

end Worksheet
