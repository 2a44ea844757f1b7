import Worksheet.Evaluation.Memo
import Worksheet.Sheet

/-!
# Evaluation as it is carried out

The evaluation of a formula on a sheet, with a `Memo` and within an allowance of open frames. A
frame is one activity that waits for another: working out a formula opens one, and so do an
operation on two numbers and the reading of a cell; an operation on a rectangle opens two. An
evaluation that would have more frames open than its allowance is given up. The allowance is
generous for chains as long as the depth limit, unless their formulas are deeply nested.
-/

namespace Worksheet

/-- Work in progress that carries a state along. The state is kept also when the work fails. -/
abbrev Evaluating (σ : Type) := ExceptT Error (StateM σ)

/-- An evaluation in progress. What it has found is kept also when it fails. -/
abbrev Evaluation := Evaluating Memo

variable {σ : Type}

/-- How many frames may be open at once in evaluations with the given depth limit: twenty for each
level, and never fewer than a thousand. -/
def frameAllowance (limit : Int) : Nat := (max 1000 (20 * (limit + 1))).toNat

/-- Opens one frame more than the `frames` that are open. -/
def openFrame (allowance frames : Nat) : Evaluating σ Unit :=
  if frames < allowance then pure () else throw .stackExhausted

/-- Works out a formula with `frames` frames open, if `cell` reads cells. -/
def Formula.readBy (allowance : Nat) (cell : Nat → Ref → Evaluating σ Float) :
    Nat → Formula → Evaluating σ Float
  | frames, constant value _ => do
    openFrame allowance frames
    return value
  | frames, ref r => do
    openFrame allowance frames
    cell (frames + 1) r
  | frames, binary name left right => do
    openFrame allowance frames
    let x ← left.readBy allowance cell (frames + 2)
    let y ← right.readBy allowance cell (frames + 2)
    let op ← BinaryOp.named name
    return op.apply x y
  | frames, range name area => do
    openFrame allowance frames
    let values ← area.cells.mapM (cell (frames + 3))
    let op ← RangeOp.named name
    return op.apply values
  | frames, missing => do
    openFrame allowance frames
    throw .missingPart

namespace Sheet

/-- Reads a cell at a depth, with `frames` frames open. The mark is set back while the formula of
the cell is worked out, and is afterwards no lower than it was before. -/
def readCell (s : Sheet) (limit : Int) (allowance : Nat) (depth : Int) (frames : Nat) (r : Ref) :
    Evaluation Float := do
  openFrame allowance frames
  modify (·.reach depth)
  if limit < depth then
    modify Memo.countCutOff
    return Number.nan
  else
    match (← get).known? limit depth r with
    | some (value, reached) =>
      modify (·.reach reached)
      return value
    | none =>
      let outer := (← get).deepest
      modify (·.descend depth)
      let a ← r.address
      let value ←
        (s.entry a).formula.readBy allowance (s.readCell limit allowance (depth + 1)) (frames + 1)
      modify fun m => (m.record limit depth r value).reach outer
      return value
termination_by (limit + 1 - depth).toNat
decreasing_by omega

def read (s : Sheet) (limit depth : Int) (f : Formula) : Evaluation Float :=
  let allowance := frameAllowance limit
  f.readBy allowance (s.readCell limit allowance depth) 0

/-- Evaluates a formula at a depth, with the memo `m` to begin with: the value and how many times
a reference was cut off by the depth limit, and the memo that is left. However the evaluation
ends, it leaves nothing in the memo. -/
def evaluate (s : Sheet) (limit depth : Int) (f : Formula) (m : Memo) :
    Except Error (Float × Nat) × Memo :=
  let (outcome, m) := (s.read limit depth f).run.run m
  (outcome.map fun value => (value, m.cutOffs), m.cleared)

end Sheet

end Worksheet
