import Worksheet.Cell
import Std.Data.HashMap

/-!
# What an evaluation remembers

During one evaluation each cell is worked out once for each depth at which it is read, and often
once for all. A value whose chain of references ended by itself holds wherever the chain stays
within the depth limit, so it is kept with the height of that chain. A value that was cut off by
the limit depends on the depth, and is kept for just that depth. Which of the two it is, and how
high the chain, is read off a mark: the greatest depth that was reached since the formula of the
cell was begun.
-/

namespace Worksheet

/-- What an evaluation has found so far. Between evaluations it is empty. -/
structure Memo where
  /-- The values of cells whose chains end by themselves, with the heights of the chains. -/
  settled : Std.HashMap Ref (Float × Int) := ∅
  /-- The values of cells that were cut off, for the depths at which the cells were read. -/
  cut : Std.HashMap (Ref × Int) Float := ∅
  /-- The greatest depth reached since the formula at hand was begun. -/
  deepest : Int := 0
  cutOffs : Nat := 0

namespace Memo

/-- Raises the mark to a depth that a chain has reached. -/
def reach (m : Memo) (depth : Int) : Memo := { m with deepest := max m.deepest depth }

/-- Sets the mark back to the depth at which a cell is read, before its formula is begun. -/
def descend (m : Memo) (depth : Int) : Memo := { m with deepest := depth }

def countCutOff (m : Memo) : Memo := { m with cutOffs := m.cutOffs + 1 }

/-- The value kept for a cell that was cut off when it was read at just this depth. -/
def knownCut? (m : Memo) (limit depth : Int) (r : Ref) : Option (Float × Int) :=
  (m.cut[(r, depth)]?).map fun value => (value, limit + 1)

/-- What is known of a cell that is read at a depth: its value, and the depth that its chains
reach. A settled value serves only if the chains stay within the limit from there. -/
def known? (m : Memo) (limit depth : Int) (r : Ref) : Option (Float × Int) :=
  match m.settled[r]? with
  | some (value, height) =>
    if depth + height ≤ limit then some (value, depth + height) else m.knownCut? limit depth r
  | none => m.knownCut? limit depth r

/-- Keeps the value of a cell that was read at a depth, the mark being where its formula has left
it. -/
def record (m : Memo) (limit depth : Int) (r : Ref) (value : Float) : Memo :=
  if m.deepest ≤ limit then { m with settled := m.settled.insert r (value, m.deepest - depth) }
  else { m with cut := m.cut.insert (r, depth) value }

def cleared (m : Memo) : Memo :=
  { m with settled := ∅, cut := ∅, deepest := 0, cutOffs := 0 }

end Memo

end Worksheet
