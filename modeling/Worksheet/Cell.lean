import Worksheet.Column
import Worksheet.Text.Blank
import Worksheet.Text.DecimalDigit

/-!
# Cells and rectangles of cells

A `Ref` names a cell by its column and row, wherever that may lie; an `Address` is a cell of a
sheet. An `Area` is a rectangle, given by two opposite corners.
-/

namespace Worksheet

/-- A cell by its column and its row. It need not lie inside a sheet. -/
structure Ref where
  column : Int
  row : Int
deriving DecidableEq, Hashable, Repr

/-- A cell of a sheet. -/
structure Address where
  row : Fin rowCount
  column : Fin columnCount
deriving DecidableEq, Hashable, Repr

namespace Ref

/-- The cell of a sheet that is meant, if there is one. -/
def address? (r : Ref) : Option Address :=
  if h : (0 ≤ r.row ∧ r.row < rowCount) ∧ 0 ≤ r.column ∧ r.column < columnCount then
    some ⟨⟨r.row.toNat, by omega⟩, ⟨r.column.toNat, by omega⟩⟩
  else none

def address (r : Ref) : Except Error Address :=
  match r.address? with
  | some a => .ok a
  | none => .error (.outsideSheet (.whole r.row) (.whole r.column))

/-- A cell as formulas write it: the name of its column and the number of its row. -/
def write (r : Ref) : Except Error String := do
  return (← Column.name r.column) ++ toString r.row

def letterIndex? (c : Char) : Option Int :=
  if c.isAlpha then some (c.toUpper.toNat - 'A'.toNat : Nat) else none

/-- Reads a letter and one or two decimal digits of any script. -/
def ofChars? : List Char → Option Ref
  | letter :: digits => do
    let column ← letterIndex? letter
    if (digits.length == 1 || digits.length == 2) && digits.all Text.isDecimalDigit then
      some ⟨column, Text.digitsValue digits⟩
    else none
  | [] => none

/-- Reads the name of a cell, with nothing before or after it. -/
def ofText? (text : String) : Option Ref := ofChars? text.toList

/-- Reads the name of a cell between blanks. -/
def ofCoordinate (text : String) : Except Error Ref :=
  match ofChars? (Text.trim text.toList) with
  | some r => .ok r
  | none => .error (.badCoordinate text)

end Ref

namespace Address

/-- The cell of a sheet with the given row and column, whatever they were given as. -/
def ofData (row column : Datum) : Except Error Address :=
  match row.index?, column.index? with
  | some r, some c =>
    match (⟨c, r⟩ : Ref).address? with
    | some a => .ok a
    | none => .error (.outsideSheet row column)
  | _, _ => .error (.outsideSheet row column)

def ref (a : Address) : Ref := ⟨a.column.val, a.row.val⟩

/-- The place of a cell when a sheet is read row by row. -/
def place (a : Address) : Fin (rowCount * columnCount) :=
  ⟨a.row.val * columnCount + a.column.val, by
    have hrow := a.row.isLt
    have hcolumn := a.column.isLt
    simp only [rowCount, columnCount] at *
    omega⟩

def ofPlace (i : Fin (rowCount * columnCount)) : Address :=
  ⟨⟨i.val / columnCount, Nat.div_lt_of_lt_mul i.isLt⟩,
    ⟨i.val % columnCount, Nat.mod_lt _ (by decide)⟩⟩

theorem ofPlace_place (a : Address) : ofPlace a.place = a := by
  obtain ⟨⟨r, hr⟩, ⟨c, hc⟩⟩ := a
  have hcolumn : c < 26 := hc
  simp only [ofPlace, place, mk.injEq, Fin.mk.injEq, columnCount]
  omega

theorem place_ofPlace (i : Fin (rowCount * columnCount)) : (ofPlace i).place = i := by
  apply Fin.ext
  simp only [ofPlace, place]
  exact Nat.div_add_mod' i.val columnCount

def all : List Address := List.ofFn ofPlace

end Address

/-- A rectangle of cells, by any two opposite corners. -/
structure Area where
  start : Ref
  stop : Ref
deriving DecidableEq, Repr

namespace Area

/-- The integers from `low` to `high`, both included. -/
def span (low high : Int) : List Int :=
  (List.range (high + 1 - low).toNat).map fun i : Nat => low + i

def top (a : Area) : Int := min a.start.row a.stop.row

def bottom (a : Area) : Int := max a.start.row a.stop.row

def left (a : Area) : Int := min a.start.column a.stop.column

def right (a : Area) : Int := max a.start.column a.stop.column

/-- The cells of a rectangle, row by row and each row from the left. -/
def cells (a : Area) : List Ref :=
  (span a.top a.bottom).flatMap fun row => (span a.left a.right).map fun column => ⟨column, row⟩

end Area

end Worksheet
