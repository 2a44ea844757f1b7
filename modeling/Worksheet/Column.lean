import Worksheet.Error
import Worksheet.Text.Uppercase

/-!
# Columns and their names

Columns are counted from zero and named A to Z, then AA to ZZ, then AAA to ZZZ. There are more
names than a sheet has columns: formulas may mention columns beyond the sheet.
-/

namespace Worksheet.Column

def nameCount : Nat := 26 + 26 * 26 + 26 * 26 * 26

def letter (n : Nat) : Char := Char.ofNat ('A'.toNat + n)

/-- The name of a column. Names of one length follow those that are shorter, which is what taking
one off the remaining columns accounts for. -/
def letters (n : Nat) : List Char :=
  if n < 26 then [letter n] else letters (n / 26 - 1) ++ [letter (n % 26)]

def name (index : Int) : Except Error String :=
  if 0 ≤ index ∧ index < nameCount then .ok (String.ofList (letters index.toNat))
  else .error (.badColumnIndex index)

/-- The index of a column from the letters of its name, in capitals. -/
def indexOfLetters (cs : List Char) : Int :=
  cs.foldl (fun n c => 26 * n + (c.toNat - 'A'.toNat + 1)) (0 : Nat) - 1

/-- The index of the column with the given name, in letters of either case. -/
def index (name : String) : Except Error Int :=
  let capitals := Text.uppercase name.toList
  if capitals.all Char.isUpper && 0 < capitals.length && capitals.length ≤ 3 then
    .ok (indexOfLetters capitals)
  else .error (.badColumnName (String.ofList capitals))

/-- A column given by its name or by its index. -/
inductive Given where
  | name (text : String)
  | index (n : Int)

/-- The index of a column; one that is given by its index is not checked. -/
def Given.toIndex : Given → Except Error Int
  | name text => Column.index text
  | index n => .ok n

/-- The name of a column; one that is given by its name is not checked. -/
def Given.toName : Given → Except Error String
  | name text => .ok text
  | index n => Column.name n

end Worksheet.Column
