import Worksheet.Datum
import Worksheet.Token.Basic

/-!
# What can go wrong

`FormulaError` says why a text is no formula, `Error` why a request to a worksheet has no answer.
Both name the cause; the wording is in `message`.
-/

namespace Worksheet

/-- The number of rows of a sheet, numbered from zero. -/
abbrev rowCount : Nat := 100

/-- The number of columns of a sheet, lettered from A to Z. -/
abbrev columnCount : Nat := 26

/-- Why tokens are not a formula. -/
inductive FormulaError where
  | endOfFormula
  | trailing (token : Token)
  /-- A token of one class has to stand where another one, or none, is found. -/
  | expected (wanted : Token.Kind) (found : Option Token)
  /-- An operand should begin where a token stands that begins none. -/
  | notAnOperand (token : Token)
  /-- A token is marked as a reference and does not spell one. -/
  | badReference (token : Token)
  /-- More calls are open at once than the reader follows. -/
  | nestedTooDeeply
deriving DecidableEq, Repr

def FormulaError.message : FormulaError → String
  | endOfFormula => "Unexpected end of formula"
  | trailing t =>
    "Unexpected " ++ t.kind.name ++ " '" ++ t.text ++ "' at position " ++ toString t.position
  | expected wanted (some t) =>
    "Expected " ++ wanted.name ++ ", got " ++ t.kind.name ++ " at position " ++ toString t.position
  | expected wanted none => "Expected " ++ wanted.name ++ ", got end of formula at position end"
  | notAnOperand t =>
    "Unexpected token: " ++ t.kind.name ++ " at position " ++ toString t.position
  | badReference t =>
    "Invalid cell reference: " ++ t.text ++ " at position " ++ toString t.position
  | nestedTooDeeply => "Formula is nested too deeply"

/-- Why a request has no answer. -/
inductive Error where
  | malformed (why : FormulaError)
  | unknownOperation (name : String)
  /-- The row and the column are not those of a cell. -/
  | outsideSheet (row column : Datum)
  | badCoordinate (text : String)
  | badColumnIndex (index : Int)
  | badColumnName (name : String)
  | missingPart
  /-- A formula has more operations inside one another than can be put in writing. -/
  | tooDeepToWrite
  /-- A chain of references keeps more evaluations open at once than allowed. -/
  | stackExhausted

def Error.message : Error → String
  | malformed why => why.message
  | unknownOperation name => name
  | outsideSheet row column =>
    "Cell (" ++ row.shown ++ ", " ++ column.shown ++ ") is outside the " ++ toString rowCount ++
      "x" ++ toString columnCount ++ " grid"
  | badCoordinate text => "Invalid cell coordinate: " ++ Text.quote text
  | badColumnIndex index => "Invalid column index " ++ toString (index + 1)
  | badColumnName name =>
    "'" ++ name ++ "' is not a valid column name. Column names are from A to ZZZ"
  | missingPart => "Unknown node type: <class 'NoneType'>"
  | tooDeepToWrite => "maximum recursion depth exceeded"
  | stackExhausted => "Reference chain is nested too deeply to evaluate"

end Worksheet
