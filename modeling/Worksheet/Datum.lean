import Worksheet.Number.Display
import Worksheet.Text.Quoted

/-!
# Values handed in as numbers of rows and columns

Callers may hand in anything where a row or a column is wanted. Whole numbers and truth values
serve as indices; the rest is refused, and the message shows what it was.
-/

namespace Worksheet

/-- A value of any shape that a caller may hand in. -/
inductive Datum where
  | absent
  | flag (b : Bool)
  | whole (n : Int)
  | number (x : Float)
  | text (s : String)
  | list (items : List Datum)
deriving Inhabited

namespace Datum

/-- The whole number that a value stands for as an index; truth values count as one and zero. -/
def index? : Datum → Option Int
  | flag b => some (if b then 1 else 0)
  | whole n => some n
  | _ => none

mutual

def shown : Datum → String
  | absent => "None"
  | flag b => if b then "True" else "False"
  | whole n => toString n
  | number x => Number.messageLayout.write x
  | text s => Text.quote s
  | list items => "[" ++ String.intercalate ", " (shownAll items) ++ "]"

def shownAll : List Datum → List String
  | [] => []
  | item :: items => item.shown :: shownAll items

end

end Datum

end Worksheet
