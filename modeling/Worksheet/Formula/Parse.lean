import Worksheet.Formula.Basic
import Worksheet.Number.Literal
import Worksheet.Token.Scan

/-!
# Reading formulas

A formula is a reference, a constant, or an operation name with its arguments in parentheses: two
formulas with a comma between them for an operation on two numbers, two references with a colon
between them for any other name. The reader follows a bounded number of calls inside one another;
`room` counts how many more may be opened.
-/

namespace Worksheet.Formula

/-- How many calls may be open at once in a formula that is read. -/
def nestingLimit : Nat := 496

/-- Takes a token of the given class off the front. -/
def expect (wanted : Token.Kind) : List Token → Except FormulaError (Token × List Token)
  | [] => .error (.expected wanted none)
  | t :: rest => if t.kind = wanted then .ok (t, rest) else .error (.expected wanted (some t))

def refOfToken (t : Token) : Except FormulaError Ref :=
  match Ref.ofText? t.text with
  | some r => .ok r
  | none => .error (.badReference t)

/-- Takes a rectangle in parentheses off the front, the open parenthesis being taken already. -/
def takeArea (tokens : List Token) : Except FormulaError (Area × List Token) := do
  let (first, tokens) ← expect .reference tokens
  let start ← refOfToken first
  let (_, tokens) ← expect .colon tokens
  let (second, tokens) ← expect .reference tokens
  let stop ← refOfToken second
  let (_, tokens) ← expect .closeParen tokens
  return (⟨start, stop⟩, tokens)

def take : Nat → List Token → Except FormulaError (Formula × List Token)
  | _, [] => .error .endOfFormula
  | room, t :: tokens =>
    match t.kind, room with
    | .reference, _ => do return (ref (← refOfToken t), tokens)
    | .constant, _ => .ok (constant (Number.read t.text) t.text, tokens)
    | .function, 0 => .error .nestedTooDeeply
    | .function, room + 1 => do
      let (_, tokens) ← expect .openParen tokens
      if (BinaryOp.ofName? t.text).isSome then
        let (left, tokens) ← take room tokens
        let (_, tokens) ← expect .comma tokens
        let (right, tokens) ← take room tokens
        let (_, tokens) ← expect .closeParen tokens
        return (binary t.text left right, tokens)
      else
        let (area, tokens) ← takeArea tokens
        return (range t.text area, tokens)
    | _, _ => .error (.notAnOperand t)

def ofTokens (tokens : List Token) : Except FormulaError Formula := do
  match ← take nestingLimit tokens with
  | (formula, []) => return formula
  | (_, t :: _) => throw (.trailing t)

/-- The formula that a text is, without the mark that begins one in a cell. -/
def ofChars (cs : List Char) : Except FormulaError Formula := ofTokens (Token.scan cs)

end Worksheet.Formula
