import Worksheet.Token.Basic
import Worksheet.Operation
import Worksheet.Text.Blank

/-!
# Cutting formula text into tokens

At each character that is not blank a token begins. What it is depends on the text from there on,
tried in a fixed order: a cell reference; the name of an operation with an open parenthesis behind
it; a punctuation mark; and otherwise a constant, which runs up to the next blank, comma or
parenthesis. A colon is a mark only right behind a reference, anywhere else it belongs to a
constant.
-/

namespace Worksheet.Token

open Worksheet.Text

/-- Whether a character ends a constant and is a token of its own. -/
def isMark (c : Char) : Bool := c == ',' || c == '(' || c == ')'

/-- The length of the cell reference at the front: a letter and one or two digits, two if there
are two. -/
def referenceLength? : List Char → Option Nat
  | letter :: digit :: rest =>
    if letter.isAlpha && digit.isDigit then
      some (if (rest.head?.map Char.isDigit).getD false then 3 else 2)
    else none
  | _ => none

/-- The length of the operation name at the front: all letters there, if they spell a name and a
parenthesis follows, perhaps after blanks. -/
def functionLength? (cs : List Char) : Option Nat :=
  let word := cs.takeWhile Char.isAlpha
  let behind := (cs.drop word.length).dropWhile isBlank
  if isOperationName (String.ofList (word.map Char.toLower)) && behind.head? == some '(' then
    some word.length
  else none

/-- The class and the length of the token at the front of a text that begins with `c`. -/
def atFront (afterReference : Bool) (c : Char) (rest : List Char) : Kind × Nat :=
  match referenceLength? (c :: rest), functionLength? (c :: rest) with
  | some n, _ => (.reference, n)
  | none, some n => (.function, n)
  | none, none =>
    if c == '(' then (.openParen, 1)
    else if c == ')' then (.closeParen, 1)
    else if c == ',' then (.comma, 1)
    else if c == ':' && afterReference then (.colon, 1)
    else (.constant, 1 + (rest.takeWhile fun d => !isBlank d && !isMark d).length)

def Kind.spell (kind : Kind) (cs : List Char) : String :=
  match kind with
  | .reference => String.ofList (cs.map Char.toUpper)
  | .function => String.ofList (cs.map Char.toLower)
  | _ => String.ofList cs

/-- The tokens of a text that begins at `position`. -/
def scanFrom (position : Nat) (afterReference : Bool) : List Char → List Token
  | [] => []
  | c :: rest =>
    if isBlank c then scanFrom (position + 1) afterReference rest
    else
      let (kind, length) := atFront afterReference c rest
      ⟨kind, kind.spell ((c :: rest).take length), position⟩ ::
        scanFrom (position + length) (kind == .reference) (rest.drop (length - 1))
termination_by cs => cs.length
decreasing_by
  all_goals
    simp only [List.length_cons, List.length_drop]
    omega

def scan (cs : List Char) : List Token := scanFrom 0 false cs

end Worksheet.Token
