/-!
# Tokens of formula text

The pieces into which the text of a formula is cut. A token knows where it began, counted in
characters from the start of the text, so that messages can point at it.
-/

namespace Worksheet

inductive Token.Kind where
  | reference
  | function
  | constant
  | openParen
  | closeParen
  | comma
  | colon
deriving DecidableEq, Repr

/-- The name of a class of tokens in messages. -/
def Token.Kind.name : Token.Kind → String
  | reference => "REFERENCE"
  | function => "FUNCTION"
  | constant => "CONSTANT"
  | openParen => "LPAREN"
  | closeParen => "RPAREN"
  | comma => "COMMA"
  | colon => "COLON"

/-- A piece of formula text. References are in capitals and function names in small letters,
however they were typed. -/
structure Token where
  kind : Token.Kind
  text : String
  position : Int
deriving DecidableEq, Repr

end Worksheet
