import Worksheet.Number.Decimal
import Worksheet.Text.Blank
import Worksheet.Text.DecimalDigit

/-!
# Number literals

The texts that are numbers: decimal literals with digits of any script, `Infinity` with or without
a sign, and unsigned whole numbers in base sixteen, eight or two. Blanks around a literal do not
count. A text that is none of these is not a number, and neither is a blank one.
-/

namespace Worksheet.Number

open Worksheet.Text

/-- What a number literal stands for, exactly. -/
inductive Literal where
  | decimal (negative : Bool) (value : Decimal)
  | infinity (negative : Bool)
  | whole (value : Nat)
deriving DecidableEq, Repr

namespace Literal

/-- The double that a literal denotes. Zero keeps the sign it is written with. -/
def toFloat : Literal → Float
  | decimal negative value => ofMagnitude negative value.nearest
  | infinity negative => ofMagnitude negative Number.infinity
  | whole value => ofMagnitude false (nearest value 1)

/-- Takes a sign off the front; without one the sign is plus. -/
def takeSign : List Char → Bool × List Char
  | '-' :: rest => (true, rest)
  | '+' :: rest => (false, rest)
  | cs => (false, cs)

def takeDigits (cs : List Char) : List Char × List Char := cs.span isDecimalDigit

/-- The exponent at the end of a decimal literal, zero if there is none. -/
def exponent? : List Char → Option Int
  | [] => some 0
  | mark :: cs =>
    let (negative, rest) := takeSign cs
    let (digits, rest) := takeDigits rest
    if (mark == 'e' || mark == 'E') && !digits.isEmpty && rest.isEmpty then
      some (if negative then -(digitsValue digits : Int) else digitsValue digits)
    else none

def takeFraction : List Char → List Char × List Char
  | '.' :: rest => takeDigits rest
  | cs => ([], cs)

/-- A decimal literal: a sign, digits with a point among them or at either end, an exponent. -/
def decimal? (cs : List Char) : Option Literal :=
  let (negative, rest) := takeSign cs
  let (before, rest) := takeDigits rest
  let (behind, rest) := takeFraction rest
  if before.isEmpty && behind.isEmpty then none
  else (exponent? rest).map fun e =>
    decimal negative ⟨digitsValue (before ++ behind), e - behind.length⟩

/-- The word for infinity, with or without a sign. -/
def infinity? (cs : List Char) : Option Literal :=
  let (negative, rest) := takeSign cs
  if rest = "Infinity".toList then some (infinity negative) else none

def base? : Char → Option Nat
  | 'x' | 'X' => some 16
  | 'o' | 'O' => some 8
  | 'b' | 'B' => some 2
  | _ => none

def baseDigit? (base : Nat) (c : Char) : Option Nat :=
  let value :=
    if c.isDigit then c.toNat - '0'.toNat
    else if 'a' ≤ c ∧ c ≤ 'f' then c.toNat - 'a'.toNat + 10
    else if 'A' ≤ c ∧ c ≤ 'F' then c.toNat - 'A'.toNat + 10
    else base
  if value < base then some value else none

/-- A whole number in another base than ten: a zero, the letter of the base, digits. -/
def whole? : List Char → Option Literal
  | '0' :: letter :: digits => do
    let base ← base? letter
    let values ← digits.mapM (baseDigit? base)
    if values.isEmpty then none else some (whole (values.foldl (base * · + ·) 0))
  | _ => none

def ofChars? (cs : List Char) : Option Literal :=
  decimal? cs <|> infinity? cs <|> whole? cs

end Literal

def read (text : String) : Float :=
  match Literal.ofChars? (trim text.toList) with
  | some literal => literal.toFloat
  | none => nan

end Worksheet.Number
