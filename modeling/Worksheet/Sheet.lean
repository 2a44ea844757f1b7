import Worksheet.Formula.Parse

/-!
# Sheets

A sheet keeps an entry in each of its cells: the text that the cell was given, and the formula that
the text stands for. Every text stands for a formula, so nothing that is entered in one cell keeps
the others from having values.
-/

namespace Worksheet

structure Entry where
  text : String
  formula : Formula
deriving DecidableEq, Repr

namespace Entry

/-- The character that begins a formula in a cell. -/
def formulaMark : Char := '='

/-- What a text stands for: behind the mark the formula that is written there, and without the mark
the number, if it is one, that the whole text spells. -/
def formula? (text : String) : Except FormulaError Formula :=
  match text.toList with
  | [] => .ok (.constant (Number.read text) text)
  | c :: rest =>
    if c = formulaMark then Formula.ofChars rest
    else .ok (.constant (Number.read text) text)

/-- The content of a cell whose text is no formula although it begins like one: it is kept for
showing and is not a number. -/
def malformed (text : String) : Entry := ⟨text, .constant Number.nan ""⟩

/-- The content of a cell that is given a text. -/
def ofText (text : String) : Entry :=
  match formula? text with
  | .ok formula => ⟨text, formula⟩
  | .error _ => malformed text

def empty : Entry := ⟨"", .constant Number.nan ""⟩

end Entry

/-- The entries of all cells, row by row. -/
structure Sheet where
  entries : Vector Entry (rowCount * columnCount)

namespace Sheet

def empty : Sheet := ⟨Vector.replicate _ Entry.empty⟩

def entry (s : Sheet) (a : Address) : Entry := s.entries[a.place]

def write (s : Sheet) (a : Address) (e : Entry) : Sheet :=
  ⟨s.entries.set a.place e⟩

@[simp] theorem entry_empty (a : Address) : empty.entry a = Entry.empty := by
  simp [empty, entry]

theorem entry_write_self (s : Sheet) (a : Address) (e : Entry) : (s.write a e).entry a = e := by
  simp [write, entry]

theorem entry_write_of_ne (s : Sheet) {a b : Address} (e : Entry) (h : a ≠ b) :
    (s.write a e).entry b = s.entry b := by
  have hplace : a.place.val ≠ b.place.val := by
    intro hab
    apply h
    rw [← Address.ofPlace_place a, ← Address.ofPlace_place b, Fin.ext hab]
  simp [write, entry, hplace]

end Sheet

end Worksheet
