import Worksheet.Session.Query
import Worksheet.Text.Replace

/-!
# Changing a sheet

Edits give texts to cells. An edit that is refused leaves the cell that it was meant for as it was.
-/

namespace Worksheet

namespace Sheet

def enter (settings : Settings) (s : Sheet) (row column : Datum) (text : String) :
    Report Sheet := do
  let entry ← Entry.noted settings text
  let address ← Address.ofData row column
  let name ← Column.name address.ref.column
  settings.note (.entered (name ++ row.shown) text)
  return s.write address entry

def enterAt (settings : Settings) (s : Sheet) (coordinate text : String) : Report Sheet := do
  let r ← Ref.ofCoordinate coordinate
  s.enter settings (.whole r.row) (.whole r.column) text

end Sheet

/-! ## Series -/

/-- A cell by its place, if the rows of a sheet are put one behind the other and go on beyond it. -/
def Ref.ofPlace (place : Int) : Ref := ⟨place.fmod columnCount, place.fdiv columnCount⟩

/-- The text for one cell of a series: the pattern with the names of the next cell and of the cell
itself in the place of their placeholders. The first cell of a sheet is the next of the last. -/
def seriesText (pattern : String) (place : Int) : Except Error String := do
  let next ← (Ref.ofPlace ((place + 1).fmod (rowCount * columnCount : Nat))).write
  let self ← (Ref.ofPlace place).write
  let named := Text.replaceAll "\x7bnext\x7d".toList next.toList pattern.toList
  return String.ofList (Text.replaceAll "\x7bself\x7d".toList self.toList named)

namespace Sheet

def enterPlace (settings : Settings) (s : Sheet) (pattern : String) (place : Int) :
    Report Sheet := do
  let r := Ref.ofPlace place
  s.enter settings (.whole r.row) (.whole r.column) (← seriesText pattern place)

/-- Gives texts to the cells of a series, one after the other; a refusal ends the series. -/
def enterSeries (settings : Settings) (pattern : String) : List Int → Sheet → Sheet × Report Unit
  | [], s => (s, pure ())
  | place :: places, s =>
    let first := s.enterPlace settings pattern place
    match first.outcome with
    | .ok s' =>
      let (last, rest) := enterSeries settings pattern places s'
      (last, ⟨first.events ++ rest.events, rest.outcome⟩)
    | .error e => (s, ⟨first.events, .error e⟩)

end Sheet

inductive Edit where
  | enter (row column : Datum) (text : String)
  | enterAt (coordinate text : String)
  /-- Gives texts to the cells from one place up to, but not including, another. -/
  | series (start stop : Int) (pattern : String)

/-- Keeps the sheet of an edit that was carried out, and the old one otherwise. -/
def Report.settle (old : Sheet) (r : Report Sheet) : Sheet × Report Unit :=
  match r.outcome with
  | .ok new => (new, ⟨r.events, .ok ()⟩)
  | .error e => (old, ⟨r.events, .error e⟩)

def Sheet.edit (settings : Settings) (s : Sheet) : Edit → Sheet × Report Unit
  | .enter row column text => (s.enter settings row column text).settle s
  | .enterAt coordinate text => (s.enterAt settings coordinate text).settle s
  | .series start stop pattern => s.enterSeries settings pattern (Area.span start (stop - 1))

end Worksheet
