import Worksheet.Evaluation.Run
import Worksheet.Session.Report

/-!
# Looking at a sheet

Queries ask for something that a sheet shows or computes. Values are computed anew each time from
the sheet as it is. Most queries begin with an empty memo of their own; some are put to the one
evaluator that a session keeps, and leave a memo behind for the next of them.
-/

namespace Worksheet

/-- What holds for a whole session. -/
structure Settings where
  /-- The greatest depth at which evaluations read cells. By default it is the number of cells, so
  that only references in a circle are cut off. -/
  depthLimit : Int := (rowCount * columnCount : Nat)
  /-- Whether events of detail are noted, too. -/
  detailed : Bool := false

/-- Notes an event if the session notes events of its kind. -/
def Settings.note (settings : Settings) (event : Event) : Report Unit :=
  if settings.detailed || !event.isDetail then Report.note event else pure ()

@[simp] theorem Settings.outcome_note (settings : Settings) (event : Event) :
    (settings.note event).outcome = .ok () := by
  unfold Settings.note
  split <;> rfl

/-- The content of a cell that is given a text, noting a text that is malformed. -/
def Entry.noted (settings : Settings) (text : String) : Report Entry :=
  match formula? text with
  | .ok formula => return ⟨text, formula⟩
  | .error why => do
    settings.note (.malformed text why)
    return malformed text

/-- The report of how the evaluation of a formula ended. An evaluation in which references were
cut off is noted with the formula, one that was given up without it. -/
def Settings.reported (settings : Settings) (f : Formula) :
    Except Error (Float × Nat) → Report Float
  | .ok (value, cutOffs) => do
    if settings.detailed && 0 < cutOffs then
      settings.note (.limitReached (← f.write) settings.depthLimit cutOffs)
    return value
  | .error .stackExhausted => do
    settings.note .stackExhausted
    throw .stackExhausted
  | .error e => throw e

namespace Sheet

/-- The value of a formula, evaluated at a depth with the memo `m` to begin with, and the memo that
is left. -/
def measureWith (settings : Settings) (s : Sheet) (m : Memo) (depth : Int) (f : Formula) :
    Report Float × Memo :=
  let (outcome, m) := s.evaluate settings.depthLimit depth f m
  (settings.reported f outcome, m)

def measure (settings : Settings) (s : Sheet) (depth : Int) (f : Formula) : Report Float :=
  (s.measureWith settings {} depth f).1

/-- The value of an entry, evaluated at a depth. An entry whose evaluation is given up for
want of frames is not a number. -/
def number (settings : Settings) (s : Sheet) (depth : Int) (e : Entry) : Report Float :=
  tryCatch (s.measure settings depth e.formula) fun
    | .stackExhausted => do
      settings.note (.withoutValue e.text .stackExhausted)
      return Number.nan
    | other => throw other

/-- What an entry shows: its value, or its text if that is not a number. -/
def display (settings : Settings) (s : Sheet) (e : Entry) : Report String := do
  let value ← s.number settings 0 e
  return if Number.isNumber value then Number.display value else e.text

end Sheet

inductive Query where
  | text (row column : Datum)
  | shown (row column : Datum)
  | shownAt (coordinate : String)
  | number (row column : Datum)
  | content (row column : Datum)
  | numbers
  /-- The value of a text that is not put into a cell. -/
  | adHoc (text : String)
  /-- The value of a text at a depth, from the evaluator that the session keeps. -/
  | valueOf (text : String) (depth : Int)
  /-- The value of a formula at a depth, from the evaluator that the session keeps. -/
  | valueOfFormula (formula : Formula) (depth : Int)
  /-- The value that a cell with the given text would have at a depth. -/
  | numberOf (text : String) (depth : Int)
  /-- What a cell with the given content would show. -/
  | shownOf (entry : Entry)

inductive Answer where
  | text (s : String)
  | number (x : Float)
  | content (e : Entry)
  | numbers (cells : List (Address × Float))

namespace Sheet

/-- Answers a question about a sheet. The memo is that of the session's evaluator, before and after
the question; only questions that are put to this evaluator use it. -/
def answer (settings : Settings) (s : Sheet) (m : Memo) : Query → Report Answer × Memo
  | .text row column => (do
      return .text (s.entry (← Address.ofData row column)).text, m)
  | .shown row column => (do
      return .text (← s.display settings (s.entry (← Address.ofData row column))), m)
  | .shownAt coordinate => (do
      let a ← (← Ref.ofCoordinate coordinate).address
      return .text (← s.display settings (s.entry a)), m)
  | .number row column => (do
      return .number (← s.number settings 0 (s.entry (← Address.ofData row column))), m)
  | .content row column => (do
      return .content (s.entry (← Address.ofData row column)), m)
  | .numbers => (do
      return .numbers
        (← Address.all.mapM fun a => do return (a, ← s.number settings 0 (s.entry a))), m)
  | .adHoc text => (do
      match Entry.formula? text with
      | .ok f => return .number (← s.measure settings 0 f)
      | .error why => throw (Error.malformed why), m)
  | .valueOf text depth =>
    match Entry.formula? text with
    | .ok f =>
      let (report, m) := s.measureWith settings m depth f
      (.number <$> report, m)
    | .error why => (throw (Error.malformed why), m)
  | .valueOfFormula f depth =>
    let (report, m) := s.measureWith settings m depth f
    (.number <$> report, m)
  | .numberOf text depth => (do
      return .number (← s.number settings depth (← Entry.noted settings text)), m)
  | .shownOf entry => (do
      return .text (← s.display settings entry), m)

end Sheet

end Worksheet
