import Worksheet.Session.Edit

/-!
# Sessions

A session is a list of steps on one sheet, which is empty at the beginning. Each step has its own
report, and a step that fails does not keep the others from being done.
-/

namespace Worksheet

inductive Step where
  | edit (e : Edit)
  | query (q : Query)

/-- A session in progress: the sheet, and what its evaluator remembers. -/
structure Session where
  sheet : Sheet := .empty
  memo : Memo := {}

namespace Session

/-- Does one step. What a query answers is wrapped in `some`; an edit has no answer. -/
def step (settings : Settings) (σ : Session) : Step → Session × Report (Option Answer)
  | .edit e =>
    let (sheet, report) := σ.sheet.edit settings e
    ({ σ with sheet }, do report; return none)
  | .query q =>
    let (report, memo) := σ.sheet.answer settings σ.memo q
    ({ σ with memo }, some <$> report)

/-- Does the steps of a session from where it stands. -/
def run (settings : Settings) : Session → List Step → Session × List (Report (Option Answer))
  | σ, [] => (σ, [])
  | σ, step :: steps =>
    let (σ, report) := σ.step settings step
    let (last, reports) := run settings σ steps
    (last, report :: reports)

end Session

/-- The reports of a session that begins with the empty sheet. -/
def runSession (settings : Settings) (steps : List Step) : List (Report (Option Answer)) :=
  (Session.run settings {} steps).2

end Worksheet
