import Worksheet.Proofs.Frames

/-!
# The course of an evaluation

An evaluation leaves a value and an empty memo; how often it has worked out the formula of a cell
cannot be told from that. Here the same steps are taken once more, and what happens to references on
the way is written down, each time with the memo as it is then: that a reference was cut off, that
the value of a cell was recalled, that the formula of a cell was begun, that it was finished. What
is written down has no influence on how the evaluation goes on (`Sheet.evaluate_eq_course`), so
what holds of the course holds of the evaluation.
-/

namespace Worksheet

/-- What becomes of a reference to a cell that is followed at a depth. -/
inductive Happening where
  /-- The reference is beyond the depth limit and is not followed. -/
  | cutOff (r : Ref) (depth : Int)
  /-- The value of the cell is taken from the memo. -/
  | recalled (r : Ref) (depth : Int) (value : Float)
  /-- The formula of the cell is begun. -/
  | begun (r : Ref) (depth : Int)
  /-- The formula of the cell is finished and its value put into the memo. -/
  | finished (r : Ref) (depth : Int) (value : Float)

/-- Something that happens, with the memo right after it. -/
structure Moment where
  happening : Happening
  memo : Memo

/-- How far an evaluation has come: its memo, and what has happened so far, in that order. -/
structure Course where
  memo : Memo := {}
  past : List Moment := []

namespace Course

def alter (c : Course) (change : Memo → Memo) : Course := { c with memo := change c.memo }

def note (c : Course) (h : Happening) : Course := { c with past := c.past ++ [⟨h, c.memo⟩] }

@[simp] theorem memo_alter (c : Course) (change : Memo → Memo) :
    (c.alter change).memo = change c.memo := rfl

@[simp] theorem past_alter (c : Course) (change : Memo → Memo) :
    (c.alter change).past = c.past := rfl

@[simp] theorem memo_note (c : Course) (h : Happening) : (c.note h).memo = c.memo := rfl

@[simp] theorem past_note (c : Course) (h : Happening) :
    (c.note h).past = c.past ++ [⟨h, c.memo⟩] := rfl

end Course

/-- An evaluation in progress whose course is written down. -/
abbrev Traced := Evaluating Course

namespace Sheet

/-- `Sheet.readCell` in an evaluation whose course is written down. -/
def traceCell (s : Sheet) (limit : Int) (allowance : Nat) (depth : Int) (frames : Nat) (r : Ref) :
    Traced Float := do
  openFrame allowance frames
  modify (·.alter (·.reach depth))
  if limit < depth then
    modify (·.alter Memo.countCutOff)
    modify (·.note (.cutOff r depth))
    return Number.nan
  else
    match (← get).memo.known? limit depth r with
    | some (value, reached) =>
      modify (·.alter (·.reach reached))
      modify (·.note (.recalled r depth value))
      return value
    | none =>
      let outer := (← get).memo.deepest
      modify (·.alter (·.descend depth))
      let a ← r.address
      modify (·.note (.begun r depth))
      let value ←
        (s.entry a).formula.readBy allowance (s.traceCell limit allowance (depth + 1)) (frames + 1)
      modify (·.alter fun m => (m.record limit depth r value).reach outer)
      modify (·.note (.finished r depth value))
      return value
termination_by (limit + 1 - depth).toNat
decreasing_by omega

/-- The outcome and the course of the evaluation of a formula that begins with an empty memo. -/
def course (s : Sheet) (limit depth : Int) (f : Formula) : Except Error Float × Course :=
  let allowance := frameAllowance limit
  (f.readBy allowance (s.traceCell limit allowance depth) 0).run.run {}

end Sheet

/-! ## Nothing depends on what is written down -/

/-- A traced evaluation goes as the evaluation `y` does, if what is written down is left out. -/
def Traces {α : Type} (x : Traced α) (y : Evaluation α) : Prop :=
  ∀ c : Course, y.run.run c.memo = ((x.run.run c).1, (x.run.run c).2.memo)

namespace Traces

variable {α β : Type}

theorem bind {x : Traced α} {y : Evaluation α} {next : α → Traced β} {next' : α → Evaluation β}
    (hx : Traces x y) (hnext : ∀ a, Traces (next a) (next' a)) :
    Traces (x >>= next) (y >>= next') := by
  intro c
  rw [Evaluating.run_bind, Evaluating.run_bind, hx c]
  rcases x.run.run c with ⟨_ | a, c'⟩
  · rfl
  · exact hnext a c'

theorem compositional : Compositional (fun _ => True) Traces where
  pure _ _ := rfl
  throw _ _ _ := rfl
  bind := bind

theorem openFrame (allowance frames : Nat) :
    Traces (openFrame allowance frames) (openFrame allowance frames) :=
  compositional.openFrame fun _ => trivial

theorem alter (change : Memo → Memo) :
    Traces (modify (·.alter change)) (modify change : Evaluation PUnit) := fun _ => rfl

/-- To write something down is no step of the evaluation. -/
theorem note_bind {next : PUnit → Traced β} {y : Evaluation β} (h : Happening)
    (hnext : Traces (next ⟨⟩) y) : Traces (modify (·.note h) >>= next) y := by
  intro c
  rw [Evaluating.run_bind]
  exact hnext (c.note h)

theorem get_bind {next : Course → Traced β} {next' : Memo → Evaluation β}
    (hnext : ∀ c, Traces (next c) (next' c.memo)) : Traces (get >>= next) (get >>= next') :=
  fun c => hnext c c

end Traces

namespace Sheet

theorem traceCell_traces (s : Sheet) (limit : Int) (allowance : Nat) (depth : Int) (frames : Nat)
    (r : Ref) :
    Traces (s.traceCell limit allowance depth frames r)
      (s.readCell limit allowance depth frames r) := by
  have hsteps := Traces.compositional
  induction hroom : (limit + 1 - depth).toNat generalizing depth frames r with
  | zero =>
    rw [traceCell, readCell, if_pos (by omega), if_pos (by omega)]
    refine (Traces.openFrame _ _).bind fun _ => (Traces.alter _).bind fun _ => ?_
    exact (Traces.alter _).bind fun _ => Traces.note_bind _ (hsteps.pure _)
  | succ room ih =>
    rw [traceCell, readCell, if_neg (by omega), if_neg (by omega)]
    refine (Traces.openFrame _ _).bind fun _ => (Traces.alter _).bind fun _ => ?_
    refine Traces.get_bind fun c => ?_
    rcases c.memo.known? limit depth r with _ | ⟨value, reached⟩
    · refine Traces.get_bind fun c => (Traces.alter _).bind fun _ => ?_
      refine (hsteps.lift fun _ _ => trivial).bind fun a => Traces.note_bind _ ?_
      refine (hsteps.readBy_all (fun frames r => ih (depth + 1) frames r (by omega)) _ _).bind
        fun value => ?_
      exact (Traces.alter _).bind fun _ => Traces.note_bind _ (hsteps.pure _)
    · exact (Traces.alter _).bind fun _ => Traces.note_bind _ (hsteps.pure _)

/-- An evaluation ends as its course does, and with the memo that the course ends with. -/
theorem read_eq_course (s : Sheet) (limit depth : Int) (f : Formula) :
    (s.read limit depth f).run.run {} =
      ((s.course limit depth f).1, (s.course limit depth f).2.memo) :=
  Traces.compositional.readBy_all (s.traceCell_traces limit (frameAllowance limit) depth) f 0 {}

/-- An evaluation has the outcome of its course. -/
theorem evaluate_eq_course (s : Sheet) (limit depth : Int) (f : Formula) :
    (s.evaluate limit depth f {}).1 = (s.course limit depth f).1.map
      fun value => (value, (s.course limit depth f).2.memo.cutOffs) := by
  rw [evaluate_fst, read_eq_course]

end Sheet

end Worksheet
