import Worksheet.Proofs.Frames

/-!
# Evaluations that run out of frames

When the frames do not suffice. If the formula of a cell begins with a reference to the cell itself,
`k` operations deep, then every level of its evaluation opens `2 * k + 2` frames before it goes on
to the next. Nothing is recalled on the way, since nothing has been worked out yet. So the
evaluation is given up if the allowance is used up before the limit is reached
(`Sheet.evaluate_exhausts`).
-/

namespace Worksheet

/-- An evaluation that is given up for want of frames, if it begins with the memo `m`. -/
def Exhausts {α : Type} (x : Evaluation α) (m : Memo) : Prop :=
  Ends x m (fun _ _ => False) fun e _ => e = .stackExhausted

namespace Exhausts

variable {α β : Type} {m : Memo}

theorem outcome {x : Evaluation α} (hx : Exhausts x m) :
    (x.run.run m).1 = .error .stackExhausted := by
  rcases hrun : x.run.run m with ⟨_ | a, m'⟩
  · rw [hx.error hrun]
  · exact (hx.value hrun).elim

theorem bind {x : Evaluation α} (hx : Exhausts x m) (next : α → Evaluation β) :
    Exhausts (x >>= next) m :=
  Ends.bind hx (fun _ _ h => h.elim) fun _ _ he => he

theorem openFrame_bind {next : Unit → Evaluation α} {allowance frames : Nat}
    (h : frames < allowance → Exhausts (next ()) m) :
    Exhausts (openFrame allowance frames >>= next) m :=
  Ends.openFrame_bind h fun _ => rfl

end Exhausts

/-- A formula that begins with a reference, `k` operations deep. -/
inductive Formula.BeginsWith (r : Ref) : Nat → Formula → Prop where
  | ref : BeginsWith r 0 (.ref r)
  | binary {k : Nat} {left : Formula} (name : String) (right : Formula) :
      BeginsWith r k left → BeginsWith r (k + 1) (.binary name left right)

/-- The sum of `k + 1` references to a cell, each sum being the left operand of the next. -/
def Formula.repeated (r : Ref) : Nat → Formula
  | 0 => ref r
  | k + 1 => binary "add" (repeated r k) (ref r)

theorem Formula.beginsWith_repeated (r : Ref) (k : Nat) : (repeated r k).BeginsWith r k := by
  induction k with
  | zero => exact .ref
  | succ k ih => exact .binary "add" (.ref r) ih

theorem Formula.nesting_repeated (r : Ref) (k : Nat) : (repeated r k).nesting = k := by
  induction k with
  | zero => rfl
  | succ k ih => simp [repeated, nesting, ih]

theorem Formula.BeginsWith.readBy_exhausts {f : Formula} {r : Ref} {k allowance : Nat}
    {cell : Nat → Ref → Evaluation Float} {m : Memo} (hf : f.BeginsWith r k) {frames : Nat}
    (hcell : Exhausts (cell (frames + 2 * k + 1) r) m) :
    Exhausts (f.readBy allowance cell frames) m := by
  induction hf generalizing frames with
  | ref => exact Exhausts.openFrame_bind fun _ => hcell
  | @binary k left name right _ ih =>
    refine Exhausts.openFrame_bind fun _ => (ih ?_).bind _
    rwa [show frames + 2 + 2 * k + 1 = frames + 2 * (k + 1) + 1 by omega]

namespace Sheet

variable {s : Sheet} {limit : Int} {allowance k : Nat} {r : Ref} {a : Address}

/-- A circle through the left operands of `k` operations opens `2 * k + 2` frames on each level. -/
theorem readCell_exhausts (ha : r.address = .ok a)
    (hcircle : (s.entry a).formula.BeginsWith r k) {m : Memo}
    (hnew : ∀ depth, m.known? limit depth r = none) {depth : Int} {frames : Nat}
    (hused : allowance ≤ frames + (limit + 1 - depth).toNat * (2 * k + 2)) :
    Exhausts (s.readCell limit allowance depth frames r) m := by
  induction hroom : (limit + 1 - depth).toNat generalizing m depth frames with
  | zero =>
    rw [hroom, Nat.zero_mul] at hused
    rw [readCell]
    exact Exhausts.openFrame_bind fun h => absurd h (by omega)
  | succ room ih =>
    have hless : (limit + 1 - (depth + 1)).toNat = room := by omega
    rw [hroom, Nat.succ_mul] at hused
    rw [readCell, if_neg (by omega)]
    refine Exhausts.openFrame_bind fun _ => Ends.modify_bind _ (Ends.get_bind ?_)
    -- Neither raising the mark nor setting it back enters anything into the memo.
    have hstill : ∀ e, ((m.reach depth).descend depth).known? limit e r = none := hnew
    rw [show (m.reach depth).known? limit depth r = none from hnew depth]
    refine Ends.get_bind (Ends.modify_bind _ (Ends.lift_bind (fun b hb => ?_) fun e he => ?_))
    · obtain rfl : a = b := Except.ok.inj (ha.symm.trans hb)
      refine Exhausts.bind (hcircle.readBy_exhausts (ih hstill ?_ hless)) _
      rw [hless]
      omega
    · rw [ha] at he
      cases he

/-- A formula that begins with a reference into such a circle. -/
theorem evaluate_exhausts (ha : r.address = .ok a)
    (hcircle : (s.entry a).formula.BeginsWith r k) {f : Formula} {j : Nat}
    (hf : f.BeginsWith r j) {depth : Int}
    (hused : frameAllowance limit ≤ 2 * j + 1 + (limit + 1 - depth).toNat * (2 * k + 2)) :
    (s.evaluate limit depth f {}).1 = .error .stackExhausted := by
  rw [evaluate_eq_exhausted_iff]
  refine (hf.readBy_exhausts (readCell_exhausts ha hcircle (fun depth => ?_) ?_)).outcome
  · simp [Memo.known?, Memo.knownCut?]
  · omega

end Sheet

end Worksheet
