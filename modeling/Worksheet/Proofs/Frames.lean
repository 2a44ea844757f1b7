import Worksheet.Proofs.Steps

/-!
# Evaluations and their frames

When the frames suffice. An evaluation `Completes` if it is not given up for want of frames, whatever
it has in its memo. A level of an evaluation takes at most four frames, and two for each operation
inside another of its formula, so evaluation completes where there is room for that many on every
level down to the limit (`Sheet.evaluate_completes_within`, by induction on the room below the
limit). Only the cells that the formula reaches count. The allowance has that room for every depth
limit as long as no more than seven operations stand one inside the other
(`Sheet.evaluate_completes_of_nesting`). Whatever the evaluation finds, what it leaves is an empty
memo.
-/

namespace Worksheet

variable {α : Type}

theorem Ref.address_ne_exhausted (r : Ref) : r.address ≠ .error .stackExhausted := by
  unfold Ref.address
  split <;> simp

/-! ## Evaluations that complete -/

/-- An evaluation that is not given up for want of frames. -/
def Completes (x : Evaluation α) : Prop :=
  ∀ m, Ends x m (fun _ _ => True) fun e _ => e ≠ .stackExhausted

theorem Completes.outcome_ne {x : Evaluation α} (hx : Completes x) (m : Memo) :
    (x.run.run m).1 ≠ .error .stackExhausted := by
  intro h
  exact (hx m).error (Prod.ext h rfl) rfl

theorem Completes.compositional :
    Compositional (τ := Memo) (· ≠ .stackExhausted) fun x _ => Completes x where
  pure _ _ := trivial
  throw _ he _ := he
  bind hx hnext m := (hx m).bind (fun a m' _ => hnext a m') fun _ _ he => he

/-- Where the frames suffice up to a bound, it is left to the reading of cells. -/
theorem Formula.readBy_completes {allowance b frames : Nat} {cell : Nat → Ref → Evaluation Float}
    {f : Formula} (hcell : ∀ frames, ∀ r ∈ f.refs, frames ≤ b → Completes (cell frames r))
    (hbound : frames + 2 * f.nesting + 3 ≤ b) (hallowed : b < allowance) :
    Completes (f.readBy allowance cell frames) :=
  Completes.compositional.readBy (y := cell) (fun _ he => he) (fun h => absurd h (by omega)) hbound
    hcell

/-! ## Frames of a sheet -/

namespace Sheet

/-- Every formula of a sheet has at most `k` operations one inside the other. -/
def NestsAtMost (s : Sheet) (k : Nat) : Prop := ∀ a, (s.entry a).formula.nesting ≤ k

variable {s : Sheet} {k : Nat}

theorem nestsAtMost_empty (k : Nat) : empty.NestsAtMost k := by
  intro a
  rw [entry_empty]
  exact Nat.zero_le k

theorem NestsAtMost.write (hs : s.NestsAtMost k) {e : Entry} (he : e.formula.nesting ≤ k)
    (a : Address) : (s.write a e).NestsAtMost k := by
  intro b
  by_cases hab : a = b
  · rw [← hab, entry_write_self]
    exact he
  · rw [entry_write_of_ne s e hab]
    exact hs b

/-- The cells in `P` mention only cells in `P`, and their formulas have at most `k` operations one
inside the other. -/
def NestsWithin (s : Sheet) (k : Nat) (P : Ref → Prop) : Prop :=
  ∀ a : Address, P a.ref → (s.entry a).formula.nesting ≤ k ∧ ∀ r ∈ (s.entry a).formula.refs, P r

theorem NestsAtMost.within (hs : s.NestsAtMost k) : s.NestsWithin k fun _ => True :=
  fun a _ => ⟨hs a, fun _ _ => trivial⟩

/-- The reading of a cell takes at most `2 * k + 4` frames on each level down to the limit. -/
theorem readCell_completes {P : Ref → Prop} (hs : s.NestsWithin k P) {limit : Int}
    {allowance : Nat} (depth : Int) (frames : Nat) {r : Ref} (hr : P r)
    (hallowed : frames + (limit + 1 - depth).toNat * (2 * k + 4) < allowance) :
    Completes (s.readCell limit allowance depth frames r) := by
  intro m
  induction hroom : (limit + 1 - depth).toNat generalizing depth frames r m with
  | zero =>
    rw [readCell, if_pos (by omega)]
    refine Ends.openFrame_bind (fun _ => ?_) fun h => absurd h (by omega)
    exact Ends.modify_bind _ (Ends.modify_bind _ (Ends.pure trivial))
  | succ room ih =>
    have hless : (limit + 1 - (depth + 1)).toNat = room := by omega
    rw [hroom, Nat.succ_mul] at hallowed
    rw [readCell, if_neg (by omega)]
    refine Ends.openFrame_bind (fun _ => ?_) fun h => absurd h (by omega)
    refine Ends.modify_bind _ (Ends.get_bind ?_)
    split
    · exact Ends.modify_bind _ (Ends.pure trivial)
    · refine Ends.get_bind (Ends.modify_bind _ ?_)
      refine Ends.lift_bind (fun a ha => ?_) fun e he hgiven => r.address_ne_exhausted (hgiven ▸ he)
      obtain ⟨hnesting, hmentioned⟩ := hs a (Ref.ref_of_address ha ▸ hr)
      refine (Formula.readBy_completes (b := frames + (2 * k + 4)) ?_ (by omega) (by omega) _).bind
        (fun value _ _ => Ends.modify_bind _ (Ends.pure trivial)) fun _ _ he => he
      intro frames' r' hr' hframes m'
      refine ih (depth + 1) frames' (hmentioned r' hr') ?_ m' hless
      rw [hless]
      omega

theorem evaluate_fst (s : Sheet) (limit depth : Int) (f : Formula) (m : Memo) :
    (s.evaluate limit depth f m).1 = ((s.read limit depth f).run.run m).1.map
      fun value => (value, ((s.read limit depth f).run.run m).2.cutOffs) := rfl

@[simp] theorem evaluate_snd (s : Sheet) (limit depth : Int) (f : Formula) (m : Memo) :
    (s.evaluate limit depth f m).2 = {} := rfl

theorem evaluate_eq_exhausted_iff {s : Sheet} {limit depth : Int} {f : Formula} {m : Memo} :
    (s.evaluate limit depth f m).1 = .error .stackExhausted ↔
      ((s.read limit depth f).run.run m).1 = .error .stackExhausted := by
  rw [evaluate_fst]
  cases ((s.read limit depth f).run.run m).1 <;> simp [Except.map]

/-- With frames for every level down to the limit an evaluation is not given up. -/
theorem evaluate_completes_within {P : Ref → Prop} (hs : s.NestsWithin k P) {limit depth : Int}
    {f : Formula} (hf : f.nesting ≤ k) (hrefs : ∀ r ∈ f.refs, P r)
    (hallowed : 2 * k + 3 + (limit + 1 - depth).toNat * (2 * k + 4) < frameAllowance limit)
    (m : Memo) : (s.evaluate limit depth f m).1 ≠ .error .stackExhausted := by
  rw [Ne, evaluate_eq_exhausted_iff]
  refine (Formula.readBy_completes (b := 2 * k + 3) ?_ (by omega) (by omega)).outcome_ne m
  intro frames r hr hframes
  exact readCell_completes hs depth frames (hrefs r hr) (by omega)

theorem evaluate_completes (hs : s.NestsAtMost k) {limit depth : Int} {f : Formula}
    (hf : f.nesting ≤ k)
    (hallowed : 2 * k + 3 + (limit + 1 - depth).toNat * (2 * k + 4) < frameAllowance limit)
    (m : Memo) : (s.evaluate limit depth f m).1 ≠ .error .stackExhausted :=
  evaluate_completes_within hs.within hf (fun _ _ => trivial) hallowed m

end Sheet

/-! ## Moderately nested formulas -/

/-- With seven operations inside one another a level takes 18 frames of the twenty that the allowance
has for it. The formula that the evaluation begins with takes up to 17 more: for limits up to 50 the
thousand frames that are always allowed have room for them, and beyond the two that each level
leaves over. -/
theorem lt_frameAllowance (limit : Int) {depth : Int} (hdepth : 0 ≤ depth) :
    2 * 7 + 3 + (limit + 1 - depth).toNat * (2 * 7 + 4) < frameAllowance limit := by
  have hlevels : (limit + 1 - depth).toNat ≤ (limit + 1).toNat := by omega
  unfold frameAllowance
  omega

/-- **Headroom.** If no formula on the sheet has more than seven operations one inside the other, an
evaluation of such a formula from depth zero or deeper is not given up, whatever the depth limit and
whether or not the cells refer to one another in circles. -/
theorem Sheet.evaluate_completes_of_nesting {s : Sheet} (hs : s.NestsAtMost 7) (limit : Int)
    {depth : Int} (hdepth : 0 ≤ depth) {f : Formula} (hf : f.nesting ≤ 7) (m : Memo) :
    (s.evaluate limit depth f m).1 ≠ .error .stackExhausted :=
  evaluate_completes hs hf (lt_frameAllowance limit hdepth) m

/-- A rectangle of one cell, and a reference to it beside each of the `k` operations around. -/
def Formula.enclosed (r : Ref) : Nat → Formula
  | 0 => range "sum" ⟨r, r⟩
  | k + 1 => binary "add" (ref r) (enclosed r k)

theorem Formula.nesting_enclosed (r : Ref) (k : Nat) : (enclosed r k).nesting = k := by
  induction k with
  | zero => rfl
  | succ k ih => simp [enclosed, nesting, ih]

/-- The first cell refers to itself as often and as deep inside operations as it may. With the
default limit 2601 levels are open at once before it is cut off. -/
theorem Sheet.evaluate_completes_enclosed :
    let s := empty.write .first ⟨"", .enclosed ⟨0, 0⟩ 7⟩
    s.NestsAtMost 7 ∧ (Formula.enclosed ⟨0, 0⟩ 7).nesting ≤ 7 ∧
      (s.evaluate 2600 0 (.enclosed ⟨0, 0⟩ 7) {}).1 ≠ .error .stackExhausted := by
  intro s
  have hnesting : (Formula.enclosed ⟨0, 0⟩ 7).nesting ≤ 7 := (Formula.nesting_enclosed _ _).le
  have hs : s.NestsAtMost 7 := (nestsAtMost_empty 7).write hnesting .first
  exact ⟨hs, hnesting, evaluate_completes_of_nesting hs 2600 (Int.le_refl 0) hnesting {}⟩

end Worksheet
