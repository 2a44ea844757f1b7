import Worksheet.Proofs.Once

/-!
# The succession of memos

What an evaluation puts into its memo, and when. The memos right after the moments of a course, with
the empty memo in front and the one that is left at the end, are `Course.memos`. From each of them
to the next at most one entry is made (`Sheet.memos_isChain`), so no entry comes and goes unseen.
And an evaluation that ends with a value has in the end an entry for each of the cells that its
formula mentions (`Sheet.course_knows`).

The one is passed on from the steps of an evaluation to the whole (`Seamless.compositional`). The
other is part of what the reading of references makes of a memo (`Explored.knows`).
-/

namespace Worksheet

variable {s : Sheet} {limit depth : Int} {r : Ref} {value : Float}

/-! ## One entry at a time -/

namespace Memo

variable {m m₁ m' : Memo}

/-- One memo has the entries of another and at most one more, which may take the place of an older
one. -/
inductive GrowsTo (m m' : Memo) : Prop where
  | same (hsettled : m'.settled = m.settled) (hcut : m'.cut = m.cut)
  | settle (r : Ref) (entry : Float × Int) (hsettled : m'.settled = m.settled.insert r entry)
      (hcut : m'.cut = m.cut)
  | cutOff (key : Ref × Int) (value : Float) (hsettled : m'.settled = m.settled)
      (hcut : m'.cut = m.cut.insert key value)

theorem GrowsTo.refl (m : Memo) : m.GrowsTo m := .same rfl rfl

theorem GrowsTo.of_same (h : m₁.GrowsTo m') (hsettled : m₁.settled = m.settled)
    (hcut : m₁.cut = m.cut) : m.GrowsTo m' := by
  cases h with
  | same h h' => exact .same (h.trans hsettled) (h'.trans hcut)
  | settle r entry h h' => exact .settle r entry (hsettled ▸ h) (h'.trans hcut)
  | cutOff key value h h' => exact .cutOff key value (h.trans hsettled) (hcut ▸ h')

theorem growsTo_record (m : Memo) (limit depth : Int) (r : Ref) (value : Float) (outer : Int) :
    m.GrowsTo ((m.record limit depth r value).reach outer) := by
  unfold record
  split
  · exact .settle r _ rfl rfl
  · exact .cutOff (r, depth) value rfl rfl

end Memo

namespace Course

variable {c : Course}

/-- The memos of an evaluation from beginning to end: the empty one, the ones right after what has
happened, and the one that is left. -/
def memos (c : Course) : List Memo := {} :: (c.past.map Moment.memo ++ [c.memo])

/-- From each memo of a course to the next at most one entry is made, and none has been made since
the last moment, so that one may be made now. -/
def Gapless (c : Course) : Prop :=
  ∀ m, c.memo.GrowsTo m → ({} :: (c.past.map Moment.memo ++ [m])).IsChain Memo.GrowsTo

theorem gapless_empty : ({} : Course).Gapless := fun _ h =>
  List.isChain_cons_cons.mpr ⟨h, List.isChain_singleton _⟩

theorem Gapless.isChain (hc : c.Gapless) : c.memos.IsChain Memo.GrowsTo := hc c.memo (.refl _)

theorem Gapless.alter (hc : c.Gapless) {change : Memo → Memo}
    (hsettled : (change c.memo).settled = c.memo.settled)
    (hcut : (change c.memo).cut = c.memo.cut) : (c.alter change).Gapless := fun m h =>
  hc m (h.of_same hsettled hcut)

/-- One entry may be made right before a moment. -/
theorem Gapless.enter (hc : c.Gapless) {change : Memo → Memo}
    (hgrows : c.memo.GrowsTo (change c.memo)) (h : Happening) :
    ((c.alter change).note h).Gapless := by
  intro m hm
  have hmemos : {} :: (((c.alter change).note h).past.map Moment.memo ++ [m]) =
      ({} :: (c.past.map Moment.memo ++ [change c.memo])) ++ [m] := by simp
  rw [hmemos]
  refine List.isChain_append.mpr ⟨hc _ hgrows, List.isChain_singleton m, ?_⟩
  intro x hx y hy
  rw [← List.cons_append, List.getLast?_concat] at hx
  cases hx
  cases hy
  exact hm

theorem Gapless.note (hc : c.Gapless) (h : Happening) : (c.note h).Gapless :=
  show ((c.alter id).note h).Gapless from hc.enter (.refl c.memo) h

end Course

/-- A traced evaluation makes at most one entry from each moment to the next, however it ends. -/
def Seamless {α : Type} (x : Traced α) : Prop :=
  ∀ c : Course, c.Gapless → Ends x c (fun _ => Course.Gapless) fun _ => Course.Gapless

theorem Seamless.compositional :
    Compositional (τ := Course) (fun _ => True) fun x _ => Seamless x where
  pure _ _ hc := hc
  throw _ _ _ hc := hc
  bind hx hnext c hc := (hx c hc).bind (fun a c' => hnext a c') fun _ _ he => he

namespace Sheet

theorem traceCell_seamless (s : Sheet) (limit : Int) (allowance : Nat) (depth : Int) (frames : Nat)
    (r : Ref) : Seamless (s.traceCell limit allowance depth frames r) := by
  induction hroom : (limit + 1 - depth).toNat generalizing depth frames r with
  | zero =>
    intro c hc
    rw [traceCell, if_pos (by omega)]
    refine Ends.openFrame_bind (fun _ => ?_) fun _ => hc
    refine Ends.modify_bind _ (Ends.modify_bind _ (Ends.modify_bind _ (Ends.pure ?_)))
    exact ((hc.alter rfl rfl).alter rfl rfl).note _
  | succ room ih =>
    intro c hc
    have hcell := fun frames r => ih (depth + 1) frames r (by omega)
    have hreach : (c.alter (·.reach depth)).Gapless := hc.alter rfl rfl
    rw [traceCell, if_neg (by omega)]
    refine Ends.openFrame_bind (fun _ => ?_) fun _ => hc
    refine Ends.modify_bind _ (Ends.get_bind ?_)
    split
    · exact Ends.modify_bind _ (Ends.modify_bind _ (Ends.pure ((hreach.alter rfl rfl).note _)))
    · refine Ends.get_bind (Ends.modify_bind _ (Ends.lift_bind (fun a _ => ?_) fun _ _ => ?_))
      · have hread : Seamless ((s.entry a).formula.readBy allowance
            (s.traceCell limit allowance (depth + 1)) (frames + 1)) :=
          Seamless.compositional.readBy_each hcell _ _
        refine Ends.modify_bind _ ((hread _ ((hreach.alter rfl rfl).note _)).bind
          (fun value c' hc' => ?_) fun _ _ he => he)
        exact Ends.modify_bind _ (Ends.modify_bind _
          (Ends.pure (hc'.enter (c'.memo.growsTo_record _ _ _ _ _) _)))
      · exact hreach.alter rfl rfl

theorem memos_isChain (s : Sheet) (limit depth : Int) (f : Formula) :
    (s.course limit depth f).2.memos.IsChain Memo.GrowsTo :=
  (Seamless.compositional.readBy_each (s.traceCell_seamless limit (frameAllowance limit) depth) f 0
    {} Course.gapless_empty).last.isChain

/-- What has been read is known. -/
theorem course_knows {f : Formula} (hdepth : depth ≤ limit)
    (hvalue : (s.course limit depth f).1 = .ok value) :
    ∀ r ∈ f.refs, ∃ value, (s.course limit depth f).2.memo.Knows limit depth r value := by
  have hrun : (f.readBy (frameAllowance limit) (s.traceCell limit (frameAllowance limit) depth)
      0).run.run {} = (.ok value, (s.course limit depth f).2) := Prod.ext hvalue rfl
  exact (explored_of_readBy (Memo.sound_empty s limit) hrun).2.knows hdepth

end Sheet

end Worksheet
