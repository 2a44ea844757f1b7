import Worksheet.Proofs.Orderly

/-!
# Each cell once for each depth

The formula of a cell is worked out at most once for each depth in one evaluation, also on a sheet
whose cells refer to one another in circles, and also in an evaluation that fails in the end
(`Sheet.course_once`). The reading of a cell keeps a course orderly (`Sheet.traceCell_steady`, by
induction on the room below the limit), and so does the evaluation of a formula, since what is put
together from such steps does (`Steady.compositional`).
-/

namespace Worksheet

variable {s : Sheet} {limit depth : Int} {value : Float}

/-! ## Evaluations that keep a course orderly -/

/-- A traced evaluation, begun on the course `c`, goes on from the course `start` at a depth or
deeper, however it ends; and if it ends with a value, it leaves no formula of this depth or deeper
unfinished. -/
def Proceeds (s : Sheet) (limit depth : Int) {α : Type} (start : Course) (x : Traced α)
    (c : Course) : Prop :=
  Ends x c (fun _ c' => start.Continues s limit depth c' ∧ c'.Idle limit depth)
    fun _ c' => start.Continues s limit depth c'

/-- A traced evaluation at a depth that goes on from every orderly course. -/
def Steady (s : Sheet) (limit depth : Int) {α : Type} (x : Traced α) : Prop :=
  ∀ c : Course, c.Orderly s limit → c.Idle limit depth → Proceeds s limit depth c x c

theorem Proceeds.continues {α : Type} {start c : Course} {x : Traced α}
    (h : Proceeds s limit depth start x c) : start.Continues s limit depth (x.run.run c).2 :=
  Ends.last (h.mono (fun _ _ => And.left) fun _ _ he => he)

theorem Steady.bind {α β : Type} {x : Traced α} {next : α → Traced β}
    (hx : Steady s limit depth x) (hnext : ∀ a, Steady s limit depth (next a)) :
    Steady s limit depth (x >>= next) := by
  intro c hc hidle
  refine Ends.bind (hx c hc hidle) (fun a c' ⟨hcontinues, hafter⟩ => ?_) fun _ _ he => he
  exact (hnext a c' hcontinues.orderly hafter).mono
    (fun _ _ ⟨hrest, hlast⟩ => ⟨hcontinues.trans hrest, hlast⟩) fun _ _ => hcontinues.trans

theorem Steady.compositional :
    Compositional (τ := Course) (fun _ => True) fun x _ => Steady s limit depth x where
  pure _ _ hc hidle := ⟨.refl hc, hidle⟩
  throw _ _ _ hc _ := Course.Continues.refl hc
  bind := Steady.bind

namespace Sheet

variable {allowance : Nat}

/-- A formula that has been worked out has its plain value and has made of the memo what the reading
of its references makes of it. -/
theorem explored_of_readBy {c c' : Course} {f : Formula} {frames : Nat}
    (hc : c.memo.Sound s limit)
    (hrun : (f.readBy allowance (s.traceCell limit allowance depth) frames).run.run c =
      (.ok value, c')) :
    s.valueAt limit depth f = .ok value ∧ Explored s limit depth f.refs c.memo c'.memo := by
  have htraces : Traces (f.readBy allowance (s.traceCell limit allowance depth) frames)
      (f.readBy allowance (s.readCell limit allowance depth) frames) :=
    Traces.compositional.readBy_all (s.traceCell_traces limit allowance depth) f frames
  have htracks : Tracks (f.readBy allowance (s.readCell limit allowance depth) frames)
      (s.valueAt limit depth f) c.memo (Explored s limit depth f.refs c.memo) :=
    Formula.readBy_tracks (readCell_tracks s limit allowance depth) f frames c.memo hc
  have hsame := htraces c
  rw [hrun] at hsame
  exact htracks.value hsame

/-- What is put into the memo when the formula of a cell is finished means what it should. -/
theorem sound_record_of_readBy {m : Memo} {c c' : Course} {a : Address} {frames : Nat}
    (hdepth : depth ≤ limit) (hm : m.Sound s limit) (hmemo : c.memo = m.descend depth)
    (hrun : ((s.entry a).formula.readBy allowance (s.traceCell limit allowance (depth + 1))
      frames).run.run c = (.ok value, c')) :
    (c'.memo.record limit depth a.ref value).Sound s limit := by
  obtain ⟨hvalue, hexplored⟩ := explored_of_readBy (hmemo ▸ hm.descend depth) hrun
  rw [hmemo, ← refsAt_of_address a.address?_ref] at hexplored
  have hplain : s.cellValue limit depth a.ref = .ok value := by
    rw [cellValue_of_le s a.ref hdepth, a.address_ref]
    exact hvalue
  exact Explored.sound_record hdepth hexplored hplain

theorem traceCell_steady (s : Sheet) (limit : Int) (allowance : Nat) (depth : Int) (frames : Nat)
    (r : Ref) : Steady s limit depth (s.traceCell limit allowance depth frames r) := by
  induction hroom : (limit + 1 - depth).toNat generalizing depth frames r with
  | zero =>
    intro c hc hidle
    have hbelow : limit < depth := by omega
    rw [traceCell, if_pos hbelow]
    refine Ends.openFrame_bind (fun _ => ?_) fun _ => Course.Continues.refl hc
    refine Ends.modify_bind _ (Ends.modify_bind _ (Ends.modify_bind _ (Ends.pure ?_)))
    exact hc.cutOff hidle hbelow r
  | succ room ih =>
    intro c hc hidle
    have hdepth : depth ≤ limit := by omega
    have hcell := fun frames r => ih (depth + 1) frames r (by omega)
    rw [traceCell, if_neg (by omega)]
    refine Ends.openFrame_bind (fun _ => ?_) fun _ => Course.Continues.refl hc
    refine Ends.modify_bind _ (Ends.get_bind ?_)
    rcases hknown : (c.alter (·.reach depth)).memo.known? limit depth r with _ | ⟨value, reached⟩
    · refine Ends.get_bind (Ends.modify_bind _ ?_)
      refine Ends.lift_bind (fun a ha => Ends.modify_bind _ ?_) fun e _ => ?_
      · obtain rfl := Ref.ref_of_address ha
        obtain ⟨hbegun, hbelow⟩ := hc.begun hidle hknown a.inSheet hdepth
        have hsteady : Steady s limit (depth + 1) ((s.entry a).formula.readBy allowance
            (s.traceCell limit allowance (depth + 1)) (frames + 1)) :=
          Steady.compositional.readBy_each hcell _ _
        have hproceeds := hsteady _ hbegun.orderly hbelow
        refine Ends.bind_of_run (fun value c₂ hrun => ?_) fun e c₂ hrun =>
          hbegun.trans ((hproceeds.error hrun).of_le (by omega))
        obtain ⟨hread, hdone⟩ := hproceeds.value hrun
        have hrecord := sound_record_of_readBy hdepth (hc.sound.reach depth) rfl hrun
        refine Ends.modify_bind _ (Ends.modify_bind _ (Ends.pure ?_))
        exact hc.finished hidle hknown rfl hbegun hread hdone (c.memo.reach depth).deepest hrecord
      · obtain ⟨hreach, -⟩ := hc.reach hidle depth
        exact hreach.alter (·.descend depth) (Memo.keeps_descend _ _)
          (hreach.orderly.sound.descend depth)
    · refine Ends.modify_bind _ (Ends.modify_bind _ (Ends.pure ?_))
      exact hc.recalled hidle hknown

theorem course_continues (s : Sheet) (limit depth : Int) (f : Formula) :
    ({} : Course).Continues s limit depth (s.course limit depth f).2 :=
  Proceeds.continues <| Steady.compositional.readBy_each
    (traceCell_steady s limit (frameAllowance limit) depth) f 0 {} (Course.orderly_empty s limit)
    fun _ hx => by cases hx

/-- In one evaluation each cell is worked out at most once for each depth. The evaluation has the
outcome of its course. At every moment of the course, up to its end, the memo keeps all its entries
as they are. When the value of a cell has once been found at a depth, the same value is recalled
from the memo wherever the cell is read at that depth again, and its formula is not begun again.
References are cut off, and not followed, exactly where they are beyond the limit. So not more
formulas are begun than the sheet has cells for each depth within the limit. -/
theorem course_once (s : Sheet) (limit depth : Int) (f : Formula) :
    let c := (s.course limit depth f).2
    (s.evaluate limit depth f {}).1 =
        (s.course limit depth f).1.map (fun value => (value, c.memo.cutOffs)) ∧
      (∀ x ∈ c.past, x.Fits limit ∧ x.memo.Keeps c.memo) ∧
      c.past.Pairwise Moment.Precedes ∧
      (c.begun.length : Int) ≤ 2600 * max 0 (limit - depth + 1) := by
  intro c
  have hcontinues := s.course_continues limit depth f
  have hdeeper : ∀ x ∈ c.past, depth ≤ x.happening.place.2 := by
    intro x hx
    rcases hcontinues.later x hx with hnone | hdepth
    · cases hnone
    · exact hdepth
  have hc := hcontinues.orderly
  exact ⟨s.evaluate_eq_course limit depth f, fun x hx => ⟨hc.fits x hx, hc.keeps x hx⟩,
    hc.precedes, hc.length_begun_le hdeeper⟩

end Sheet

end Worksheet
