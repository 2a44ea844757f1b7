import Worksheet.Proofs.Frames
import Worksheet.Proofs.Memo
import Worksheet.Session.Query

/-!
# Evaluation with a memo agrees with plain evaluation

`Tracks x plain m P` says that the evaluation `x`, begun with the memo `m`, ends as the plain
computation `plain` does, and leaves a memo with the property `P` if that is a value; or it is given
up for want of frames. The reading of a cell tracks the plain recursion from every sound memo
(`Sheet.readCell_tracks`, by induction on the room below the limit), and so does the evaluation of a
formula (`Formula.readBy_tracks`, by induction on the formula). What they leave is `Explored`.
-/

namespace Worksheet

/-- An evaluation that ends as a plain computation does, unless it is given up. -/
def Tracks {α : Type} (x : Evaluation α) (plain : Except Error α) (m : Memo)
    (P : Memo → Prop) : Prop :=
  Ends x m (fun a m' => plain = .ok a ∧ P m') fun e _ => e = .stackExhausted ∨ plain = .error e

namespace Tracks

variable {α β : Type} {m : Memo} {P Q : Memo → Prop}

theorem outcome {x : Evaluation α} {plain : Except Error α} (h : Tracks x plain m P) :
    (x.run.run m).1 = .error .stackExhausted ∨
      (x.run.run m).1 = plain ∧ ∀ a, plain = .ok a → P (x.run.run m).2 := by
  rcases hrun : x.run.run m with ⟨e | a, m'⟩
  · rcases h.error hrun with rfl | rfl
    · exact .inl rfl
    · exact .inr ⟨rfl, nofun⟩
  · obtain ⟨rfl, hP⟩ := h.value hrun
    exact .inr ⟨rfl, fun _ _ => hP⟩

theorem pure (a : α) (h : P m) : Tracks (Pure.pure a) (.ok a) m P := ⟨rfl, h⟩

theorem bind {x : Evaluation α} {next : α → Evaluation β} {plain : Except Error α}
    {plainNext : α → Except Error β} (hx : Tracks x plain m Q)
    (hnext : ∀ a m', plain = .ok a → Q m' → Tracks (next a) (plainNext a) m' P) :
    Tracks (x >>= next) (plain >>= plainNext) m P := by
  refine Ends.bind hx (fun a m' ⟨ha, hQ⟩ => ?_) fun e _ he => ?_
  · have hrest := hnext a m' ha hQ
    rwa [ha]
  · refine he.imp_right fun hplain => ?_
    rw [hplain]
    rfl

/-- A step that the plain computation takes, too. -/
theorem lift_bind {plain : Except Error α} {next : α → Evaluation β}
    {plainNext : α → Except Error β}
    (hnext : ∀ a, plain = .ok a → Tracks (next a) (plainNext a) m P) :
    Tracks ((liftM plain : Evaluation α) >>= next) (plain >>= plainNext) m P := by
  refine Ends.lift_bind (fun a ha => ?_) fun e he => .inr ?_
  · have hrest := hnext a ha
    rwa [ha]
  · rw [he]
    rfl

/-- To open a frame is no step of the plain computation. -/
theorem openFrame_bind {next : Unit → Evaluation β} {plain : Except Error β}
    {allowance frames : Nat} (h : Tracks (next ()) plain m P) :
    Tracks (openFrame allowance frames >>= next) plain m P :=
  Ends.openFrame_bind (fun _ => h) fun _ => .inl rfl

end Tracks

variable {s : Sheet} {limit depth : Int} {allowance : Nat}

/-- `cell` reads cells at a depth as the plain recursion does. -/
def ReadsCells (s : Sheet) (limit depth : Int) (cell : Nat → Ref → Evaluation Float) : Prop :=
  ∀ frames r m, m.Sound s limit →
    Tracks (cell frames r) (s.cellValue limit depth r) m (Explored s limit depth [r] m)

theorem mapM_tracks {cell : Nat → Ref → Evaluation Float}
    (hcell : ReadsCells s limit depth cell) (frames : Nat) (rs : List Ref) (m : Memo)
    (hm : m.Sound s limit) :
    Tracks (rs.mapM (cell frames)) (rs.mapM (s.cellValue limit depth)) m
      (Explored s limit depth rs m) := by
  induction rs generalizing m with
  | nil => exact Tracks.pure _ (Explored.nil hm)
  | cons r rs ih =>
    rw [List.mapM_cons, List.mapM_cons]
    refine (hcell frames r m hm).bind fun value m₁ _ hfirst => ?_
    refine (ih m₁ hfirst.sound).bind fun values m₂ _ hrest => ?_
    exact Tracks.pure _ (hfirst.append hrest)

theorem Formula.readBy_tracks {cell : Nat → Ref → Evaluation Float}
    (hcell : ReadsCells s limit depth cell) (f : Formula) (frames : Nat) (m : Memo)
    (hm : m.Sound s limit) :
    Tracks (f.readBy allowance cell frames) (s.valueAt limit depth f) m
      (Explored s limit depth f.refs m) := by
  induction f generalizing frames m with
  | constant value text => exact Tracks.openFrame_bind (Tracks.pure _ (Explored.nil hm))
  | ref r => exact Tracks.openFrame_bind (hcell (frames + 1) r m hm)
  | binary name left right ihleft ihright =>
    refine Tracks.openFrame_bind ?_
    refine (ihleft (frames + 2) m hm).bind fun x m₁ _ hleft => ?_
    refine (ihright (frames + 2) m₁ hleft.sound).bind fun y m₂ _ hright => ?_
    exact Tracks.lift_bind fun op _ => Tracks.pure _ (hleft.append hright)
  | range name area =>
    refine Tracks.openFrame_bind ?_
    refine (mapM_tracks hcell (frames + 3) area.cells m hm).bind fun values m₁ _ hcells => ?_
    exact Tracks.lift_bind fun op _ => Tracks.pure _ hcells
  | missing => exact Tracks.openFrame_bind (Ends.throw (.inr rfl))

namespace Sheet

theorem refsAt_of_address_eq {r : Ref} {a : Address} (h : r.address = .ok a) :
    s.refsAt r = (s.entry a).formula.refs := by
  rw [← Ref.ref_of_address h]
  exact refsAt_of_address a.address?_ref

theorem readCell_tracks (s : Sheet) (limit : Int) (allowance : Nat) (depth : Int) :
    ReadsCells s limit depth (s.readCell limit allowance depth) := by
  -- The room below the limit gets less with each level.
  induction hroom : (limit + 1 - depth).toNat generalizing depth with
  | zero =>
    intro frames r m hm
    have hbelow : limit < depth := by omega
    rw [readCell, if_pos hbelow, cellValue_of_lt s r hbelow]
    refine Tracks.openFrame_bind (Ends.modify_bind _ (Ends.modify_bind _ ?_))
    exact Tracks.pure _ (Explored.of_cutOff hm r hbelow)
  | succ room ih =>
    intro frames r m hm
    have hdepth : depth ≤ limit := by omega
    have hcell := ih (depth + 1) (by omega)
    rw [readCell, if_neg (by omega)]
    refine Tracks.openFrame_bind (Ends.modify_bind _ (Ends.get_bind ?_))
    split
    · rename_i value reached hfound
      obtain ⟨hvalue, hexplored⟩ := Explored.of_known? hm hfound
      rw [hvalue]
      exact Ends.modify_bind _ (Tracks.pure _ hexplored)
    · refine Ends.get_bind (Ends.modify_bind _ ?_)
      have hplain := cellValue_of_le s r hdepth
      rw [hplain]
      refine Tracks.lift_bind fun a ha => ?_
      rw [← bind_pure (s.valueAt limit (depth + 1) (s.entry a).formula)]
      refine (Formula.readBy_tracks hcell (s.entry a).formula (frames + 1) _
        ((hm.reach depth).descend depth)).bind fun value m₂ hvalue hread => ?_
      rw [← refsAt_of_address_eq ha] at hread
      refine Ends.modify_bind _ (Tracks.pure _ (hread.record hdepth ?_))
      rw [hplain, ha]
      exact hvalue

/-- An evaluation that is not given up has the plain value, and has counted a cut-off exactly if
some chain of references leads beyond the limit. -/
theorem evaluate_agrees (s : Sheet) (limit depth : Int) (f : Formula)
    (hframes : (s.evaluate limit depth f {}).1 ≠ .error .stackExhausted) :
    ∃ cutOffs, (s.evaluate limit depth f {}).1 =
        (s.valueAt limit depth f).map (fun value => (value, cutOffs)) ∧
      ∀ value, s.valueAt limit depth f = .ok value →
        (0 < cutOffs ↔ ∃ n : Nat, s.Chain f.refs (n + 1) ∧ limit < depth + n) := by
  have htracks : Tracks (s.read limit depth f) (s.valueAt limit depth f) {}
      (Explored s limit depth f.refs {}) :=
    Formula.readBy_tracks (readCell_tracks s limit (frameAllowance limit) depth) f 0 {}
      (Memo.sound_empty s limit)
  rcases htracks.outcome with hgiven | ⟨hsame, hexplored⟩
  · exact absurd (evaluate_eq_exhausted_iff.mpr hgiven) hframes
  · refine ⟨((s.read limit depth f).run.run {}).2.cutOffs, ?_, ?_⟩
    · rw [evaluate_fst]
      exact congrArg _ hsame
    · intro value hvalue
      have hread := hexplored value hvalue
      exact ⟨hread.reaches, fun ⟨n, hn, hbeyond⟩ => hread.counted n hn hbeyond⟩

theorem outcome_measure_of_error {settings : Settings} {depth : Int} {f : Formula} {why : Error}
    (h : (s.evaluate settings.depthLimit depth f {}).1 = .error why) :
    (s.measure settings depth f).outcome = .error why := by
  unfold measure measureWith
  simp only [h]
  cases why with
  | stackExhausted =>
    simp only [Settings.reported, Report.outcome_bind, Settings.outcome_note]
    rfl
  | _ => rfl

/-- A measurement has the outcome of the evaluation, if the formula can be written where that is
asked for. -/
theorem outcome_measure (s : Sheet) {settings : Settings} (depth : Int) {f : Formula}
    (hwrite : settings.detailed = true → ∃ text, f.write = .ok text) :
    (s.measure settings depth f).outcome =
      (s.evaluate settings.depthLimit depth f {}).1.map Prod.fst := by
  cases hevaluate : (s.evaluate settings.depthLimit depth f {}).1 with
  | error why => exact outcome_measure_of_error hevaluate
  | ok found =>
    obtain ⟨value, cutOffs⟩ := found
    unfold measure measureWith
    simp only [hevaluate, Settings.reported]
    split
    · rename_i hnoted
      obtain ⟨text, htext⟩ := hwrite (Bool.and_eq_true_iff.mp hnoted).1
      simp [htext, Except.map]
    · rfl

/-- **Agreement.** An evaluation with a memo, on any sheet and from any depth, has the outcome of
the plain recursion, be it a value or the first error, unless it is given up for want of frames. -/
theorem outcome_measure_eq_valueAt (s : Sheet) {settings : Settings}
    (hquiet : settings.detailed = false) (depth : Int) (f : Formula)
    (hframes : (s.measure settings depth f).outcome ≠ .error .stackExhausted) :
    (s.measure settings depth f).outcome = s.valueAt settings.depthLimit depth f := by
  rw [outcome_measure s depth (by simp [hquiet])] at hframes ⊢
  have hevaluate : (s.evaluate settings.depthLimit depth f {}).1 ≠ .error .stackExhausted := by
    intro h
    rw [h] at hframes
    exact hframes rfl
  obtain ⟨cutOffs, hsame, -⟩ := evaluate_agrees s settings.depthLimit depth f hevaluate
  rw [hsame]
  cases s.valueAt settings.depthLimit depth f <;> rfl

/-- The sheet whose first cell adds itself to itself. -/
def doubling : Sheet :=
  empty.write .first ⟨"=add(A0,A0)", .binary "add" (.ref ⟨0, 0⟩) (.ref ⟨0, 0⟩)⟩

theorem doubling_nestsAtMost : doubling.NestsAtMost 1 :=
  (nestsAtMost_empty 1).write (by decide) .first

theorem doubling_completes :
    (doubling.evaluate 3 0 (.ref ⟨0, 0⟩) {}).1 ≠ .error .stackExhausted :=
  evaluate_completes doubling_nestsAtMost (by decide) (by decide) {}

/-- A circle of references that is read twice on each level. -/
theorem outcome_measure_doubling :
    (doubling.measure ⟨3, false⟩ 0 (.ref ⟨0, 0⟩)).outcome ≠ .error .stackExhausted ∧
      (doubling.measure ⟨3, false⟩ 0 (.ref ⟨0, 0⟩)).outcome =
        doubling.valueAt 3 0 (.ref ⟨0, 0⟩) := by
  have hframes : (doubling.measure ⟨3, false⟩ 0 (.ref ⟨0, 0⟩)).outcome ≠
      .error .stackExhausted := by
    have hcomplete := doubling_completes
    rw [outcome_measure doubling 0 (by simp)]
    revert hcomplete
    cases (doubling.evaluate 3 0 (.ref ⟨0, 0⟩) {}).1 <;> simp [Except.map]
  exact ⟨hframes, outcome_measure_eq_valueAt doubling rfl 0 _ hframes⟩

end Sheet

end Worksheet
