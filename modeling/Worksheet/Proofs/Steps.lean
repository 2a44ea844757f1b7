import Worksheet.Evaluation.Run
import Worksheet.Proofs.References

/-!
# Evaluations and their steps

How an evaluation is put together from its steps, whatever state it carries along.

`Ends x m P E` says what the evaluation `x` can end with if it is begun with the state `m`: with a
value and a state that `P` allows, or with an error and a state that `E` allows. There is a rule for
each kind of step.

What does not depend on the state at the beginning needs no such rules. A relation between two
evaluations, or a property of one, is `Compositional` if it is passed on from the steps to what is
put together from them. It then holds of the evaluation of a formula as soon as it holds of the
reading of cells (`Compositional.readBy`, by induction on the formula).
-/

namespace Worksheet

variable {σ τ α β γ : Type}

/-- One step after the other. -/
theorem Evaluating.run_bind (x : Evaluating σ α) (next : α → Evaluating σ β) (m : σ) :
    (x >>= next).run.run m =
      match x.run.run m with
      | (.ok a, m') => (next a).run.run m'
      | (.error e, m') => (.error e, m') := by
  rw [ExceptT.run_bind]
  simp only [StateT.run, Bind.bind, StateT.bind]
  rcases x.run m with ⟨_ | _, _⟩ <;> rfl

/-! ## What an evaluation ends with -/

/-- Begun with the state `m`, the evaluation ends with a value and a state that `P` allows, or with
an error and a state that `E` allows. -/
def Ends (x : Evaluating σ α) (m : σ) (P : α → σ → Prop) (E : Error → σ → Prop) : Prop :=
  match x.run.run m with
  | (.ok a, m') => P a m'
  | (.error e, m') => E e m'

namespace Ends

variable {x : Evaluating σ α} {next : α → Evaluating σ β} {m m' : σ} {a : α} {e : Error}
  {P : α → σ → Prop} {Q : β → σ → Prop} {D E : Error → σ → Prop}

theorem value (h : Ends x m P E) (hrun : x.run.run m = (.ok a, m')) : P a m' := by
  rwa [Ends, hrun] at h

theorem error (h : Ends x m P E) (hrun : x.run.run m = (.error e, m')) : E e m' := by
  rwa [Ends, hrun] at h

theorem mono {P' : α → σ → Prop} (h : Ends x m P D) (hvalue : ∀ a m', P a m' → P' a m')
    (herror : ∀ e m', D e m' → E e m') : Ends x m P' E := by
  rcases hrun : x.run.run m with ⟨_ | a, m'⟩ <;> rw [Ends, hrun] at h ⊢
  · exact herror _ _ h
  · exact hvalue _ _ h

/-- What holds of the state at the end however the evaluation ends. -/
theorem last {R : σ → Prop} (h : Ends x m (fun _ => R) fun _ => R) : R (x.run.run m).2 := by
  rcases hrun : x.run.run m with ⟨_ | a, m'⟩
  · exact h.error hrun
  · exact h.value hrun

theorem pure (h : P a m) : Ends (Pure.pure a) m P E := h

theorem throw (h : E e m) : Ends (MonadExcept.throw e) m P E := h

/-- The first step is known by its run. -/
theorem bind_of_run (hvalue : ∀ a m', x.run.run m = (.ok a, m') → Ends (next a) m' Q E)
    (herror : ∀ e m', x.run.run m = (.error e, m') → E e m') : Ends (x >>= next) m Q E := by
  rw [Ends, Evaluating.run_bind]
  rcases hrun : x.run.run m with ⟨_ | a, m'⟩
  · exact herror _ _ hrun
  · exact hvalue a m' hrun

theorem bind (hx : Ends x m P D) (hvalue : ∀ a m', P a m' → Ends (next a) m' Q E)
    (herror : ∀ e m', D e m' → E e m') : Ends (x >>= next) m Q E :=
  bind_of_run (fun a m' hrun => hvalue a m' (hx.value hrun)) fun e m' hrun =>
    herror e m' (hx.error hrun)

theorem lift_bind {plain : Except Error α}
    (hvalue : ∀ a, plain = .ok a → Ends (next a) m Q E) (herror : ∀ e, plain = .error e → E e m) :
    Ends ((liftM plain : Evaluating σ α) >>= next) m Q E := by
  cases plain with
  | ok a => exact hvalue a rfl
  | error e => exact herror e rfl

theorem openFrame_bind {next : Unit → Evaluating σ β} {allowance frames : Nat}
    (hvalue : frames < allowance → Ends (next ()) m Q E)
    (herror : allowance ≤ frames → E .stackExhausted m) :
    Ends (openFrame allowance frames >>= next) m Q E := by
  unfold openFrame
  split
  · exact hvalue ‹_›
  · exact herror (not_lt.mp ‹_›)

theorem modify_bind {next : PUnit → Evaluating σ β} (change : σ → σ)
    (h : Ends (next ⟨⟩) (change m) Q E) : Ends (modify change >>= next) m Q E := h

theorem get_bind {next : σ → Evaluating σ β} (h : Ends (next m) m Q E) :
    Ends (get >>= next) m Q E := h

end Ends

/-! ## What is passed on from the steps -/

/-- How many operations on two numbers stand one inside the other. -/
def Formula.nesting : Formula → Nat
  | binary _ left right => max left.nesting right.nesting + 1
  | _ => 0

/-- A relation between evaluations that is passed on from the steps to what is put together from
them, if only such errors are raised as it `allows`. A property of evaluations is a relation that
does not look at the second one. -/
structure Compositional (allows : Error → Prop)
    (R : {α : Type} → Evaluating σ α → Evaluating τ α → Prop) : Prop where
  pure : ∀ {α : Type} (a : α), R (Pure.pure a) (Pure.pure a)
  throw : ∀ {α : Type} (e : Error), allows e →
    R (MonadExcept.throw e : Evaluating σ α) (MonadExcept.throw e)
  bind : ∀ {α β : Type} {x : Evaluating σ α} {y : Evaluating τ α} {next : α → Evaluating σ β}
    {next' : α → Evaluating τ β}, R x y → (∀ a, R (next a) (next' a)) →
      R (x >>= next) (y >>= next')

namespace Compositional

variable {allows : Error → Prop} {R : {α : Type} → Evaluating σ α → Evaluating τ α → Prop}

theorem lift (hR : Compositional allows R) {plain : Except Error α}
    (h : ∀ e, plain = .error e → allows e) :
    R (liftM plain : Evaluating σ α) (liftM plain : Evaluating τ α) := by
  cases plain with
  | ok a => exact hR.pure a
  | error e => exact hR.throw e (h e rfl)

theorem openFrame (hR : Compositional allows R) {allowance frames : Nat}
    (h : allowance ≤ frames → allows .stackExhausted) :
    R (openFrame allowance frames) (openFrame allowance frames) := by
  unfold Worksheet.openFrame
  split
  · exact hR.pure ()
  · exact hR.throw _ (h (not_lt.mp ‹_›))

theorem mapM (hR : Compositional allows R) {x : γ → Evaluating σ α} {y : γ → Evaluating τ α}
    {gs : List γ} (h : ∀ g ∈ gs, R (x g) (y g)) : R (gs.mapM x) (gs.mapM y) := by
  induction gs with
  | nil => exact hR.pure []
  | cons g gs ih =>
    rw [List.mapM_cons, List.mapM_cons]
    have hrest := ih fun g' hg' => h g' (List.mem_cons_of_mem _ hg')
    exact hR.bind (h g List.mem_cons_self) fun a => hR.bind hrest fun as => hR.pure (a :: as)

end Compositional

theorem BinaryOp.eq_unknown_of_named {name : String} {e : Error}
    (h : BinaryOp.named name = .error e) : e = .unknownOperation name := by
  unfold BinaryOp.named at h
  split at h <;> cases h
  rfl

theorem RangeOp.eq_unknown_of_named {name : String} {e : Error}
    (h : RangeOp.named name = .error e) : e = .unknownOperation name := by
  unfold RangeOp.named at h
  split at h <;> cases h
  rfl

namespace Compositional

variable {allows : Error → Prop} {R : {α : Type} → Evaluating σ α → Evaluating τ α → Prop}
  {cell : Nat → Ref → Evaluating σ Float} {y : Nat → Ref → Evaluating τ Float}

/-- What holds of the reading of the cells that a formula mentions holds of its evaluation. A formula
opens two frames for each operation inside another, and three more for the cells of a rectangle. -/
theorem readBy (hR : Compositional allows R) (hallows : ∀ e, e ≠ .stackExhausted → allows e)
    {allowance bound : Nat} (hopen : allowance ≤ bound → allows .stackExhausted) {f : Formula}
    {frames : Nat} (hbound : frames + 2 * f.nesting + 3 ≤ bound)
    (hcell : ∀ frames, ∀ r ∈ f.refs, frames ≤ bound → R (cell frames r) (y frames r)) :
    R (f.readBy allowance cell frames) (f.readBy allowance y frames) := by
  have hfirst : R (Worksheet.openFrame allowance frames) (Worksheet.openFrame allowance frames) :=
    hR.openFrame fun h => hopen (by omega)
  induction f generalizing frames with
  | constant value text => exact hR.bind hfirst fun _ => hR.pure value
  | ref r => exact hR.bind hfirst fun _ => hcell _ r (by simp [Formula.refs]) (by omega)
  | binary name left right ihleft ihright =>
    simp only [Formula.nesting] at hbound
    have hnext : R (Worksheet.openFrame allowance (frames + 2))
        (Worksheet.openFrame allowance (frames + 2)) := hR.openFrame fun h => hopen (by omega)
    have hleft := ihleft (by omega) (fun k r hr => hcell k r (by simp [Formula.refs, hr])) hnext
    have hright := ihright (by omega) (fun k r hr => hcell k r (by simp [Formula.refs, hr])) hnext
    refine hR.bind hfirst fun _ => hR.bind hleft fun x => hR.bind hright fun x' => ?_
    refine hR.bind (hR.lift fun e he => hallows e ?_) fun op => hR.pure _
    rw [BinaryOp.eq_unknown_of_named he]
    exact nofun
  | range name area =>
    have hcells := hR.mapM fun r hr => hcell (frames + 3) r hr (by omega)
    refine hR.bind hfirst fun _ => hR.bind hcells fun values => ?_
    refine hR.bind (hR.lift fun e he => hallows e ?_) fun op => hR.pure _
    rw [RangeOp.eq_unknown_of_named he]
    exact nofun
  | missing => exact hR.bind hfirst fun _ => hR.throw _ (hallows _ nofun)

/-- Where all errors are allowed the frames do not matter. -/
theorem readBy_all (hR : Compositional (fun _ => True) R) {allowance : Nat}
    (hcell : ∀ frames r, R (cell frames r) (y frames r)) (f : Formula) (frames : Nat) :
    R (f.readBy allowance cell frames) (f.readBy allowance y frames) :=
  hR.readBy (fun _ _ => trivial) (fun _ => trivial) le_rfl fun k r _ _ => hcell k r

/-- The same for a property of one evaluation. -/
theorem readBy_each {P : {α : Type} → Evaluating σ α → Prop}
    (hP : Compositional (τ := σ) (fun _ => True) fun x _ => P x) {allowance : Nat}
    (hcell : ∀ frames r, P (cell frames r)) (f : Formula) (frames : Nat) :
    P (f.readBy allowance cell frames) :=
  hP.readBy_all (y := cell) hcell f frames

end Compositional

end Worksheet
