import Mathlib
import Worksheet.Proofs.Agreement
import Worksheet.Proofs.History

/-!
# What depends on a cell

An evaluation looks at the cells that its formula reaches along references, and at no others. On
two sheets that hold the same entries in these cells it runs in lock step: it opens the same frames,
finds the same in its memo, cuts off the same references and is given up at the same place
(`Sheet.readCell_congr`, by induction on the room below the limit). So a text that is given to a
cell changes nothing for the cells from which that cell is not reached
(`Sheet.enter_affects_dependents`).
-/

namespace Worksheet

/-- After a computation that is lifted, only the values that it can have matter. -/
theorem Evaluation.lift_bind_congr {α β : Type} {plain : Except Error α}
    {next next' : α → Evaluation β} (h : ∀ a, plain = .ok a → next a = next' a) :
    ((liftM plain : Evaluation α) >>= next) = (liftM plain : Evaluation α) >>= next' := by
  cases plain with
  | error why => rfl
  | ok a => exact h a rfl

theorem Evaluation.eq_compositional :
    Compositional (σ := Memo) (τ := Memo) (fun _ => True) fun x y => x = y where
  pure _ := rfl
  throw _ _ := rfl
  bind hx hnext := by rw [hx, funext hnext]

/-- What a formula does when it is worked out depends on how the cells that it mentions are read. -/
theorem Formula.readBy_congr (allowance : Nat) {cell cell' : Nat → Ref → Evaluation Float}
    {f : Formula} (h : ∀ frames, ∀ r ∈ f.refs, cell frames r = cell' frames r) (frames : Nat) :
    f.readBy allowance cell frames = f.readBy allowance cell' frames :=
  Evaluation.eq_compositional.readBy (fun _ _ => trivial) (fun _ => trivial) le_rfl
    fun frames r hr _ => h frames r hr

theorem Report.lift_ok_bind {α β : Type} (a : α) (next : α → Report β) :
    ((liftM (.ok a : Except Error α) : Report α) >>= next) = next a := rfl

namespace Sheet

/-- Along references one gets from the cell at `r` to the cell at `c`. Every cell reaches itself. -/
def Reaches (s : Sheet) (r c : Ref) : Prop := Relation.ReflTransGen s.Mentions r c

/-- Two sheets hold the same entries in all cells that the cell at `r` reaches on the first. -/
def AgreeFrom (s s' : Sheet) (r : Ref) : Prop := ∀ a : Address, s.Reaches r a.ref →
  s'.entry a = s.entry a

variable {s s' : Sheet} {limit depth : Int} {r : Ref} {a : Address} {f : Formula}

theorem AgreeFrom.entry (h : s.AgreeFrom s' a.ref) : s'.entry a = s.entry a := h a .refl

theorem AgreeFrom.mentioned (h : s.AgreeFrom s' a.ref) (hr : r ∈ (s.entry a).formula.refs) :
    s.AgreeFrom s' r := by
  have hmention : s.Mentions a.ref r := by
    rw [Mentions, refsAt_of_address a.address?_ref]
    exact hr
  exact fun b hb => h b (.head hmention hb)

theorem AgreeFrom.of_not_reaches {c : Address} (hother : ∀ b, b ≠ c → s'.entry b = s.entry b)
    (h : ¬ s.Reaches r c.ref) : s.AgreeFrom s' r := by
  intro b hb
  apply hother
  rintro rfl
  exact h hb

/-- A cell is read in the same way on two sheets that agree on all it reaches. -/
theorem readCell_congr (h : s.AgreeFrom s' r) (limit : Int) (allowance : Nat) (depth : Int)
    (frames : Nat) :
    s'.readCell limit allowance depth frames r = s.readCell limit allowance depth frames r := by
  induction hroom : (limit + 1 - depth).toNat generalizing depth frames r with
  | zero =>
    have hbelow : limit < depth := by omega
    rw [readCell, readCell, if_pos hbelow, if_pos hbelow]
  | succ room ih =>
    rw [readCell, readCell, if_neg (by omega), if_neg (by omega)]
    refine bind_congr fun _ => bind_congr fun _ => bind_congr fun m => ?_
    -- Both runs have the same memo, so they recall the same or both go on to the formula.
    split
    · rfl
    · refine bind_congr fun _ => bind_congr fun _ => ?_
      refine Evaluation.lift_bind_congr fun a ha => ?_
      obtain rfl := Ref.ref_of_address ha
      have hformula := Formula.readBy_congr allowance
        (fun frames r hr => ih (h.mentioned hr) (depth + 1) frames (by omega)) (frames + 1)
      rw [h.entry, hformula]

/-! ## Reports -/

theorem evaluate_congr (h : ∀ r ∈ f.refs, s.AgreeFrom s' r) (limit depth : Int) (m : Memo) :
    s'.evaluate limit depth f m = s.evaluate limit depth f m := by
  have hread : s'.read limit depth f = s.read limit depth f :=
    Formula.readBy_congr _ (fun frames r hr => readCell_congr (h r hr) limit _ depth frames) 0
  simp only [evaluate, hread]

theorem measure_congr (h : ∀ r ∈ f.refs, s.AgreeFrom s' r) (settings : Settings) (depth : Int) :
    s'.measure settings depth f = s.measure settings depth f := by
  simp only [measure, measureWith, evaluate_congr h]

theorem number_congr {e : Entry} (h : ∀ r ∈ e.formula.refs, s.AgreeFrom s' r)
    (settings : Settings) (depth : Int) :
    s'.number settings depth e = s.number settings depth e := by
  simp only [number, measure_congr h]

theorem AgreeFrom.number (h : s.AgreeFrom s' a.ref) (settings : Settings) (depth : Int) :
    s'.number settings depth (s'.entry a) = s.number settings depth (s.entry a) := by
  rw [h.entry]
  exact number_congr (fun r hr => h.mentioned hr) settings depth

theorem AgreeFrom.display (h : s.AgreeFrom s' a.ref) (settings : Settings) :
    s'.display settings (s'.entry a) = s.display settings (s.entry a) := by
  have hnumber := h.number settings 0
  rw [h.entry] at hnumber ⊢
  simp only [Sheet.display, hnumber]

theorem answer_adHoc_congr {text : String}
    (h : ∀ f, Entry.formula? text = .ok f → ∀ r ∈ f.refs, s.AgreeFrom s' r)
    (settings : Settings) (m : Memo) :
    s'.answer settings m (.adHoc text) = s.answer settings m (.adHoc text) := by
  cases hread : Entry.formula? text with
  | error why => simp only [answer, hread]
  | ok f => simp only [answer, hread, measure_congr (h f hread)]

theorem answer_number_given {i j : Datum} (h : a.GivenBy i j) (s : Sheet) (settings : Settings)
    (m : Memo) : s.answer settings m (.number i j) =
      (do return .number (← s.number settings 0 (s.entry a)), m) := by
  simp only [answer, Address.ofData_eq_ok_iff.mpr h, Report.lift_ok_bind]

theorem answer_shown_given {i j : Datum} (h : a.GivenBy i j) (s : Sheet) (settings : Settings)
    (m : Memo) : s.answer settings m (.shown i j) =
      (do return .text (← s.display settings (s.entry a)), m) := by
  simp only [answer, Address.ofData_eq_ok_iff.mpr h, Report.lift_ok_bind]

/-! ## A text that is given to a cell -/

/-- **Only dependents of a cell see what is written there.** After a cell `c` of any sheet has been
given any text, every cell from which `c` is not reached has the same number and shows the same as
before, and so has every text whose references do not reach `c`. The reports are the same as a
whole: the errors, the events of cut-offs, and those of evaluations that are given up. -/
theorem enter_affects_dependents (settings settings' : Settings) (s : Sheet) {c : Address}
    {row column : Datum} (hc : c.GivenBy row column) (text : String) :
    let s' := (s.edit settings (.enter row column text)).1
    (∀ x : Address, ¬ s.Reaches x.ref c.ref → ∀ i j, x.GivenBy i j → ∀ m,
      s'.answer settings' m (.number i j) = s.answer settings' m (.number i j) ∧
        s'.answer settings' m (.shown i j) = s.answer settings' m (.shown i j)) ∧
    ∀ t : String, (∀ f, Entry.formula? t = .ok f → ∀ r ∈ f.refs, ¬ s.Reaches r c.ref) → ∀ m,
      s'.answer settings' m (.adHoc t) = s.answer settings' m (.adHoc t) := by
  intro s'
  have hother : ∀ b, b ≠ c → s'.entry b = s.entry b := by
    intro b hb
    have hwrite : s' = s.write c (Entry.ofText text) := (edit_enter_given settings s hc text).1
    rw [hwrite, entry_write_of_ne s _ hb.symm]
  constructor
  · intro x hx i j hcell m
    have hagree : s.AgreeFrom s' x.ref := .of_not_reaches hother hx
    rw [answer_number_given hcell, answer_number_given hcell, answer_shown_given hcell,
      answer_shown_given hcell, hagree.number, hagree.display]
    exact ⟨rfl, rfl⟩
  · intro t ht m
    exact answer_adHoc_congr
      (fun f hf r hr => AgreeFrom.of_not_reaches hother (ht f hf r hr)) settings' m

/-- The cell that adds itself to itself reaches no other cell. -/
theorem eq_first_of_doubling_reaches {c : Ref} (h : doubling.Reaches Address.first.ref c) :
    c = Address.first.ref := by
  induction h with
  | refl => rfl
  | @tail b d _ hmention ih =>
    subst ih
    rw [Mentions, refsAt_of_address Address.first.address?_ref, doubling, entry_write_self]
      at hmention
    have hself : d = ⟨0, 0⟩ := by simpa [Formula.refs] using hmention
    exact hself

/-- The text `=B0` makes a circle of its own in B0, which the circle in A0 does not see. -/
theorem enter_beside_doubling :
    let s' := (doubling.edit {} (.enter (.flag false) (.whole 1) "=B0")).1
    ¬ doubling.Reaches ⟨0, 0⟩ ⟨1, 0⟩ ∧
      s'.answer ⟨3, true⟩ {} (.number (.whole 0) (.flag false)) =
        doubling.answer ⟨3, true⟩ {} (.number (.whole 0) (.flag false)) ∧
      s'.answer ⟨3, true⟩ {} (.adHoc "=A0") = doubling.answer ⟨3, true⟩ {} (.adHoc "=A0") := by
  have hc : (⟨0, 1⟩ : Address).GivenBy (.flag false) (.whole 1) := ⟨.no, .whole 1⟩
  have hx : Address.first.GivenBy (.whole 0) (.flag false) := ⟨.whole 0, .no⟩
  have hreach : ¬ doubling.Reaches Address.first.ref (⟨0, 1⟩ : Address).ref := by
    intro h
    exact absurd (eq_first_of_doubling_reaches h) (by decide)
  have hf : Entry.formula? "=A0" = .ok (.ref Address.first.ref) := by cbv
  obtain ⟨hcells, htexts⟩ :=
    enter_affects_dependents {} ⟨3, true⟩ doubling (c := ⟨0, 1⟩) hc "=B0"
  refine ⟨hreach, (hcells .first hreach _ _ hx {}).1, htexts "=A0" (fun f hread r hr => ?_) {}⟩
  rw [hf] at hread
  cases hread
  obtain rfl : r = Address.first.ref := by simpa [Formula.refs] using hr
  exact hreach

end Sheet

end Worksheet
