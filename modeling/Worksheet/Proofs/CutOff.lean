import Mathlib
import Worksheet.Proofs.Agreement
import Worksheet.Proofs.DepthFree
import Worksheet.Proofs.Writing

/-!
# When evaluation is cut off

An evaluation of a well-formed formula has a value wherever it starts. A reference is cut off
exactly if the longest chain of references from the formula leads beyond the depth limit, and where
none is cut off the value is the one without a limit (`Sheet.evaluate_cutOffs`). With the default
limit, which is the number of cells, only cycles are cut off.
-/

namespace Worksheet.Sheet

variable {s : Sheet} {limit depth : Int} {f : Formula}

/-! ## Values of well-formed formulas -/

theorem exists_cellValue (hs : s.WellFormed) (limit depth : Int) {r : Ref} (hr : r.InSheet) :
    ∃ value, s.cellValue limit depth r = .ok value := by
  induction hroom : (limit + 1 - depth).toNat generalizing depth r with
  | zero => exact ⟨Number.nan, cellValue_of_lt s r (by omega)⟩
  | succ room ih =>
    obtain ⟨a, ha⟩ := Ref.address_of_inSheet hr
    rw [cellValue_of_le s r (by omega), ha]
    exact (hs a).exists_valueBy fun r' hr' => ih (depth + 1) (hs.closed a r' hr') (by omega)

theorem exists_valueAt (hs : s.WellFormed) (hf : f.WellFormed) (limit depth : Int) :
    ∃ value, s.valueAt limit depth f = .ok value :=
  hf.exists_valueBy fun r hr => exists_cellValue hs limit depth (hf.refs_inSheet r hr)

/-- An evaluation of a well-formed formula that is not given up has the plain value, and has counted
a cut-off exactly if some chain of references leads beyond the limit. -/
theorem exists_evaluate (hs : s.WellFormed) (hf : f.WellFormed)
    (hframes : (s.evaluate limit depth f {}).1 ≠ .error .stackExhausted) :
    ∃ value cutOffs, (s.evaluate limit depth f {}).1 = .ok (value, cutOffs) ∧
      s.valueAt limit depth f = .ok value ∧
      (0 < cutOffs ↔ ∃ n : Nat, s.Chain f.refs (n + 1) ∧ limit < depth + n) := by
  obtain ⟨value, hvalue⟩ := exists_valueAt hs hf limit depth
  obtain ⟨cutOffs, hsame, hcount⟩ := evaluate_agrees s limit depth f hframes
  rw [hvalue] at hsame
  exact ⟨value, cutOffs, hsame, hvalue, hcount value hvalue⟩

/-! ## The longest chain and the limit -/

/-- Some chain leads beyond the limit exactly if the longest one does. -/
theorem exists_chain_beyond_iff :
    (∃ n : Nat, s.Chain f.refs (n + 1) ∧ limit < depth + n) ↔
      1 ≤ s.longestChain f ∧
        (s.longestChain f = ⊤ ∨ limit < depth + (s.longestChain f).toNat - 1) := by
  simp only [chain_iff_le_longestChain]
  cases s.longestChain f with
  | top =>
    simp only [le_top, true_and, true_or, iff_true]
    exact ⟨(limit + 1 - depth).toNat, by omega⟩
  | coe h =>
    simp only [ENat.natCast_ne_top, false_or, ENat.toNat_natCast]
    constructor
    · rintro ⟨n, hn, hbeyond⟩
      have hle : n + 1 ≤ h := by exact_mod_cast hn
      exact ⟨by exact_mod_cast (by omega : 1 ≤ h), by omega⟩
    · rintro ⟨hpos, hbeyond⟩
      have hone : 1 ≤ h := by exact_mod_cast hpos
      exact ⟨h - 1, by exact_mod_cast (by omega : h - 1 + 1 ≤ h), by omega⟩

theorem exists_chain_beyond_cells_iff (hs : s.Closed) (hf : ∀ r ∈ f.refs, r.InSheet) :
    (∃ n : Nat, s.Chain f.refs (n + 1) ∧ ((rowCount * columnCount : Nat) : Int) < n) ↔
      s.ReachesCycle f := by
  constructor
  · rintro ⟨n, hn, hbeyond⟩
    exact reachesCycle_of_chain hs hf hn (by omega)
  · intro hcycle
    exact ⟨rowCount * columnCount + 1, chain_of_reachesCycle hcycle _, by omega⟩

/-! ## The event of a cut-off -/

/-- A measurement with events of detail notes how often references were cut off, if at all, and if
the formula can be written. -/
theorem measure_of_evaluate {value : Float} {cutOffs : Nat}
    (hevaluate : (s.evaluate limit depth f {}).1 = .ok (value, cutOffs)) :
    s.measure ⟨limit, true⟩ depth f =
      if 0 < cutOffs then
        match f.write with
        | .ok text => ⟨[.limitReached text limit cutOffs], .ok value⟩
        | .error why => ⟨[], .error why⟩
      else ⟨[], .ok value⟩ := by
  unfold measure measureWith
  simp only [hevaluate, Settings.reported, Bool.true_and, decide_eq_true_eq]
  split
  · cases f.write <;> rfl
  · rfl

/-- Either the event is noted, or the formula is too deep to be written. -/
theorem cutOff_iff_noted (hf : f.WellFormed) {value : Float} {cutOffs : Nat}
    (hevaluate : (s.evaluate limit depth f {}).1 = .ok (value, cutOffs)) :
    0 < cutOffs ↔
      (∃ text, .limitReached text limit cutOffs ∈ (s.measure ⟨limit, true⟩ depth f).events) ∨
        (s.measure ⟨limit, true⟩ depth f).outcome = .error .tooDeepToWrite := by
  rw [measure_of_evaluate hevaluate]
  by_cases hcut : 0 < cutOffs
  · cases hwrite : f.write with
    | ok text => simp [hcut]
    | error why => simp [hcut, (hf.refused_of_write hwrite).2]
  · simp [hcut]

theorem writingLimit_le_of_tooDeep (hf : f.WellFormed) {value : Float} {cutOffs : Nat}
    (hevaluate : (s.evaluate limit depth f {}).1 = .ok (value, cutOffs))
    (h : (s.measure ⟨limit, true⟩ depth f).outcome = .error .tooDeepToWrite) :
    Formula.writingLimit ≤ f.nesting := by
  rw [measure_of_evaluate hevaluate] at h
  split at h
  · cases hwrite : f.write with
    | ok text => rw [hwrite] at h; cases h
    | error why => exact (hf.refused_of_write hwrite).1
  · cases h

/-! ## Cut-offs and values -/

/-- **Cut-offs.** On a sheet that edits lead to, an evaluation that is not given up has a value. A
reference is cut off exactly if the longest chain of references from the formula leads beyond the
limit; the chains are unbounded exactly if the formula reaches a cycle. The event of a cut-off is
noted, unless there is no room to write the formula, and there is for every formula that is nested
no deeper than texts can be. If nothing is cut off, every chain ends and the value is the one without
a limit. Evaluation from the top with the default limit cuts off exactly the formulas that reach a
cycle. -/
theorem evaluate_cutOffs (hs : s.Reachable) (hf : f.WellFormed)
    (hframes : (s.evaluate limit depth f {}).1 ≠ .error .stackExhausted) :
    ∃ value cutOffs, (s.evaluate limit depth f {}).1 = .ok (value, cutOffs) ∧
      (0 < cutOffs ↔ 1 ≤ s.longestChain f ∧
        (s.longestChain f = ⊤ ∨ limit < depth + (s.longestChain f).toNat - 1)) ∧
      (s.longestChain f = ⊤ ↔ s.ReachesCycle f) ∧
      (0 < cutOffs ↔
        (∃ text, .limitReached text limit cutOffs ∈ (s.measure ⟨limit, true⟩ depth f).events) ∨
          (s.measure ⟨limit, true⟩ depth f).outcome = .error .tooDeepToWrite) ∧
      ((s.measure ⟨limit, true⟩ depth f).outcome = .error .tooDeepToWrite →
        Formula.nestingLimit < f.nesting) ∧
      (cutOffs = 0 →
        ¬ s.ReachesCycle f ∧ (∀ r ∈ f.refs, s.Ends r) ∧ s.freeValue f = .ok value) ∧
      (limit = (rowCount * columnCount : Nat) → depth = 0 →
        (0 < cutOffs ↔ s.ReachesCycle f)) := by
  have hclosed := hs.wellFormed.closed
  have hrefs := hf.refs_inSheet
  obtain ⟨value, cutOffs, hevaluate, hvalue, hcount⟩ := exists_evaluate hs.wellFormed hf hframes
  refine ⟨value, cutOffs, hevaluate, hcount.trans exists_chain_beyond_iff,
    longestChain_eq_top_iff hclosed hrefs, cutOff_iff_noted hf hevaluate, fun hdeep => ?_, ?_, ?_⟩
  · exact Formula.nestingLimit_lt_writingLimit.trans_le
      (writingLimit_le_of_tooDeep hf hevaluate hdeep)
  · intro hnone
    have hwithin : ∀ n : Nat, s.Chain f.refs (n + 1) → depth + n ≤ limit := fun n hn => by
      by_contra hbeyond
      have := hcount.mpr ⟨n, hn, by omega⟩
      omega
    have hacyclic : ¬ s.ReachesCycle f := fun hcycle => by
      have := hwithin _ (chain_of_reachesCycle hcycle ((limit + 1 - depth).toNat + 1))
      omega
    refine ⟨hacyclic, ends_of_not_reachesCycle hclosed hrefs hacyclic, ?_⟩
    rw [← valueAt_eq_freeValue hwithin, hvalue]
  · rintro rfl rfl
    simp only [Int.zero_add] at hcount
    exact hcount.trans (exists_chain_beyond_cells_iff hclosed hrefs)

theorem doubling_reachable : doubling.Reachable := by
  have hentry : Entry.ofText "=add(A0,A0)" =
      ⟨"=add(A0,A0)", .binary "add" (.ref ⟨0, 0⟩) (.ref ⟨0, 0⟩)⟩ := by cbv
  have hwrite := Reachable.empty.write .first "=add(A0,A0)"
  rwa [hentry] at hwrite

/-- The circle of a cell that adds itself to itself, read with a limit of three. -/
theorem evaluate_doubling_cutOffs :
    (doubling.evaluate 3 0 (.ref ⟨0, 0⟩) {}).1 ≠ .error .stackExhausted ∧
      ∃ value cutOffs, (doubling.evaluate 3 0 (.ref ⟨0, 0⟩) {}).1 = .ok (value, cutOffs) ∧
        0 < cutOffs := by
  obtain ⟨value, cutOffs, hevaluate, hcount, htop, -, -, -, -⟩ :=
    evaluate_cutOffs doubling_reachable (by decide) doubling_completes
  have hcycle : doubling.ReachesCycle (.ref ⟨0, 0⟩) := by
    have hself : doubling.Mentions ⟨0, 0⟩ ⟨0, 0⟩ := by decide
    exact ⟨⟨0, 0⟩, by decide, ⟨0, 0⟩, .refl, .single hself⟩
  have hinfinite := htop.mpr hcycle
  have hbeyond : 1 ≤ doubling.longestChain (.ref ⟨0, 0⟩) := hinfinite ▸ le_top
  exact ⟨doubling_completes, value, cutOffs, hevaluate, hcount.mpr ⟨hbeyond, .inl hinfinite⟩⟩

end Worksheet.Sheet
