import Worksheet.Proofs.Bounded

/-!
# Values without a depth limit

Where every chain of references from a cell `Ends`, the cell has a value that needs no depth limit:
it is computed by recursion along the references. A cell from which chains go on without end has no
such value; it counts as not a number here, which no statement uses.

* `Sheet.freeCellValue_eq`: the value without a limit is computed from those of the cells that the
  cell mentions.
* `Sheet.valueAt_eq_freeValue`: the value within a limit is the value without one, if all chains
  stay within the limit.
-/

namespace Worksheet.Sheet

instance (s : Sheet) (r r' : Ref) : Decidable (s.Mentions r r') :=
  inferInstanceAs (Decidable (r' ∈ s.refsAt r))

/-- Every chain of references from a cell comes to an end. -/
def Ends (s : Sheet) (r : Ref) : Prop := Acc (fun r' r => s.Mentions r r') r

/-- The value of a cell from which every chain ends. -/
def valueOfEnds (s : Sheet) (r : Ref) (hr : s.Ends r) : Except Error Float := do
  let a ← r.address
  (s.entry a).formula.valueBy fun r' =>
    if h : s.Mentions r r' then s.valueOfEnds r' (hr.inv h) else .ok Number.nan
termination_by (⟨r, hr⟩ : { r // Acc (fun r' r => s.Mentions r r') r })
decreasing_by exact h

open Classical in
/-- The value of a cell without a depth limit. -/
noncomputable def freeCellValue (s : Sheet) (r : Ref) : Except Error Float :=
  if hr : s.Ends r then s.valueOfEnds r hr else .ok Number.nan

noncomputable def freeValue (s : Sheet) (f : Formula) : Except Error Float :=
  f.valueBy s.freeCellValue

variable {s : Sheet} {limit depth : Int} {r : Ref} {f : Formula}

theorem freeCellValue_of_ends (hr : s.Ends r) : s.freeCellValue r = s.valueOfEnds r hr :=
  dif_pos hr

theorem freeCellValue_eq (hr : s.Ends r) :
    s.freeCellValue r = r.address >>= fun a => s.freeValue (s.entry a).formula := by
  rw [freeCellValue_of_ends hr, valueOfEnds]
  unfold Ref.address
  split
  · rename_i a ha
    refine Formula.valueBy_congr fun r' hr' => ?_
    have hmention : s.Mentions r r' := by
      rw [Mentions, refsAt_of_address ha]
      exact hr'
    rw [dif_pos hmention, freeCellValue_of_ends (hr.inv hmention)]
  · rfl

theorem ends_of_not_chain {n : Nat} (h : ¬ s.Chain [r] (n + 1)) : s.Ends r := by
  induction n generalizing r with
  | zero => exact absurd (chain_one s r) h
  | succ n ih =>
    refine Acc.intro r fun r' hmention => ih fun hlong => h ?_
    exact chain_singleton.mpr (chain_succ.mpr ⟨r', hmention, chain_singleton.mp hlong⟩)

theorem ends_of_not_reachesCycle (hs : s.Closed) (hf : ∀ r ∈ f.refs, r.InSheet)
    (hacyclic : ¬ s.ReachesCycle f) : ∀ r ∈ f.refs, s.Ends r := by
  intro r hr
  refine ends_of_not_chain (n := rowCount * columnCount) fun hlong => hacyclic ?_
  have hchain := chain_succ.mpr ⟨r, hr, chain_singleton.mp hlong⟩
  exact reachesCycle_of_chain hs hf hchain (Nat.lt_succ_self _)

/-- A cell whose chains stay within the limit has the value that it has without a limit. -/
theorem cellValue_eq_freeCellValue (h : ∀ n : Nat, s.Chain [r] (n + 1) → depth + n ≤ limit) :
    s.cellValue limit depth r = s.freeCellValue r := by
  have hends : s.Ends r := ends_of_not_chain (n := (limit + 1 - depth).toNat) fun hlong => by
    have := h _ hlong
    omega
  induction hends generalizing depth with
  | intro r hbelow ih =>
    have hdepth : depth ≤ limit := by simpa using h 0 (chain_one s r)
    rw [cellValue_of_le s r hdepth, freeCellValue_eq (.intro r hbelow)]
    unfold Ref.address
    split
    · rename_i a ha
      refine Formula.valueBy_congr fun r' hr' => ?_
      have hmention : s.Mentions r r' := by
        rw [Mentions, refsAt_of_address ha]
        exact hr'
      refine ih r' hmention fun n hn => ?_
      have hlong := chain_succ.mpr ⟨r', hmention, chain_singleton.mp hn⟩
      have := h (n + 1) (chain_singleton.mpr hlong)
      omega
    · rfl

theorem valueAt_eq_freeValue (h : ∀ n : Nat, s.Chain f.refs (n + 1) → depth + n ≤ limit) :
    s.valueAt limit depth f = s.freeValue f :=
  Formula.valueBy_congr fun r hr => cellValue_eq_freeCellValue fun n hn =>
    h n (chain_succ.mpr ⟨r, hr, chain_singleton.mp hn⟩)

end Worksheet.Sheet
