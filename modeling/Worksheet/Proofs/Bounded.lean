import Worksheet.Evaluation.Bounded
import Worksheet.Proofs.References

/-!
# Values and the depth at which they are computed

What the value of a formula depends on. Of the sheet it is only the cells that the formula
mentions (`valueBy_congr`), and where all chains of references stay within the limit it is neither
the depth nor the limit (`cellValue_eq_of_not_chain`).
-/

namespace Worksheet

theorem mapM_congr_mem {α β : Type} {m : Type → Type} [Monad m] [LawfulMonad m]
    {cell cell' : α → m β} {rs : List α} (h : ∀ r ∈ rs, cell r = cell' r) :
    rs.mapM cell = rs.mapM cell' := by
  induction rs with
  | nil => rfl
  | cons r rs ih =>
    rw [List.mapM_cons, List.mapM_cons, h r List.mem_cons_self,
      ih fun r' hr' => h r' (List.mem_cons_of_mem _ hr')]

/-- The value of a formula depends on the values of the cells that it mentions. -/
theorem Formula.valueBy_congr {cell cell' : Ref → Except Error Float} {f : Formula}
    (h : ∀ r ∈ f.refs, cell r = cell' r) : f.valueBy cell = f.valueBy cell' := by
  induction f with
  | constant value text => rfl
  | ref r => exact h r (by simp [refs])
  | binary name left right ihleft ihright =>
    have hleft := ihleft fun r hr => h r (by simp [refs, hr])
    have hright := ihright fun r hr => h r (by simp [refs, hr])
    simp only [valueBy, hleft, hright]
  | range name area =>
    have hcells : area.cells.mapM cell = area.cells.mapM cell' := mapM_congr_mem h
    simp only [valueBy, hcells]
  | missing => rfl

namespace Sheet

variable {s : Sheet} {limit limit' depth depth' : Int} {r : Ref}

theorem cellValue_of_lt (s : Sheet) (r : Ref) (h : limit < depth) :
    s.cellValue limit depth r = .ok Number.nan := by
  rw [cellValue, if_pos h]

theorem cellValue_of_le (s : Sheet) (r : Ref) (h : depth ≤ limit) :
    s.cellValue limit depth r =
      r.address >>= fun a => s.valueAt limit (depth + 1) (s.entry a).formula := by
  rw [cellValue, if_neg (Int.not_lt.mpr h)]
  rfl

/-- A cell below which no chain is longer than `n` has the same value wherever there is room for
`n` references. -/
theorem cellValue_eq_of_not_chain {n : Nat} (hchain : ¬ s.Chain [r] (n + 1))
    (h : depth + n ≤ limit + 1) (h' : depth' + n ≤ limit' + 1) :
    s.cellValue limit depth r = s.cellValue limit' depth' r := by
  induction n generalizing r depth depth' with
  | zero => exact absurd (chain_one s r) hchain
  | succ n ih =>
    rw [cellValue_of_le s r (by omega), cellValue_of_le s r (by omega)]
    unfold Ref.address
    split
    · rename_i a ha
      refine Formula.valueBy_congr fun r' hr' => ?_
      refine ih (fun hlong => hchain ?_) (by omega) (by omega)
      rw [chain_singleton, refsAt_of_address ha]
      exact chain_succ.mpr ⟨r', hr', chain_singleton.mp hlong⟩
    · rfl

end Sheet

end Worksheet
