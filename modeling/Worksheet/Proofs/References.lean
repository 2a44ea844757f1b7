import Mathlib.Data.ENat.Lattice
import Mathlib.Data.Fintype.EquivFin
import Mathlib.Data.List.Chain
import Mathlib.Logic.Relation
import Mathlib.Order.CompletePartialOrder
import Mathlib.Tactic.Push
import Worksheet.Sheet

/-!
# References from cell to cell

What a formula mentions, and the chains of references that begin with it. A chain is a list of
references, each of them mentioned in the cell that the one before it leads to; a rectangle
mentions all of its cells. Evaluation follows every chain, so the longest one says how deep an
evaluation goes.

* `Sheet.chain_succ`: a chain begins with a reference and goes on in the cell there.
* `Sheet.longestChain_eq_top_iff`: on a sheet all of whose references lead to cells, the chains
  from a formula are unbounded exactly if the formula reaches a cycle.
* `Sheet.longestChain_le`: otherwise no chain is longer than the sheet has cells.
-/

namespace Worksheet

/-! ## Cells of a sheet -/

/-- A reference leads to a cell of a sheet. -/
def Ref.InSheet (r : Ref) : Prop :=
  (0 ≤ r.row ∧ r.row < rowCount) ∧ 0 ≤ r.column ∧ r.column < columnCount

theorem Ref.inSheet_iff {r : Ref} : r.InSheet ↔ ∃ a, r.address? = some a := by
  unfold Ref.InSheet Ref.address?
  split
  · rename_i hin
    exact ⟨fun _ => ⟨_, rfl⟩, fun _ => hin⟩
  · rename_i hout
    exact ⟨fun hin => absurd hin hout, by simp⟩

theorem Ref.ref_of_address? {r : Ref} {a : Address} (h : r.address? = some a) : a.ref = r := by
  unfold Ref.address? at h
  split at h
  · rename_i hin
    cases h
    obtain ⟨column, row⟩ := r
    simp only [Address.ref, mk.injEq]
    exact ⟨Int.toNat_of_nonneg hin.2.1, Int.toNat_of_nonneg hin.1.1⟩
  · cases h

theorem Address.address?_ref (a : Address) : a.ref.address? = some a := by
  obtain ⟨⟨row, hrow⟩, ⟨column, hcolumn⟩⟩ := a
  have hin : (0 ≤ (row : Int) ∧ (row : Int) < rowCount) ∧
      0 ≤ (column : Int) ∧ (column : Int) < columnCount := by omega
  exact dif_pos hin

theorem Address.ref_injective : Function.Injective Address.ref := fun a b h =>
  Option.some.inj (by rw [← a.address?_ref, h, b.address?_ref])

theorem Address.inSheet (a : Address) : a.ref.InSheet := Ref.inSheet_iff.mpr ⟨a, a.address?_ref⟩

theorem Address.address_ref (a : Address) : a.ref.address = .ok a := by
  simp only [Ref.address, Address.address?_ref]

theorem Ref.ref_of_address {r : Ref} {a : Address} (h : r.address = .ok a) : a.ref = r := by
  unfold Ref.address at h
  split at h
  · rename_i b hb
    cases h
    exact Ref.ref_of_address? hb
  · cases h

theorem Ref.address_of_inSheet {r : Ref} (h : r.InSheet) : ∃ a, r.address = .ok a := by
  obtain ⟨a, ha⟩ := Ref.inSheet_iff.mp h
  exact ⟨a, by simp only [Ref.address, ha]⟩

/-- The first cell of a sheet, A0. -/
def Address.first : Address := ⟨0, 0⟩

theorem Address.mem_all (a : Address) : a ∈ Address.all :=
  List.mem_ofFn.mpr ⟨a.place, Address.ofPlace_place a⟩

theorem Address.length_all : Address.all.length = rowCount * columnCount := List.length_ofFn

/-- No more cells than the sheet has can be listed without repetition. -/
theorem length_le_of_nodup {path : List Ref} (hnodup : path.Nodup)
    (hin : ∀ r ∈ path, r.InSheet) : path.length ≤ rowCount * columnCount := by
  have hsub : path ⊆ Address.all.map Address.ref := by
    intro r hr
    obtain ⟨a, ha⟩ := Ref.inSheet_iff.mp (hin r hr)
    exact List.mem_map.mpr ⟨a, Address.mem_all a, Ref.ref_of_address? ha⟩
  have hle := (hnodup.subperm hsub).length_le
  rwa [List.length_map, Address.length_all] at hle

/-! ## Chains of references -/

/-- The references of a formula, in the order in which they are read. -/
def Formula.refs : Formula → List Ref
  | constant _ _ => []
  | ref r => [r]
  | binary _ left right => left.refs ++ right.refs
  | range _ area => area.cells
  | missing => []

namespace Sheet

/-- The references in the cell that a reference leads to; none if it leads to no cell. -/
def refsAt (s : Sheet) (r : Ref) : List Ref :=
  match r.address? with
  | some a => (s.entry a).formula.refs
  | none => []

/-- The cell at `r` mentions `r'`. -/
def Mentions (s : Sheet) (r r' : Ref) : Prop := r' ∈ s.refsAt r

/-- There is a chain of `n` references whose first is one of `start`. -/
def Chain (s : Sheet) (start : List Ref) (n : Nat) : Prop :=
  ∃ path : List Ref, path.length = n ∧ path.IsChain s.Mentions ∧ ∀ r ∈ path.head?, r ∈ start

/-- The number of references on the longest chain from a formula, infinite if there are chains of
every length. -/
noncomputable def longestChain (s : Sheet) (f : Formula) : ℕ∞ :=
  ⨆ n ∈ {n : ℕ | s.Chain f.refs n}, (n : ℕ∞)

/-- One can get from a formula along references to a cell, and from there back to this cell. -/
def ReachesCycle (s : Sheet) (f : Formula) : Prop :=
  ∃ r ∈ f.refs, ∃ c, Relation.ReflTransGen s.Mentions r c ∧ Relation.TransGen s.Mentions c c

variable {s : Sheet} {start xs ys : List Ref} {r : Ref} {n m : Nat}

theorem chain_zero (s : Sheet) (start : List Ref) : s.Chain start 0 :=
  ⟨[], rfl, .nil, by simp⟩

theorem chain_succ : s.Chain start (n + 1) ↔ ∃ r ∈ start, s.Chain (s.refsAt r) n := by
  constructor
  · rintro ⟨path, hlength, hchain, hhead⟩
    cases path with
    | nil => simp at hlength
    | cons r rest =>
      rw [List.isChain_cons] at hchain
      exact ⟨r, hhead r (by simp), rest, by simpa using hlength, hchain.2, hchain.1⟩
  · rintro ⟨r, hr, path, hlength, hchain, hhead⟩
    refine ⟨r :: path, by simp [hlength], ?_, by simpa using hr⟩
    exact List.isChain_cons.mpr ⟨hhead, hchain⟩

theorem not_chain_nil : ¬ s.Chain [] (n + 1) := by
  rw [chain_succ]
  simp

theorem chain_singleton : s.Chain [r] (n + 1) ↔ s.Chain (s.refsAt r) n := by
  simp [chain_succ]

theorem chain_one (s : Sheet) (r : Ref) : s.Chain [r] 1 := chain_singleton.mpr (chain_zero s _)

theorem chain_append : s.Chain (xs ++ ys) (n + 1) ↔ s.Chain xs (n + 1) ∨ s.Chain ys (n + 1) := by
  simp only [chain_succ, List.mem_append, or_and_right, exists_or]

theorem Chain.of_le (h : s.Chain start n) (hm : m ≤ n) : s.Chain start m := by
  induction m generalizing start n with
  | zero => exact chain_zero s start
  | succ m ih =>
    obtain ⟨n, rfl⟩ : ∃ k, n = k + 1 := ⟨n - 1, by omega⟩
    obtain ⟨r, hr, hrest⟩ := chain_succ.mp h
    exact chain_succ.mpr ⟨r, hr, ih hrest (by omega)⟩

theorem refsAt_of_address {a : Address} (h : r.address? = some a) :
    s.refsAt r = (s.entry a).formula.refs := by
  simp only [refsAt, h]

/-! ## Chains and cycles -/

/-- A path of references that visits one of them twice closes a cycle. -/
theorem exists_cycle_of_not_nodup {path : List Ref} (hchain : path.IsChain s.Mentions)
    (hdup : ¬ path.Nodup) : ∃ c ∈ path, Relation.TransGen s.Mentions c c := by
  have hpair : path.Pairwise (Relation.TransGen s.Mentions) :=
    (hchain.imp fun _ _ h => Relation.TransGen.single h).pairwise
  rw [List.nodup_iff_injective_get, Function.Injective] at hdup
  push Not at hdup
  obtain ⟨i, j, hij, hne⟩ := hdup
  rcases Nat.lt_or_gt_of_ne (fun h => hne (Fin.ext h)) with hlt | hlt
  · have h := List.pairwise_iff_get.mp hpair i j hlt
    exact ⟨path.get i, List.get_mem _ _, by rwa [← hij] at h⟩
  · have h := List.pairwise_iff_get.mp hpair j i hlt
    exact ⟨path.get j, List.get_mem _ _, by rwa [hij] at h⟩

theorem reflTransGen_of_mem_path {path : List Ref} (hchain : (r :: path).IsChain s.Mentions) :
    ∀ c ∈ r :: path, Relation.ReflTransGen s.Mentions r c := by
  intro c hc
  obtain ⟨before, behind, hsplit⟩ := List.append_of_mem hc
  rw [hsplit] at hchain
  cases before with
  | nil => simp at hsplit; exact hsplit.1 ▸ .refl
  | cons b before =>
    obtain ⟨rfl, -⟩ : r = b ∧ _ := by simpa using hsplit
    have hpair : ((r :: before) ++ c :: behind).Pairwise (Relation.TransGen s.Mentions) :=
      (hchain.imp fun _ _ h => Relation.TransGen.single h).pairwise
    exact ((List.pairwise_cons.mp hpair).1 c (by simp)).to_reflTransGen

/-- Every reference in every cell leads to a cell. -/
def Closed (s : Sheet) : Prop := ∀ a, ∀ r ∈ (s.entry a).formula.refs, r.InSheet

theorem Closed.refsAt (hs : s.Closed) (r : Ref) : ∀ r' ∈ s.refsAt r, r'.InSheet := by
  intro r' hr'
  unfold Sheet.refsAt at hr'
  split at hr'
  · exact hs _ r' hr'
  · cases hr'

theorem inSheet_of_mem_path (hs : s.Closed) {path : List Ref} (hchain : path.IsChain s.Mentions)
    (hhead : ∀ r ∈ path.head?, r.InSheet) : ∀ r ∈ path, r.InSheet := by
  induction path with
  | nil => simp
  | cons r rest ih =>
    rw [List.isChain_cons] at hchain
    have hrest := ih hchain.2 fun r' hr' => hs.refsAt r r' (hchain.1 r' hr')
    simpa using ⟨hhead r (by simp), hrest⟩

/-- A chain that is longer than the sheet has cells visits one of them twice. -/
theorem reachesCycle_of_chain {f : Formula} (hs : s.Closed) (hf : ∀ r ∈ f.refs, r.InSheet)
    (hchain : s.Chain f.refs n) (hn : rowCount * columnCount < n) : s.ReachesCycle f := by
  obtain ⟨path, hlength, hpath, hhead⟩ := hchain
  have hin := inSheet_of_mem_path hs hpath fun r hr => hf r (hhead r hr)
  have hdup : ¬ path.Nodup := fun hnodup => by
    have := length_le_of_nodup hnodup hin
    omega
  obtain ⟨c, hc, hcycle⟩ := exists_cycle_of_not_nodup hpath hdup
  cases path with
  | nil => cases hc
  | cons r rest =>
    exact ⟨r, hhead r (by simp), c, reflTransGen_of_mem_path hpath c hc, hcycle⟩

theorem chain_of_reflTransGen {c : Ref} (h : Relation.ReflTransGen s.Mentions r c)
    (hc : s.Chain (s.refsAt c) n) : s.Chain (s.refsAt r) n := by
  induction h using Relation.ReflTransGen.head_induction_on with
  | refl => exact hc
  | head hmention _ ih => exact (chain_succ.mpr ⟨_, hmention, ih⟩).of_le (Nat.le_succ n)

theorem chain_of_transGen {c : Ref} (h : Relation.TransGen s.Mentions r c)
    (hc : s.Chain (s.refsAt c) n) : s.Chain (s.refsAt r) (n + 1) := by
  obtain ⟨b, hb, hrest⟩ := Relation.TransGen.head'_iff.mp h
  exact chain_succ.mpr ⟨b, hb, chain_of_reflTransGen hrest hc⟩

theorem chain_of_reachesCycle {f : Formula} (h : s.ReachesCycle f) (n : Nat) :
    s.Chain f.refs n := by
  obtain ⟨r, hr, c, hreach, hcycle⟩ := h
  have hround : ∀ n, s.Chain (s.refsAt c) n := by
    intro n
    induction n with
    | zero => exact chain_zero s _
    | succ n ih => exact chain_of_transGen hcycle ih
  exact (chain_succ.mpr ⟨r, hr, chain_of_reflTransGen hreach (hround n)⟩).of_le (Nat.le_succ n)

/-! ## The longest chain -/

theorem le_longestChain {f : Formula} (h : s.Chain f.refs n) : (n : ℕ∞) ≤ s.longestChain f :=
  le_iSup₂_of_le n h le_rfl

theorem chain_of_le_longestChain {f : Formula} (h : (n : ℕ∞) ≤ s.longestChain f) :
    s.Chain f.refs n := by
  by_contra hno
  have hbound : s.longestChain f ≤ ((n - 1 : ℕ) : ℕ∞) := by
    refine iSup₂_le fun m hm => ?_
    have hlt : m < n := by
      by_contra hge
      exact hno (hm.of_le (Nat.le_of_not_lt hge))
    exact_mod_cast (by omega : m ≤ n - 1)
  have hpos : n ≠ 0 := by
    rintro rfl
    exact hno (chain_zero s _)
  have := h.trans hbound
  rw [Nat.cast_le] at this
  omega

theorem chain_iff_le_longestChain {f : Formula} :
    s.Chain f.refs n ↔ (n : ℕ∞) ≤ s.longestChain f :=
  ⟨le_longestChain, chain_of_le_longestChain⟩

theorem longestChain_le {f : Formula} (hs : s.Closed) (hf : ∀ r ∈ f.refs, r.InSheet)
    (hacyclic : ¬ s.ReachesCycle f) : s.longestChain f ≤ ((rowCount * columnCount : ℕ) : ℕ∞) := by
  refine iSup₂_le fun n hn => ?_
  by_contra hlt
  exact hacyclic (reachesCycle_of_chain hs hf hn (by exact_mod_cast lt_of_not_ge hlt))

theorem longestChain_eq_top_iff {f : Formula} (hs : s.Closed) (hf : ∀ r ∈ f.refs, r.InSheet) :
    s.longestChain f = ⊤ ↔ s.ReachesCycle f := by
  constructor
  · intro htop
    by_contra hacyclic
    have := longestChain_le hs hf hacyclic
    rw [htop, top_le_iff] at this
    exact ENat.natCast_ne_top _ this
  · intro hcycle
    refine ENat.eq_top_iff_forall_ge.mpr fun n => ?_
    exact le_longestChain (chain_of_reachesCycle hcycle n)

end Sheet

end Worksheet
