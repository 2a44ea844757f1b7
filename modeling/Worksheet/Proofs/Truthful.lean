import Worksheet.Proofs.CutOff
import Worksheet.Proofs.Succession

/-!
# What the memo says at every moment

The entries of a memo speak of cells, not of how an evaluation came by them. A settled entry says
that no cycle is reached from its cell, how many references the longest chain below the cell has,
and what the value of the cell is without a depth limit. A cut entry says that the longest chain
below its cell does not fit below the depth of the entry, and what the plain recursion finds for the
cell at this depth (`Memo.Truthful`).

All memos of an evaluation are truthful, however it ends (`Sheet.memos_truthful`). The one that is
left is, as its entries are sound; and every earlier one has only entries that the one at the end
has, too.
-/

namespace Worksheet

variable {s : Sheet} {limit depth : Int} {r : Ref} {value : Float}

/-! ## Cells and their longest chains -/

namespace Sheet

/-- The cell has its value for good: every chain of references from it ends, `height` references
follow one another on the longest chain below it, and the value is the one without a depth limit. -/
structure Lasting (s : Sheet) (a : Address) (value : Float) (height : Int) : Prop where
  acyclic : ¬ s.ReachesCycle (.ref a.ref)
  height_eq : ∃ n : ℕ, height = n ∧ s.longestChain (s.entry a).formula = n
  ends : s.Ends a.ref
  value_eq : s.freeCellValue a.ref = .ok value

/-- The cell has its value just for one depth: it is read there, but its longest chain does not fit
between this depth and the limit. -/
structure Provisional (s : Sheet) (limit depth : Int) (a : Address) (value : Float) : Prop where
  within : depth ≤ limit
  unfit : s.ReachesCycle (.ref a.ref) ∨
    ∃ n : ℕ, s.longestChain (s.entry a).formula = n ∧ limit < depth + n
  value_eq : s.cellValue limit depth a.ref = .ok value

theorem longestChain_eq {f : Formula} {n : ℕ} (h : s.Chain f.refs n)
    (hno : ¬ s.Chain f.refs (n + 1)) : s.longestChain f = n := by
  apply le_antisymm
  · by_contra hlong
    apply hno
    rw [chain_iff_le_longestChain]
    exact_mod_cast Order.add_one_le_of_lt (lt_of_not_ge hlong)
  · exact le_longestChain h

theorem reachesCycle_ref {a : Address} (h : s.ReachesCycle (s.entry a).formula) :
    s.ReachesCycle (.ref a.ref) := by
  obtain ⟨r, hr, c, hreach, hcycle⟩ := h
  have hmention : s.Mentions a.ref r := by
    rw [Mentions, refsAt_of_address a.address?_ref]
    exact hr
  exact ⟨a.ref, List.mem_singleton_self _, c, .head hmention hreach, hcycle⟩

theorem not_reachesCycle {a : Address} {n : ℕ}
    (h : s.longestChain (s.entry a).formula = n) : ¬ s.ReachesCycle (.ref a.ref) := by
  intro hcycle
  have hchain : s.Chain [a.ref] (n + 2) := chain_of_reachesCycle hcycle (n + 2)
  rw [chain_singleton, refsAt_of_address a.address?_ref] at hchain
  have hlong := le_longestChain hchain
  rw [h, Nat.cast_le] at hlong
  omega

/-- What has a value within the limit is a cell of the sheet. -/
theorem exists_address_of_cellValue (hdepth : depth ≤ limit)
    (h : s.cellValue limit depth r = .ok value) : ∃ a : Address, a.ref = r := by
  rw [cellValue_of_le s r hdepth] at h
  cases haddress : r.address with
  | error why =>
    rw [haddress] at h
    cases h
  | ok a => exact ⟨a, Ref.ref_of_address haddress⟩

theorem lasting_of_settled {height : Int} (h : Settled s limit r value height) :
    ∃ a : Address, a.ref = r ∧ s.Lasting a value height := by
  obtain ⟨n, rfl, hchain, hno⟩ := h.exact_height
  have hvalue := h.value_eq (limit - n) (by omega)
  obtain ⟨a, rfl⟩ := exists_address_of_cellValue (by omega) hvalue
  have hwithin : ∀ k : ℕ, s.Chain [a.ref] (k + 1) → limit - n + k ≤ limit := by
    intro k hk
    by_contra hlong
    exact hno (hk.of_le (by omega))
  rw [cellValue_eq_freeCellValue hwithin] at hvalue
  have hends := ends_of_not_chain hno
  rw [chain_singleton, refsAt_of_address a.address?_ref] at hchain hno
  have hlongest := longestChain_eq hchain hno
  exact ⟨a, rfl, not_reachesCycle hlongest, ⟨n, rfl, hlongest⟩, hends, hvalue⟩

theorem provisional_of_cutOff (hs : s.Closed) (h : CutOff s limit r depth value) :
    ∃ a : Address, a.ref = r ∧ s.Provisional limit depth a value := by
  obtain ⟨a, rfl⟩ := exists_address_of_cellValue h.within h.value_eq
  refine ⟨a, rfl, h.within, ?_, h.value_eq⟩
  obtain ⟨n, hchain, hbeyond⟩ := h.beyond
  rw [chain_singleton, refsAt_of_address a.address?_ref] at hchain
  have hlong := le_longestChain hchain
  cases hlength : s.longestChain (s.entry a).formula with
  | top => exact .inl (reachesCycle_ref ((longestChain_eq_top_iff hs (hs a)).mp hlength))
  | coe k =>
    rw [hlength, Nat.cast_le] at hlong
    exact .inr ⟨k, rfl, by omega⟩

end Sheet

/-! ## What entries say -/

namespace Memo

variable {m m' : Memo}

/-- Every entry of a memo is true of its cell. -/
structure Truthful (s : Sheet) (limit : Int) (m : Memo) : Prop where
  settled : ∀ {r : Ref} {value : Float} {height : Int}, m.settled[r]? = some (value, height) →
    ∃ a : Address, a.ref = r ∧ s.Lasting a value height
  cut : ∀ {r : Ref} {depth : Int} {value : Float}, m.cut[(r, depth)]? = some value →
    ∃ a : Address, a.ref = r ∧ s.Provisional limit depth a value

theorem Sound.truthful (hs : s.Closed) (hm : m.Sound s limit) : m.Truthful s limit where
  settled hfind := Sheet.lasting_of_settled (hm.settled hfind)
  cut hfind := Sheet.provisional_of_cutOff hs (hm.cut hfind)

theorem Truthful.of_keeps (h : m'.Truthful s limit) (hkeeps : m.Keeps m') :
    m.Truthful s limit where
  settled hfind := h.settled (hkeeps.settled _ _ hfind)
  cut hfind := h.cut (hkeeps.cut _ _ hfind)

end Memo

theorem Course.Orderly.truthful {c : Course} (hs : s.Closed) (hc : c.Orderly s limit) :
    ∀ m ∈ c.memos, m.Truthful s limit := by
  have hlast : c.memo.Truthful s limit := hc.sound.truthful hs
  intro m hm
  rcases List.mem_cons.mp hm with rfl | hm
  · exact (Memo.sound_empty s limit).truthful hs
  · rcases List.mem_append.mp hm with hm | hm
    · obtain ⟨x, hx, rfl⟩ := List.mem_map.mp hm
      exact hlast.of_keeps (hc.keeps x hx)
    · rwa [List.mem_singleton.mp hm]

namespace Sheet

theorem exists_course {f : Formula} (hs : s.WellFormed) (hf : f.WellFormed)
    (hframes : (s.evaluate limit depth f {}).1 ≠ .error .stackExhausted) :
    ∃ value, (s.course limit depth f).1 = .ok value := by
  obtain ⟨value, cutOffs, hevaluate, -⟩ := exists_evaluate hs hf hframes
  rw [evaluate_eq_course] at hevaluate
  cases houtcome : (s.course limit depth f).1 with
  | error why =>
    rw [houtcome] at hevaluate
    cases hevaluate
  | ok found => exact ⟨found, rfl⟩

/-- **Truth of the memo.** On a sheet that edits lead to, the memos that an evaluation has, from any
depth and with any limit, go from the empty one to the one that is left by one entry at a time. All
of them are truthful, however the evaluation ends: a settled entry tells the height and the value of
a cell that reaches no cycle, and a cut entry the value at its depth of a cell whose longest chain
does not fit below it. An evaluation within the limit that ends with a value then has entries for
all cells that its formula mentions. -/
theorem memos_truthful (hs : s.Reachable) (limit depth : Int) (f : Formula) :
    let c := (s.course limit depth f).2
    (s.read limit depth f).run.run {} = ((s.course limit depth f).1, c.memo) ∧
      c.memos.IsChain Memo.GrowsTo ∧
      (∀ m ∈ c.memos, m.Truthful s limit) ∧
      ∀ value, (s.course limit depth f).1 = .ok value → depth ≤ limit →
        ∀ r ∈ f.refs, ∃ value, c.memo.Knows limit depth r value := by
  intro c
  have horderly := (s.course_continues limit depth f).orderly
  exact ⟨s.read_eq_course limit depth f, s.memos_isChain limit depth f,
    horderly.truthful hs.wellFormed.closed, fun _ hvalue hdepth => course_knows hdepth hvalue⟩

/-- The cell B0. -/
def secondCell : Address := .ofPlace ⟨1, by decide⟩

/-- The sheet whose first cell adds itself to the cell beside it, which adds an empty cell to
itself. -/
def circling : Sheet :=
  (empty.write secondCell ⟨"=add(C0,C0)", .binary "add" (.ref ⟨2, 0⟩) (.ref ⟨2, 0⟩)⟩).write .first
    ⟨"=add(B0,A0)", .binary "add" (.ref ⟨1, 0⟩) (.ref ⟨0, 0⟩)⟩

theorem circling_reachable : circling.Reachable := by
  have hbeside : Entry.ofText "=add(C0,C0)" =
      ⟨"=add(C0,C0)", .binary "add" (.ref ⟨2, 0⟩) (.ref ⟨2, 0⟩)⟩ := by cbv
  have hfirst : Entry.ofText "=add(B0,A0)" =
      ⟨"=add(B0,A0)", .binary "add" (.ref ⟨1, 0⟩) (.ref ⟨0, 0⟩)⟩ := by cbv
  have hwrite := (Reachable.empty.write secondCell "=add(C0,C0)").write .first "=add(B0,A0)"
  rwa [hbeside, hfirst] at hwrite

theorem circling_nestsAtMost : circling.NestsAtMost 1 :=
  ((nestsAtMost_empty 1).write (by decide) _).write (by decide) _

/-- One reference, and not two, follow one another below B0. -/
theorem circling_longestChain :
    circling.longestChain (circling.entry secondCell).formula = (1 : ℕ) := by
  have hbeside : (circling.entry secondCell).formula.refs = [⟨2, 0⟩, ⟨2, 0⟩] := by decide
  have hempty : circling.refsAt ⟨2, 0⟩ = [] := by decide
  refine longestChain_eq ?_ ?_
  · rw [hbeside]
    exact chain_succ.mpr ⟨⟨2, 0⟩, by simp, chain_zero _ _⟩
  · rw [hbeside, chain_succ]
    simp [hempty, not_chain_nil]

/-- A0 is on a circle and is cut off. B0 is first read one level below A0 and settled there, and
read once more too near the limit for its height, before the formula itself comes to it. -/
theorem memos_truthful_circling :
    let f : Formula := .binary "add" (.ref ⟨0, 0⟩) (.ref ⟨1, 0⟩)
    let m := (circling.course 3 (-2) f).2.memo
    circling.Reachable ∧
      (∃ value, m.settled[(⟨1, 0⟩ : Ref)]? = some (value, 1) ∧
        circling.freeCellValue ⟨1, 0⟩ = .ok value) ∧
      ∃ value, m.cut[((⟨0, 0⟩ : Ref), (-2 : Int))]? = some value ∧
        circling.cellValue 3 (-2) ⟨0, 0⟩ = .ok value := by
  intro f m
  obtain ⟨-, -, htruthful, hknown⟩ := memos_truthful circling_reachable 3 (-2) f
  have hm : m.Truthful circling 3 := htruthful m (by simp [Course.memos, m])
  have hcompletes : (circling.evaluate 3 (-2) f {}).1 ≠ .error .stackExhausted :=
    evaluate_completes circling_nestsAtMost (by decide) (by decide) {}
  obtain ⟨value, hvalue⟩ := exists_course circling_reachable.wellFormed (by decide) hcompletes
  refine ⟨circling_reachable, ?_, ?_⟩
  · obtain ⟨value, reached, hfound⟩ := hknown value hvalue (by decide) ⟨1, 0⟩ (by decide)
    rcases Memo.known?_eq_some hfound with ⟨height, hentry, -⟩ | ⟨hentry, -⟩
    · obtain ⟨a, ha, hlasting⟩ := hm.settled hentry
      obtain rfl : a = secondCell := Address.ref_injective ha
      obtain ⟨n, rfl, hlongest⟩ := hlasting.height_eq
      rw [circling_longestChain, Nat.cast_inj] at hlongest
      subst hlongest
      exact ⟨value, hentry, hlasting.value_eq⟩
    · obtain ⟨a, ha, hprovisional⟩ := hm.cut hentry
      obtain rfl : a = secondCell := Address.ref_injective ha
      rcases hprovisional.unfit with hcycle | ⟨n, hlongest, hbeyond⟩
      · exact absurd hcycle (not_reachesCycle circling_longestChain)
      · rw [circling_longestChain, Nat.cast_inj] at hlongest
        omega
  · obtain ⟨value, reached, hfound⟩ := hknown value hvalue (by decide) ⟨0, 0⟩ (by decide)
    rcases Memo.known?_eq_some hfound with ⟨height, hentry, -⟩ | ⟨hentry, -⟩
    · obtain ⟨a, ha, hlasting⟩ := hm.settled hentry
      have hself : circling.Mentions a.ref a.ref := by
        rw [ha]
        decide
      have hcycle : circling.ReachesCycle (.ref a.ref) :=
        ⟨a.ref, List.mem_singleton_self _, a.ref, .refl, .single hself⟩
      exact absurd hcycle hlasting.acyclic
    · obtain ⟨a, ha, hprovisional⟩ := hm.cut hentry
      exact ⟨value, hentry, ha ▸ hprovisional.value_eq⟩

end Sheet

end Worksheet
