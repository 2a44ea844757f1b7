import Std.Data.HashMap.Lemmas
import Worksheet.Evaluation.Memo
import Worksheet.Proofs.Bounded

/-!
# What the memo of an evaluation holds

`Memo.Sound` is what the entries of a memo mean: a settled value is the value of its cell wherever
the chains below the cell stay within the limit, and its height is that of the longest of them; a
cut value is the value of its cell at its depth, and some chain from there leads beyond the limit.

Entries of a sound memo are determined by what they mean, so no entry is ever replaced by another one
(`Memo.Keeps.of_sound`).

`Explored` is what the reading of some references does to a memo. The mark afterwards is exactly
the depth that the chains from these references reach, unless it was there already
(`covers`, `attained`), and a cut-off has been counted exactly if some chain leads beyond the limit
(`counted`, `reaches`). An entry is then made from the mark (`Explored.record`) or found in the
memo (`Explored.of_known?`) without the chains being followed. The memo keeps what it had and knows
what has been read (`keeps`, `knows`).
-/

namespace Worksheet

variable {s : Sheet} {limit depth : Int} {r : Ref}

/-- The cell at `r` has a value for good: `height` references follow it on its longest chain. -/
structure Settled (s : Sheet) (limit : Int) (r : Ref) (value : Float) (height : Int) : Prop where
  exact_height : ∃ n : Nat, height = n ∧ s.Chain [r] (n + 1) ∧ ¬ s.Chain [r] (n + 2)
  value_eq : ∀ depth, depth + height ≤ limit → s.cellValue limit depth r = .ok value

/-- The cell at `r` has a value at a depth, and a chain from there leads beyond the limit. -/
structure CutOff (s : Sheet) (limit : Int) (r : Ref) (depth : Int) (value : Float) : Prop where
  within : depth ≤ limit
  beyond : ∃ n : Nat, s.Chain [r] (n + 1) ∧ limit < depth + n
  value_eq : s.cellValue limit depth r = .ok value

/-- The entries of a memo are what evaluation with this limit finds. -/
structure Memo.Sound (s : Sheet) (limit : Int) (m : Memo) : Prop where
  settled : ∀ {r : Ref} {value : Float} {height : Int},
    m.settled[r]? = some (value, height) → Settled s limit r value height
  cut : ∀ {r : Ref} {depth : Int} {value : Float},
    m.cut[(r, depth)]? = some value → CutOff s limit r depth value
  counted : ∀ {r : Ref} {depth : Int} {value : Float},
    m.cut[(r, depth)]? = some value → 0 < m.cutOffs

namespace Memo

/-- Every entry of a memo is in a later one, too, and is the same there. -/
structure Keeps (m m' : Memo) : Prop where
  settled : ∀ (r : Ref) (entry : Float × Int), m.settled[r]? = some entry →
    m'.settled[r]? = some entry
  cut : ∀ (key : Ref × Int) (value : Float), m.cut[key]? = some value → m'.cut[key]? = some value

/-- The value of a cell that is read at a depth is taken from the memo. -/
def Knows (m : Memo) (limit depth : Int) (r : Ref) (value : Float) : Prop :=
  ∃ reached, m.known? limit depth r = some (value, reached)

end Memo

/-- What the reading of references at a depth makes of a memo `m`: the memo `m'`. -/
structure Explored (s : Sheet) (limit depth : Int) (refs : List Ref) (m m' : Memo) : Prop where
  sound : m'.Sound s limit
  keeps : m.Keeps m'
  knows : depth ≤ limit → ∀ r ∈ refs, ∃ value, m'.Knows limit depth r value
  mark_le : m.deepest ≤ m'.deepest
  covers : m'.deepest ≤ limit → ∀ n : Nat, s.Chain refs (n + 1) → depth + n ≤ m'.deepest
  attained : m'.deepest = m.deepest ∨ ∃ n : Nat, s.Chain refs (n + 1) ∧ m'.deepest = depth + n
  count_le : m.cutOffs ≤ m'.cutOffs
  counted : ∀ n : Nat, s.Chain refs (n + 1) → limit < depth + n → 0 < m'.cutOffs
  reaches : m.cutOffs < m'.cutOffs → ∃ n : Nat, s.Chain refs (n + 1) ∧ limit < depth + n

/-! ## Sound memos -/

namespace Memo

variable {m : Memo}

theorem sound_empty (s : Sheet) (limit : Int) : ({} : Memo).Sound s limit where
  settled h := by simp at h
  cut h := by simp at h
  counted h := by simp at h

theorem Sound.reach (hm : m.Sound s limit) (depth : Int) : (m.reach depth).Sound s limit :=
  ⟨hm.settled, hm.cut, hm.counted⟩

theorem Sound.descend (hm : m.Sound s limit) (depth : Int) : (m.descend depth).Sound s limit :=
  ⟨hm.settled, hm.cut, hm.counted⟩

theorem Sound.countCutOff (hm : m.Sound s limit) : m.countCutOff.Sound s limit :=
  ⟨hm.settled, hm.cut, fun _ => Nat.succ_pos _⟩

theorem Sound.insert_settled (hm : m.Sound s limit) {value : Float} {height : Int}
    (h : Settled s limit r value height) :
    ({ m with settled := m.settled.insert r (value, height) } : Memo).Sound s limit where
  settled {r' value' height'} hfind := by
    rw [Std.HashMap.getElem?_insert] at hfind
    split at hfind
    · rename_i hr
      cases hfind
      exact eq_of_beq hr ▸ h
    · exact hm.settled hfind
  cut := hm.cut
  counted := hm.counted

theorem Sound.insert_cut (hm : m.Sound s limit) {value : Float}
    (h : CutOff s limit r depth value) (hcount : 0 < m.cutOffs) :
    ({ m with cut := m.cut.insert (r, depth) value } : Memo).Sound s limit where
  settled := hm.settled
  cut {r' depth' value'} hfind := by
    rw [Std.HashMap.getElem?_insert] at hfind
    split at hfind
    · rename_i hkey
      cases hfind
      obtain ⟨rfl, rfl⟩ := Prod.mk.inj (eq_of_beq hkey)
      exact h
    · exact hm.cut hfind
  counted := fun _ => hcount

/-- What is recalled is a settled value with room for its chain, or a value cut off at just this
depth. -/
theorem known?_eq_some {value : Float} {reached : Int}
    (h : m.known? limit depth r = some (value, reached)) :
    (∃ height, m.settled[r]? = some (value, height) ∧ depth + height ≤ limit ∧
      reached = depth + height) ∨
    (m.cut[(r, depth)]? = some value ∧ reached = limit + 1) := by
  have hcut : m.knownCut? limit depth r = some (value, reached) →
      m.cut[(r, depth)]? = some value ∧ reached = limit + 1 := by
    intro h
    obtain ⟨found, hfound, heq⟩ := Option.map_eq_some_iff.mp h
    cases heq
    exact ⟨hfound, rfl⟩
  unfold known? at h
  split at h
  · rename_i found height hfound
    split at h
    · rename_i hroom
      cases h
      exact .inl ⟨height, hfound, hroom, rfl⟩
    · exact .inr (hcut h)
  · exact .inr (hcut h)

end Memo

/-! ## What a memo keeps -/

theorem Settled.unique {value' : Float} {height height' : Int}
    (h : Settled s limit r value height) (h' : Settled s limit r value' height') :
    value = value' ∧ height = height' := by
  obtain ⟨n, hn, hchain, hno⟩ := h.exact_height
  obtain ⟨n', hn', hchain', hno'⟩ := h'.exact_height
  have hle : n ≤ n' := by
    by_contra hlong
    exact hno' (hchain.of_le (by omega))
  have hge : n' ≤ n := by
    by_contra hlong
    exact hno (hchain'.of_le (by omega))
  have hheight : height = height' := by omega
  subst hheight
  have hsame := h.value_eq (limit - height) (by omega)
  rw [h'.value_eq (limit - height) (by omega)] at hsame
  exact ⟨(Except.ok.inj hsame).symm, rfl⟩

theorem CutOff.unique {value' : Float} (h : CutOff s limit r depth value)
    (h' : CutOff s limit r depth value') : value = value' :=
  Except.ok.inj (h.value_eq.symm.trans h'.value_eq)

namespace Memo

variable {m m' m'' : Memo} {value : Float}

theorem Keeps.refl (m : Memo) : m.Keeps m := ⟨fun _ _ h => h, fun _ _ h => h⟩

theorem Keeps.trans (h : m.Keeps m') (h' : m'.Keeps m'') : m.Keeps m'' where
  settled r entry hentry := h'.settled r entry (h.settled r entry hentry)
  cut key value hvalue := h'.cut key value (h.cut key value hvalue)

theorem keeps_reach (m : Memo) (depth : Int) : m.Keeps (m.reach depth) :=
  ⟨fun _ _ h => h, fun _ _ h => h⟩

theorem keeps_descend (m : Memo) (depth : Int) : m.Keeps (m.descend depth) :=
  ⟨fun _ _ h => h, fun _ _ h => h⟩

theorem keeps_countCutOff (m : Memo) : m.Keeps m.countCutOff := ⟨fun _ _ h => h, fun _ _ h => h⟩

/-- Between sound memos no entry can change, only get lost. -/
theorem Keeps.of_sound (hm : m.Sound s limit) (hm' : m'.Sound s limit)
    (hsettled : ∀ r : Ref, m.settled[r]?.isSome → m'.settled[r]?.isSome)
    (hcut : ∀ key : Ref × Int, m.cut[key]?.isSome → m'.cut[key]?.isSome) : m.Keeps m' where
  settled r entry hentry := by
    obtain ⟨entry', hentry'⟩ := Option.isSome_iff_exists.mp (hsettled r (by rw [hentry]; rfl))
    obtain ⟨hvalue, hheight⟩ := (hm.settled hentry).unique (hm'.settled hentry')
    rw [hentry', Prod.ext hvalue hheight]
  cut key value hvalue := by
    obtain ⟨value', hvalue'⟩ := Option.isSome_iff_exists.mp (hcut key (by rw [hvalue]; rfl))
    rw [hvalue', (hm.cut hvalue).unique (hm'.cut hvalue')]

theorem keeps_record (hm : m.Sound s limit) (hm' : (m.record limit depth r value).Sound s limit) :
    m.Keeps (m.record limit depth r value) := by
  refine .of_sound hm hm' (fun r' h => ?_) (fun key h => ?_)
  · unfold record
    split
    · simp only [Std.HashMap.getElem?_insert]
      split
      · rfl
      · exact h
    · exact h
  · unfold record
    split
    · exact h
    · simp only [Std.HashMap.getElem?_insert]
      split
      · rfl
      · exact h

theorem Sound.of_knows (hm : m.Sound s limit) (h : m.Knows limit depth r value) :
    s.cellValue limit depth r = .ok value ∧ depth ≤ limit := by
  obtain ⟨reached, hknown⟩ := h
  rcases known?_eq_some hknown with ⟨height, hfind, hroom, -⟩ | ⟨hfind, -⟩
  · obtain ⟨n, rfl, -⟩ := (hm.settled hfind).exact_height
    exact ⟨(hm.settled hfind).value_eq depth hroom, by omega⟩
  · exact ⟨(hm.cut hfind).value_eq, (hm.cut hfind).within⟩

theorem Knows.unique {value' : Float} (h : m.Knows limit depth r value)
    (h' : m.Knows limit depth r value') : value = value' := by
  obtain ⟨reached, hknown⟩ := h
  obtain ⟨reached', hknown'⟩ := h'
  rw [hknown] at hknown'
  cases hknown'
  rfl

theorem not_knows (h : m.known? limit depth r = none) (value : Float) :
    ¬ m.Knows limit depth r value := by
  rintro ⟨reached, hknown⟩
  rw [h] at hknown
  cases hknown

theorem knows_of_settled {height : Int} (h : m.settled[r]? = some (value, height))
    (hroom : depth + height ≤ limit) : m.Knows limit depth r value :=
  ⟨depth + height, by simp only [known?, h, if_pos hroom]⟩

/-- A settled entry that serves comes first, and then has the same value. -/
theorem knows_of_cut (hm : m.Sound s limit) (h : m.cut[(r, depth)]? = some value) :
    m.Knows limit depth r value := by
  have hcut : m.knownCut? limit depth r = some (value, limit + 1) := by
    simp only [knownCut?, h, Option.map_some]
  rcases hsettled : m.settled[r]? with _ | ⟨value', height⟩
  · exact ⟨limit + 1, by simp only [known?, hsettled, hcut]⟩
  · by_cases hroom : depth + height ≤ limit
    · have hsame := (hm.settled hsettled).value_eq depth hroom
      rw [(hm.cut h).value_eq] at hsame
      rw [Except.ok.inj hsame]
      exact knows_of_settled hsettled hroom
    · exact ⟨limit + 1, by simp only [known?, hsettled, if_neg hroom, hcut]⟩

theorem Knows.of_keeps (h : m.Knows limit depth r value) (hkeeps : m.Keeps m')
    (hm' : m'.Sound s limit) : m'.Knows limit depth r value := by
  obtain ⟨reached, hknown⟩ := h
  rcases known?_eq_some hknown with ⟨height, hfind, hroom, -⟩ | ⟨hfind, -⟩
  · exact knows_of_settled (hkeeps.settled r _ hfind) hroom
  · exact knows_of_cut hm' (hkeeps.cut _ _ hfind)

/-- What has been put into the memo for a depth is found there again. -/
theorem knows_record (hm' : (m.record limit depth r value).Sound s limit) :
    (m.record limit depth r value).Knows limit depth r value := by
  by_cases hmark : m.deepest ≤ limit
  · rw [record, if_pos hmark]
    have hentry : (m.settled.insert r (value, m.deepest - depth))[r]? =
        some (value, m.deepest - depth) := Std.HashMap.getElem?_insert_self
    exact knows_of_settled hentry (by omega)
  · rw [record, if_neg hmark] at hm' ⊢
    exact knows_of_cut hm' Std.HashMap.getElem?_insert_self

end Memo

/-! ## References that are read -/

namespace Explored

variable {m m₁ m₂ : Memo} {xs ys : List Ref}

theorem nil (hm : m.Sound s limit) : Explored s limit depth [] m m where
  sound := hm
  keeps := Memo.Keeps.refl m
  knows _ _ h := by cases h
  mark_le := le_rfl
  covers _ _ h := absurd h Sheet.not_chain_nil
  attained := .inl rfl
  count_le := le_rfl
  counted _ h := absurd h Sheet.not_chain_nil
  reaches h := absurd h (lt_irrefl _)

theorem append (hx : Explored s limit depth xs m m₁) (hy : Explored s limit depth ys m₁ m₂) :
    Explored s limit depth (xs ++ ys) m m₂ where
  sound := hy.sound
  keeps := hx.keeps.trans hy.keeps
  knows hdepth r hr := by
    rcases List.mem_append.mp hr with h | h
    · obtain ⟨value, hknows⟩ := hx.knows hdepth r h
      exact ⟨value, hknows.of_keeps hy.keeps hy.sound⟩
    · exact hy.knows hdepth r h
  mark_le := hx.mark_le.trans hy.mark_le
  covers hmark n hchain := by
    rcases Sheet.chain_append.mp hchain with h | h
    · exact (hx.covers (hy.mark_le.trans hmark) n h).trans hy.mark_le
    · exact hy.covers hmark n h
  attained := by
    rcases hy.attained with h | ⟨n, hn, h⟩
    · rcases hx.attained with h' | ⟨n, hn, h'⟩
      · exact .inl (h.trans h')
      · exact .inr ⟨n, Sheet.chain_append.mpr (.inl hn), h.trans h'⟩
    · exact .inr ⟨n, Sheet.chain_append.mpr (.inr hn), h⟩
  count_le := hx.count_le.trans hy.count_le
  counted n hchain hn := by
    rcases Sheet.chain_append.mp hchain with h | h
    · exact (hx.counted n h hn).trans_le hy.count_le
    · exact hy.counted n h hn
  reaches hlt := by
    by_cases h : m.cutOffs < m₁.cutOffs
    · obtain ⟨n, hn, hbeyond⟩ := hx.reaches h
      exact ⟨n, Sheet.chain_append.mpr (.inl hn), hbeyond⟩
    · obtain ⟨n, hn, hbeyond⟩ := hy.reaches (by omega)
      exact ⟨n, Sheet.chain_append.mpr (.inr hn), hbeyond⟩

theorem of_cutOff (hm : m.Sound s limit) (r : Ref) (h : limit < depth) :
    Explored s limit depth [r] m (m.reach depth).countCutOff where
  sound := (hm.reach depth).countCutOff
  keeps := (m.keeps_reach depth).trans (Memo.keeps_countCutOff _)
  knows hdepth := absurd hdepth (not_le.mpr h)
  mark_le := le_max_left _ _
  covers hmark := absurd ((le_max_right m.deepest depth).trans hmark) (not_le.mpr h)
  attained := by
    rcases max_choice m.deepest depth with hmax | hmax
    · exact .inl hmax
    · exact .inr ⟨0, Sheet.chain_singleton.mpr (Sheet.chain_zero s _), hmax.trans (by simp)⟩
  count_le := Nat.le_succ _
  counted _ _ _ := Nat.succ_pos _
  reaches _ := ⟨0, Sheet.chain_singleton.mpr (Sheet.chain_zero s _), by simpa using h⟩

theorem deepest_reach_reach (m : Memo) {reached : Int} (h : depth ≤ reached) :
    ((m.reach depth).reach reached).deepest = max m.deepest reached := by
  simp only [Memo.reach]
  omega

/-- Where a value is recalled only the mark changes. -/
theorem recalled_keeps (m : Memo) (depth reached : Int) :
    m.Keeps ((m.reach depth).reach reached) :=
  (m.keeps_reach depth).trans (Memo.keeps_reach _ reached)

theorem recalled_knows {value : Float} (h : m.Knows limit depth r value) (reached : Int) :
    ∀ r' ∈ [r], ∃ value, ((m.reach depth).reach reached).Knows limit depth r' value := by
  intro r' hr'
  obtain rfl := List.mem_singleton.mp hr'
  exact ⟨value, h⟩

/-- A settled value raises the mark as if the chains of its cell had been followed. -/
theorem of_settled (hm : m.Sound s limit) {value : Float} {height : Int}
    (hknows : m.Knows limit depth r value) (hsettled : Settled s limit r value height)
    (hroom : depth + height ≤ limit) :
    Explored s limit depth [r] m ((m.reach depth).reach (depth + height)) := by
  obtain ⟨n, rfl, hchain, hno⟩ := hsettled.exact_height
  have hshort : ∀ k : Nat, s.Chain [r] (k + 1) → k ≤ n := by
    intro k hk
    by_contra hlong
    exact hno (hk.of_le (by omega))
  have hmark := deepest_reach_reach m (by omega : depth ≤ depth + n)
  refine ⟨(hm.reach _).reach _, recalled_keeps m _ _, fun _ => recalled_knows hknows _, ?_, ?_, ?_,
    le_rfl, ?_, fun h => absurd h (lt_irrefl _)⟩
  · rw [hmark]
    exact le_max_left _ _
  · intro _ k hk
    have := hshort k hk
    omega
  · rw [hmark]
    rcases max_choice m.deepest (depth + n) with hmax | hmax
    · exact .inl hmax
    · exact .inr ⟨n, hchain, hmax⟩
  · intro k hk hbeyond
    have := hshort k hk
    omega

/-- A value that was cut off raises the mark beyond the limit, as the chains of its cell did. -/
theorem of_cut (hm : m.Sound s limit) {value : Float} (hknows : m.Knows limit depth r value)
    (hcut : CutOff s limit r depth value) (hcount : 0 < m.cutOffs) :
    Explored s limit depth [r] m ((m.reach depth).reach (limit + 1)) := by
  obtain ⟨n, hchain, hbeyond⟩ := hcut.beyond
  have hwithin := hcut.within
  have hmark := deepest_reach_reach m (by omega : depth ≤ limit + 1)
  refine ⟨(hm.reach _).reach _, recalled_keeps m _ _, fun _ => recalled_knows hknows _, ?_, ?_, ?_,
    le_rfl, fun _ _ _ => hcount, fun h => absurd h (lt_irrefl _)⟩
  · rw [hmark]
    exact le_max_left _ _
  · intro hle
    omega
  · rw [hmark]
    rcases max_choice m.deepest (limit + 1) with hmax | hmax
    · exact .inl hmax
    · exact .inr ⟨(limit + 1 - depth).toNat, hchain.of_le (by omega), by omega⟩

theorem of_known? (hm : m.Sound s limit) {value : Float} {reached : Int}
    (h : (m.reach depth).known? limit depth r = some (value, reached)) :
    s.cellValue limit depth r = .ok value ∧
      Explored s limit depth [r] m ((m.reach depth).reach reached) := by
  have hknows : m.Knows limit depth r value := ⟨reached, h⟩
  rcases Memo.known?_eq_some h with ⟨height, hfind, hroom, rfl⟩ | ⟨hfind, rfl⟩
  · exact ⟨(hm.settled hfind).value_eq depth hroom, of_settled hm hknows (hm.settled hfind) hroom⟩
  · exact ⟨(hm.cut hfind).value_eq, of_cut hm hknows (hm.cut hfind) (hm.counted hfind)⟩

/-! ## Cells that are worked out -/

/-- Where the mark has stayed within the limit, it gives the exact height of the cell. -/
theorem settled_of_read
    (hread : Explored s limit (depth + 1) (s.refsAt r) (m.descend depth) m₁)
    {value : Float} (hvalue : s.cellValue limit depth r = .ok value) (hmark : m₁.deepest ≤ limit) :
    Settled s limit r value (m₁.deepest - depth) := by
  obtain ⟨n, hn, hchain, hno⟩ : ∃ n : Nat, m₁.deepest - depth = n ∧ s.Chain [r] (n + 1) ∧
      ¬ s.Chain [r] (n + 2) := by
    have hlong : ∀ k : Nat, s.Chain [r] (k + 2) → depth + 1 + k ≤ m₁.deepest := fun k hk =>
      hread.covers hmark k (Sheet.chain_singleton.mp hk)
    rcases hread.attained with h | ⟨n, hn, h⟩
    · have hzero : m₁.deepest = depth := h
      refine ⟨0, by omega, Sheet.chain_singleton.mpr (Sheet.chain_zero s _), fun hk => ?_⟩
      have := hlong 0 hk
      omega
    · refine ⟨n + 1, by omega, Sheet.chain_singleton.mpr hn, fun hk => ?_⟩
      have := hlong (n + 1) hk
      omega
  refine ⟨⟨n, hn, hchain, hno⟩, fun depth' hroom => ?_⟩
  rw [Sheet.cellValue_eq_of_not_chain hno (by omega) (by omega : depth + (n + 1 : Nat) ≤ limit + 1),
    hvalue]

/-- Where the mark is beyond the limit, some chain of the cell leads there. -/
theorem cutOff_of_read (hdepth : depth ≤ limit)
    (hread : Explored s limit (depth + 1) (s.refsAt r) (m.descend depth) m₁)
    {value : Float} (hvalue : s.cellValue limit depth r = .ok value)
    (hmark : limit < m₁.deepest) : CutOff s limit r depth value ∧ 0 < m₁.cutOffs := by
  obtain ⟨n, hn, h⟩ : ∃ n : Nat, s.Chain (s.refsAt r) (n + 1) ∧ m₁.deepest = depth + 1 + n := by
    rcases hread.attained with h | h
    · have hzero : m₁.deepest = depth := h
      omega
    · exact h
  refine ⟨⟨hdepth, ⟨n + 1, Sheet.chain_singleton.mpr hn, by omega⟩, hvalue⟩, ?_⟩
  exact hread.counted n hn (by omega)

theorem sound_record (hdepth : depth ≤ limit)
    (hread : Explored s limit (depth + 1) (s.refsAt r) (m.descend depth) m₁)
    {value : Float} (hvalue : s.cellValue limit depth r = .ok value) :
    (m₁.record limit depth r value).Sound s limit := by
  unfold Memo.record
  split
  · rename_i hmark
    exact hread.sound.insert_settled (settled_of_read hread hvalue hmark)
  · rename_i hmark
    obtain ⟨hcut, hcount⟩ := cutOff_of_read hdepth hread hvalue (not_le.mp hmark)
    exact hread.sound.insert_cut hcut hcount

theorem deepest_record (m : Memo) (limit depth : Int) (r : Ref) (value : Float) :
    (m.record limit depth r value).deepest = m.deepest := by
  unfold Memo.record
  split <;> rfl

theorem cutOffs_record (m : Memo) (limit depth : Int) (r : Ref) (value : Float) :
    (m.record limit depth r value).cutOffs = m.cutOffs := by
  unfold Memo.record
  split <;> rfl

/-- A cell is read by working out its formula one level deeper and keeping the value. -/
theorem record (hdepth : depth ≤ limit)
    (hread : Explored s limit (depth + 1) (s.refsAt r) ((m.reach depth).descend depth) m₁)
    {value : Float} (hvalue : s.cellValue limit depth r = .ok value) :
    Explored s limit depth [r] m
      ((m₁.record limit depth r value).reach (m.reach depth).deepest) := by
  have hmark : ((m₁.record limit depth r value).reach (m.reach depth).deepest).deepest =
      max m₁.deepest (max m.deepest depth) := by
    simp only [Memo.reach, deepest_record]
  have hcount : ((m₁.record limit depth r value).reach (m.reach depth).deepest).cutOffs =
      m₁.cutOffs := cutOffs_record ..
  have hself : s.Chain [r] 1 := Sheet.chain_singleton.mpr (Sheet.chain_zero s _)
  have hstart : depth ≤ m₁.deepest := hread.mark_le
  have hsound := sound_record hdepth hread hvalue
  have hbegun : m.Keeps ((m.reach depth).descend depth) :=
    (m.keeps_reach depth).trans (Memo.keeps_descend _ depth)
  have hentered : m₁.Keeps ((m₁.record limit depth r value).reach (m.reach depth).deepest) :=
    (Memo.keeps_record hread.sound hsound).trans (Memo.keeps_reach _ _)
  refine ⟨hsound.reach _, hbegun.trans (hread.keeps.trans hentered), ?_, ?_, ?_, ?_, ?_, ?_, ?_⟩
  · intro _ r' hr'
    obtain rfl := List.mem_singleton.mp hr'
    exact ⟨value, Memo.knows_record hsound⟩
  · omega
  · -- The chain that is the reference alone reaches `depth`, the others are chains of the cell.
    intro hle n hn
    cases n with
    | zero => omega
    | succ n =>
      have := hread.covers (by omega) n (Sheet.chain_singleton.mp hn)
      push_cast
      omega
  · rw [hmark]
    by_cases hold : m₁.deepest ≤ m.deepest
    · exact .inl (by omega)
    · rcases hread.attained with h | ⟨n, hn, h⟩
      · have hzero : m₁.deepest = depth := h
        exact .inr ⟨0, hself, by push_cast; omega⟩
      · exact .inr ⟨n + 1, Sheet.chain_singleton.mpr hn, by push_cast; omega⟩
  · rw [hcount]
    exact hread.count_le
  · rw [hcount]
    intro n hn hbeyond
    cases n with
    | zero => omega
    | succ n =>
      push_cast at hbeyond
      exact hread.counted n (Sheet.chain_singleton.mp hn) (by omega)
  · rw [hcount]
    intro hlt
    obtain ⟨n, hn, hbeyond⟩ := hread.reaches hlt
    exact ⟨n + 1, Sheet.chain_singleton.mpr hn, by push_cast; omega⟩

end Explored

end Worksheet
