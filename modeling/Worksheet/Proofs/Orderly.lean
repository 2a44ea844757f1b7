import Mathlib.Data.List.ProdSigma
import Worksheet.Proofs.Agreement
import Worksheet.Proofs.Course
import Worksheet.Proofs.WellFormed

/-!
# Orderly courses

What an evaluation has put into its memo stays there, and what the memo holds for a cell and a depth
is found again. `Course.Orderly` says what that means for the course of an evaluation so far: what
has once been found is from then on recalled, and no formula is begun twice at the same depth.

A course that goes on as the reading of a cell does remains orderly because of two facts. An entry of
the memo is never replaced by another one (`Memo.Keeps.of_sound`). And the formulas that are being
worked out were begun at lesser depths (`Course.Idle`), so a formula that is begun has not been begun
at this depth before.
-/

namespace Worksheet

variable {s : Sheet} {limit depth : Int} {r : Ref} {value : Float}

/-! ## Orderly courses -/

namespace Happening

/-- The cell that is referred to, and the depth. -/
def place : Happening → Ref × Int
  | cutOff r depth => (r, depth)
  | recalled r depth _ => (r, depth)
  | begun r depth => (r, depth)
  | finished r depth _ => (r, depth)

/-- The cell has been read at the depth, and this is its value. -/
def Finds (h : Happening) (r : Ref) (depth : Int) (value : Float) : Prop :=
  h = .recalled r depth value ∨ h = .finished r depth value

/-- The cell and the depth of a formula that is begun. -/
def begun? : Happening → Option (Ref × Int)
  | begun r depth => some (r, depth)
  | _ => none

theorem Finds.place_eq {h : Happening} (hfinds : h.Finds r depth value) :
    h.place = (r, depth) := by
  rcases hfinds with rfl | rfl <;> rfl

theorem place_of_begun? {h : Happening} {place : Ref × Int} (hbegun : h.begun? = some place) :
    h.place = place := by
  cases h <;> cases hbegun
  rfl

end Happening

namespace Moment

/-- What a moment means for a later one: the memo keeps its entries, a value that has been found for
a cell and a depth is from then on recalled, and no formula is begun twice at the same depth. -/
structure Precedes (x y : Moment) : Prop where
  keeps : x.memo.Keeps y.memo
  answers : ∀ (r : Ref) (depth : Int) (value : Float), x.happening.Finds r depth value →
    y.happening.place = (r, depth) → y.happening = .recalled r depth value
  once : ∀ place, x.happening.begun? = some place → y.happening.begun? ≠ some place

/-- A value that is found is in the memo, the formulas that are begun are those of cells of the
sheet, and what is beyond the limit is cut off. -/
structure Fits (limit : Int) (x : Moment) : Prop where
  knows : ∀ (r : Ref) (depth : Int) (value : Float), x.happening.Finds r depth value →
    x.memo.Knows limit depth r value
  inSheet : ∀ place, x.happening.begun? = some place → place.1.InSheet
  cutOff_iff : (∃ r depth, x.happening = .cutOff r depth) ↔ limit < x.happening.place.2

end Moment

namespace Course

variable {c c' c'' : Course} {h : Happening}

/-- A course in which each cell has been worked out at most once for each depth. -/
structure Orderly (s : Sheet) (limit : Int) (c : Course) : Prop where
  sound : c.memo.Sound s limit
  keeps : ∀ x ∈ c.past, x.memo.Keeps c.memo
  precedes : c.past.Pairwise Moment.Precedes
  fits : ∀ x ∈ c.past, x.Fits limit

/-- The formulas that are being worked out were all begun at lesser depths: the values of the others
are known. -/
def Idle (limit depth : Int) (c : Course) : Prop :=
  ∀ x ∈ c.past, ∀ place, x.happening.begun? = some place →
    place.2 < depth ∨ ∃ value, c.memo.Knows limit place.2 place.1 value

/-- One course goes on from another, at a depth or deeper. -/
structure Continues (s : Sheet) (limit depth : Int) (c c' : Course) : Prop where
  orderly : c'.Orderly s limit
  keeps : c.memo.Keeps c'.memo
  later : ∀ x ∈ c'.past, x ∈ c.past ∨ depth ≤ x.happening.place.2

theorem orderly_empty (s : Sheet) (limit : Int) : ({} : Course).Orderly s limit where
  sound := Memo.sound_empty s limit
  keeps _ hx := by cases hx
  precedes := .nil
  fits _ hx := by cases hx

theorem Orderly.knows (hc : c.Orderly s limit) {x : Moment} (hx : x ∈ c.past)
    (hfinds : x.happening.Finds r depth value) : c.memo.Knows limit depth r value :=
  ((hc.fits x hx).knows r depth value hfinds).of_keeps (hc.keeps x hx) hc.sound

theorem Orderly.alter (hc : c.Orderly s limit) (change : Memo → Memo)
    (hkeeps : c.memo.Keeps (change c.memo)) (hsound : (change c.memo).Sound s limit) :
    (c.alter change).Orderly s limit where
  sound := hsound
  keeps x hx := (hc.keeps x hx).trans hkeeps
  precedes := hc.precedes
  fits := hc.fits

theorem Orderly.note (hc : c.Orderly s limit) (hfits : Moment.Fits limit ⟨h, c.memo⟩)
    (hanswers : ∀ x ∈ c.past, ∀ r depth value, x.happening.Finds r depth value →
      h.place = (r, depth) → h = .recalled r depth value)
    (honce : ∀ x ∈ c.past, ∀ place, x.happening.begun? = some place → h.begun? ≠ some place) :
    (c.note h).Orderly s limit where
  sound := hc.sound
  keeps x hx := by
    rcases List.mem_append.mp hx with hx | hx
    · exact hc.keeps x hx
    · obtain rfl := List.mem_singleton.mp hx
      exact Memo.Keeps.refl _
  precedes := by
    refine List.pairwise_append.mpr ⟨hc.precedes, List.pairwise_singleton _ _, ?_⟩
    intro x hx y hy
    obtain rfl := List.mem_singleton.mp hy
    exact ⟨hc.keeps x hx, hanswers x hx, honce x hx⟩
  fits x hx := by
    rcases List.mem_append.mp hx with hx | hx
    · exact hc.fits x hx
    · obtain rfl := List.mem_singleton.mp hx
      exact hfits

theorem Orderly.note_cutOff (hc : c.Orderly s limit) (hbelow : limit < depth) (r : Ref) :
    (c.note (.cutOff r depth)).Orderly s limit := by
  refine hc.note ⟨?_, nofun, fun _ => hbelow, fun _ => ⟨r, depth, rfl⟩⟩ ?_ (fun _ _ _ _ => nofun)
  · rintro r' depth' value (h | h) <;> cases h
  · intro x hx r' depth' value hfinds hplace
    cases hplace
    have := (hc.sound.of_knows (hc.knows hx hfinds)).2
    omega

theorem Orderly.note_recalled (hc : c.Orderly s limit) (hknows : c.memo.Knows limit depth r value) :
    (c.note (.recalled r depth value)).Orderly s limit := by
  have hdepth := (hc.sound.of_knows hknows).2
  refine hc.note ⟨?_, nofun, nofun, fun h => ?_⟩ ?_ (fun _ _ _ _ => nofun)
  · rintro r' depth' value' (h | h) <;> cases h
    exact hknows
  · exact absurd hdepth (not_le.mpr h)
  · intro x hx r' depth' value' hfinds hplace
    cases hplace
    rw [hknows.unique (hc.knows hx hfinds)]

theorem Orderly.note_begun (hc : c.Orderly s limit) (hidle : c.Idle limit depth)
    (hnew : c.memo.known? limit depth r = none) (hr : r.InSheet) (hdepth : depth ≤ limit) :
    (c.note (.begun r depth)).Orderly s limit := by
  have hunknown := Memo.not_knows hnew
  refine hc.note ⟨?_, ?_, nofun, fun h => ?_⟩ ?_ ?_
  · rintro r' depth' value (h | h) <;> cases h
  · rintro place h
    cases h
    exact hr
  · exact absurd hdepth (not_le.mpr h)
  · intro x hx r' depth' value hfinds hplace
    cases hplace
    exact absurd (hc.knows hx hfinds) (hunknown value)
  · rintro x hx place hplace h
    cases h
    rcases hidle x hx (r, depth) hplace with hless | ⟨value, hknows⟩
    · exact lt_irrefl _ hless
    · exact hunknown value hknows

theorem Orderly.note_finished (hc : c.Orderly s limit) (hknows : c.memo.Knows limit depth r value)
    (hfirst : ∀ x ∈ c.past, ∀ value, ¬ x.happening.Finds r depth value) :
    (c.note (.finished r depth value)).Orderly s limit := by
  have hdepth := (hc.sound.of_knows hknows).2
  refine hc.note ⟨?_, nofun, nofun, fun h => ?_⟩ ?_ (fun _ _ _ _ => nofun)
  · rintro r' depth' value' (h | h) <;> cases h
    exact hknows
  · exact absurd hdepth (not_le.mpr h)
  · intro x hx r' depth' value' hfinds hplace
    cases hplace
    exact absurd hfinds (hfirst x hx value')

theorem Idle.mono {depth' : Int} (hc : c.Idle limit depth) (hle : depth ≤ depth') :
    c.Idle limit depth' := by
  intro x hx place hplace
  rcases hc x hx place hplace with hless | hknown
  · exact .inl (by omega)
  · exact .inr hknown

theorem Idle.alter (hc : c.Idle limit depth) (change : Memo → Memo)
    (hkeeps : c.memo.Keeps (change c.memo)) (hsound : (change c.memo).Sound s limit) :
    (c.alter change).Idle limit depth := by
  intro x hx place hplace
  rcases hc x hx place hplace with hless | ⟨value, hknown⟩
  · exact .inl hless
  · exact .inr ⟨value, hknown.of_keeps hkeeps hsound⟩

theorem Idle.note (hc : c.Idle limit depth) (hnew : ∀ place, h.begun? = some place →
    place.2 < depth ∨ ∃ value, c.memo.Knows limit place.2 place.1 value) :
    (c.note h).Idle limit depth := by
  intro x hx place hplace
  rcases List.mem_append.mp hx with hx | hx
  · exact hc x hx place hplace
  · obtain rfl := List.mem_singleton.mp hx
    exact hnew place hplace

/-- Where also the formulas begun at just this depth have values that are known. -/
theorem Idle.of_succ (hc : c.Idle limit (depth + 1))
    (hsame : ∀ x ∈ c.past, ∀ r, x.happening.begun? = some (r, depth) →
      ∃ value, c.memo.Knows limit depth r value) : c.Idle limit depth := by
  rintro x hx ⟨r, depth'⟩ hplace
  rcases hc x hx (r, depth') hplace with hless | hknown
  · by_cases hdepth : depth' = depth
    · subst hdepth
      exact .inr (hsame x hx r hplace)
    · exact .inl (by simp only at hless ⊢; omega)
  · exact .inr hknown

theorem Continues.refl (hc : c.Orderly s limit) : c.Continues s limit depth c :=
  ⟨hc, Memo.Keeps.refl _, fun _ hx => .inl hx⟩

theorem Continues.trans (h : c.Continues s limit depth c')
    (h' : c'.Continues s limit depth c'') : c.Continues s limit depth c'' where
  orderly := h'.orderly
  keeps := h.keeps.trans h'.keeps
  later x hx := by
    rcases h'.later x hx with hx | hx
    · exact h.later x hx
    · exact .inr hx

theorem Continues.of_le {depth' : Int} (h : c.Continues s limit depth' c') (hle : depth ≤ depth') :
    c.Continues s limit depth c' where
  orderly := h.orderly
  keeps := h.keeps
  later x hx := by
    rcases h.later x hx with hx | hx
    · exact .inl hx
    · exact .inr (hle.trans hx)

theorem Continues.alter (hc : c.Continues s limit depth c') (change : Memo → Memo)
    (hkeeps : c'.memo.Keeps (change c'.memo)) (hsound : (change c'.memo).Sound s limit) :
    c.Continues s limit depth (c'.alter change) where
  orderly := hc.orderly.alter change hkeeps hsound
  keeps := hc.keeps.trans hkeeps
  later := hc.later

theorem Continues.note (hc : c.Continues s limit depth c') (horderly : (c'.note h).Orderly s limit)
    (hdepth : depth ≤ h.place.2) : c.Continues s limit depth (c'.note h) where
  orderly := horderly
  keeps := hc.keeps
  later x hx := by
    rcases List.mem_append.mp hx with hx | hx
    · exact hc.later x hx
    · obtain rfl := List.mem_singleton.mp hx
      exact .inr hdepth

/-! ## What the reading of a cell does to a course -/

/-- The mark is at a depth at least, and nothing else has changed. -/
theorem Orderly.reach (hc : c.Orderly s limit) (hidle : c.Idle limit depth) (reached : Int) :
    c.Continues s limit depth (c.alter (·.reach reached)) ∧
      (c.alter (·.reach reached)).Idle limit depth := by
  have hkeeps := c.memo.keeps_reach reached
  have hsound := hc.sound.reach reached
  exact ⟨(Continues.refl hc).alter (·.reach reached) hkeeps hsound,
    hidle.alter (·.reach reached) hkeeps hsound⟩

/-- A reference beyond the limit. -/
theorem Orderly.cutOff (hc : c.Orderly s limit) (hidle : c.Idle limit depth)
    (hbelow : limit < depth) (r : Ref) :
    let c' := ((c.alter (·.reach depth)).alter Memo.countCutOff).note (.cutOff r depth)
    c.Continues s limit depth c' ∧ c'.Idle limit depth := by
  intro c'
  obtain ⟨hreach, hmarked⟩ := hc.reach hidle depth
  have hkeeps := (c.memo.reach depth).keeps_countCutOff
  have hsound := hreach.orderly.sound.countCutOff
  have hcount := hreach.alter Memo.countCutOff hkeeps hsound
  exact ⟨hcount.note (hcount.orderly.note_cutOff hbelow r) le_rfl,
    (hmarked.alter Memo.countCutOff hkeeps hsound).note nofun⟩

/-- A value that the memo knows. -/
theorem Orderly.recalled (hc : c.Orderly s limit) (hidle : c.Idle limit depth) {reached : Int}
    (hknown : c.memo.known? limit depth r = some (value, reached)) :
    let c' := ((c.alter (·.reach depth)).alter (·.reach reached)).note (.recalled r depth value)
    c.Continues s limit depth c' ∧ c'.Idle limit depth := by
  intro c'
  obtain ⟨hreach, hmarked⟩ := hc.reach hidle depth
  obtain ⟨hagain, hmarked⟩ := hreach.orderly.reach hmarked reached
  have hboth := hreach.trans hagain
  exact ⟨hboth.note (hboth.orderly.note_recalled ⟨reached, hknown⟩) le_rfl, hmarked.note nofun⟩

/-- A formula that is begun. One level deeper there are no others that are unfinished. -/
theorem Orderly.begun (hc : c.Orderly s limit) (hidle : c.Idle limit depth)
    (hnew : c.memo.known? limit depth r = none) (hr : r.InSheet) (hdepth : depth ≤ limit) :
    let c' := ((c.alter (·.reach depth)).alter (·.descend depth)).note (.begun r depth)
    c.Continues s limit depth c' ∧ c'.Idle limit (depth + 1) := by
  intro c'
  obtain ⟨hreach, hmarked⟩ := hc.reach hidle depth
  have hkeeps := (c.memo.reach depth).keeps_descend depth
  have hsound := hreach.orderly.sound.descend depth
  have hdescend := hreach.alter (·.descend depth) hkeeps hsound
  have hmarked := hmarked.alter (·.descend depth) hkeeps hsound
  refine ⟨hdescend.note (hdescend.orderly.note_begun hmarked hnew hr hdepth) le_rfl, ?_⟩
  refine (hmarked.mono (by omega)).note ?_
  rintro place h
  cases h
  exact .inl (by simp)

/-- Of what has happened at a depth, nothing is new where a course goes on one level deeper. -/
theorem Continues.mem_of_place (h : c.Continues s limit (depth + 1) c') {x : Moment}
    (hx : x ∈ c'.past) (hplace : x.happening.place.2 = depth) : x ∈ c.past := by
  rcases h.later x hx with hold | hdeeper
  · exact hold
  · omega

/-- A formula that is finished, from the course `c₁` on which it was begun to the course `c₂` that
it leaves. -/
theorem Orderly.finished {c₁ c₂ : Course} (hc : c.Orderly s limit) (hidle : c.Idle limit depth)
    (hnew : c.memo.known? limit depth r = none)
    (hpast : c₁.past = c.past ++ [⟨.begun r depth, c₁.memo⟩])
    (hbegun : c.Continues s limit depth c₁) (hread : c₁.Continues s limit (depth + 1) c₂)
    (hdone : c₂.Idle limit (depth + 1)) (outer : Int)
    (hrecord : (c₂.memo.record limit depth r value).Sound s limit) :
    let c' := (c₂.alter fun m => (m.record limit depth r value).reach outer).note
      (.finished r depth value)
    c.Continues s limit depth c' ∧ c'.Idle limit depth := by
  intro c'
  have hmark := (c₂.memo.record limit depth r value).keeps_reach outer
  have hkeeps := (Memo.keeps_record hread.orderly.sound hrecord).trans hmark
  have hsound := hrecord.reach outer
  have hknows := (Memo.knows_record hrecord).of_keeps hmark hsound
  have hentered := (hbegun.trans (hread.of_le (by omega))).alter
    (fun m => (m.record limit depth r value).reach outer) hkeeps hsound
  -- What has happened at this very depth is the beginning of the formula or older than that.
  have hold : ∀ x ∈ c₂.past, x.happening.place.2 = depth →
      x ∈ c.past ∨ x.happening = .begun r depth := by
    intro x hx hplace
    have hx := hread.mem_of_place hx hplace
    rw [hpast] at hx
    rcases List.mem_append.mp hx with hx | hx
    · exact .inl hx
    · exact .inr (by rw [List.mem_singleton.mp hx])
  have hfirst : ∀ x ∈ c₂.past, ∀ value, ¬ x.happening.Finds r depth value := by
    intro x hx value hfinds
    rcases hold x hx (by rw [hfinds.place_eq]) with hx | hx
    · exact Memo.not_knows hnew value (hc.knows hx hfinds)
    · rw [hx] at hfinds
      rcases hfinds with h | h <;> cases h
  refine ⟨hentered.note (hentered.orderly.note_finished hknows hfirst) le_rfl, ?_⟩
  refine Idle.note (Idle.of_succ (hdone.alter _ hkeeps hsound) ?_) nofun
  intro x hx r' hplace
  rcases hold x hx (by rw [Happening.place_of_begun? hplace]) with hx | hx
  · rcases hidle x hx _ hplace with hless | ⟨value', hknown⟩
    · exact absurd hless (lt_irrefl _)
    · exact ⟨value', hknown.of_keeps hentered.keeps hsound⟩
  · rw [hx] at hplace
    cases hplace
    exact ⟨value, hknows⟩

/-- The cells whose formulas have been begun, each with the depth, in that order. -/
def begun (c : Course) : List (Ref × Int) := c.past.filterMap (·.happening.begun?)

theorem mem_begun {place : Ref × Int} :
    place ∈ c.begun ↔ ∃ x ∈ c.past, x.happening.begun? = some place := List.mem_filterMap

theorem Orderly.nodup_begun (hc : c.Orderly s limit) : c.begun.Nodup := by
  refine List.pairwise_filterMap.mpr (hc.precedes.imp fun hprecedes => ?_)
  rintro place hplace place' hplace' rfl
  exact hprecedes.once place hplace hplace'

/-- No more formulas than there are cells are begun at each depth from the first to the limit. -/
theorem Orderly.length_begun_le (hc : c.Orderly s limit)
    (hdeeper : ∀ x ∈ c.past, depth ≤ x.happening.place.2) :
    (c.begun.length : Int) ≤ (rowCount * columnCount : Nat) * max 0 (limit - depth + 1) := by
  have hsub : c.begun ⊆ Address.all.map Address.ref ×ˢ Area.span depth limit := by
    rintro ⟨r, depth'⟩ hplace
    obtain ⟨x, hx, hbegun⟩ := mem_begun.mp hplace
    obtain ⟨a, ha⟩ := Ref.inSheet_iff.mp ((hc.fits x hx).inSheet _ hbegun)
    have hat := Happening.place_of_begun? hbegun
    have hlower := hdeeper x hx
    have hupper : ¬ limit < x.happening.place.2 := by
      rw [← (hc.fits x hx).cutOff_iff]
      rintro ⟨r', depth'', hcut⟩
      rw [hcut] at hbegun
      cases hbegun
    rw [hat] at hlower hupper
    exact List.pair_mem_product.mpr
      ⟨List.mem_map.mpr ⟨a, a.mem_all, Ref.ref_of_address? ha⟩,
        Area.mem_span.mpr ⟨hlower, not_lt.mp hupper⟩⟩
  have hle := (hc.nodup_begun.subperm hsub).length_le
  rw [List.length_product, List.length_map, Address.length_all, Area.span, List.length_map,
    List.length_range] at hle
  have hdepths : ((limit + 1 - depth).toNat : Int) = max 0 (limit - depth + 1) := by omega
  calc (c.begun.length : Int)
      ≤ (rowCount * columnCount * (limit + 1 - depth).toNat : Nat) := Int.ofNat_le.mpr hle
    _ = (rowCount * columnCount : Nat) * max 0 (limit - depth + 1) := by
      rw [Int.natCast_mul, hdepths]

end Course

end Worksheet
