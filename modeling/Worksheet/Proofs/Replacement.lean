import Mathlib
import Worksheet.Proofs.Dependents
import Worksheet.Proofs.Numeral
import Worksheet.Proofs.Reads

/-!
# A formula may be replaced by what it shows

A cell that shows a number can be given this text, and it keeps its value: the text is no formula
(`Entry.ofText_display`) and is read as the number. What other cells refer to has not changed then,
and so neither have they. As evaluation on the new sheet takes other ways through the memo and
opens other frames, both sheets are compared with the values without a depth limit, which are
computed from those of the cells that are mentioned. These values are the same, cell for cell
(`Sheet.freeCellValue_replace`, by induction along the references), and on a sheet without circles
they are what evaluation finds within the default limit (`Sheet.exists_measure`).
-/

namespace Worksheet

open Text

/-! ## Numbers are no formulas -/

theorem Text.trim_cons {c : Char} (h : isBlank c = false) (cs : List Char) :
    ∃ cs', trim (c :: cs) = c :: cs' := by
  rw [trim, List.dropWhile_cons_of_neg (by simp [h]), List.reverse_cons, List.dropWhile_append]
  split
  · exact ⟨[], by simp [h]⟩
  · exact ⟨(cs.reverse.dropWhile isBlank).reverse, by simp⟩

/-- No literal begins like a formula. -/
theorem Number.read_of_formulaMark {text : String} {cs : List Char}
    (h : text.toList = Entry.formulaMark :: cs) : read text = nan := by
  obtain ⟨cs', htrim⟩ := trim_cons (c := Entry.formulaMark) (by decide) cs
  have hnone : Literal.ofChars? (Entry.formulaMark :: cs') = none := rfl
  rw [read, h, htrim, hnone]

/-- A number stands for a constant. -/
theorem Entry.formula?_of_isNaN {text : String} (h : (Number.read text).isNaN = false) :
    formula? text = .ok (.constant (Number.read text) text) := by
  unfold formula?
  split
  · rfl
  · rename_i c rest htext
    split
    · rename_i hmark
      rw [hmark] at htext
      rw [Number.read_of_formulaMark htext] at h
      cases h
    · rfl

/-- A cell that is given a number holds this number. -/
theorem Entry.ofText_of_isNaN {text : String} (h : (Number.read text).isNaN = false) :
    ofText text = ⟨text, .constant (Number.read text) text⟩ := by
  simp only [ofText, formula?_of_isNaN h]

/-- A cell that is given what a number is shown as holds this number. -/
theorem Entry.ofText_display {value : Float} (hnumber : value.isNaN = false)
    (hzero : value.toBits ≠ 0x8000000000000000) :
    ofText (Number.display value) =
      ⟨Number.display value, .constant value (Number.display value)⟩ := by
  have hread := Number.read_display_self hnumber hzero
  rw [ofText_of_isNaN (by rw [hread]; exact hnumber), hread]

namespace Sheet

/-! ## Sheets without circles -/

/-- No cell reaches itself along references. -/
def Acyclic (s : Sheet) : Prop := ∀ r, ¬ Relation.TransGen s.Mentions r r

variable {s s' : Sheet} {settings : Settings} {f : Formula} {c : Address} {value : Float}

theorem Acyclic.not_reachesCycle (h : s.Acyclic) (f : Formula) : ¬ s.ReachesCycle f :=
  fun ⟨_, _, c, _, hcycle⟩ => h c hcycle

theorem Acyclic.ends (h : s.Acyclic) (hs : s.WellFormed) {r : Ref} (hr : r.InSheet) :
    s.Ends r := by
  have hrefs : ∀ r' ∈ (Formula.ref r).refs, r'.InSheet := by simpa [Formula.refs] using hr
  exact ends_of_not_reachesCycle hs.closed hrefs (h.not_reachesCycle _) r (by simp [Formula.refs])

/-- Within the default limit nothing is cut off, so that a measurement that is not given up notes
nothing and finds the value without a limit. -/
theorem exists_measure (hs : s.WellFormed) (hf : f.WellFormed) (hacyclic : s.Acyclic)
    (hlimit : settings.depthLimit = (rowCount * columnCount : Nat))
    (hframes : (s.evaluate settings.depthLimit 0 f {}).1 ≠ .error .stackExhausted) :
    ∃ value, s.freeValue f = .ok value ∧ s.measure settings 0 f = pure value := by
  obtain ⟨value, cutOffs, hevaluate, hvalue, hcount⟩ := exists_evaluate hs hf hframes
  have hwithin : ∀ n : Nat, s.Chain f.refs (n + 1) → 0 + (n : Int) ≤ settings.depthLimit := by
    intro n hn
    by_contra hbeyond
    rw [hlimit] at hbeyond
    have hcycle := (exists_chain_beyond_cells_iff hs.closed hf.refs_inSheet).mp
      ⟨n, hn, by omega⟩
    exact hacyclic.not_reachesCycle f hcycle
  have hnone : cutOffs = 0 := by
    by_contra hcut
    obtain ⟨n, hn, hbeyond⟩ := hcount.mp (Nat.pos_of_ne_zero hcut)
    have := hwithin n hn
    omega
  refine ⟨value, by rw [← valueAt_eq_freeValue hwithin, hvalue], ?_⟩
  simp only [measure, measureWith, hevaluate, hnone, Settings.reported]
  simp

theorem number_of_measure {e : Entry} (h : s.measure settings 0 e.formula = pure value) :
    s.number settings 0 e = pure value := by
  rw [number, h]
  rfl

theorem display_of_number {e : Entry} (h : s.number settings 0 e = pure value) :
    s.display settings e =
      pure (if Number.isNumber value then Number.display value else e.text) := by
  rw [display, h, pure_bind]

/-! ## A value in the place of its formula -/

/-- One sheet comes from another by putting a value in the place of the formula of a cell. -/
structure Replaced (s s' : Sheet) (c : Address) (value : Float) : Prop where
  here : ∃ text, (s'.entry c).formula = .constant value text
  other : ∀ a, a ≠ c → s'.entry a = s.entry a

namespace Replaced

theorem mentions (h : s.Replaced s' c value) {r r' : Ref} (hmention : s'.Mentions r r') :
    s.Mentions r r' := by
  unfold Mentions refsAt at hmention ⊢
  split at hmention
  · rename_i a ha
    by_cases hac : a = c
    · obtain ⟨text, hformula⟩ := h.here
      rw [hac, hformula] at hmention
      cases hmention
    · rwa [← h.other a hac]
  · cases hmention

theorem acyclic (h : s.Replaced s' c value) (hs : s.Acyclic) : s'.Acyclic :=
  fun r hcycle => hs r (Relation.TransGen.mono (fun _ _ => h.mentions) r r hcycle)

theorem ends (h : s.Replaced s' c value) {r : Ref} (hr : s.Ends r) : s'.Ends r :=
  Subrelation.accessible h.mentions hr

/-- Every cell keeps the value that it has without a depth limit. -/
theorem freeCellValue (h : s.Replaced s' c value)
    (hvalue : s.freeValue (s.entry c).formula = .ok value) {r : Ref} (hr : s.Ends r) :
    s'.freeCellValue r = s.freeCellValue r := by
  induction hr with
  | intro r hbelow ih =>
    have hends : s.Ends r := .intro r hbelow
    rw [freeCellValue_eq hends, freeCellValue_eq (h.ends hends)]
    cases ha : r.address with
    | error why => rfl
    | ok a =>
      change s'.freeValue (s'.entry a).formula = s.freeValue (s.entry a).formula
      by_cases hac : a = c
      · obtain ⟨text, hformula⟩ := h.here
        rw [hac, hformula, hvalue]
        rfl
      · rw [h.other a hac]
        refine Formula.valueBy_congr fun r' hr' => ih r' ?_
        change r' ∈ s.refsAt r
        rwa [refsAt_of_address_eq ha]

theorem freeValue (h : s.Replaced s' c value)
    (hvalue : s.freeValue (s.entry c).formula = .ok value) {x : Address} (hx : s.Ends x.ref) :
    s'.freeValue (s'.entry x).formula = s.freeValue (s.entry x).formula := by
  have hsame := h.freeCellValue hvalue hx
  rwa [freeCellValue_eq hx, freeCellValue_eq (h.ends hx), Address.address_ref] at hsame

/-- Every cell keeps its number, if the evaluations of it are not given up. -/
theorem number (h : s.Replaced s' c value)
    (hvalue : s.freeValue (s.entry c).formula = .ok value) (hs : s.WellFormed) (hs' : s'.WellFormed)
    (hacyclic : s.Acyclic) (hlimit : settings.depthLimit = (rowCount * columnCount : Nat))
    {x : Address}
    (hbefore : (s.evaluate settings.depthLimit 0 (s.entry x).formula {}).1 ≠
      .error .stackExhausted)
    (hafter : (s'.evaluate settings.depthLimit 0 (s'.entry x).formula {}).1 ≠
      .error .stackExhausted) :
    ∃ found, s.freeValue (s.entry x).formula = .ok found ∧
      s.number settings 0 (s.entry x) = pure found ∧
      s'.number settings 0 (s'.entry x) = pure found := by
  obtain ⟨found, hfound, hmeasure⟩ := exists_measure hs (hs x) hacyclic hlimit hbefore
  obtain ⟨found', hfound', hmeasure'⟩ :=
    exists_measure hs' (hs' x) (h.acyclic hacyclic) hlimit hafter
  rw [h.freeValue hvalue (hacyclic.ends hs x.inSheet), hfound] at hfound'
  cases hfound'
  exact ⟨found, hfound, number_of_measure hmeasure, number_of_measure hmeasure'⟩

/-- What has kept its number shows the same, in the cell itself because it is a number. -/
theorem display (h : s.Replaced s' c value)
    (hvalue : s.freeValue (s.entry c).formula = .ok value) (hnumber : Number.isNumber value = true)
    {x : Address} {found : Float} (hfound : s.freeValue (s.entry x).formula = .ok found)
    (hold : s.number settings 0 (s.entry x) = pure found)
    (hnew : s'.number settings 0 (s'.entry x) = pure found) :
    s'.display settings (s'.entry x) = s.display settings (s.entry x) := by
  rw [display_of_number hold, display_of_number hnew]
  by_cases hxc : x = c
  · rw [hxc, hvalue] at hfound
    cases hfound
    rw [if_pos hnumber, if_pos hnumber]
  · rw [h.other x hxc]

end Replaced

/-- A cell that has a number has it without a depth limit, too. -/
theorem freeValue_of_number (hs : s.WellFormed) (hacyclic : s.Acyclic)
    (hlimit : settings.depthLimit = (rowCount * columnCount : Nat)) {x : Address}
    (hnumber : (s.number settings 0 (s.entry x)).outcome = .ok value)
    (hvalue : value.isNaN = false) :
    s.freeValue (s.entry x).formula = .ok value ∧
      s.number settings 0 (s.entry x) = pure value := by
  have hframes : (s.evaluate settings.depthLimit 0 (s.entry x).formula {}).1 ≠
      .error .stackExhausted := by
    intro hgiven
    rw [outcome_number_of_exhausted (outcome_measure_of_error hgiven)] at hnumber
    cases hnumber
    cases hvalue
  obtain ⟨found, hfound, hmeasure⟩ := exists_measure hs (hs x) hacyclic hlimit hframes
  have hpure := number_of_measure hmeasure
  rw [hpure] at hnumber
  cases hnumber
  exact ⟨hfound, hpure⟩

theorem outcome_answer_number {row column : Datum} (hc : c.GivenBy row column) {m : Memo}
    (h : (s.answer settings m (.number row column)).1.outcome = .ok (.number value)) :
    (s.number settings 0 (s.entry c)).outcome = .ok value := by
  rw [answer_number_given hc, Report.outcome_bind] at h
  cases hout : (s.number settings 0 (s.entry c)).outcome with
  | error why => simp [hout] at h
  | ok found => simpa [hout] using h

/-- Giving a cell the number that it shows puts this number in the place of its formula. -/
theorem replaced_write_display (s : Sheet) (c : Address) (hnan : value.isNaN = false)
    (hzero : value.toBits ≠ 0x8000000000000000) :
    s.Replaced (s.write c (Entry.ofText (Number.display value))) c value where
  here := ⟨Number.display value, by rw [entry_write_self, Entry.ofText_display hnan hzero]⟩
  other _ ha := entry_write_of_ne s _ ha.symm

/-- **A formula may be replaced by what it shows.** Take a sheet that edits lead to, on which no
cell reaches itself, with the default depth limit, and a cell `c` whose number is a number and not
the zero with a sign. After `c` has been given the text that it shows, every cell, `c` included, has
the same number and shows the same as before, provided that the evaluation of this cell is given up
neither before nor after. The reports are the same as a whole. -/
theorem enter_shown (hs : s.Reachable) (hacyclic : s.Acyclic)
    (hlimit : settings.depthLimit = (rowCount * columnCount : Nat)) (settings' : Settings)
    {row column : Datum} (hc : c.GivenBy row column) {text : String} {m : Memo}
    (hnumber : (s.answer settings m (.number row column)).1.outcome = .ok (.number value))
    (hshown : (s.answer settings m (.shown row column)).1.outcome = .ok (.text text))
    (hnan : value.isNaN = false) (hzero : value.toBits ≠ 0x8000000000000000) :
    let s' := (s.edit settings' (.enter row column text)).1
    ∀ x : Address,
      (s.evaluate settings.depthLimit 0 (s.entry x).formula {}).1 ≠ .error .stackExhausted →
      (s'.evaluate settings.depthLimit 0 (s'.entry x).formula {}).1 ≠ .error .stackExhausted →
      ∀ i j, x.GivenBy i j → ∀ m,
        s'.answer settings m (.number i j) = s.answer settings m (.number i j) ∧
          s'.answer settings m (.shown i j) = s.answer settings m (.shown i j) := by
  intro s' x hbefore hafter i j hx m
  have hwell := hs.wellFormed
  -- What `c` is and shows, and so what is entered there.
  obtain ⟨hfree, hpure⟩ :=
    freeValue_of_number hwell hacyclic hlimit (outcome_answer_number hc hnumber) hnan
  have hvalue : Number.isNumber value = true := by rw [Number.isNumber, hnan]; rfl
  obtain rfl : Number.display value = text := by
    rw [answer_shown_given hc, display_of_number hpure, if_pos hvalue] at hshown
    cases hshown
    rfl
  have hwrite : s' = s.write c (Entry.ofText (Number.display value)) :=
    (edit_enter_given settings' s hc _).1
  have hreplaced : s.Replaced s' c value := hwrite ▸ s.replaced_write_display c hnan hzero
  have hwell' : s'.WellFormed := hwrite ▸ hwell.write c _
  -- The numbers of `x`, and from them what `x` shows.
  obtain ⟨found, hfound, hold, hnew⟩ :=
    hreplaced.number hfree hwell hwell' hacyclic hlimit hbefore hafter
  have hdisplay := hreplaced.display hfree hvalue hfound hold hnew
  rw [answer_number_given hx, answer_number_given hx, answer_shown_given hx,
    answer_shown_given hx, hold, hnew, hdisplay]
  exact ⟨rfl, rfl⟩

/-- The cell A1. -/
def belowFirst : Address := ⟨⟨1, by decide⟩, ⟨0, by decide⟩⟩

/-- Seven in A1, and a formula in A0 that refers to it. -/
def copying : Sheet :=
  (empty.write belowFirst ⟨"7", .constant (Number.read "7") "7"⟩).write .first
    ⟨"=A1", .ref ⟨0, 1⟩⟩

theorem copying_reachable : copying.Reachable := by
  have hseven : Entry.ofText "7" = ⟨"7", .constant (Number.read "7") "7"⟩ :=
    Entry.ofText_of_isNaN rfl
  have hcopy : Entry.ofText "=A1" = ⟨"=A1", .ref ⟨0, 1⟩⟩ := by cbv
  have hwrite := (Reachable.empty.write belowFirst "7").write .first "=A1"
  rwa [hseven, hcopy] at hwrite

theorem copying_mentions {r r' : Ref} (h : copying.Mentions r r') :
    r = ⟨0, 0⟩ ∧ r' = ⟨0, 1⟩ := by
  unfold Mentions refsAt at h
  split at h
  · rename_i a ha
    by_cases hfirst : a = .first
    · subst hfirst
      rw [copying, entry_write_self] at h
      exact ⟨(Ref.ref_of_address? ha).symm, by simpa [Formula.refs] using h⟩
    · rw [copying, entry_write_of_ne _ _ (Ne.symm hfirst)] at h
      by_cases hseven : a = belowFirst
      · rw [hseven, entry_write_self] at h
        cases h
      · rw [entry_write_of_ne _ _ (Ne.symm hseven), entry_empty] at h
        cases h
  · cases h

theorem copying_acyclic : copying.Acyclic := by
  intro r hcycle
  obtain ⟨b, hstep, -⟩ := Relation.TransGen.head'_iff.mp hcycle
  obtain ⟨d, -, hstep'⟩ := Relation.TransGen.tail'_iff.mp hcycle
  have hstart := (copying_mentions hstep).1
  have hend := (copying_mentions hstep').2
  rw [hstart] at hend
  cases hend

theorem copying_nestsAtMost : copying.NestsAtMost 0 :=
  ((nestsAtMost_empty 0).write (by decide) _).write (by decide) _

theorem copying_freeValue :
    copying.freeValue (copying.entry .first).formula = .ok (Number.read "7") := by
  have hends : copying.Ends belowFirst.ref :=
    copying_acyclic.ends copying_reachable.wellFormed (Address.inSheet _)
  have hfirst : copying.entry .first = ⟨"=A1", .ref ⟨0, 1⟩⟩ := entry_write_self _ _ _
  have hseven : copying.entry belowFirst = ⟨"7", .constant (Number.read "7") "7"⟩ := by
    rw [copying, entry_write_of_ne _ _ (by decide), entry_write_self]
  rw [hfirst]
  change copying.freeCellValue belowFirst.ref = _
  rw [freeCellValue_eq hends, Address.address_ref]
  change copying.freeValue (copying.entry belowFirst).formula = _
  rw [hseven]
  rfl

/-- The formula in A0 gives way to the text `7`. -/
theorem enter_shown_copying :
    let s' := (copying.edit {} (.enter (.whole 0) (.whole 0) "7")).1
    copying.Acyclic ∧
      s'.answer {} {} (.number (.flag false) (.flag false)) =
        copying.answer {} {} (.number (.flag false) (.flag false)) := by
  intro s'
  have hfirst : Address.first.GivenBy (.whole 0) (.whole 0) := ⟨.whole 0, .whole 0⟩
  have hwell := copying_reachable.wellFormed
  have hbefore : (copying.evaluate 2600 0 (copying.entry .first).formula {}).1 ≠
      .error .stackExhausted :=
    evaluate_completes copying_nestsAtMost (copying_nestsAtMost .first) (by decide) {}
  have hnests : s'.NestsAtMost 0 := by
    have hwrite : s' = copying.write .first (Entry.ofText "7") :=
      (edit_enter_given {} copying hfirst "7").1
    rw [hwrite, Entry.ofText_of_isNaN rfl]
    exact copying_nestsAtMost.write (by decide) _
  have hafter : (s'.evaluate 2600 0 (s'.entry .first).formula {}).1 ≠ .error .stackExhausted :=
    evaluate_completes hnests (hnests .first) (by decide) {}
  obtain ⟨found, hfound, hmeasure⟩ : ∃ found,
      copying.freeValue (copying.entry .first).formula = .ok found ∧
        copying.measure {} 0 (copying.entry .first).formula = pure found :=
    exists_measure hwell (hwell .first) copying_acyclic rfl hbefore
  rw [copying_freeValue] at hfound
  cases hfound
  have hnumber := number_of_measure hmeasure
  have hasked : (copying.answer {} {} (.number (.whole 0) (.whole 0))).1.outcome =
      .ok (.number (Number.read "7")) := by
    rw [answer_number_given hfirst, hnumber]
    rfl
  have hshown : (copying.answer {} {} (.shown (.whole 0) (.whole 0))).1.outcome =
      .ok (.text "7") := by
    have hseven : Number.display (Number.read "7") = "7" := by decide +kernel
    have hvalue : Number.isNumber (Number.read "7") = true := rfl
    rw [answer_shown_given hfirst, display_of_number hnumber, if_pos hvalue, hseven]
    rfl
  have hcells := enter_shown copying_reachable copying_acyclic rfl {} hfirst hasked hshown rfl
    (by decide) .first hbefore hafter (.flag false) (.flag false) ⟨.no, .no⟩ {}
  exact ⟨copying_acyclic, hcells.1⟩

end Sheet

end Worksheet
