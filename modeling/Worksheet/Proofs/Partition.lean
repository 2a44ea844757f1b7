import Worksheet.Proofs.Lexeme

/-!
# Tokens partition their text

Tokens stand at places of a text. `Token.Partition` says which tokens are those of a text, by their
places and without a word on how they are found: they follow each other without touching the same
character, every character that is not blank lies in one of them, and each is a lexeme where it
stands. The scanner finds such tokens in every text, and there are no others
(`Token.partition_iff_eq_scan`). What the scanner does at a lexeme is taken from `Token.Lexeme`; the
work here is to pass from the places in the whole text to the rest of the text that the scanner has
before it, and back.
-/

namespace Worksheet.Token

open Text

/-! ## Places -/

/-- The place behind the last character of a token. -/
def stop (t : Token) : Int := t.position + t.text.length

/-- The character at a place of the text belongs to the token. -/
def Covers (t : Token) (i : Nat) : Prop := t.position ≤ i ∧ i < t.stop

/-- Whether the token in front of a place is a reference, by the tokens up to there. -/
def endsInReference (afterReference : Bool) (tokens : List Token) : Bool :=
  tokens.getLast?.elim afterReference (·.kind == .reference)

/-- The tokens are those of the text. -/
structure Partition (cs : List Char) (tokens : List Token) : Prop where
  /-- The tokens stand in the order of the text. -/
  ascending : tokens.Pairwise fun t u => t.position < u.position
  /-- No two tokens have a character in common. -/
  disjoint : tokens.Pairwise fun t u => ∀ i, ¬ (t.Covers i ∧ u.Covers i)
  /-- The characters of the tokens are those that are not blank. -/
  covered : ∀ (i : Nat) (c : Char), cs[i]? = some c →
    (isBlank c = false ↔ ∃ t ∈ tokens, t.Covers i)
  /-- A parenthesis or a comma is a token of its own. -/
  marks : ∀ (i : Nat) (c : Char), cs[i]? = some c → isMark c = true →
    ∃ t ∈ tokens, t.position = i ∧ t.text = String.ofList [c] ∧ t.kind.mark? = some c
  /-- Each token is what the text has at its place, and is a lexeme there. What opens behind an
  operation name ends an unbroken run, so a constant that began with such a name would be no more
  than the name. -/
  spelled : ∀ front t rest, tokens = front ++ t :: rest →
    ∃ before lexeme behind : List Char, cs = before ++ (lexeme ++ behind) ∧
      t.position = (before.length : Int) ∧ t.text = t.kind.spell lexeme ∧
      Lexeme (endsInReference false front) t.kind lexeme behind

@[simp] theorem endsInReference_cons (afterReference : Bool) (t : Token) (tokens : List Token) :
    endsInReference afterReference (t :: tokens) =
      endsInReference (t.kind == .reference) tokens := by
  cases tokens <;> simp [endsInReference, List.getLast?_cons]

@[simp] theorem endsInReference_append_singleton (afterReference : Bool) (tokens : List Token)
    (t : Token) : endsInReference afterReference (tokens ++ [t]) = (t.kind == .reference) := by
  simp [endsInReference]

/-! ## Lexemes and their characters -/

@[simp] theorem Kind.length_spell (kind : Kind) (cs : List Char) :
    (kind.spell cs).length = cs.length := by
  cases kind <;> simp [spell]

/-- There are no blanks in a lexeme. -/
theorem Lexeme.not_isBlank_of_mem {afterReference : Bool} {kind : Kind} {lexeme behind : List Char}
    (h : Lexeme afterReference kind lexeme behind) : ∀ c ∈ lexeme, isBlank c = false := by
  cases h with
  | reference hletter hdigit =>
    simp [not_isBlank_of_isAlpha hletter, not_isBlank_of_isDigit hdigit]
  | longReference hletter htens hones =>
    simp [not_isBlank_of_isAlpha hletter, not_isBlank_of_isDigit htens,
      not_isBlank_of_isDigit hones]
  | function hword => exact fun c hc => not_isBlank_of_isAlpha (hword.1 c hc)
  | openParen | closeParen | comma | colon => exact List.forall_mem_singleton.mpr rfl
  | constant hrun => exact fun c hc => (hrun.2 c hc).1

/-- Marks are spelled as they are typed. -/
theorem Kind.spell_of_mark? {kind : Kind} {c : Char} (h : kind.mark? = some c) (cs : List Char) :
    kind.spell cs = String.ofList cs := by
  cases kind <;> cases h <;> rfl

theorem not_isMark_of_isDigit {c : Char} (h : c.isDigit = true) : isMark c = false :=
  forall_ascii (P := fun c => c.isDigit = true → isMark c = false) (by decide)
    (toNat_lt_of_isDigit h) h

theorem not_isBlank_of_isMark {c : Char} (h : isMark c = true) : isBlank c = false := by
  rcases isMark_iff.mp h with rfl | rfl | rfl <;> rfl

/-- A parenthesis or a comma is in no lexeme but its own. -/
theorem Lexeme.eq_of_mem_of_isMark {afterReference : Bool} {kind : Kind}
    {lexeme behind : List Char} (h : Lexeme afterReference kind lexeme behind) {c : Char}
    (hc : c ∈ lexeme) (hmark : isMark c = true) : lexeme = [c] ∧ kind.mark? = some c := by
  have hnot : ∀ {d : Char}, isMark d = false → c ≠ d := fun hd heq => by
    rw [heq, hd] at hmark
    cases hmark
  cases h with
  | reference hletter hdigit =>
    simp [hnot (not_isMark_of_isAlpha hletter), hnot (not_isMark_of_isDigit hdigit)] at hc
  | longReference hletter htens hones =>
    simp [hnot (not_isMark_of_isAlpha hletter), hnot (not_isMark_of_isDigit htens),
      hnot (not_isMark_of_isDigit hones)] at hc
  | function hword => exact absurd rfl (hnot (not_isMark_of_isAlpha (hword.1 c hc)))
  | openParen | closeParen | comma => simp_all [Kind.mark?]
  | colon => exact absurd (List.mem_singleton.mp hc) (hnot rfl)
  | constant hrun => exact absurd rfl (hnot (hrun.2 c hc).2)

section Spelled

variable {t : Token} {lexeme : List Char} {place : Nat}

theorem stop_of_spelled (hposition : t.position = (place : Int))
    (hspell : t.text = t.kind.spell lexeme) : t.stop = (place + lexeme.length : Nat) := by
  rw [stop, hspell, Kind.length_spell, hposition, Int.natCast_add]

theorem covers_of_spelled (hposition : t.position = (place : Int))
    (hspell : t.text = t.kind.spell lexeme) {i : Nat} :
    t.Covers i ↔ place ≤ i ∧ i < place + lexeme.length := by
  rw [Covers, stop_of_spelled hposition hspell, hposition]
  omega

theorem eq_of_spelled (hposition : t.position = (place : Int))
    (hspell : t.text = t.kind.spell lexeme) : t = ⟨t.kind, t.kind.spell lexeme, place⟩ := by
  rw [← hspell, ← hposition]

end Spelled

/-! ## The scanner partitions the text -/

section Scan

variable {position : Nat} {afterReference : Bool} {cs : List Char}

/-- The tokens of a text lie within it. -/
theorem within_of_mem_scanFrom {t : Token} (ht : t ∈ scanFrom position afterReference cs) :
    position ≤ t.position ∧ t.position < t.stop ∧ t.stop ≤ position + cs.length := by
  generalize htokens : scanFrom position afterReference cs = tokens at ht
  induction tokens generalizing position afterReference cs with
  | nil => cases ht
  | cons u tokens ih =>
    obtain ⟨blanks, lexeme, behind, rfl, -, hlexeme, htext, hposition, hrest⟩ :=
      lexeme_of_scanFrom htokens
    have hpos := List.length_pos_iff.mpr hlexeme.ne_nil
    simp only [List.length_append]
    rcases List.mem_cons.mp ht with rfl | ht
    · rw [stop_of_spelled hposition htext, hposition]
      omega
    · have := ih hrest.symm ht
      omega

/-- Each token ends before the next begins. -/
theorem pairwise_scanFrom : (scanFrom position afterReference cs).Pairwise
    fun t u => t.stop ≤ u.position := by
  generalize htokens : scanFrom position afterReference cs = tokens
  induction tokens generalizing position afterReference cs with
  | nil => exact .nil
  | cons t tokens ih =>
    obtain ⟨blanks, lexeme, behind, rfl, -, -, htext, hposition, hrest⟩ :=
      lexeme_of_scanFrom htokens
    refine .cons (fun u hu => ?_) (ih hrest.symm)
    rw [stop_of_spelled hposition htext]
    exact (within_of_mem_scanFrom (hrest ▸ hu)).1

/-- A character is blank or lies in a token. -/
theorem covered_scanFrom (i : Nat) (c : Char) (hc : cs[i]? = some c) :
    isBlank c = false ↔ ∃ t ∈ scanFrom position afterReference cs, t.Covers (position + i) := by
  generalize htokens : scanFrom position afterReference cs = tokens
  induction tokens generalizing position afterReference cs i with
  | nil =>
    have hblank := scanFrom_eq_nil_iff.mp htokens c (List.mem_of_getElem? hc)
    simp [hblank]
  | cons t tokens ih =>
    obtain ⟨blanks, lexeme, behind, rfl, hblanks, hlexeme, htext, hposition, hrest⟩ :=
      lexeme_of_scanFrom htokens
    simp only [List.mem_cons, exists_eq_or_imp, covers_of_spelled hposition htext]
    by_cases hbefore : i < blanks.length
    · rw [List.getElem?_append_left hbefore] at hc
      simp only [hblanks c (List.mem_of_getElem? hc), Bool.true_eq_false, false_iff]
      rintro (h | ⟨u, hu, hcover⟩)
      · omega
      · have hwithin := within_of_mem_scanFrom (hrest ▸ hu)
        have := hcover.1
        omega
    rw [List.getElem?_append_right (by omega)] at hc
    by_cases hinside : i - blanks.length < lexeme.length
    · rw [List.getElem?_append_left hinside] at hc
      simp only [hlexeme.not_isBlank_of_mem c (List.mem_of_getElem? hc), true_iff]
      exact .inl (by omega)
    · rw [List.getElem?_append_right (by omega)] at hc
      have hplace : position + blanks.length + lexeme.length +
          (i - blanks.length - lexeme.length) = position + i := by omega
      rw [ih _ hc hrest.symm, hplace]
      exact (or_iff_right (by omega)).symm

/-- Each token is spelled by a lexeme at its place. -/
theorem spelled_scanFrom {front rest : List Token} {t : Token}
    (h : scanFrom position afterReference cs = front ++ t :: rest) :
    ∃ before lexeme behind : List Char, cs = before ++ (lexeme ++ behind) ∧
      t.position = (position + before.length : Nat) ∧ t.text = t.kind.spell lexeme ∧
      Lexeme (endsInReference afterReference front) t.kind lexeme behind := by
  induction front generalizing position afterReference cs with
  | nil =>
    obtain ⟨blanks, lexeme, behind, rfl, -, hlexeme, htext, hposition, -⟩ := lexeme_of_scanFrom h
    exact ⟨blanks, lexeme, behind, rfl, hposition, htext, hlexeme⟩
  | cons u front ih =>
    obtain ⟨blanks, first, behind, rfl, -, -, -, -, hrest⟩ := lexeme_of_scanFrom h
    obtain ⟨before, lexeme, behind, rfl, hposition, htext, hlexeme⟩ := ih hrest.symm
    refine ⟨blanks ++ (first ++ before), lexeme, behind, by simp, ?_, htext, ?_⟩
    · rw [hposition]
      simp [Nat.add_assoc]
    · rwa [endsInReference_cons]

end Scan

/-- A parenthesis or a comma that lies in a spelled token is all of it. -/
theorem eq_mark_of_covers {cs before lexeme behind : List Char} {afterReference : Bool} {t : Token}
    (htext : cs = before ++ (lexeme ++ behind)) (hposition : t.position = (before.length : Int))
    (hspell : t.text = t.kind.spell lexeme) (hlexeme : Lexeme afterReference t.kind lexeme behind)
    {i : Nat} {c : Char} (hc : cs[i]? = some c) (hmark : isMark c = true) (hcovers : t.Covers i) :
    t.position = i ∧ t.text = String.ofList [c] ∧ t.kind.mark? = some c := by
  rw [covers_of_spelled hposition hspell] at hcovers
  rw [htext, List.getElem?_append_right (by omega), List.getElem?_append_left (by omega)] at hc
  obtain ⟨rfl, hkind⟩ := hlexeme.eq_of_mem_of_isMark (List.mem_of_getElem? hc) hmark
  rw [List.length_singleton] at hcovers
  exact ⟨by omega, by rw [hspell, Kind.spell_of_mark? hkind], hkind⟩

/-- The scanner partitions every text. -/
theorem partition_scan (cs : List Char) : Partition cs (scan cs) := by
  have hcovered (i : Nat) (c : Char) (hc : cs[i]? = some c) :
      isBlank c = false ↔ ∃ t ∈ scan cs, t.Covers i := by
    rw [← Nat.zero_add i, scan]
    exact covered_scanFrom i c hc
  have hspelled {front rest : List Token} {t : Token} (h : scan cs = front ++ t :: rest) := by
    simpa only [Nat.zero_add] using spelled_scanFrom h
  refine ⟨pairwise_scanFrom.imp_of_mem fun ht _ h => ?_, pairwise_scanFrom.imp fun h i hcover => ?_,
    hcovered, fun i c hc hmark => ?_, fun front t rest h => hspelled h⟩
  · have := within_of_mem_scanFrom ht
    omega
  · have := hcover.1.2
    have := hcover.2.1
    omega
  · obtain ⟨t, ht, hcovers⟩ := (hcovered i c hc).mp (not_isBlank_of_isMark hmark)
    obtain ⟨front, rest, hsplit⟩ := List.append_of_mem ht
    obtain ⟨before, lexeme, behind, htext, hposition, hspell, hlexeme⟩ := hspelled hsplit
    exact ⟨t, ht, eq_mark_of_covers htext hposition hspell hlexeme hc hmark hcovers⟩

/-! ## There is one partition -/

namespace Partition

variable {cs : List Char} {tokens : List Token}

/-- Each token of a partition ends before the next begins. -/
theorem pairwise_stop_le (h : Partition cs tokens) :
    tokens.Pairwise fun t u => t.stop ≤ u.position := by
  refine (h.ascending.and h.disjoint).imp_of_mem fun {t u} _ hu ⟨hless, hdisjoint⟩ => ?_
  obtain ⟨front, rest, hsplit⟩ := List.append_of_mem hu
  obtain ⟨before, lexeme, behind, -, hposition, hspell, hlexeme⟩ := h.spelled front u rest hsplit
  have hpos := List.length_pos_iff.mpr hlexeme.ne_nil
  have hbegin : u.Covers before.length := (covers_of_spelled hposition hspell).mpr (by omega)
  refine Int.not_lt.mp fun hover => hdisjoint before.length ⟨⟨?_, ?_⟩, hbegin⟩ <;> omega

/-- A stretch of the text in which there is no token is blank. -/
theorem blanks_of_not_covers (h : Partition cs tokens) {before gap behind : List Char}
    (htext : cs = before ++ (gap ++ behind))
    (hfree : ∀ t ∈ tokens, t.stop ≤ before.length ∨ before.length + gap.length ≤ t.position) :
    Blanks gap := by
  intro c hc
  obtain ⟨j, hj, hget⟩ := List.getElem_of_mem hc
  have hat : cs[before.length + j]? = some c := by
    rw [htext, List.getElem?_append_right (by omega), List.getElem?_append_left (by omega),
      Nat.add_sub_cancel_left, List.getElem?_eq_getElem hj, hget]
  refine (Bool.eq_false_or_eq_true (isBlank c)).resolve_right fun hblank => ?_
  obtain ⟨t, ht, hcovers⟩ := (h.covered _ _ hat).mp hblank
  have := hcovers.1
  have := hcovers.2
  have := hfree t ht
  omega

/-- From any place on where no token is cut, the tokens of a partition are those that the scanner
finds there. -/
theorem rest_eq_scanFrom (h : Partition cs tokens) {front rest : List Token}
    {before behind : List Char} (htokens : tokens = front ++ rest) (htext : cs = before ++ behind)
    (hfront : ∀ t ∈ front, t.stop ≤ before.length)
    (hrest : ∀ t ∈ rest, before.length ≤ t.position) :
    rest = scanFrom before.length (endsInReference false front) behind := by
  induction rest generalizing front before behind with
  | nil =>
    rw [eq_comm, scanFrom_eq_nil_iff]
    rw [← List.append_nil behind] at htext
    refine h.blanks_of_not_covers htext fun t ht => .inl (hfront t ?_)
    rwa [htokens, List.append_nil] at ht
  | cons t rest ih =>
    obtain ⟨before', lexeme, behind', htext', hposition, hspell, hlexeme⟩ :=
      h.spelled front t rest htokens
    have hbegin := hrest t List.mem_cons_self
    obtain ⟨gap, rfl⟩ : before <+: before' :=
      List.prefix_of_prefix_length_le ⟨behind, htext.symm⟩ ⟨_, htext'.symm⟩ (by omega)
    obtain rfl : behind = gap ++ (lexeme ++ behind') := by
      rw [htext, List.append_assoc] at htext'
      exact List.append_cancel_left htext'
    have hstop : t.stop = ((before ++ gap ++ lexeme).length : Nat) := by
      rw [stop_of_spelled hposition hspell, ← List.length_append]
    rw [List.length_append] at hposition
    have hbehind : ∀ u ∈ rest, t.stop ≤ u.position := by
      have hpair := h.pairwise_stop_le
      rw [htokens, List.pairwise_append, List.pairwise_cons] at hpair
      exact hpair.2.1.1
    -- The text between the place and the next token is blank, for no token reaches into it.
    have hgap : Blanks gap := by
      refine h.blanks_of_not_covers htext fun u hu => ?_
      rw [htokens, List.mem_append, List.mem_cons] at hu
      rcases hu with hu | rfl | hu
      · exact .inl (hfront u hu)
      · exact .inr (by omega)
      · have := hbehind u hu
        exact .inr (by simp only [List.length_append] at hstop; omega)
    have hnext : rest = scanFrom (before ++ gap ++ lexeme).length
        (endsInReference false (front ++ [t])) behind' := by
      refine ih (by simp [htokens]) (by simp [htext]) (fun u hu => ?_) fun u hu => ?_
      · rcases List.mem_append.mp hu with hu | hu
        · have := hfront u hu
          simp only [List.length_append]
          omega
        · exact List.mem_singleton.mp hu ▸ Int.le_of_eq hstop
      · rw [← hstop]
        exact hbehind u hu
    rw [scanFrom_blanks hgap, hlexeme.scanFrom, ← eq_of_spelled hposition hspell, hnext,
      endsInReference_append_singleton, List.length_append, List.length_append]

/-- The tokens of a text are those that the scanner finds. -/
theorem eq_scan (h : Partition cs tokens) : tokens = scan cs := by
  refine h.rest_eq_scanFrom (List.nil_append tokens).symm (List.nil_append cs).symm (by simp)
    fun t ht => ?_
  obtain ⟨front, rest, hsplit⟩ := List.append_of_mem ht
  obtain ⟨before, lexeme, behind, -, hposition, -⟩ := h.spelled front t rest hsplit
  simp [hposition]

end Partition

/-- **The scanner partitions every text, and the partition is the only one.** -/
theorem partition_iff_eq_scan {cs : List Char} {tokens : List Token} :
    Partition cs tokens ↔ tokens = scan cs :=
  ⟨Partition.eq_scan, fun h => h ▸ partition_scan cs⟩

end Worksheet.Token
