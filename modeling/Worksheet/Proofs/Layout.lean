import Mathlib
import Worksheet.Proofs.Partition
import Worksheet.Proofs.Spelling

/-!
# Layout and case

Blanks between tokens, and the case of the letters in references and operation names, do not change
what a text says. `Relaid` is one such change: blanks are put in at a place that is not within a
token, or one letter is written in the other case. The scanner finds the same tokens behind any
number of them, each where it was among the characters that are not blank, and the reader reads the
same formula, or none (`ofChars_relaid`).

A token depends on what stands behind it, up to the next parenthesis. `Token.EndsAlike` says which
texts are alike as such, whatever the token; both changes give texts that are.
-/

namespace Worksheet

open Text Token

/-- Blanks are put in between two tokens or at an end, or a letter of a reference or of an operation
name changes its case. -/
inductive Relaid : List Char → List Char → Prop where
  | spaced {before blanks behind : List Char} : Blanks blanks →
      (∀ t ∈ scan (before ++ behind), t.stop ≤ before.length ∨ before.length ≤ t.position) →
      Relaid (before ++ behind) (before ++ (blanks ++ behind))
  | recased {before behind : List Char} {c c' : Char} {t : Token} :
      t ∈ scan (before ++ c :: behind) → t.kind = .reference ∨ t.kind = .function →
      t.Covers before.length → c.isAlpha = true → c' = c.toLower ∨ c' = c.toUpper →
      Relaid (before ++ c :: behind) (before ++ c' :: behind)

namespace Token

/-! ## Texts in front of which tokens end alike -/

/-- A token that ends in front of the first text also does so in front of the second. -/
structure EndsAlike (behind behind' : List Char) : Prop where
  digit : (∀ c ∈ behind.head?, c.isDigit = false) → ∀ c ∈ behind'.head?, c.isDigit = false
  breaks : Breaks behind → Breaks behind'
  opens : Opens behind ↔ Opens behind'

theorem Lexeme.of_endsAlike {afterReference : Bool} {kind : Kind}
    {lexeme behind behind' : List Char} (h : Lexeme afterReference kind lexeme behind)
    (halike : EndsAlike behind behind') : Lexeme afterReference kind lexeme behind' := by
  cases h with
  | reference hletter hdigit hbehind => exact .reference hletter hdigit (halike.digit hbehind)
  | longReference hletter htens hones => exact .longReference hletter htens hones
  | function hword hopens => exact .function hword (halike.opens.mp hopens)
  | openParen => exact .openParen
  | closeParen => exact .closeParen
  | comma => exact .comma
  | colon hafter => exact .colon hafter
  | constant hrun hbreaks hreference hfunction hcolon =>
    rw [halike.opens] at hfunction
    exact .constant hrun (halike.breaks hbreaks) hreference hfunction hcolon

theorem opens_cons_iff {c : Char} {behind : List Char} :
    Opens (c :: behind) ↔ c = '(' ∨ isBlank c = true ∧ Opens behind := by
  rw [opens_iff, opens_iff, List.dropWhile_cons]
  by_cases hblank : isBlank c = true
  · have hopen : c ≠ '(' := fun h => absurd (h ▸ hblank) (by decide)
    simp [hblank, hopen]
  · simp [hblank]

theorem opens_blanks_iff {blanks : List Char} (h : Blanks blanks) (behind : List Char) :
    Opens (blanks ++ behind) ↔ Opens behind := by
  rw [opens_iff, opens_iff, List.dropWhile_append_of_pos h]

theorem EndsAlike.cons {behind behind' : List Char} (h : EndsAlike behind behind') (c : Char) :
    EndsAlike (c :: behind) (c :: behind') :=
  ⟨id, id, by rw [opens_cons_iff, opens_cons_iff, h.opens]⟩

theorem EndsAlike.append {behind behind' : List Char} (h : EndsAlike behind behind')
    (front : List Char) : EndsAlike (front ++ behind) (front ++ behind') := by
  induction front with
  | nil => exact h
  | cons c front ih => exact ih.cons c

theorem endsAlike_blanks {blanks : List Char} (h : Blanks blanks) (behind : List Char) :
    EndsAlike behind (blanks ++ behind) := by
  cases blanks with
  | nil => exact ⟨id, id, Iff.rfl⟩
  | cons b blanks =>
    have hblank := h b List.mem_cons_self
    refine ⟨fun _ c hc => ?_, fun _ c hc => ?_, (opens_blanks_iff h behind).symm⟩
    · cases hc
      exact not_isDigit_of_isBlank hblank
    · cases hc
      exact .inl hblank

theorem not_opens_of_isAlpha {c : Char} (h : c.isAlpha = true) (behind : List Char) :
    ¬ Opens (c :: behind) := fun hopens => by
  rw [hopens.not_isAlpha c rfl] at h
  cases h

theorem endsAlike_letter {c c' : Char} (h : c.isAlpha = true) (h' : c'.isAlpha = true)
    (behind : List Char) : EndsAlike (c :: behind) (c' :: behind) := by
  refine ⟨fun _ d hd => ?_, fun hbreaks => ?_, ?_⟩
  · cases hd
    exact not_isDigit_of_isAlpha h'
  · rcases hbreaks c rfl with hblank | hmark
    · rw [not_isBlank_of_isAlpha h] at hblank
      cases hblank
    · rw [not_isMark_of_isAlpha h] at hmark
      cases hmark
  · exact iff_of_false (not_opens_of_isAlpha h behind) (not_opens_of_isAlpha h' behind)

/-! ## Blanks between tokens -/

/-- The token at a place further behind. -/
def move (width : Nat) (t : Token) : Token := { t with position := t.position + width }

/-- A token at a place or behind it moves by the given number of characters. -/
def moveFrom (place width : Nat) (t : Token) : Token :=
  if t.position < place then t else t.move width

theorem moveFrom_of_lt {place width : Nat} {t : Token} (h : t.position < place) :
    moveFrom place width t = t := if_pos h

theorem moveFrom_of_le {place width : Nat} {t : Token} (h : place ≤ t.position) :
    moveFrom place width t = t.move width := if_neg (by omega)

section Scan

variable {position : Nat} {afterReference : Bool}

theorem scanFrom_add (width : Nat) {cs : List Char} :
    scanFrom (position + width) afterReference cs =
      (scanFrom position afterReference cs).map (move width) := by
  generalize htokens : scanFrom position afterReference cs = tokens
  induction tokens generalizing position afterReference cs with
  | nil => rwa [List.map_nil, scanFrom_eq_nil_iff, ← scanFrom_eq_nil_iff]
  | cons t tokens ih =>
    obtain ⟨blanks, lexeme, behind, rfl, hblanks, hlexeme, htext, hposition, hrest⟩ :=
      lexeme_of_scanFrom htokens
    have hplace : position + width + blanks.length + lexeme.length =
        position + blanks.length + lexeme.length + width := by omega
    rw [scanFrom_blanks hblanks, hlexeme.scanFrom, hplace, ih hrest.symm, ← htext, List.map_cons]
    congr 2
    rw [hposition]
    omega

/-- What is cut off at a place where no token is cut begins with the first token, if it is not
blank. -/
theorem exists_behind_lexeme {before behind blanks lexeme behind' : List Char}
    (h : before ++ behind = blanks ++ (lexeme ++ behind'))
    (hle : blanks.length + lexeme.length ≤ before.length) :
    ∃ more, before = blanks ++ (lexeme ++ more) ∧ behind' = more ++ behind := by
  rw [← List.append_assoc] at h
  obtain ⟨more, rfl⟩ : blanks ++ lexeme <+: before :=
    List.prefix_of_prefix_length_le ⟨_, h.symm⟩ ⟨_, rfl⟩ (by rwa [List.length_append])
  rw [List.append_assoc] at h
  exact ⟨more, List.append_assoc .., (List.append_cancel_left h).symm⟩

theorem scanFrom_spaced_of_blanks {before blanks behind : List Char} (hbefore : Blanks before)
    (hblanks : Blanks blanks) :
    scanFrom position afterReference (before ++ (blanks ++ behind)) =
      (scanFrom position afterReference (before ++ behind)).map
        (moveFrom (position + before.length) blanks.length) := by
  rw [scanFrom_blanks hbefore, scanFrom_blanks hbefore, scanFrom_blanks hblanks, scanFrom_add]
  exact List.map_congr_left fun t ht => (moveFrom_of_le (within_of_mem_scanFrom ht).1).symm

theorem exists_within_lexeme {before behind blanks lexeme behind' : List Char} {c : Char}
    (h : before ++ c :: behind = blanks ++ (lexeme ++ behind'))
    (hle : blanks.length ≤ before.length) (hlt : before.length < blanks.length + lexeme.length) :
    ∃ inner after, before = blanks ++ inner ∧ lexeme = inner ++ c :: after ∧
      behind = after ++ behind' := by
  obtain ⟨inner, rfl⟩ : blanks <+: before :=
    List.prefix_of_prefix_length_le ⟨_, h.symm⟩ ⟨_, rfl⟩ hle
  rw [List.append_assoc, List.append_right_inj, List.append_cons] at h
  rw [List.length_append] at hlt
  obtain ⟨after, rfl⟩ : inner ++ [c] <+: lexeme :=
    List.prefix_of_prefix_length_le ⟨_, h⟩ ⟨_, rfl⟩ (by simp; omega)
  rw [List.append_cons, List.append_assoc _ after, List.append_right_inj] at h
  exact ⟨inner, after, rfl, (List.append_cons ..).symm, h⟩

/-- Blanks that are put in at a place where no token is cut move the tokens behind it. -/
theorem scanFrom_spaced {before blanks behind : List Char} (hblanks : Blanks blanks)
    (hcut : ∀ t ∈ scanFrom position afterReference (before ++ behind),
      t.stop ≤ (position + before.length : Nat) ∨ (position + before.length : Nat) ≤ t.position) :
    scanFrom position afterReference (before ++ (blanks ++ behind)) =
      (scanFrom position afterReference (before ++ behind)).map
        (moveFrom (position + before.length) blanks.length) := by
  generalize htokens : scanFrom position afterReference (before ++ behind) = tokens at hcut
  induction tokens generalizing position afterReference before with
  | nil =>
    have hall := scanFrom_eq_nil_iff.mp htokens
    have hbefore : Blanks before := fun c hc => hall c (List.mem_append_left _ hc)
    exact htokens ▸ scanFrom_spaced_of_blanks hbefore hblanks
  | cons t tokens ih =>
    obtain ⟨gap, lexeme, behind', htext, hgap, hlexeme, hspell, hposition, hrest⟩ :=
      lexeme_of_scanFrom htokens
    have hpos := List.length_pos_iff.mpr hlexeme.ne_nil
    have hstop := stop_of_spelled hposition hspell
    have ht := eq_of_spelled hposition hspell
    rcases hcut t List.mem_cons_self with hbehind | hfront
    · obtain ⟨more, rfl, rfl⟩ := exists_behind_lexeme htext (by omega)
      have hplace : position + (gap ++ (lexeme ++ more)).length =
          position + gap.length + lexeme.length + more.length := by
        simp only [List.length_append]
        omega
      have hlexeme' := hlexeme.of_endsAlike ((endsAlike_blanks hblanks behind).append more)
      rw [hplace] at hcut ⊢
      rw [List.map_cons, moveFrom_of_lt (by omega), List.append_assoc, List.append_assoc,
        scanFrom_blanks hgap, hlexeme'.scanFrom, ← ht,
        ih hrest.symm fun u hu => hcut u (List.mem_cons_of_mem _ hu)]
    · have hfits : before <+: gap :=
        List.prefix_of_prefix_length_le ⟨_, rfl⟩ ⟨_, htext.symm⟩ (by omega)
      exact htokens ▸ scanFrom_spaced_of_blanks (fun c hc => hgap c (hfits.subset hc)) hblanks

/-! ## Letters in the other case -/

theorem recase_spec {c c' : Char} (h : c.isAlpha = true) (h' : c' = c.toLower ∨ c' = c.toUpper) :
    c'.isAlpha = true ∧ c'.toLower = c.toLower ∧ c'.toUpper = c.toUpper := by
  have hlower := forall_ascii (P := fun c => c.isAlpha = true → c.toLower.isAlpha = true ∧
    c.toLower.toLower = c.toLower ∧ c.toLower.toUpper = c.toUpper) (by decide)
    (toNat_lt_of_isAlpha h) h
  have hupper := forall_ascii (P := fun c => c.isAlpha = true → c.toUpper.isAlpha = true ∧
    c.toUpper.toLower = c.toLower ∧ c.toUpper.toUpper = c.toUpper) (by decide)
    (toNat_lt_of_isAlpha h) h
  rcases h' with rfl | rfl
  · exact hlower
  · exact hupper

/-- Among a letter and digits behind it the letter is the first character. -/
theorem first_of_digits {before after digits : List Char} {c letter : Char}
    (h : before ++ c :: after = letter :: digits) (hdigits : ∀ d ∈ digits, d.isDigit = true)
    (hc : c.isAlpha = true) : before = [] ∧ after = digits := by
  cases before with
  | nil =>
    cases h
    exact ⟨rfl, rfl⟩
  | cons b before =>
    cases h
    have hdigit := hdigits c (by simp)
    rw [not_isDigit_of_isAlpha hc] at hdigit
    cases hdigit

/-- The case of a letter does not matter in a reference or in an operation name. -/
theorem Lexeme.recased {before after behind : List Char} {kind : Kind} {c c' : Char}
    (h : Lexeme afterReference kind (before ++ c :: after) behind)
    (hkind : kind = .reference ∨ kind = .function) (hc : c.isAlpha = true)
    (hc' : c' = c.toLower ∨ c' = c.toUpper) :
    Lexeme afterReference kind (before ++ c' :: after) behind ∧
      kind.spell (before ++ c' :: after) = kind.spell (before ++ c :: after) := by
  obtain ⟨halpha, hlower, hupper⟩ := recase_spec hc hc'
  generalize hlexeme : before ++ c :: after = lexeme at h
  have hsame : kind.spell (before ++ c' :: after) = kind.spell lexeme := by
    subst hlexeme
    rcases hkind with rfl | rfl <;> simp [Kind.spell, hlower, hupper]
  refine ⟨?_, hsame⟩
  cases h with
  | reference hletter hdigit hbehind =>
    obtain ⟨rfl, rfl⟩ := first_of_digits hlexeme (by simpa using hdigit) hc
    exact .reference halpha hdigit hbehind
  | longReference hletter htens hones =>
    obtain ⟨rfl, rfl⟩ := first_of_digits hlexeme (by simpa using ⟨htens, hones⟩) hc
    exact .longReference halpha htens hones
  | function hword hopens =>
    subst hlexeme
    refine .function ⟨?_, ?_⟩ hopens
    · intro d hd
      rcases List.mem_append.mp hd with hd | hd
      · exact hword.1 d (List.mem_append_left _ hd)
      rcases List.mem_cons.mp hd with rfl | hd
      · exact halpha
      · exact hword.1 d (List.mem_append_right _ (List.mem_cons_of_mem _ hd))
    · simpa [hlower] using hword.2
  | openParen | closeParen | comma | colon | constant => simp at hkind

/-- The case of a letter in a reference or in an operation name does not change the tokens. -/
theorem scanFrom_recased {before behind : List Char} {c c' : Char} {t : Token}
    (ht : t ∈ scanFrom position afterReference (before ++ c :: behind))
    (hkind : t.kind = .reference ∨ t.kind = .function)
    (hcovers : t.Covers (position + before.length)) (hc : c.isAlpha = true)
    (hc' : c' = c.toLower ∨ c' = c.toUpper) :
    scanFrom position afterReference (before ++ c' :: behind) =
      scanFrom position afterReference (before ++ c :: behind) := by
  generalize htokens : scanFrom position afterReference (before ++ c :: behind) = tokens at ht
  induction tokens generalizing position afterReference before with
  | nil => cases ht
  | cons u tokens ih =>
    obtain ⟨gap, lexeme, behind', htext, hgap, hlexeme, hspell, hposition, hrest⟩ :=
      lexeme_of_scanFrom htokens
    have hstop := stop_of_spelled hposition hspell
    have hu := eq_of_spelled hposition hspell
    rcases List.mem_cons.mp ht with rfl | ht
    · obtain ⟨inner, after, rfl, rfl, rfl⟩ := exists_within_lexeme htext
        (by have := hcovers.1; omega) (by have := hcovers.2; omega)
      obtain ⟨hlexeme', hspell'⟩ := hlexeme.recased hkind hc hc'
      have hlength : (inner ++ c' :: after).length = (inner ++ c :: after).length := by simp
      have hscan := hlexeme'.scanFrom (position + gap.length)
      rw [hspell', hlength, ← hu, ← hrest, List.append_assoc, List.cons_append] at hscan
      rw [List.append_assoc, scanFrom_blanks hgap, hscan]
    · have hwithin := within_of_mem_scanFrom (hrest ▸ ht)
      obtain ⟨more, rfl, rfl⟩ := exists_behind_lexeme htext (by have := hcovers.1; omega)
      have hplace : position + (gap ++ (lexeme ++ more)).length =
          position + gap.length + lexeme.length + more.length := by
        simp only [List.length_append]
        omega
      have hlexeme' := hlexeme.of_endsAlike
        ((endsAlike_letter hc (recase_spec hc hc').1 behind).append more)
      have hnext := ih (by exact_mod_cast hplace ▸ hcovers) hrest.symm ht
      rw [List.append_assoc, List.append_assoc, scanFrom_blanks hgap, hlexeme'.scanFrom, ← hu,
        hnext]

end Scan

/-! ## Tokens that are moved at most -/

/-- How many characters that are not blank stand in front of a token. -/
def printedBefore (cs : List Char) (t : Token) : Nat :=
  (cs.take t.position.toNat).countP (!isBlank ·)

/-- A token of the first text and a token of the second that are the same but for their places, and
their places differ by blanks that were put in. -/
structure Moved (cs cs' : List Char) (t t' : Token) : Prop where
  kind : t'.kind = t.kind
  text : t'.text = t.text
  position : t.position ≤ t'.position
  printed : printedBefore cs' t' = printedBefore cs t

theorem Moved.refl (cs : List Char) (t : Token) : Moved cs cs t t := ⟨rfl, rfl, Int.le_refl _, rfl⟩

theorem Moved.trans {cs cs' cs'' : List Char} {t t' t'' : Token} (h : Moved cs cs' t t')
    (h' : Moved cs' cs'' t' t'') : Moved cs cs'' t t'' :=
  ⟨h'.kind.trans h.kind, h'.text.trans h.text, Int.le_trans h.position h'.position,
    h'.printed.trans h.printed⟩

theorem countP_blanks {blanks : List Char} (h : Blanks blanks) :
    blanks.countP (!isBlank ·) = 0 := by
  rw [List.countP_eq_zero]
  exact fun c hc => by simp [h c hc]

theorem moved_spaced {before blanks behind : List Char} (hblanks : Blanks blanks) {t : Token}
    (hpos : 0 ≤ t.position) :
    Moved (before ++ behind) (before ++ (blanks ++ behind)) t
      (moveFrom before.length blanks.length t) := by
  by_cases hplace : t.position < before.length
  · rw [moveFrom_of_lt hplace]
    refine ⟨rfl, rfl, Int.le_refl _, ?_⟩
    rw [printedBefore, printedBefore, List.take_append_of_le_length (by omega),
      List.take_append_of_le_length (by omega)]
  · rw [moveFrom_of_le (by omega)]
    obtain ⟨k, hk⟩ : ∃ k, t.position.toNat = before.length + k :=
      ⟨t.position.toNat - before.length, by omega⟩
    have hmoved : (t.move blanks.length).position.toNat = before.length + (blanks.length + k) := by
      simp only [move]
      omega
    refine ⟨rfl, rfl, by simp only [move]; omega, ?_⟩
    rw [printedBefore, printedBefore, hmoved, hk, List.take_length_add_append,
      List.take_length_add_append, List.take_length_add_append, List.countP_append,
      List.countP_append, List.countP_append, countP_blanks hblanks, Nat.zero_add]

theorem moved_recased {before behind : List Char} {c c' : Char} (hc : isBlank c = false)
    (hc' : isBlank c' = false) (t : Token) :
    Moved (before ++ c :: behind) (before ++ c' :: behind) t t := by
  refine ⟨rfl, rfl, Int.le_refl _, ?_⟩
  simp only [printedBefore, List.take_append, List.countP_append]
  cases t.position.toNat - before.length <;> simp [hc, hc']

end Token

open Token

/-- One change of the layout or of the case moves the tokens at most. -/
theorem Relaid.moved {cs cs' : List Char} (h : Relaid cs cs') :
    List.Forall₂ (Moved cs cs') (scan cs) (scan cs') := by
  cases h with
  | @spaced before blanks behind hblanks hcut =>
    rw [scan, ← Nat.zero_add before.length] at hcut
    have hscan := scanFrom_spaced hblanks hcut
    rw [Nat.zero_add] at hscan
    rw [scan, scan, hscan, List.forall₂_map_right_iff, List.forall₂_same]
    exact fun t ht => moved_spaced hblanks (within_of_mem_scanFrom ht).1
  | @recased before behind c c' t ht hkind hcovers hc hc' =>
    have hscan := scanFrom_recased ht hkind (by rwa [Nat.zero_add]) hc hc'
    rw [scan, scan, hscan, List.forall₂_same]
    exact fun t _ => moved_recased (not_isBlank_of_isAlpha hc)
      (not_isBlank_of_isAlpha (recase_spec hc hc').1) t

theorem forall₂_trans {α β γ : Type} {R : α → β → Prop} {S : β → γ → Prop} {T : α → γ → Prop}
    (htrans : ∀ a b c, R a b → S b c → T a c) {as : List α} {bs : List β} {cs : List γ}
    (h : List.Forall₂ R as bs) (h' : List.Forall₂ S bs cs) : List.Forall₂ T as cs := by
  induction h generalizing cs with
  | nil =>
    cases h'
    exact .nil
  | cons hab _ ih =>
    cases h' with
    | cons hbc h' => exact .cons (htrans _ _ _ hab hbc) (ih h')

/-- Any number of changes of the layout and of the case move the tokens at most. -/
theorem moved_of_relaid {cs cs' : List Char} (h : Relation.ReflTransGen Relaid cs cs') :
    List.Forall₂ (Moved cs cs') (scan cs) (scan cs') := by
  induction h with
  | refl => exact List.forall₂_same.mpr fun t _ => Moved.refl cs t
  | tail _ hstep ih => exact forall₂_trans (fun _ _ _ h h' => h.trans h') ih hstep.moved

namespace Formula

/-! ## The reader and the places of tokens -/

theorem exists_append_of_forall₂ {α β : Type} {R : α → β → Prop} {as : List α}
    {bs bs' : List β} (h : List.Forall₂ R as (bs ++ bs')) :
    ∃ front rest, as = front ++ rest ∧ List.Forall₂ R front bs ∧ List.Forall₂ R rest bs' :=
  ⟨_, _, (List.take_append_drop _ _).symm, List.forall₂_take_append _ _ _ h,
    List.forall₂_drop_append _ _ _ h⟩

/-- The places of the tokens of a phrase do not matter. -/
theorem Phrase.of_forall₂ {tokens tokens' : List Token} {f : Formula} (h : Phrase tokens f)
    (hsame : List.Forall₂ (fun t' t => t'.kind = t.kind ∧ t'.text = t.text) tokens' tokens) :
    Phrase tokens' f := by
  induction h generalizing tokens' with
  | ref hkind hr =>
    obtain _ | ⟨⟨hkind', htext⟩, _ | _⟩ := hsame
    exact .ref (hkind'.trans hkind) (htext ▸ hr)
  | constant hkind =>
    obtain _ | ⟨⟨hkind', htext⟩, _ | _⟩ := hsame
    exact htext ▸ .constant (hkind'.trans hkind)
  | binary hword hopening hcomma hclosing hname _ _ ihleft ihright =>
    obtain _ | ⟨⟨hword', hname'⟩, _ | ⟨⟨hopening', -⟩, hsame⟩⟩ := hsame
    obtain ⟨lefts, rest, rfl, hlefts, hsame⟩ := exists_append_of_forall₂ hsame
    obtain _ | ⟨⟨hcomma', -⟩, hsame⟩ := hsame
    obtain ⟨rights, rest, rfl, hrights, hsame⟩ := exists_append_of_forall₂ hsame
    obtain _ | ⟨⟨hclosing', -⟩, _ | _⟩ := hsame
    rw [← hname'] at hname ⊢
    exact .binary (hword'.trans hword) (hopening'.trans hopening) (hcomma'.trans hcomma)
      (hclosing'.trans hclosing) hname (ihleft hlefts) (ihright hrights)
  | range hword hopening hfirst hcolon hsecond hclosing hname hstart hstop =>
    obtain _ | ⟨⟨hword', hname'⟩, _ | ⟨⟨hopening', -⟩, _ | ⟨⟨hfirst', hstart'⟩,
      _ | ⟨⟨hcolon', -⟩, _ | ⟨⟨hsecond', hstop'⟩, _ | ⟨⟨hclosing', -⟩, _ | _⟩⟩⟩⟩⟩⟩ := hsame
    rw [← hname'] at hname ⊢
    exact .range (hword'.trans hword) (hopening'.trans hopening) (hfirst'.trans hfirst)
      (hcolon'.trans hcolon) (hsecond'.trans hsecond) (hclosing'.trans hclosing) hname
      (hstart' ▸ hstart) (hstop' ▸ hstop)

end Formula

/-- **Layout and case do not matter.** Behind any changes of the layout and of the case of names the
tokens have the same classes and texts, each behind as many characters that are not blank, and the
text is read as the same formula, or still as none. -/
theorem ofChars_relaid {cs cs' : List Char} (h : Relation.ReflTransGen Relaid cs cs') :
    List.Forall₂ (Moved cs cs') (scan cs) (scan cs') ∧
    ∀ f, Formula.ofChars cs' = .ok f ↔ Formula.ofChars cs = .ok f := by
  have hmoved := moved_of_relaid h
  refine ⟨hmoved, fun f => ?_⟩
  rw [Formula.ofChars, Formula.ofChars, Formula.ofTokens_eq_ok_iff, Formula.ofTokens_eq_ok_iff]
  refine and_congr_left fun _ => ⟨fun hphrase => ?_, fun hphrase => ?_⟩
  · exact hphrase.of_forall₂ (hmoved.imp fun t t' h => ⟨h.kind.symm, h.text.symm⟩)
  · exact hphrase.of_forall₂ (hmoved.flip.imp fun t' t h => ⟨h.kind, h.text⟩)

theorem relaid_spacedCall :
    Relation.ReflTransGen Relaid "sum(a0:B1)".toList "Sum (a0:B1)".toList := by
  have hspaced : Relaid "sum(a0:B1)".toList "sum (a0:B1)".toList :=
    @Relaid.spaced "sum".toList " ".toList "(a0:B1)".toList (by decide) (by decide +kernel)
  have hrecased : Relaid "sum (a0:B1)".toList "Sum (a0:B1)".toList :=
    @Relaid.recased [] "um (a0:B1)".toList 's' 'S' ⟨.function, "sum", 0⟩ (by decide +kernel)
      (.inr rfl) (by unfold Covers; decide) rfl (.inr rfl)
  exact .tail (.single hspaced) hrecased

theorem ofChars_relaid_spacedCall :
    Relation.ReflTransGen Relaid "sum(a0:B1)".toList "Sum (a0:B1)".toList ∧
    Formula.ofChars "Sum (a0:B1)".toList = .ok (.range "sum" ⟨⟨0, 0⟩, ⟨1, 1⟩⟩) := by
  have hread : Formula.ofChars "sum(a0:B1)".toList = .ok (.range "sum" ⟨⟨0, 0⟩, ⟨1, 1⟩⟩) := by cbv
  exact ⟨relaid_spacedCall, ((ofChars_relaid relaid_spacedCall).2 _).mpr hread⟩

end Worksheet
