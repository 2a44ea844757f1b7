import Worksheet.Proofs.Coordinates
import Worksheet.Proofs.Phrase

/-!
# Spellings of formulas

The grammar of formulas over characters: blanks may stand around every part, function names and the
letters of references may be in either case, and a constant is whatever else is written without a
break. `Formula.Spelling` says which texts spell a formula, and knows nothing of tokens. The text of
a phrase of tokens is a spelling (`Formula.spelling_of_phrase`), a spelling is cut into a phrase
(`Formula.Spelling.exists_phrase`), and so the reader accepts the spellings, up to its limit on
open calls, and builds the formulas that they spell (`Formula.ofChars_decides`).
-/

namespace Worksheet

open Text Token

/-- The texts that spell a reference: a letter and one or two digits. -/
inductive Ref.SpelledBy : List Char → Ref → Prop where
  | oneDigit {letter ones : Char} : letter.isAlpha = true → ones.isDigit = true →
      SpelledBy [letter, ones]
        ⟨(letter.toUpper.toNat - 'A'.toNat : Nat), (ones.toNat - '0'.toNat : Nat)⟩
  | twoDigits {letter tens ones : Char} : letter.isAlpha = true → tens.isDigit = true →
      ones.isDigit = true →
      SpelledBy [letter, tens, ones]
        ⟨(letter.toUpper.toNat - 'A'.toNat : Nat),
          (10 * (tens.toNat - '0'.toNat) + (ones.toNat - '0'.toNat) : Nat)⟩

/-- The texts that spell a formula. -/
inductive Formula.Spelling : List Char → Formula → Prop where
  | ref {before name after : List Char} {r : Ref} : Blanks before → Ref.SpelledBy name r →
      Blanks after → Spelling (before ++ (name ++ after)) (ref r)
  | binary {before word between lefts rights after : List Char} {name : String}
      {left right : Formula} : Blanks before → Blanks between → Blanks after →
      name ∈ ["add", "sub", "mul", "div"] → word.map Char.toLower = name.toList →
      Spelling lefts left → Spelling rights right →
      Spelling (before ++ (word ++ (between ++ '(' :: (lefts ++ ',' :: (rights ++ ')' :: after)))))
        (binary name left right)
  | range {before word between before₁ first after₁ before₂ second after₂ after : List Char}
      {name : String} {area : Area} : Blanks before → Blanks between → Blanks before₁ →
      Blanks after₁ → Blanks before₂ → Blanks after₂ → Blanks after →
      name ∈ ["sum", "prod"] → word.map Char.toLower = name.toList →
      Ref.SpelledBy first area.start → Ref.SpelledBy second area.stop →
      Spelling (before ++ (word ++ (between ++ '(' :: (before₁ ++ (first ++ (after₁ ++ ':' ::
        (before₂ ++ (second ++ (after₂ ++ ')' :: after)))))))))
        (range name area)
  | constant {before text after : List Char} : Blanks before → Unbroken text →
      ¬ BeginsReference text → Blanks after →
      Spelling (before ++ (text ++ after))
        (constant (Number.read (String.ofList text)) (String.ofList text))

/-! ## Spellings of references and of operation names -/

theorem Text.toUpper_of_isDigit {c : Char} (h : c.isDigit = true) : c.toUpper = c :=
  forall_ascii (P := fun c => c.isDigit = true → c.toUpper = c) (by decide)
    (toNat_lt_of_isDigit h) h

theorem Ref.letterIndex?_toUpper {c : Char} (h : c.isAlpha = true) :
    letterIndex? c.toUpper = some (c.toUpper.toNat - 'A'.toNat : Nat) :=
  forall_ascii
    (P := fun c => c.isAlpha = true →
      letterIndex? c.toUpper = some (c.toUpper.toNat - 'A'.toNat : Nat))
    (by decide) (toNat_lt_of_isAlpha h) h

/-- A reference is read from its letter and its digits, the letter in capitals. -/
theorem Ref.SpelledBy.ofText? {name : List Char} {r : Ref} (h : SpelledBy name r) :
    Ref.ofText? (Kind.reference.spell name) = some r := by
  cases h with
  | oneDigit hletter hones =>
    simp [Ref.ofText?, Kind.spell, Ref.ofChars?, letterIndex?_toUpper hletter,
      toUpper_of_isDigit hones, isDecimalDigit, digit?_of_isDigit hones, digitsValue]
  | twoDigits hletter htens hones =>
    simp [Ref.ofText?, Kind.spell, Ref.ofChars?, letterIndex?_toUpper hletter,
      toUpper_of_isDigit htens, toUpper_of_isDigit hones, isDecimalDigit, digit?_of_isDigit htens,
      digit?_of_isDigit hones, digitsValue]

theorem Text.isAlpha_of_isAlpha_toLower {c : Char} (h : c.toLower.isAlpha = true) :
    c.isAlpha = true := by
  by_cases hupper : c.val ≥ 'A'.val ∧ c.val ≤ 'Z'.val
  · exact Bool.or_eq_true_iff.mpr (.inl (decide_eq_true hupper))
  · rwa [show c.toLower = c from dif_neg hupper] at h

theorem isOperationName_iff {name : String} :
    isOperationName name = true ↔
      name ∈ ["add", "sub", "mul", "div"] ∨ name ∈ ["sum", "prod"] := by
  rw [isOperationName, Bool.or_eq_true, BinaryOp.isSome_ofName?_iff, RangeOp.isSome_ofName?_iff]

/-- No name is that of two operations. -/
theorem not_mem_binaryNames {name : String} (h : name ∈ ["sum", "prod"]) :
    name ∉ ["add", "sub", "mul", "div"] := by
  revert name
  decide

theorem isAlpha_of_mem_operationName {name : String} (h : isOperationName name = true) :
    ∀ c ∈ name.toList, c.isAlpha = true := by
  have hall : ∀ name ∈ ["add", "sub", "mul", "div"] ++ ["sum", "prod"],
      name.toList.all Char.isAlpha = true := by decide
  exact List.all_eq_true.mp (hall name (List.mem_append.mpr (isOperationName_iff.mp h)))

theorem spellsOperation_of_map_toLower {word : List Char} {name : String}
    (hname : isOperationName name = true) (hword : word.map Char.toLower = name.toList) :
    SpellsOperation word := by
  constructor
  · intro c hc
    apply isAlpha_of_isAlpha_toLower
    apply isAlpha_of_mem_operationName hname
    rw [← hword]
    exact List.mem_map_of_mem hc
  · rw [hword, String.ofList_toList]
    exact hname

namespace Formula

/-! ## A spelling is cut into a phrase -/

/-- What may follow a formula: nothing, or the mark that ends an argument. -/
def Closes (rest : List Char) : Prop := ∀ c ∈ rest.head?, c = ',' ∨ c = ')'

theorem closes_nil : Closes [] := fun _ h => nomatch h

theorem Closes.breaks {blanks rest : List Char} (hblanks : Blanks blanks) (h : Closes rest) :
    Breaks (blanks ++ rest) := by
  intro c hc
  cases blanks with
  | nil =>
    rcases h c hc with rfl | rfl
    · exact .inr rfl
    · exact .inr rfl
  | cons b blanks =>
    cases hc
    exact .inl (hblanks _ List.mem_cons_self)

theorem Closes.not_opens {blanks rest : List Char} (hblanks : Blanks blanks) (h : Closes rest) :
    ¬ Opens (blanks ++ rest) := by
  rw [opens_iff, List.dropWhile_append_of_pos hblanks]
  cases rest with
  | nil => simp
  | cons c rest => rcases h c rfl with rfl | rfl <;> simp [List.dropWhile, isBlank, blankRanges]

theorem lexeme_of_spelledBy {name behind : List Char} {r : Ref} (h : Ref.SpelledBy name r)
    (hbehind : ∀ c ∈ behind.head?, c.isDigit = false) (afterReference : Bool) :
    Lexeme afterReference .reference name behind := by
  cases h with
  | oneDigit hletter hones => exact .reference hletter hones hbehind
  | twoDigits hletter htens hones => exact .longReference hletter htens hones

/-- Behind a reference in a rectangle there are blanks and a mark or a colon, and no digit. -/
theorem not_isDigit_of_blanks {blanks : List Char} {c : Char} (hblanks : Blanks blanks)
    (hc : c.isDigit = false) (rest : List Char) :
    ∀ d ∈ (blanks ++ c :: rest).head?, d.isDigit = false := by
  intro d hd
  cases blanks with
  | nil => cases hd; exact hc
  | cons b blanks =>
    cases hd
    exact not_isDigit_of_isBlank (hblanks _ List.mem_cons_self)

theorem opens_of_blanks {blanks : List Char} (h : Blanks blanks) (rest : List Char) :
    Opens (blanks ++ '(' :: rest) := ⟨blanks, rest, h, rfl⟩

/-- The token of an operation name spells it in small letters. -/
theorem spell_function_iff {word : List Char} {name : String} :
    Kind.function.spell word = name ↔ word.map Char.toLower = name.toList := by
  constructor
  · rintro rfl
    rw [Kind.spell, String.toList_ofList]
  · intro h
    rw [Kind.spell, h, String.ofList_toList]

/-- In a text that goes on where an argument ends, the tokens of a spelling are a phrase. -/
theorem Spelling.exists_phrase {cs : List Char} {f : Formula} (h : Spelling cs f)
    {rest : List Char} (hrest : Closes rest) (position : Nat) :
    ∃ position' afterReference used, scanFrom position false (cs ++ rest) =
      used ++ scanFrom position' afterReference rest ∧ Phrase used f := by
  induction h generalizing rest position with
  | ref hbefore hname hafter =>
    have hlexeme := lexeme_of_spelledBy hname (hrest.breaks hafter).not_isDigit false
    simp only [List.append_assoc]
    rw [scanFrom_blanks hbefore, hlexeme.scanFrom, scanFrom_blanks hafter]
    exact ⟨_, _, [_], rfl, .ref rfl hname.ofText?⟩
  | constant hbefore hrun hreference hafter =>
    have hlexeme : Lexeme false .constant _ _ := .constant hrun (hrest.breaks hafter) hreference
      (fun h => hrest.not_opens hafter h.2) nofun
    simp only [List.append_assoc]
    rw [scanFrom_blanks hbefore, hlexeme.scanFrom, scanFrom_blanks hafter]
    exact ⟨_, _, [_], rfl, .constant rfl⟩
  | @binary before word between lefts rights after name left right hbefore hbetween hafter hname
      hword hlefts hrights ihleft ihright =>
    have hoperation := isOperationName_iff.mpr (.inl hname)
    have hlexeme : Lexeme false .function word _ :=
      .function (spellsOperation_of_map_toLower hoperation hword)
        (opens_of_blanks hbetween (lefts ++ ',' :: (rights ++ ')' :: (after ++ rest))))
    obtain ⟨p₁, a₁, leftTokens, hleft, hleftPhrase⟩ :=
      @ihleft (',' :: (rights ++ ')' :: (after ++ rest))) (by simp [Closes])
        (position + before.length + word.length + between.length + 1)
    obtain ⟨p₂, a₂, rightTokens, hright, hrightPhrase⟩ :=
      @ihright (')' :: (after ++ rest)) (by simp [Closes]) (p₁ + 1)
    simp only [List.append_assoc, List.cons_append]
    rw [scanFrom_blanks hbefore, hlexeme.scanFrom, spell_function_iff.mpr hword,
      show (Kind.function == Kind.reference) = false from rfl, scanFrom_blanks hbetween,
      scanFrom_mark .openParen rfl nofun, hleft, scanFrom_mark .comma rfl nofun, hright,
      scanFrom_mark .closeParen rfl nofun, scanFrom_blanks hafter]
    exact ⟨_, _, Phrase.exists_binary rfl rfl rfl rfl hname hleftPhrase hrightPhrase _⟩
  | @range before word between before₁ first after₁ before₂ second after₂ after name area hbefore
      hbetween hbefore₁ hafter₁ hbefore₂ hafter₂ hafter hname hword hfirst hsecond =>
    have hoperation := isOperationName_iff.mpr (.inr hname)
    have hlexeme : Lexeme false .function word _ :=
      .function (spellsOperation_of_map_toLower hoperation hword)
        (opens_of_blanks hbetween (before₁ ++ (first ++ (after₁ ++ ':' ::
          (before₂ ++ (second ++ (after₂ ++ ')' :: (after ++ rest))))))))
    have hstart := lexeme_of_spelledBy hfirst (not_isDigit_of_blanks (c := ':') hafter₁ rfl
      (before₂ ++ (second ++ (after₂ ++ ')' :: (after ++ rest))))) false
    have hstop := lexeme_of_spelledBy hsecond
      (not_isDigit_of_blanks (c := ')') hafter₂ rfl (after ++ rest)) false
    simp only [List.append_assoc, List.cons_append]
    rw [scanFrom_blanks hbefore, hlexeme.scanFrom, spell_function_iff.mpr hword,
      show (Kind.function == Kind.reference) = false from rfl, scanFrom_blanks hbetween,
      scanFrom_mark .openParen rfl nofun, scanFrom_blanks hbefore₁, hstart.scanFrom,
      scanFrom_blanks hafter₁, show (Kind.reference == Kind.reference) = true from rfl,
      scanFrom_mark .colon rfl fun _ => rfl, scanFrom_blanks hbefore₂, hstop.scanFrom,
      scanFrom_blanks hafter₂, scanFrom_mark .closeParen rfl nofun, scanFrom_blanks hafter]
    exact ⟨_, _, [_, _, _, _, _, _], rfl, .range rfl rfl rfl rfl rfl rfl
      (not_mem_binaryNames hname) hfirst.ofText? hsecond.ofText?⟩

/-! ## The text of a phrase is a spelling -/

theorem Spelling.append_blanks {cs blanks : List Char} {f : Formula} (h : Spelling cs f)
    (hblanks : Blanks blanks) : Spelling (cs ++ blanks) f := by
  cases h with
  | ref hbefore hname hafter =>
    simpa only [List.append_assoc] using Spelling.ref hbefore hname (hafter.append hblanks)
  | constant hbefore hrun hreference hafter =>
    simpa only [List.append_assoc] using
      Spelling.constant hbefore hrun hreference (hafter.append hblanks)
  | binary hbefore hbetween hafter hname hword hlefts hrights =>
    simpa only [List.append_assoc, List.cons_append] using
      Spelling.binary hbefore hbetween (hafter.append hblanks) hname hword hlefts hrights
  | range hbefore hbetween hbefore₁ hafter₁ hbefore₂ hafter₂ hafter hname hword hfirst hsecond =>
    simpa only [List.append_assoc, List.cons_append] using
      Spelling.range hbefore hbetween hbefore₁ hafter₁ hbefore₂ hafter₂ (hafter.append hblanks)
        hname hword hfirst hsecond

theorem spelledBy_of_lexeme {afterReference : Bool} {lexeme behind : List Char} {r : Ref}
    (h : Lexeme afterReference .reference lexeme behind)
    (hr : Ref.ofText? (Kind.reference.spell lexeme) = some r) : Ref.SpelledBy lexeme r := by
  have hspelled : ∃ r', Ref.SpelledBy lexeme r' := by
    cases h with
    | reference hletter hdigit => exact ⟨_, .oneDigit hletter hdigit⟩
    | longReference hletter htens hones => exact ⟨_, .twoDigits hletter htens hones⟩
  obtain ⟨r', hr'⟩ := hspelled
  rw [hr'.ofText?] at hr
  cases hr
  exact hr'

/-- The text of a phrase at the front of the tokens of a text is a spelling, and the other tokens
are those of the rest of the text. -/
theorem spelling_of_phrase {used tokens : List Token} {f : Formula} (h : Phrase used f)
    {position : Nat} {afterReference : Bool} {cs : List Char}
    (hscan : scanFrom position afterReference cs = used ++ tokens) :
    ∃ front rest position' afterReference', cs = front ++ rest ∧ Spelling front f ∧
      tokens = scanFrom position' afterReference' rest := by
  induction h generalizing tokens position afterReference cs with
  | ref hkind hr =>
    obtain ⟨blanks, lexeme, behind, rfl, hblanks, hlexeme, htext, -, htokens⟩ :=
      lexeme_of_scanFrom hscan
    rw [hkind] at hlexeme htext
    rw [htext] at hr
    refine ⟨blanks ++ (lexeme ++ []), behind, _, _, by simp, ?_, htokens⟩
    exact .ref hblanks (spelledBy_of_lexeme hlexeme hr) blanks_nil
  | constant hkind =>
    obtain ⟨blanks, lexeme, behind, rfl, hblanks, hlexeme, htext, -, htokens⟩ :=
      lexeme_of_scanFrom hscan
    rw [hkind] at hlexeme htext
    refine ⟨blanks ++ (lexeme ++ []), behind, _, _, by simp, ?_, htokens⟩
    rw [htext]
    cases hlexeme with
    | constant hrun _ hreference => exact .constant hblanks hrun hreference blanks_nil
  | binary hword hopening hcomma hclosing hname _ _ ihleft ihright =>
    simp only [List.cons_append, List.append_assoc, List.nil_append] at hscan
    obtain ⟨before, lexeme, behind, rfl, hbefore, hlexeme, htext, -, hscan⟩ :=
      lexeme_of_scanFrom hscan
    rw [hword] at htext
    obtain ⟨between, arguments, p₁, rfl, hbetween, hscan⟩ :=
      mark_of_scanFrom hscan.symm (by rw [hopening]; rfl)
    obtain ⟨frontLeft, rest, p₂, a₂, rfl, hleft, hscan⟩ := ihleft hscan.symm
    obtain ⟨blanks₁, arguments', p₃, rfl, hblanks₁, hscan⟩ :=
      mark_of_scanFrom hscan.symm (by rw [hcomma]; rfl)
    obtain ⟨frontRight, rest, p₄, a₄, rfl, hright, hscan⟩ := ihright hscan.symm
    obtain ⟨blanks₂, behind, p₅, rfl, hblanks₂, hscan⟩ :=
      mark_of_scanFrom hscan.symm (by rw [hclosing]; rfl)
    refine ⟨_, behind, p₅, _, ?_, .binary hbefore hbetween blanks_nil hname
      (spell_function_iff.mp htext.symm) (hleft.append_blanks hblanks₁)
      (hright.append_blanks hblanks₂), hscan⟩
    simp only [List.append_assoc, List.cons_append, List.nil_append]
  | range hword hopening hfirst hcolon hsecond hclosing hname hstart hstop =>
    obtain ⟨before, lexeme, behind, rfl, hbefore, hlexeme, htext, -, hscan⟩ :=
      lexeme_of_scanFrom hscan
    rw [hword] at hlexeme htext
    obtain ⟨between, arguments, p₁, rfl, hbetween, hscan⟩ :=
      mark_of_scanFrom hscan.symm (by rw [hopening]; rfl)
    obtain ⟨before₁, first, behind, rfl, hbefore₁, hlexeme₁, htext₁, -, hscan⟩ :=
      lexeme_of_scanFrom hscan.symm
    rw [hfirst] at hlexeme₁ htext₁
    obtain ⟨after₁, arguments, p₂, rfl, hafter₁, hscan⟩ :=
      mark_of_scanFrom hscan.symm (by rw [hcolon]; rfl)
    obtain ⟨before₂, second, behind, rfl, hbefore₂, hlexeme₂, htext₂, -, hscan⟩ :=
      lexeme_of_scanFrom hscan.symm
    rw [hsecond] at hlexeme₂ htext₂
    obtain ⟨after₂, behind, p₃, rfl, hafter₂, hscan⟩ :=
      mark_of_scanFrom hscan.symm (by rw [hclosing]; rfl)
    rw [htext₁] at hstart
    rw [htext₂] at hstop
    have hoperation : isOperationName (Kind.function.spell lexeme) = true := by
      cases hlexeme with
      | function hoperation => exact hoperation.2
    rw [← htext] at hoperation
    refine ⟨_, behind, p₃, _, ?_, .range hbefore hbetween hbefore₁ hafter₁ hbefore₂ hafter₂
      blanks_nil ((isOperationName_iff.mp hoperation).resolve_left hname)
      (spell_function_iff.mp htext.symm) (spelledBy_of_lexeme hlexeme₁ hstart)
      (spelledBy_of_lexeme hlexeme₂ hstop), hscan⟩
    simp only [List.append_assoc, List.cons_append, List.nil_append]

/-! ## The reader accepts the spellings -/

theorem spelling_iff_phrase {cs : List Char} {f : Formula} :
    Spelling cs f ↔ Phrase (Token.scan cs) f := by
  constructor
  · intro h
    obtain ⟨position, afterReference, used, hscan, hphrase⟩ := h.exists_phrase closes_nil 0
    rw [List.append_nil, scanFrom, List.append_nil] at hscan
    rw [Token.scan, hscan]
    exact hphrase
  · intro h
    obtain ⟨front, rest, position, afterReference, rfl, hfront, hrest⟩ :=
      spelling_of_phrase h (List.append_nil _).symm
    exact hfront.append_blanks (scanFrom_eq_nil_iff.mp hrest.symm)

theorem ofChars_eq_ok_iff {cs : List Char} {f : Formula} :
    ofChars cs = .ok f ↔ Spelling cs f ∧ f.openCalls ≤ nestingLimit := by
  rw [ofChars, ofTokens_eq_ok_iff, spelling_iff_phrase]

/-- Text cannot express a formula that is not well formed. -/
theorem Spelling.wellFormed {cs : List Char} {f : Formula} (h : Spelling cs f) : f.WellFormed := by
  induction h with
  | ref _ hname _ => exact Ref.inSheet_of_ofChars? hname.ofText?
  | constant => trivial
  | binary _ _ _ hname _ _ _ ihleft ihright => exact ⟨hname, ihleft, ihright⟩
  | range _ _ _ _ _ _ _ hname _ hfirst hsecond =>
    exact ⟨hname, Ref.inSheet_of_ofChars? hfirst.ofText?, Ref.inSheet_of_ofChars? hsecond.ofText?⟩

theorem wellFormed_of_ofChars {cs : List Char} {f : Formula} (h : ofChars cs = .ok f) :
    f.WellFormed :=
  (ofChars_eq_ok_iff.mp h).1.wellFormed

/-- No text spells two formulas. -/
theorem Spelling.unique {cs : List Char} {f g : Formula} (hf : Spelling cs f)
    (hg : Spelling cs g) : f = g :=
  (spelling_iff_phrase.mp hf).unique (spelling_iff_phrase.mp hg)

/-- **The grammar of formulas.** From any text the reader makes just the formula that the text
spells, if no more calls than the limit are open in it at once. A text that spells no formula is
refused, and no text spells two. -/
theorem ofChars_decides (cs : List Char) :
    (∀ f, ofChars cs = .ok f ↔ Spelling cs f ∧ f.openCalls ≤ nestingLimit) ∧
      ((∀ f, ¬ Spelling cs f) → ∃ why, ofChars cs = .error why) ∧
      ∀ f g, Spelling cs f → Spelling cs g → f = g := by
  refine ⟨fun f => ofChars_eq_ok_iff, fun hnone => ?_, fun f g => Spelling.unique⟩
  cases hread : ofChars cs with
  | error why => exact ⟨why, rfl⟩
  | ok f => exact absurd (ofChars_eq_ok_iff.mp hread).1 (hnone f)

end Formula

end Worksheet
