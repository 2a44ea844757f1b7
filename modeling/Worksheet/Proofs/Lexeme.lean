import Worksheet.Proofs.Letters

/-!
# Lexemes

What a token may be spelled like, and what must not stand behind it for the token to end there.
`Lexeme` says so for each class of tokens, without the order in which the scanner tries them. The
scanner finds a lexeme wherever one stands (`Token.Lexeme.scanFrom`), and where it finds a token a
lexeme stands behind blanks (`Token.lexeme_of_scanFrom`).
-/

namespace Worksheet

/-- A run of blanks; it may be empty. -/
def Text.Blanks (cs : List Char) : Prop := ∀ c ∈ cs, isBlank c = true

instance (cs : List Char) : Decidable (Text.Blanks cs) :=
  decidable_of_iff (cs.all Text.isBlank = true) List.all_eq_true

namespace Text

theorem blanks_nil : Blanks [] := by simp [Blanks]

theorem blanks_cons {c : Char} {cs : List Char} :
    Blanks (c :: cs) ↔ isBlank c = true ∧ Blanks cs := by
  simp [Blanks]

theorem Blanks.append {cs ds : List Char} (hcs : Blanks cs) (hds : Blanks ds) :
    Blanks (cs ++ ds) := by
  intro c hc
  rcases List.mem_append.mp hc with h | h
  · exact hcs c h
  · exact hds c h

end Text

namespace Token

open Text

/-- A text that begins with a letter and a digit. -/
def BeginsReference (cs : List Char) : Prop :=
  ∃ letter digit rest, cs = letter :: digit :: rest ∧ letter.isAlpha = true ∧ digit.isDigit = true

/-- Letters that spell the name of an operation. -/
def SpellsOperation (word : List Char) : Prop :=
  (∀ c ∈ word, c.isAlpha = true) ∧ isOperationName (String.ofList (word.map Char.toLower)) = true

/-- A run of characters, at least one, that are neither blank nor a mark. -/
def Unbroken (cs : List Char) : Prop :=
  cs ≠ [] ∧ ∀ c ∈ cs, isBlank c = false ∧ isMark c = false

instance (cs : List Char) : Decidable (Unbroken cs) :=
  decidable_of_iff ((!cs.isEmpty && cs.all fun c => !isBlank c && !isMark c) = true)
    (by simp [Unbroken])

/-- The end of an unbroken run: what follows is blank or a mark, or nothing. -/
def Breaks (behind : List Char) : Prop :=
  ∀ c ∈ behind.head?, isBlank c = true ∨ isMark c = true

/-- What follows begins, perhaps after blanks, with an open parenthesis. -/
def Opens (behind : List Char) : Prop :=
  ∃ blanks rest, Blanks blanks ∧ behind = blanks ++ '(' :: rest

/-- The characters of a token of a class, with the text that follows them. -/
inductive Lexeme (afterReference : Bool) : Kind → List Char → List Char → Prop where
  | reference {letter digit : Char} {behind : List Char} : letter.isAlpha = true →
      digit.isDigit = true → (∀ c ∈ behind.head?, c.isDigit = false) →
      Lexeme afterReference .reference [letter, digit] behind
  | longReference {letter tens ones : Char} {behind : List Char} : letter.isAlpha = true →
      tens.isDigit = true → ones.isDigit = true →
      Lexeme afterReference .reference [letter, tens, ones] behind
  | function {word behind : List Char} : SpellsOperation word → Opens behind →
      Lexeme afterReference .function word behind
  | openParen {behind : List Char} : Lexeme afterReference .openParen ['('] behind
  | closeParen {behind : List Char} : Lexeme afterReference .closeParen [')'] behind
  | comma {behind : List Char} : Lexeme afterReference .comma [','] behind
  | colon {behind : List Char} : afterReference = true →
      Lexeme afterReference .colon [':'] behind
  | constant {lexeme behind : List Char} : Unbroken lexeme → Breaks behind →
      ¬ BeginsReference lexeme → ¬ (SpellsOperation lexeme ∧ Opens behind) →
      (afterReference = true → lexeme.head? ≠ some ':') →
      Lexeme afterReference .constant lexeme behind

/-- The character that makes up every token of a class, if there is such a character. -/
def Kind.mark? : Kind → Option Char
  | openParen => some '('
  | closeParen => some ')'
  | comma => some ','
  | colon => some ':'
  | _ => none

theorem Lexeme.eq_mark {afterReference : Bool} {kind : Kind} {lexeme behind : List Char} {c : Char}
    (h : Lexeme afterReference kind lexeme behind) (hmark : kind.mark? = some c) :
    lexeme = [c] := by
  cases h <;> cases hmark <;> rfl

/-! ## References and operation names at the front -/

theorem referenceLength?_eq_none_iff {cs : List Char} :
    referenceLength? cs = none ↔ ¬ BeginsReference cs := by
  unfold referenceLength? BeginsReference
  split
  · rename_i letter digit rest
    simp
  · rename_i hshort
    simp only [true_iff]
    rintro ⟨letter, digit, rest, rfl, -⟩
    exact hshort letter digit rest rfl

theorem opens_iff {behind : List Char} :
    Opens behind ↔ (behind.dropWhile isBlank).head? = some '(' := by
  constructor
  · rintro ⟨blanks, rest, hblanks, rfl⟩
    rw [List.dropWhile_append_of_pos hblanks]
    rfl
  · intro h
    obtain ⟨rest, hrest⟩ := List.head?_eq_some_iff.mp h
    refine ⟨behind.takeWhile isBlank, rest, List.all_eq_true.mp List.all_takeWhile, ?_⟩
    rw [← hrest, List.takeWhile_append_dropWhile]

theorem takeWhile_append_of_head {p : Char → Bool} {word behind : List Char}
    (hword : ∀ c ∈ word, p c = true) (hbehind : ∀ c ∈ behind.head?, p c = false) :
    (word ++ behind).takeWhile p = word := by
  rw [List.takeWhile_append_of_pos hword]
  cases behind with
  | nil => simp
  | cons c behind => simp [hbehind c rfl]

theorem Opens.not_isAlpha {behind : List Char} (h : Opens behind) :
    ∀ c ∈ behind.head?, c.isAlpha = false := by
  obtain ⟨blanks, rest, hblanks, rfl⟩ := h
  intro c hc
  cases blanks with
  | nil => cases hc; rfl
  | cons b blanks =>
    cases hc
    exact not_isAlpha_of_isBlank (hblanks _ List.mem_cons_self)

theorem functionLength?_eq_some_iff {cs : List Char} {n : Nat} :
    functionLength? cs = some n ↔
      ∃ word behind, cs = word ++ behind ∧ SpellsOperation word ∧ Opens behind ∧
        n = word.length := by
  unfold functionLength?
  constructor
  · intro h
    simp only [Option.ite_none_right_eq_some, Bool.and_eq_true, beq_iff_eq,
      Option.some.injEq] at h
    obtain ⟨⟨hname, hopen⟩, rfl⟩ := h
    exact ⟨cs.takeWhile Char.isAlpha, _,
      (List.prefix_iff_eq_append.mp (List.takeWhile_prefix _)).symm,
      ⟨List.all_eq_true.mp List.all_takeWhile, hname⟩, opens_iff.mpr hopen, rfl⟩
  · rintro ⟨word, behind, rfl, ⟨hletters, hname⟩, hopens, rfl⟩
    simp only [takeWhile_append_of_head hletters hopens.not_isAlpha, List.drop_left, hname,
      opens_iff.mp hopens]
    simp

theorem SpellsOperation.ne_nil {word : List Char} (h : SpellsOperation word) : word ≠ [] := by
  rintro rfl
  exact absurd h.2 (by decide)

theorem functionLength?_of_not_isAlpha {c : Char} (h : c.isAlpha = false) (rest : List Char) :
    functionLength? (c :: rest) = none := by
  rw [Option.eq_none_iff_forall_ne_some]
  intro n hn
  obtain ⟨word, behind, hcons, hword, -, -⟩ := functionLength?_eq_some_iff.mp hn
  cases word with
  | nil => exact hword.ne_nil rfl
  | cons a word =>
    cases hcons
    have ha := hword.1 _ List.mem_cons_self
    rw [h] at ha
    cases ha

theorem referenceLength?_of_not_isAlpha {c : Char} (h : c.isAlpha = false) (rest : List Char) :
    referenceLength? (c :: rest) = none := by
  rw [referenceLength?_eq_none_iff]
  rintro ⟨letter, digit, rest', hcons, hletter, -⟩
  cases hcons
  rw [h] at hletter
  cases hletter

/-! ## Unbroken runs -/

theorem Unbroken.of_isAlpha {word : List Char} (hne : word ≠ [])
    (h : ∀ c ∈ word, c.isAlpha = true) : Unbroken word :=
  ⟨hne, fun c hc => ⟨not_isBlank_of_isAlpha (h c hc), not_isMark_of_isAlpha (h c hc)⟩⟩

theorem Opens.breaks {behind : List Char} (h : Opens behind) : Breaks behind := by
  obtain ⟨blanks, rest, hblanks, rfl⟩ := h
  intro c hc
  cases blanks with
  | nil => cases hc; exact .inr rfl
  | cons b blanks => cases hc; exact .inl (hblanks _ List.mem_cons_self)

theorem Breaks.not_isDigit {behind : List Char} (h : Breaks behind) :
    ∀ c ∈ behind.head?, c.isDigit = false := by
  intro c hc
  rcases h c hc with hblank | hmark
  · exact not_isDigit_of_isBlank hblank
  · rcases isMark_iff.mp hmark with rfl | rfl | rfl <;> rfl

theorem takeWhile_of_breaks {cs behind : List Char}
    (hcs : ∀ c ∈ cs, isBlank c = false ∧ isMark c = false) (hbehind : Breaks behind) :
    (cs ++ behind).takeWhile (fun c => !isBlank c && !isMark c) = cs := by
  refine takeWhile_append_of_head (fun c hc => ?_) fun c hc => ?_
  · simp [hcs c hc]
  · rcases hbehind c hc with h | h <;> simp [h]

/-- A text has one unbroken run at its front. -/
theorem Unbroken.eq_of_append_eq {cs ds behind behind' : List Char} (hcs : Unbroken cs)
    (hds : Unbroken ds) (hbehind : Breaks behind) (hbehind' : Breaks behind')
    (h : cs ++ behind = ds ++ behind') : cs = ds ∧ behind = behind' := by
  have hsame : cs = ds := by
    rw [← takeWhile_of_breaks hcs.2 hbehind, h, takeWhile_of_breaks hds.2 hbehind']
  exact ⟨hsame, List.append_cancel_left (hsame ▸ h)⟩

/-! ## The scanner at a lexeme -/

theorem not_beginsReference_append {cs behind : List Char} (hne : cs ≠ [])
    (hcs : ¬ BeginsReference cs) (hbehind : ∀ c ∈ behind.head?, c.isDigit = false) :
    ¬ BeginsReference (cs ++ behind) := by
  rintro ⟨letter, digit, rest, happend, hletter, hdigit⟩
  match cs with
  | [] => exact hne rfl
  | [c] =>
    cases behind with
    | nil => cases happend
    | cons d behind =>
      cases happend
      rw [hbehind _ rfl] at hdigit
      cases hdigit
  | c :: d :: cs =>
    cases happend
    exact hcs ⟨letter, digit, cs, rfl, hletter, hdigit⟩

theorem SpellsOperation.not_beginsReference {word : List Char} (h : SpellsOperation word) :
    ¬ BeginsReference word := by
  rintro ⟨letter, digit, rest, rfl, -, hdigit⟩
  rw [not_isDigit_of_isAlpha (h.1 digit (by simp))] at hdigit
  cases hdigit

theorem Lexeme.ne_nil {afterReference : Bool} {kind : Kind} {lexeme behind : List Char}
    (h : Lexeme afterReference kind lexeme behind) : lexeme ≠ [] := by
  cases h with
  | function hword _ => exact hword.ne_nil
  | constant hrun => exact hrun.1
  | _ => exact List.cons_ne_nil _ _

/-- The scanner finds the lexeme that stands at the front. -/
theorem Lexeme.atFront {afterReference : Bool} {kind : Kind} {c : Char}
    {lexeme behind : List Char} (h : Lexeme afterReference kind (c :: lexeme) behind) :
    atFront afterReference c (lexeme ++ behind) = (kind, lexeme.length + 1) := by
  generalize hcs : c :: lexeme = cs at h
  have hfront : ∀ rest, c :: (lexeme ++ rest) = cs ++ rest := fun rest => by rw [← hcs]; rfl
  cases h with
  | @reference _ digit _ hletter hdigit hbehind =>
    cases hcs
    have hlength : referenceLength? (c :: ([digit] ++ behind)) = some 2 := by
      cases behind with
      | nil => simp [referenceLength?, hletter, hdigit]
      | cons d behind => simp [referenceLength?, hletter, hdigit, hbehind d rfl]
    unfold Token.atFront
    rw [hlength]
    rfl
  | @longReference _ tens ones _ hletter htens hones =>
    cases hcs
    have hlength : referenceLength? (c :: ([tens, ones] ++ behind)) = some 3 := by
      simp [referenceLength?, hletter, htens, hones]
    unfold Token.atFront
    rw [hlength]
    rfl
  | function hword hopens =>
    have hreference : referenceLength? (c :: (lexeme ++ behind)) = none := by
      rw [hfront, referenceLength?_eq_none_iff]
      exact not_beginsReference_append hword.ne_nil hword.not_beginsReference
        hopens.breaks.not_isDigit
    have hfunction : functionLength? (c :: (lexeme ++ behind)) = some cs.length := by
      rw [hfront]
      exact functionLength?_eq_some_iff.mpr ⟨cs, behind, rfl, hword, hopens, rfl⟩
    unfold Token.atFront
    rw [hreference, hfunction, ← hcs]
    rfl
  | openParen | closeParen | comma =>
    cases hcs
    unfold Token.atFront
    rw [referenceLength?_of_not_isAlpha rfl, functionLength?_of_not_isAlpha rfl]
    rfl
  | colon hafter =>
    cases hcs
    unfold Token.atFront
    rw [referenceLength?_of_not_isAlpha rfl, functionLength?_of_not_isAlpha rfl, hafter]
    rfl
  | constant hrun hbreaks hreference hfunction hcolon =>
    have hnoReference : referenceLength? (c :: (lexeme ++ behind)) = none := by
      rw [hfront, referenceLength?_eq_none_iff]
      exact not_beginsReference_append hrun.1 hreference hbreaks.not_isDigit
    have hnoFunction : functionLength? (c :: (lexeme ++ behind)) = none := by
      rw [hfront, Option.eq_none_iff_forall_ne_some]
      intro n hn
      obtain ⟨word, behind', happend, hword, hopens, -⟩ := functionLength?_eq_some_iff.mp hn
      obtain ⟨rfl, rfl⟩ := hrun.eq_of_append_eq (.of_isAlpha hword.ne_nil hword.1) hbreaks
        hopens.breaks happend
      exact hfunction ⟨hword, hopens⟩
    subst hcs
    have hmark := (hrun.2 c List.mem_cons_self).2
    simp only [isMark, Bool.or_eq_false_iff] at hmark
    have hnoColon : (c == ':' && afterReference) = false := by
      rw [Bool.and_eq_false_iff]
      by_cases hafter : afterReference = true
      · exact .inl (by simpa using hcolon hafter)
      · exact .inr (by simpa using hafter)
    unfold Token.atFront
    rw [hnoReference, hnoFunction]
    simp only [hmark, hnoColon]
    rw [takeWhile_of_breaks (fun d hd => hrun.2 d (List.mem_cons_of_mem _ hd)) hbreaks]
    simp [Nat.add_comm]

theorem Lexeme.not_isBlank {afterReference : Bool} {kind : Kind} {c : Char}
    {lexeme behind : List Char} (h : Lexeme afterReference kind (c :: lexeme) behind) :
    isBlank c = false := by
  generalize hcs : c :: lexeme = cs at h
  cases h with
  | reference hletter | longReference hletter =>
    cases hcs
    exact not_isBlank_of_isAlpha hletter
  | function hword =>
    subst hcs
    exact not_isBlank_of_isAlpha (hword.1 c List.mem_cons_self)
  | openParen | closeParen | comma | colon =>
    cases hcs
    rfl
  | constant hrun =>
    subst hcs
    exact (hrun.2 c List.mem_cons_self).1

/-- A token begins with each lexeme, and the scanner goes on behind it. -/
theorem Lexeme.scanFrom {afterReference : Bool} {kind : Kind} {lexeme behind : List Char}
    (h : Lexeme afterReference kind lexeme behind) (position : Nat) :
    scanFrom position afterReference (lexeme ++ behind) =
      ⟨kind, kind.spell lexeme, position⟩ ::
        Token.scanFrom (position + lexeme.length) (kind == .reference) behind := by
  cases lexeme with
  | nil => exact absurd rfl h.ne_nil
  | cons c lexeme =>
    rw [List.cons_append, Token.scanFrom, h.atFront, h.not_isBlank]
    simp

/-- A mark is a token of its own, a colon only behind a reference. -/
theorem scanFrom_mark (kind : Kind) {c : Char} (hmark : kind.mark? = some c) {position : Nat}
    {afterReference : Bool} (hcolon : kind = .colon → afterReference = true) (behind : List Char) :
    scanFrom position afterReference (c :: behind) =
      ⟨kind, String.ofList [c], position⟩ :: scanFrom (position + 1) false behind := by
  cases kind <;> cases hmark
  · exact Lexeme.openParen.scanFrom position
  · exact Lexeme.closeParen.scanFrom position
  · exact Lexeme.comma.scanFrom position
  · exact (Lexeme.colon (hcolon rfl)).scanFrom position

theorem scanFrom_blanks {blanks : List Char} (h : Blanks blanks) (position : Nat)
    (afterReference : Bool) (cs : List Char) :
    scanFrom position afterReference (blanks ++ cs) =
      scanFrom (position + blanks.length) afterReference cs := by
  induction blanks generalizing position with
  | nil => rfl
  | cons b blanks ih =>
    rw [List.cons_append, scanFrom, if_pos (h b List.mem_cons_self),
      ih fun c hc => h c (List.mem_cons_of_mem _ hc), List.length_cons, Nat.add_right_comm]
    rfl

/-! ## Lexemes of tokens -/

theorem exists_run (rest : List Char) :
    ∃ run behind, rest = run ++ behind ∧
      run = (rest.takeWhile fun d => !isBlank d && !isMark d) ∧
      (∀ c ∈ run, isBlank c = false ∧ isMark c = false) ∧ Breaks behind := by
  refine ⟨_, _, (List.takeWhile_append_dropWhile).symm, rfl, fun d hd => ?_, fun d hd => ?_⟩
  · simpa using List.all_eq_true.mp List.all_takeWhile d hd
  · have hstop := List.head?_dropWhile_not (fun d => !isBlank d && !isMark d) rest
    rw [Option.mem_def.mp hd] at hstop
    simpa [Decidable.imp_iff_not_or] using hstop

/-- An unbroken run is a constant if neither a reference nor an operation name is at its front. -/
theorem lexeme_constant {afterReference : Bool} {run behind : List Char} (hrun : Unbroken run)
    (hbreaks : Breaks behind) (hreference : referenceLength? (run ++ behind) = none)
    (hfunction : functionLength? (run ++ behind) = none)
    (hcolon : afterReference = true → run.head? ≠ some ':') :
    Lexeme afterReference .constant run behind := by
  refine .constant hrun hbreaks ?_ ?_ hcolon
  · rintro ⟨letter, digit, tail, rfl, hletter, hdigit⟩
    exact referenceLength?_eq_none_iff.mp hreference ⟨letter, digit, _, rfl, hletter, hdigit⟩
  · rintro ⟨hword, hopens⟩
    have hsome := functionLength?_eq_some_iff.mpr ⟨_, _, rfl, hword, hopens, rfl⟩
    rw [hfunction] at hsome
    cases hsome

theorem lexeme_reference {afterReference : Bool} {cs : List Char} {n : Nat}
    (h : referenceLength? cs = some n) :
    ∃ lexeme behind, cs = lexeme ++ behind ∧ lexeme.length = n ∧
      Lexeme afterReference .reference lexeme behind := by
  unfold referenceLength? at h
  split at h
  · rename_i letter digit rest
    simp only [Option.ite_none_right_eq_some, Bool.and_eq_true, Option.some.injEq] at h
    obtain ⟨⟨hletter, hdigit⟩, rfl⟩ := h
    cases rest with
    | nil => exact ⟨[letter, digit], [], rfl, rfl, .reference hletter hdigit (by simp)⟩
    | cons d rest =>
      by_cases hd : d.isDigit = true
      · exact ⟨[letter, digit, d], rest, rfl, by simp [hd], .longReference hletter hdigit hd⟩
      · exact ⟨[letter, digit], d :: rest, rfl, by simp [hd],
          .reference hletter hdigit (by simpa using hd)⟩
  · cases h

/-- What the scanner finds at the front is a lexeme. -/
theorem lexeme_of_atFront {afterReference : Bool} {c : Char} {rest : List Char} {kind : Kind}
    {n : Nat} (hblank : isBlank c = false) (h : atFront afterReference c rest = (kind, n)) :
    ∃ lexeme behind, c :: rest = lexeme ++ behind ∧ lexeme.length = n ∧
      Lexeme afterReference kind lexeme behind := by
  unfold atFront at h
  split at h
  · rename_i n' hreference
    cases h
    exact lexeme_reference hreference
  · rename_i n' hreference hfunction
    cases h
    obtain ⟨word, behind, hcons, hword, hopens, rfl⟩ := functionLength?_eq_some_iff.mp hfunction
    exact ⟨word, behind, hcons, rfl, .function hword hopens⟩
  · rename_i hreference hfunction
    split at h
    · rename_i hc
      cases h
      exact ⟨[c], rest, rfl, rfl, (beq_iff_eq.mp hc) ▸ .openParen⟩
    split at h
    · rename_i hc
      cases h
      exact ⟨[c], rest, rfl, rfl, (beq_iff_eq.mp hc) ▸ .closeParen⟩
    split at h
    · rename_i hc
      cases h
      exact ⟨[c], rest, rfl, rfl, (beq_iff_eq.mp hc) ▸ .comma⟩
    split at h
    · rename_i hc
      cases h
      obtain ⟨hc, hafter⟩ := Bool.and_eq_true_iff.mp hc
      exact ⟨[c], rest, rfl, rfl, (beq_iff_eq.mp hc) ▸ .colon hafter⟩
    · rename_i hopen hclose hcomma hcolon
      cases h
      obtain ⟨run, behind, rfl, hrun, hclean, hbreaks⟩ := exists_run rest
      rw [← hrun]
      refine ⟨c :: run, behind, rfl, by simp [Nat.add_comm], lexeme_constant ⟨by simp, ?_⟩ hbreaks
        hreference hfunction ?_⟩
      · intro d hd
        rcases List.mem_cons.mp hd with rfl | hd
        · exact ⟨hblank, by simp [isMark, hopen, hclose, hcomma]⟩
        · exact hclean d hd
      · rintro hafter hhead
        cases hhead
        exact hcolon (by simp [hafter])

theorem scanFrom_eq_nil_iff {position : Nat} {afterReference : Bool} {cs : List Char} :
    scanFrom position afterReference cs = [] ↔ Blanks cs := by
  constructor
  · intro h
    induction cs generalizing position with
    | nil => exact blanks_nil
    | cons c cs ih =>
      rw [scanFrom] at h
      split at h
      · rename_i hblank
        exact blanks_cons.mpr ⟨hblank, ih h⟩
      · cases h
  · intro h
    have hskip := scanFrom_blanks h position afterReference []
    rw [List.append_nil] at hskip
    rw [hskip, scanFrom]

/-- Behind blanks, the first token of a text is spelled by a lexeme, and the other tokens are those
of what follows it. -/
theorem lexeme_of_scanFrom {position : Nat} {afterReference : Bool} {cs : List Char} {t : Token}
    {tokens : List Token} (h : scanFrom position afterReference cs = t :: tokens) :
    ∃ blanks lexeme behind, cs = blanks ++ (lexeme ++ behind) ∧ Blanks blanks ∧
      Lexeme afterReference t.kind lexeme behind ∧ t.text = t.kind.spell lexeme ∧
      t.position = (position + blanks.length : Nat) ∧
      tokens = scanFrom (position + blanks.length + lexeme.length) (t.kind == .reference)
        behind := by
  induction cs generalizing position with
  | nil => rw [scanFrom] at h; cases h
  | cons c cs ih =>
    by_cases hblank : isBlank c = true
    · rw [scanFrom, if_pos hblank] at h
      obtain ⟨blanks, lexeme, behind, rfl, hblanks, hlexeme, htext, hposition, htokens⟩ := ih h
      refine ⟨c :: blanks, lexeme, behind, rfl, blanks_cons.mpr ⟨hblank, hblanks⟩, hlexeme, htext,
        ?_, ?_⟩
      · rw [hposition, List.length_cons, Nat.add_right_comm, Nat.add_assoc]
      · rw [htokens, List.length_cons]
        congr 1
        omega
    · rcases hfront : atFront afterReference c cs with ⟨kind, n⟩
      obtain ⟨lexeme, behind, hcons, -, hlexeme⟩ := lexeme_of_atFront (by simpa using hblank) hfront
      rw [hcons, hlexeme.scanFrom] at h
      cases h
      exact ⟨[], lexeme, behind, hcons, blanks_nil, hlexeme, rfl, rfl, rfl⟩

/-- A token that is a mark stands in its text behind blanks. -/
theorem mark_of_scanFrom {position : Nat} {afterReference : Bool} {cs : List Char} {t : Token}
    {tokens : List Token} {c : Char} (h : scanFrom position afterReference cs = t :: tokens)
    (hmark : t.kind.mark? = some c) :
    ∃ blanks behind position', cs = blanks ++ c :: behind ∧ Blanks blanks ∧
      tokens = scanFrom position' false behind := by
  obtain ⟨blanks, lexeme, behind, rfl, hblanks, hlexeme, -, -, htokens⟩ := lexeme_of_scanFrom h
  have hother : (t.kind == .reference) = false := by
    cases hkind : t.kind <;> rw [hkind] at hmark <;> cases hmark <;> rfl
  rw [hlexeme.eq_mark hmark, hother] at htokens
  rw [hlexeme.eq_mark hmark]
  exact ⟨blanks, behind, _, rfl, hblanks, htokens⟩

end Token

end Worksheet
