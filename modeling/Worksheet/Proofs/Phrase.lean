import Worksheet.Proofs.WellFormed

/-!
# Phrases of tokens

The grammar of formulas over tokens, and that the reader decides it. A `Phrase` is a list of tokens
from which a formula is derived. The reader takes a phrase off the front of its tokens and leaves
what is behind it, and it takes nothing else (`Formula.take_eq_ok_iff`); the room it is given bounds
the calls that are open at once, and nothing but that (`Formula.openCalls`). So a phrase has one
formula only (`Formula.Phrase.unique`).
-/

namespace Worksheet

/-- A computation that goes on has a result exactly if both its parts have. -/
theorem bind_eq_ok_iff {ε α β : Type} {x : Except ε α} {next : α → Except ε β} {b : β} :
    x >>= next = .ok b ↔ ∃ a, x = .ok a ∧ next a = .ok b := by
  cases x with
  | error e => exact ⟨nofun, fun ⟨_, h, _⟩ => nomatch h⟩
  | ok a => exact ⟨fun h => ⟨a, rfl, h⟩, fun ⟨_, ha, h⟩ => by cases ha; exact h⟩

namespace Formula

/-- The number of calls that are open at once while a formula is read. -/
def openCalls : Formula → Nat
  | binary _ left right => max left.openCalls right.openCalls + 1
  | range _ _ => 1
  | _ => 0

/-- The tokens from which a formula is derived. -/
inductive Phrase : List Token → Formula → Prop where
  | ref {t : Token} {r : Ref} : t.kind = .reference → Ref.ofText? t.text = some r →
      Phrase [t] (ref r)
  | constant {t : Token} : t.kind = .constant →
      Phrase [t] (constant (Number.read t.text) t.text)
  | binary {word opening comma closing : Token} {lefts rights : List Token}
      {left right : Formula} : word.kind = .function → opening.kind = .openParen →
      comma.kind = .comma → closing.kind = .closeParen →
      word.text ∈ ["add", "sub", "mul", "div"] → Phrase lefts left → Phrase rights right →
      Phrase (word :: opening :: (lefts ++ comma :: (rights ++ [closing])))
        (binary word.text left right)
  | range {word opening first colon second closing : Token} {area : Area} :
      word.kind = .function → opening.kind = .openParen → first.kind = .reference →
      colon.kind = .colon → second.kind = .reference → closing.kind = .closeParen →
      word.text ∉ ["add", "sub", "mul", "div"] → Ref.ofText? first.text = some area.start →
      Ref.ofText? second.text = some area.stop →
      Phrase [word, opening, first, colon, second, closing] (range word.text area)

theorem Phrase.exists_binary {word opening comma closing : Token} {lefts rights : List Token}
    {left right : Formula} (hword : word.kind = .function) (hopening : opening.kind = .openParen)
    (hcomma : comma.kind = .comma) (hclosing : closing.kind = .closeParen)
    (hname : word.text ∈ ["add", "sub", "mul", "div"]) (hleft : Phrase lefts left)
    (hright : Phrase rights right) (rest : List Token) :
    ∃ used, word :: opening :: (lefts ++ comma :: (rights ++ closing :: rest)) = used ++ rest ∧
      Phrase used (.binary word.text left right) :=
  ⟨_, by simp, .binary hword hopening hcomma hclosing hname hleft hright⟩

/-! ## The parts of the reader -/

theorem expect_eq_ok_iff {wanted : Token.Kind} {tokens rest : List Token} {t : Token} :
    expect wanted tokens = .ok (t, rest) ↔ tokens = t :: rest ∧ t.kind = wanted := by
  unfold expect
  split
  · simp
  · rename_i t' rest'
    split
    · rename_i hkind
      simp only [Except.ok.injEq, Prod.mk.injEq, List.cons.injEq]
      exact ⟨fun ⟨ht, hrest⟩ => ⟨⟨ht, hrest⟩, ht ▸ hkind⟩, And.left⟩
    · rename_i hkind
      simp only [reduceCtorEq, List.cons.injEq, false_iff]
      rintro ⟨⟨rfl, rfl⟩, h⟩
      exact hkind h

theorem refOfToken_eq_ok_iff {t : Token} {r : Ref} :
    refOfToken t = .ok r ↔ Ref.ofText? t.text = some r := by
  unfold refOfToken
  split <;> rename_i h <;> simp [h]

theorem takeArea_eq_ok_iff {tokens rest : List Token} {area : Area} :
    takeArea tokens = .ok (area, rest) ↔
      ∃ first colon second closing : Token,
        tokens = first :: colon :: second :: closing :: rest ∧
        (first.kind = .reference ∧ colon.kind = .colon ∧ second.kind = .reference ∧
          closing.kind = .closeParen) ∧
        Ref.ofText? first.text = some area.start ∧ Ref.ofText? second.text = some area.stop := by
  simp only [takeArea, bind_eq_ok_iff, Prod.exists, expect_eq_ok_iff, refOfToken_eq_ok_iff]
  constructor
  · rintro ⟨first, _, ⟨rfl, hfirst⟩, start, hstart, colon, _, ⟨rfl, hcolon⟩, second, _,
      ⟨rfl, hsecond⟩, stop, hstop, closing, _, ⟨rfl, hclosing⟩, h⟩
    cases h
    exact ⟨first, colon, second, closing, rfl, ⟨hfirst, hcolon, hsecond, hclosing⟩, hstart, hstop⟩
  · rintro ⟨first, colon, second, closing, rfl, ⟨hfirst, hcolon, hsecond, hclosing⟩,
      hstart, hstop⟩
    exact ⟨first, _, ⟨rfl, hfirst⟩, _, hstart, colon, _, ⟨rfl, hcolon⟩, second, _,
      ⟨rfl, hsecond⟩, _, hstop, closing, _, ⟨rfl, hclosing⟩, rfl⟩

/-! ## The reader -/

theorem take_reference_eq_ok_iff {t : Token} (ht : t.kind = .reference) {room : Nat}
    {tokens rest : List Token} {f : Formula} :
    take room (t :: tokens) = .ok (f, rest) ↔
      ∃ r, Ref.ofText? t.text = some r ∧ f = ref r ∧ tokens = rest := by
  rw [take.eq_def]
  simp only [ht, bind_eq_ok_iff, refOfToken_eq_ok_iff]
  refine exists_congr fun r => and_congr_right fun _ => ?_
  simp [pure, Except.pure, eq_comm]

theorem take_constant {t : Token} (ht : t.kind = .constant) (room : Nat) (tokens : List Token) :
    take room (t :: tokens) = .ok (constant (Number.read t.text) t.text, tokens) := by
  rw [take.eq_def]
  simp only [ht]

theorem take_binary_eq_ok_iff {t : Token} (ht : t.kind = .function)
    (hname : t.text ∈ ["add", "sub", "mul", "div"]) {room : Nat} {tokens rest : List Token}
    {f : Formula} :
    take room (t :: tokens) = .ok (f, rest) ↔
      ∃ inner opening arguments left comma behind right closing, room = inner + 1 ∧
        tokens = opening :: arguments ∧ opening.kind = .openParen ∧
        take inner arguments = .ok (left, comma :: behind) ∧ comma.kind = .comma ∧
        take inner behind = .ok (right, closing :: rest) ∧ closing.kind = .closeParen ∧
        f = binary t.text left right := by
  rw [← BinaryOp.isSome_ofName?_iff] at hname
  rw [take.eq_def]
  cases room with
  | zero => simp [ht]
  | succ room =>
    simp only [ht, if_pos hname, bind_eq_ok_iff, Prod.exists, expect_eq_ok_iff]
    constructor
    · rintro ⟨opening, arguments, ⟨rfl, hopening⟩, left, _, hleft, comma, behind, ⟨rfl, hcomma⟩,
        right, _, hright, closing, _, ⟨rfl, hclosing⟩, h⟩
      cases h
      exact ⟨room, opening, arguments, left, comma, behind, right, closing, rfl, rfl, hopening,
        hleft, hcomma, hright, hclosing, rfl⟩
    · rintro ⟨_, opening, arguments, left, comma, behind, right, closing, hroom, rfl, hopening,
        hleft, hcomma, hright, hclosing, rfl⟩
      cases hroom
      exact ⟨opening, arguments, ⟨rfl, hopening⟩, left, _, hleft, comma, behind, ⟨rfl, hcomma⟩,
        right, _, hright, closing, rest, ⟨rfl, hclosing⟩, rfl⟩

theorem take_range_eq_ok_iff {t : Token} (ht : t.kind = .function)
    (hname : t.text ∉ ["add", "sub", "mul", "div"]) {room : Nat} {tokens rest : List Token}
    {f : Formula} :
    take room (t :: tokens) = .ok (f, rest) ↔
      ∃ inner opening arguments area, room = inner + 1 ∧ tokens = opening :: arguments ∧
        opening.kind = .openParen ∧ takeArea arguments = .ok (area, rest) ∧
        f = range t.text area := by
  rw [← BinaryOp.isSome_ofName?_iff] at hname
  rw [take.eq_def]
  cases room with
  | zero => simp [ht]
  | succ room =>
    simp only [ht, if_neg hname, bind_eq_ok_iff, Prod.exists, expect_eq_ok_iff]
    constructor
    · rintro ⟨opening, arguments, ⟨rfl, hopening⟩, area, _, harea, h⟩
      cases h
      exact ⟨room, opening, arguments, area, rfl, rfl, hopening, harea, rfl⟩
    · rintro ⟨_, opening, arguments, area, hroom, rfl, hopening, harea, rfl⟩
      cases hroom
      exact ⟨opening, arguments, ⟨rfl, hopening⟩, area, rest, harea, rfl⟩

/-- A formula that is taken begins with a token of one of three classes. -/
theorem operand_of_take {room : Nat} {tokens rest : List Token} {f : Formula}
    (h : take room tokens = .ok (f, rest)) :
    ∃ t behind, tokens = t :: behind ∧
      (t.kind = .reference ∨ t.kind = .constant ∨ t.kind = .function) := by
  cases tokens with
  | nil => rw [take.eq_def] at h; cases h
  | cons t tokens =>
    refine ⟨t, tokens, rfl, ?_⟩
    rw [take.eq_def] at h
    cases hkind : t.kind <;> simp_all

/-- What the reader takes off the front is a phrase, with no more calls open than it has room
for. -/
theorem phrase_of_take {room : Nat} {tokens rest : List Token} {f : Formula}
    (h : take room tokens = .ok (f, rest)) :
    ∃ used, tokens = used ++ rest ∧ Phrase used f ∧ f.openCalls ≤ room := by
  induction room using Nat.strong_induction_on generalizing tokens rest f with
  | _ room ih =>
    obtain ⟨t, tokens, rfl, hkind | hkind | hkind⟩ := operand_of_take h
    · obtain ⟨r, hr, rfl, rfl⟩ := (take_reference_eq_ok_iff hkind).mp h
      exact ⟨[t], rfl, .ref hkind hr, Nat.zero_le _⟩
    · rw [take_constant hkind] at h
      cases h
      exact ⟨[t], rfl, .constant hkind, Nat.zero_le _⟩
    · by_cases hname : t.text ∈ ["add", "sub", "mul", "div"]
      · obtain ⟨inner, opening, arguments, left, comma, behind, right, closing, rfl, rfl, hopening,
          hleft, hcomma, hright, hclosing, rfl⟩ := (take_binary_eq_ok_iff hkind hname).mp h
        obtain ⟨lefts, rfl, hlefts, hleftCalls⟩ := ih inner (Nat.lt_succ_self _) hleft
        obtain ⟨rights, rfl, hrights, hrightCalls⟩ := ih inner (Nat.lt_succ_self _) hright
        obtain ⟨used, hused, hphrase⟩ := Phrase.exists_binary hkind hopening hcomma hclosing hname
          hlefts hrights rest
        refine ⟨used, hused, hphrase, ?_⟩
        simp only [openCalls]
        omega
      · obtain ⟨inner, opening, arguments, area, rfl, rfl, hopening, harea, rfl⟩ :=
          (take_range_eq_ok_iff hkind hname).mp h
        obtain ⟨first, colon, second, closing, rfl, ⟨hfirst, hcolon, hsecond, hclosing⟩, hstart,
          hstop⟩ := takeArea_eq_ok_iff.mp harea
        exact ⟨_, rfl, .range hkind hopening hfirst hcolon hsecond hclosing hname hstart hstop,
          Nat.le_add_left 1 inner⟩

/-- The reader takes a phrase off the front if it has room for the calls in it. -/
theorem Phrase.take {used : List Token} {f : Formula} (h : Phrase used f) {room : Nat}
    (hroom : f.openCalls ≤ room) (rest : List Token) :
    take room (used ++ rest) = .ok (f, rest) := by
  induction h generalizing room rest with
  | ref hkind hr => exact (take_reference_eq_ok_iff hkind).mpr ⟨_, hr, rfl, rfl⟩
  | constant hkind => exact take_constant hkind room rest
  | binary hword hopening hcomma hclosing hname hlefts hrights ihleft ihright =>
    simp only [openCalls] at hroom
    obtain ⟨inner, rfl⟩ : ∃ inner, room = inner + 1 := ⟨room - 1, by omega⟩
    have hleft := @ihleft inner (by omega)
    have hright := @ihright inner (by omega)
    refine (take_binary_eq_ok_iff hword hname).mpr ⟨inner, _, _, _, _, _, _, _, rfl, rfl, hopening,
      ?_, hcomma, hright _, hclosing, rfl⟩
    simpa using hleft _
  | range hword hopening hfirst hcolon hsecond hclosing hname hstart hstop =>
    simp only [openCalls] at hroom
    obtain ⟨inner, rfl⟩ : ∃ inner, room = inner + 1 := ⟨room - 1, by omega⟩
    refine (take_range_eq_ok_iff hword hname).mpr ⟨inner, _, _, _, rfl, rfl, hopening, ?_, rfl⟩
    exact takeArea_eq_ok_iff.mpr ⟨_, _, _, _, rfl, ⟨hfirst, hcolon, hsecond, hclosing⟩, hstart,
      hstop⟩

theorem take_eq_ok_iff {room : Nat} {tokens rest : List Token} {f : Formula} :
    take room tokens = .ok (f, rest) ↔
      ∃ used, tokens = used ++ rest ∧ Phrase used f ∧ f.openCalls ≤ room :=
  ⟨phrase_of_take, fun ⟨_, htokens, hphrase, hroom⟩ => htokens ▸ hphrase.take hroom rest⟩

/-- The tokens of a formula are those of no other. -/
theorem Phrase.unique {tokens : List Token} {f g : Formula} (hf : Phrase tokens f)
    (hg : Phrase tokens g) : f = g := by
  have hroom := Nat.le_max_left f.openCalls g.openCalls
  have hsame := (hf.take hroom []).symm.trans (hg.take (Nat.le_max_right _ _) [])
  cases hsame
  rfl

/-- Tokens are read as a formula if they are a phrase in which no more calls than the limit are open
at once. -/
theorem ofTokens_eq_ok_iff {tokens : List Token} {f : Formula} :
    ofTokens tokens = .ok f ↔ Phrase tokens f ∧ f.openCalls ≤ nestingLimit := by
  have hstep : ofTokens tokens = .ok f ↔ Formula.take nestingLimit tokens = .ok (f, []) := by
    unfold ofTokens
    rw [bind_eq_ok_iff]
    constructor
    · rintro ⟨⟨g, _ | ⟨t, rest⟩⟩, htake, h⟩
      · cases h
        exact htake
      · cases h
    · exact fun htake => ⟨(f, []), htake, rfl⟩
  rw [hstep, take_eq_ok_iff]
  simp

end Formula

end Worksheet
