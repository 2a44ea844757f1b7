import Worksheet.Proofs.Coordinates
import Worksheet.Proofs.Phrase

/-!
# The token to blame

Tokens that are no formula are refused with a message that points at a token, or at the end. This
module shows that it is the right one: the first token with which the tokens are no longer the
beginning of any phrase, and the end if all of them still are one (`Formula.ofTokens_blames`).

The reader is put together from readers of parts of a formula. `Formula.Part` is what such a part is
written with, and `Formula.Finding` lists what its reader may find: the part at the front, and no
other part begins there like it; the end of the tokens within the part; a token that does not go on
with it; or a call more than may be open. Each reader makes one of these findings, one part behind
another by `Formula.Finding.andThen`. The calls that are open are counted on the tokens alone
(`Token.openBehind`), so that the limit on them is one on the tokens
(`Formula.ofTokens_eq_nestedTooDeeply_iff`).
-/

namespace Worksheet

/-! ## Messages -/

/-- The causes that say that the tokens end too early. -/
def FormulaError.AtEnd : FormulaError → Prop
  | endOfFormula | expected _ none => True
  | _ => False

/-- The causes that put the blame on a token. -/
def FormulaError.Blames (t : Token) : FormulaError → Prop
  | trailing u | expected _ (some u) | notAnOperand u | badReference u => u = t
  | _ => False

/-- A message that says that the formula ends too early. -/
def SaysEnd (message : String) : Prop :=
  message = "Unexpected end of formula" ∨
    ∃ wanted : Token.Kind,
      message = "Expected " ++ wanted.name ++ ", got end of formula at position end"

/-- A message that ends with a position. -/
def PointsAt (message : String) (position : Int) : Prop :=
  ∃ what, message = what ++ " at position " ++ toString position

/-- A number that is written ends with a digit. -/
theorem exists_toString_eq (p : Int) :
    ∃ front c, (toString p).toList = front ++ [c] ∧ c.isDigit = true := by
  have hnat : ∀ n : Nat, ∃ front c, (toString n).toList = front ++ [c] ∧ c.isDigit = true :=
    fun n => by
      have hne : Nat.toDigits 10 n ≠ [] := Nat.toDigits_ne_nil
      refine ⟨(Nat.toDigits 10 n).dropLast, (Nat.toDigits 10 n).getLast hne, ?_,
        Nat.isDigit_of_mem_toDigits (by decide) (by decide) (List.getLast_mem hne)⟩
      rw [Nat.toString_eq_ofList_toDigits, String.toList_ofList, List.dropLast_append_getLast]
  cases p with
  | ofNat n => exact hnat n
  | negSucc n =>
    obtain ⟨front, c, hfront, hc⟩ := hnat (n + 1)
    refine ⟨'-' :: front, c, ?_, hc⟩
    change ("-" ++ toString (n + 1)).toList = _
    rw [String.toList_append, hfront]
    rfl

/-- No message says both. -/
theorem PointsAt.not_saysEnd {message : String} {p : Int} (h : PointsAt message p) :
    ¬ SaysEnd message := by
  obtain ⟨what, rfl⟩ := h
  obtain ⟨front, c, hp, hc⟩ := exists_toString_eq p
  have hlast : (what ++ " at position " ++ toString p).toList.getLast? = some c := by
    rw [String.toList_append, hp, ← List.append_assoc, List.getLast?_concat]
  rintro (hend | ⟨wanted, hend⟩)
  · rw [hend] at hlast
    cases hlast
    cases hc
  · rw [hend, String.toList_append, List.getLast?_append] at hlast
    cases hlast
    cases hc

theorem FormulaError.AtEnd.saysEnd {why : FormulaError} (h : why.AtEnd) :
    SaysEnd why.message := by
  cases why with
  | endOfFormula => exact .inl rfl
  | expected wanted found =>
    cases found with
    | none => exact .inr ⟨wanted, rfl⟩
    | some t => exact h.elim
  | _ => exact h.elim

theorem FormulaError.Blames.pointsAt {why : FormulaError} {t : Token} (h : why.Blames t) :
    PointsAt why.message t.position := by
  cases why with
  | expected wanted found =>
    cases found with
    | none => exact h.elim
    | some u =>
      cases h
      exact ⟨"Expected " ++ wanted.name ++ ", got " ++ t.kind.name, rfl⟩
  | trailing u =>
    cases h
    have hjoin : ∀ s : String, s ++ "'" ++ " at position " = s ++ "' at position " := fun s => by
      rw [String.append_assoc]
      rfl
    exact ⟨"Unexpected " ++ t.kind.name ++ " '" ++ t.text ++ "'", by rw [hjoin]; rfl⟩
  | notAnOperand u =>
    cases h
    exact ⟨"Unexpected token: " ++ t.kind.name, rfl⟩
  | badReference u =>
    cases h
    exact ⟨"Invalid cell reference: " ++ t.text, rfl⟩
  | _ => exact h.elim

/-! ## Open calls -/

/-- The calls that are open behind some tokens: each operation name opens one, and each closing
parenthesis closes one. -/
def Token.openBehind (tokens : List Token) : Int :=
  tokens.countP (·.kind = .function) - tokens.countP (·.kind = .closeParen)

namespace Formula

open Token (openBehind)

theorem openBehind_append (front rest : List Token) :
    openBehind (front ++ rest) = openBehind front + openBehind rest := by
  simp only [openBehind, List.countP_append]
  omega

theorem openBehind_cons_name {t : Token} (ht : t.kind = .function) (tokens : List Token) :
    openBehind (t :: tokens) = openBehind tokens + 1 := by
  simp [openBehind, ht]
  omega

theorem openBehind_singleton_le {t : Token} (ht : t.kind ≠ .function) : openBehind [t] ≤ 0 := by
  have hcount : List.countP (·.kind = .function) [t] = 0 := by simp [ht]
  rw [openBehind, hcount]
  omega

theorem openBehind_singleton {t : Token} (ht : t.kind ≠ .function) (ht' : t.kind ≠ .closeParen) :
    openBehind [t] = 0 := by
  simp [openBehind, ht, ht']

/-- Every call that a phrase opens is closed in it. -/
theorem Phrase.openBehind_eq {tokens : List Token} {f : Formula} (h : Phrase tokens f) :
    openBehind tokens = 0 := by
  induction h with
  | ref hkind _ | constant hkind => exact openBehind_singleton (by simp [hkind]) (by simp [hkind])
  | binary hword hopening hcomma hclosing _ _ _ ihleft ihright =>
    simp only [openBehind] at ihleft ihright ⊢
    simp [hword, hopening, hcomma, hclosing]
    omega
  | range hword hopening hfirst hcolon hsecond hclosing =>
    simp [openBehind, hword, hopening, hfirst, hcolon, hsecond, hclosing]

/-- Fewer calls than `room` are open behind each beginning of the tokens. -/
def OpensBelow (room : Int) (tokens : List Token) : Prop :=
  ∀ front rest, tokens = front ++ rest → openBehind front < room

theorem opensBelow_nil {room : Int} : OpensBelow room [] ↔ 0 < room := by
  simp [OpensBelow, openBehind]

theorem OpensBelow.pos {room : Int} {tokens : List Token} (h : OpensBelow room tokens) :
    0 < room := h [] tokens rfl

theorem OpensBelow.singleton {room : Int} (hroom : 0 < room) {t : Token}
    (ht : t.kind ≠ .function) : OpensBelow room [t] := by
  intro front rest h
  rcases List.singleton_eq_append_iff.mp h with ⟨rfl, -⟩ | ⟨rfl, -⟩
  · exact hroom
  · exact (openBehind_singleton_le ht).trans_lt hroom

theorem OpensBelow.append {room : Int} {used tokens : List Token} (hused : OpensBelow room used)
    (hlevel : openBehind used = 0) (htokens : OpensBelow room tokens) :
    OpensBelow room (used ++ tokens) := by
  intro front rest h
  rcases List.append_eq_append_iff.mp h with ⟨more, rfl, hmore⟩ | ⟨more, hmore, -⟩
  · rw [openBehind_append, hlevel, Int.zero_add]
    exact htokens more rest hmore
  · exact hused front more hmore

theorem OpensBelow.cons_name {room : Int} {t : Token} (ht : t.kind = .function)
    {tokens : List Token} (h : OpensBelow room tokens) : OpensBelow (room + 1) (t :: tokens) := by
  intro front rest hfront
  cases front with
  | nil => exact Int.lt_add_one_of_le h.pos.le
  | cons u front =>
    cases hfront
    rw [openBehind_cons_name ht]
    exact Int.add_lt_add_right (h front rest rfl) 1

/-! ## Parts of formulas -/

/-- What a part of a formula is written with, and what it stands for. -/
abbrev Part (α : Type) := List Token → α → Prop

namespace Part

variable {α β : Type} {L : Part α} {M : α → Part β}

/-- Some phrase of the part begins with the tokens. -/
def Begins (L : Part α) (front : List Token) : Prop := ∃ rest a, L (front ++ rest) a

/-- Some phrase of the part begins with the tokens and goes on behind them. -/
def ProperlyBegins (L : Part α) (front : List Token) : Prop :=
  ∃ rest a, rest ≠ [] ∧ L (front ++ rest) a

/-- No tokens that begin like this begin with a phrase of the part. -/
def Fails (L : Part α) (front : List Token) : Prop :=
  ∀ rest used behind a, front ++ rest = used ++ behind → ¬ L used a

/-- All tokens that begin like this begin with just one phrase of the part. -/
def Settles (L : Part α) (used : List Token) (a : α) : Prop :=
  ∀ rest used' behind a', used ++ rest = used' ++ behind → L used' a' → used' = used ∧ a' = a

/-- A single token of a class. -/
def token (wanted : Token.Kind) : Part Token := fun tokens t => tokens = [t] ∧ t.kind = wanted

/-- No tokens at all. -/
def nothing (a : α) : Part α := fun tokens b => tokens = [] ∧ b = a

/-- A part with another one behind it, which may depend on what the first stands for. -/
def andThen (L : Part α) (M : α → Part β) : Part β := fun tokens b =>
  ∃ used a rest, tokens = used ++ rest ∧ L used a ∧ M a rest b

theorem Fails.not_begins {front : List Token} (h : L.Fails front) : ¬ L.Begins front :=
  fun ⟨rest, a, hphrase⟩ => h rest _ [] a (List.append_nil _).symm hphrase

theorem Begins.upTo {front rest : List Token} {t : Token} (h : L.Begins (front ++ t :: rest)) :
    L.Begins (front ++ [t]) := by
  obtain ⟨more, a, hphrase⟩ := h
  exact ⟨rest ++ more, a, by simpa using hphrase⟩

theorem Begins.of_append {front rest : List Token} (h : L.Begins (front ++ rest)) :
    L.Begins front := by
  obtain ⟨more, a, hphrase⟩ := h
  exact ⟨rest ++ more, a, by rwa [← List.append_assoc]⟩

section AndThen

theorem Begins.andThen {front : List Token} (h : L.Begins front) (hM : ∀ a, (M a).Begins []) :
    (L.andThen M).Begins front := by
  obtain ⟨rest, a, hphrase⟩ := h
  obtain ⟨more, b, hmore⟩ := hM a
  exact ⟨rest ++ more, b, front ++ rest, a, more, (List.append_assoc ..).symm, hphrase, hmore⟩

theorem ProperlyBegins.andThen {front : List Token} (h : L.ProperlyBegins front)
    (hM : ∀ a, (M a).Begins []) : (L.andThen M).ProperlyBegins front := by
  obtain ⟨rest, a, hne, hphrase⟩ := h
  obtain ⟨more, b, hmore⟩ := hM a
  exact ⟨rest ++ more, b, by simp [hne], front ++ rest, a, more, (List.append_assoc ..).symm,
    hphrase, hmore⟩

theorem Fails.andThen {front : List Token} (h : L.Fails front) : (L.andThen M).Fails front := by
  rintro rest _ behind b hfront ⟨used, a, more, rfl, hphrase, -⟩
  exact h rest used (more ++ behind) a (by rw [hfront, List.append_assoc]) hphrase

variable {used : List Token} {a : α}

theorem Begins.behind (hused : L used a) {front : List Token} (h : (M a).Begins front) :
    (L.andThen M).Begins (used ++ front) := by
  obtain ⟨rest, b, hphrase⟩ := h
  exact ⟨rest, b, used, a, front ++ rest, List.append_assoc .., hused, hphrase⟩

theorem ProperlyBegins.behind (hused : L used a) {front : List Token}
    (h : (M a).ProperlyBegins front) : (L.andThen M).ProperlyBegins (used ++ front) := by
  obtain ⟨rest, b, hne, hphrase⟩ := h
  exact ⟨rest, b, hne, used, a, front ++ rest, List.append_assoc .., hused, hphrase⟩

theorem Fails.behind (hused : L.Settles used a) {front : List Token} (h : (M a).Fails front) :
    (L.andThen M).Fails (used ++ front) := by
  rintro rest _ behind b hfront ⟨used', a', more, rfl, hphrase, hmore⟩
  rw [List.append_assoc, List.append_assoc] at hfront
  obtain ⟨rfl, rfl⟩ := hused _ used' _ a' hfront hphrase
  exact h rest more behind b (List.append_cancel_left hfront) hmore

theorem Settles.andThen (hused : L.Settles used a) {more : List Token} {b : β}
    (h : (M a).Settles more b) : (L.andThen M).Settles (used ++ more) b := by
  rintro rest _ behind b' hfront ⟨used', a', more', rfl, hphrase, hmore⟩
  rw [List.append_assoc, List.append_assoc] at hfront
  obtain ⟨rfl, rfl⟩ := hused _ used' _ a' hfront hphrase
  obtain ⟨rfl, rfl⟩ := h rest more' behind b' (List.append_cancel_left hfront) hmore
  exact ⟨rfl, rfl⟩

end AndThen

theorem settles_nothing (a : α) : (nothing a).Settles [] a := by
  rintro rest used behind b - ⟨rfl, rfl⟩
  exact ⟨rfl, rfl⟩

section First

variable {t : Token} (hnil : ∀ a, ¬ L [] a)
include hnil

/-- To fail at the first token is to have no phrase with this token in front. -/
theorem fails_first (h : ∀ used a, ¬ L (t :: used) a) : L.Fails [t] := by
  intro rest used behind a hfront hphrase
  cases used with
  | nil => exact hnil a hphrase
  | cons u used =>
    cases hfront
    exact h used a hphrase

theorem settles_first {a : α} (h : ∀ used a', L (t :: used) a' → used = [] ∧ a' = a) :
    L.Settles [t] a := by
  intro rest used behind a' hfront hphrase
  cases used with
  | nil => exact (hnil a' hphrase).elim
  | cons u used =>
    cases hfront
    obtain ⟨rfl, rfl⟩ := h used a' hphrase
    exact ⟨rfl, rfl⟩

end First

theorem begins_nothing (a : α) : (nothing a).Begins [] := ⟨[], a, rfl, rfl⟩

theorem properlyBegins_token (wanted : Token.Kind) : (token wanted).ProperlyBegins [] :=
  ⟨[⟨wanted, "", 0⟩], ⟨wanted, "", 0⟩, by simp, rfl, rfl⟩

theorem ProperlyBegins.begins {front : List Token} (h : L.ProperlyBegins front) :
    L.Begins front := by
  obtain ⟨rest, a, -, hphrase⟩ := h
  exact ⟨rest, a, hphrase⟩

end Part

/-! ## Findings -/

variable {α β : Type} {room : Int} {tokens : List Token} {L : Part α} {M : α → Part β}

/-- What a reader of a part may find in the tokens. A call that would be the one of number `room` is
not opened. -/
inductive Finding (room : Int) (L : Part α) (tokens : List Token) :
    Except FormulaError (α × List Token) → Prop where
  | found {used rest : List Token} {a : α} : tokens = used ++ rest → L used a → L.Settles used a →
      OpensBelow room used → Finding room L tokens (.ok (a, rest))
  | cutShort {why : FormulaError} : why.AtEnd → L.ProperlyBegins tokens → OpensBelow room tokens →
      Finding room L tokens (.error why)
  | blamed {why : FormulaError} {front rest : List Token} {t : Token} : why.Blames t →
      tokens = front ++ t :: rest → L.Begins front → L.Fails (front ++ [t]) →
      OpensBelow room front → Finding room L tokens (.error why)
  | tooDeep {front rest : List Token} : tokens = front ++ rest → L.Begins front →
      openBehind front = room → Finding room L tokens (.error .nestedTooDeeply)

namespace Finding

variable {x : Except FormulaError (α × List Token)}

/-- A part that is read has phrases. -/
theorem begins (h : Finding room L tokens x) : L.Begins [] := by
  cases h with
  | found _ hused => exact ⟨_, _, hused⟩
  | cutShort _ hbegins => exact Part.Begins.of_append (hbegins.begins : L.Begins ([] ++ _))
  | blamed _ _ hbegins | tooDeep _ hbegins =>
    exact Part.Begins.of_append (hbegins : L.Begins ([] ++ _))

theorem found_first {t : Token} {rest : List Token} {a : α} (ht : t.kind ≠ .function)
    (hroom : 0 < room) (hphrase : L [t] a) (hsettles : L.Settles [t] a) :
    Finding room L (t :: rest) (.ok (a, rest)) :=
  .found (List.singleton_append).symm hphrase hsettles (.singleton hroom ht)

theorem blamed_first {why : FormulaError} {t : Token} {rest : List Token} (hwhy : why.Blames t)
    (hroom : 0 < room) (hbegins : L.Begins []) (hfails : L.Fails [t]) :
    Finding room L (t :: rest) (.error why) :=
  .blamed hwhy (List.nil_append (t :: rest)).symm hbegins hfails (opensBelow_nil.mpr hroom)

theorem nothing_found {why : FormulaError} (hwhy : why.AtEnd) (hroom : 0 < room)
    (hbegins : L.ProperlyBegins []) : Finding room L [] (.error why) :=
  .cutShort hwhy hbegins (opensBelow_nil.mpr hroom)

/-- A part is read, and then the one behind it, if all calls that are opened in the first are
closed in it. -/
theorem andThen {next : α × List Token → Except FormulaError (β × List Token)}
    (hx : Finding room L tokens x) (hlevel : ∀ used a, L used a → openBehind used = 0)
    (hnext : ∀ a rest, Finding room (M a) rest (next (a, rest))) :
    Finding room (L.andThen M) tokens (x >>= next) := by
  have hM : ∀ a, (M a).Begins [] := fun a => (hnext a []).begins
  cases hx with
  | @found used rest a htokens hused hsettles hroom =>
    subst htokens
    have hlevel := hlevel used a hused
    have hsecond := hnext a rest
    change Finding room _ _ (next (a, rest))
    generalize next (a, rest) = y at hsecond ⊢
    cases hsecond with
    | @found more _ _ htokens hmore hsettles' hroom' =>
      subst htokens
      exact .found (List.append_assoc ..).symm ⟨used, a, more, rfl, hused, hmore⟩
        (hsettles.andThen hsettles') (hroom.append hlevel hroom')
    | cutShort hwhy hbegins hroom' =>
      exact .cutShort hwhy (hbegins.behind hused) (hroom.append hlevel hroom')
    | blamed hwhy htokens hbegins hfails hroom' =>
      rw [htokens, ← List.append_assoc]
      refine .blamed hwhy rfl (hbegins.behind hused) ?_ (hroom.append hlevel hroom')
      rw [List.append_assoc]
      exact hfails.behind hsettles
    | tooDeep htokens hbegins hdeep =>
      rw [htokens, ← List.append_assoc]
      refine .tooDeep rfl (hbegins.behind hused) ?_
      rw [openBehind_append, hlevel, hdeep, Int.zero_add]
  | cutShort hwhy hbegins hroom => exact .cutShort hwhy (hbegins.andThen hM) hroom
  | blamed hwhy htokens hbegins hfails hroom =>
    exact .blamed hwhy htokens (hbegins.andThen hM) hfails.andThen hroom
  | tooDeep htokens hbegins hdeep => exact .tooDeep htokens (hbegins.andThen hM) hdeep

/-- What is read last may close calls that were opened before it. -/
theorem map (h : Finding room L tokens x) (g : α → β) :
    Finding room (L.andThen fun a => Part.nothing (g a)) tokens
      (x >>= fun p => pure (g p.1, p.2)) := by
  cases h with
  | @found used rest a htokens hused hsettles hroom =>
    have hphrase : (L.andThen fun a => Part.nothing (g a)) used (g a) :=
      ⟨used, a, [], (List.append_nil used).symm, hused, rfl, rfl⟩
    have hsettles' : (L.andThen fun a => Part.nothing (g a)).Settles (used ++ []) (g a) :=
      hsettles.andThen (Part.settles_nothing (g a))
    rw [List.append_nil] at hsettles'
    exact .found htokens hphrase hsettles' hroom
  | cutShort hwhy hbegins hroom =>
    exact .cutShort hwhy (hbegins.andThen fun a => Part.begins_nothing (g a)) hroom
  | blamed hwhy htokens hbegins hfails hroom =>
    exact .blamed hwhy htokens (hbegins.andThen fun a => Part.begins_nothing (g a))
      hfails.andThen hroom
  | tooDeep htokens hbegins hdeep =>
    exact .tooDeep htokens (hbegins.andThen fun a => Part.begins_nothing (g a)) hdeep

theorem congr {L' : Part α} (h : Finding room L tokens x) (hL : ∀ used a, L' used a ↔ L used a) :
    Finding room L' tokens x := by
  obtain rfl : L' = L := funext fun used => funext fun a => propext (hL used a)
  exact h

end Finding

/-! ## The parts of the reader -/

theorem expect_finds (wanted : Token.Kind) (hwanted : wanted ≠ .function) (hroom : 0 < room) :
    Finding room (Part.token wanted) tokens (expect wanted tokens) := by
  have hnil : ∀ t, ¬ Part.token wanted [] t := fun t h => by cases h.1
  unfold expect
  split
  · exact .nothing_found trivial hroom (Part.properlyBegins_token wanted)
  · rename_i t rest
    split
    · rename_i hkind
      refine .found_first (hkind ▸ hwanted) hroom ⟨rfl, hkind⟩ (Part.settles_first hnil ?_)
      rintro used u ⟨hu, -⟩
      cases hu
      exact ⟨rfl, rfl⟩
    · rename_i hkind
      refine .blamed_first rfl hroom (Part.properlyBegins_token wanted).begins
        (Part.fails_first hnil ?_)
      rintro used u ⟨hu, hkind'⟩
      cases hu
      exact hkind hkind'

/-- A corner of a rectangle. -/
def corner : Part Ref := fun tokens r =>
  ∃ t : Token, tokens = [t] ∧ t.kind = .reference ∧ Ref.ofText? t.text = some r

def takeCorner (tokens : List Token) : Except FormulaError (Ref × List Token) := do
  let (t, tokens) ← expect .reference tokens
  return (← refOfToken t, tokens)

theorem takeArea_eq (tokens : List Token) : takeArea tokens = (do
    let (start, tokens) ← takeCorner tokens
    let (_, tokens) ← expect .colon tokens
    let (stop, tokens) ← takeCorner tokens
    let (_, tokens) ← expect .closeParen tokens
    return (⟨start, stop⟩, tokens)) := by
  simp [takeArea, takeCorner]

theorem properlyBegins_corner : corner.ProperlyBegins [] :=
  ⟨[⟨.reference, "A0", 0⟩], ⟨0, 0⟩, by simp, _, rfl, rfl, rfl⟩

theorem takeCorner_finds (hroom : 0 < room) :
    Finding room corner tokens (takeCorner tokens) := by
  unfold takeCorner
  cases tokens with
  | nil => exact .nothing_found trivial hroom properlyBegins_corner
  | cons t rest =>
    have hnil : ∀ r, ¬ corner [] r := fun r ⟨u, hu, _⟩ => by cases hu
    have hblamed : ∀ why : FormulaError, why.Blames t →
        (∀ r, ¬ (t.kind = .reference ∧ Ref.ofText? t.text = some r)) →
        Finding room corner (t :: rest) (.error why) := fun why hwhy hnone => by
      refine .blamed_first hwhy hroom properlyBegins_corner.begins (Part.fails_first hnil ?_)
      rintro used r ⟨u, hu, hr⟩
      cases hu
      exact hnone r hr
    by_cases hkind : t.kind = .reference
    · have hexpect : expect .reference (t :: rest) = .ok (t, rest) := if_pos hkind
      rw [hexpect]
      change Finding room corner (t :: rest) (refOfToken t >>= fun r => pure (r, rest))
      unfold refOfToken
      split
      · rename_i r hr
        refine .found_first (by simp [hkind]) hroom ⟨t, rfl, hkind, hr⟩
          (Part.settles_first hnil ?_)
        rintro used r' ⟨u, hu, -, hr'⟩
        cases hu
        exact ⟨rfl, Option.some.inj (hr'.symm.trans hr)⟩
      · rename_i hr
        exact hblamed (.badReference t) rfl fun r h => by rw [hr] at h; cases h.2
    · have hexpect : expect .reference (t :: rest) = .error (.expected .reference (some t)) :=
        if_neg hkind
      rw [hexpect]
      exact hblamed (.expected .reference (some t)) rfl fun r h => hkind h.1

/-! ## Calls -/

/-- What is behind the name in a call with two formulas. -/
def binaryCall (name : String) : Part Formula :=
  (Part.token .openParen).andThen fun _ => Part.andThen Phrase fun left =>
    (Part.token .comma).andThen fun _ => Part.andThen Phrase fun right =>
      (Part.token .closeParen).andThen fun _ => Part.nothing (binary name left right)

/-- A rectangle and the parenthesis behind it. -/
def areaToEnd : Part Area :=
  corner.andThen fun start => (Part.token .colon).andThen fun _ => corner.andThen fun stop =>
    (Part.token .closeParen).andThen fun _ => Part.nothing ⟨start, stop⟩

/-- What is behind the name in a call with a rectangle. -/
def rangeCall (name : String) : Part Formula :=
  (Part.token .openParen).andThen fun _ => areaToEnd.andThen fun area =>
    Part.nothing (range name area)

theorem openBehind_of_token {wanted : Token.Kind} (h : wanted ≠ .function)
    (h' : wanted ≠ .closeParen) (used : List Token) (t : Token) (ht : Part.token wanted used t) :
    openBehind used = 0 := by
  obtain ⟨rfl, rfl⟩ := ht
  exact openBehind_singleton h h'

theorem openBehind_of_corner (used : List Token) (r : Ref) (hr : corner used r) :
    openBehind used = 0 := by
  obtain ⟨t, rfl, hkind, -⟩ := hr
  exact openBehind_singleton (by simp [hkind]) (by simp [hkind])

theorem takeArea_finds (hroom : 0 < room) : Finding room areaToEnd tokens (takeArea tokens) := by
  rw [takeArea_eq]
  refine (takeCorner_finds hroom).andThen openBehind_of_corner fun start rest => ?_
  refine (expect_finds .colon (by decide) hroom).andThen
    (openBehind_of_token (by decide) (by decide)) fun _ rest => ?_
  refine (takeCorner_finds hroom).andThen openBehind_of_corner fun stop rest => ?_
  exact (expect_finds .closeParen (by decide) hroom).map fun _ => (⟨start, stop⟩ : Area)

theorem phrase_binary_iff {word : Token} (hword : word.kind = .function)
    (hname : word.text ∈ ["add", "sub", "mul", "div"]) (used : List Token) (f : Formula) :
    Phrase (word :: used) f ↔ binaryCall word.text used f := by
  constructor
  · intro h
    cases h with
    | ref hkind _ | constant hkind => rw [hword] at hkind; cases hkind
    | range _ _ _ _ _ _ hname' => exact absurd hname hname'
    | @binary _ opening comma closing lefts rights left right _ hopening hcomma hclosing _ hlefts
        hrights =>
      exact ⟨[opening], opening, _, rfl, ⟨rfl, hopening⟩, lefts, left, _, rfl, hlefts,
        [comma], comma, _, rfl, ⟨rfl, hcomma⟩, rights, right, _, rfl, hrights,
        [closing], closing, [], rfl, ⟨rfl, hclosing⟩, rfl, rfl⟩
  · rintro ⟨_, opening, _, rfl, ⟨rfl, hopening⟩, lefts, left, _, rfl, hlefts,
      _, comma, _, rfl, ⟨rfl, hcomma⟩, rights, right, _, rfl, hrights,
      _, closing, _, rfl, ⟨rfl, hclosing⟩, rfl, rfl⟩
    exact .binary hword hopening hcomma hclosing hname hlefts hrights

theorem phrase_range_iff {word : Token} (hword : word.kind = .function)
    (hname : word.text ∉ ["add", "sub", "mul", "div"]) (used : List Token) (f : Formula) :
    Phrase (word :: used) f ↔ rangeCall word.text used f := by
  constructor
  · intro h
    cases h with
    | ref hkind _ | constant hkind => rw [hword] at hkind; cases hkind
    | binary _ _ _ _ hname' => exact absurd hname' hname
    | @range _ opening first colon second closing area _ hopening hfirst hcolon hsecond hclosing _
        hstart hstop =>
      exact ⟨[opening], opening, _, rfl, ⟨rfl, hopening⟩, _, area, [], (List.append_nil _).symm,
        ⟨[first], area.start, _, rfl, ⟨first, rfl, hfirst, hstart⟩,
          [colon], colon, _, rfl, ⟨rfl, hcolon⟩,
          [second], area.stop, _, rfl, ⟨second, rfl, hsecond, hstop⟩,
          [closing], closing, [], rfl, ⟨rfl, hclosing⟩, rfl, rfl⟩, rfl, rfl⟩
  · rintro ⟨_, opening, _, rfl, ⟨rfl, hopening⟩, _, area, _, rfl,
      ⟨_, start, _, rfl, ⟨first, rfl, hfirst, hstart⟩, _, colon, _, rfl, ⟨rfl, hcolon⟩,
        _, stop, _, rfl, ⟨second, rfl, hsecond, hstop⟩, _, closing, _, rfl, ⟨rfl, hclosing⟩,
        rfl, rfl⟩, rfl, rfl⟩
    exact .range hword hopening hfirst hcolon hsecond hclosing hname hstart hstop

/-- Behind the name of a call the reader finds what it would find in the call. -/
theorem Finding.cons_name {t : Token} (ht : t.kind = .function)
    {x : Except FormulaError (Formula × List Token)}
    (h : Finding room (fun used f => Phrase (t :: used) f) tokens x) :
    Finding (room + 1) Phrase (t :: tokens) x := by
  cases h with
  | @found used rest f htokens hused hsettles hroom =>
    rw [htokens, ← List.cons_append]
    refine .found rfl hused ?_ (hroom.cons_name ht)
    intro more used' behind f' hfront hphrase
    cases used' with
    | nil => cases hphrase
    | cons u used' =>
      obtain ⟨rfl, hrest⟩ := List.cons.inj hfront
      obtain ⟨rfl, rfl⟩ := hsettles more used' behind f' hrest hphrase
      exact ⟨rfl, rfl⟩
  | cutShort hwhy hbegins hroom => exact .cutShort hwhy hbegins (hroom.cons_name ht)
  | @blamed why front rest u hwhy htokens hbegins hfails hroom =>
    rw [htokens, ← List.cons_append]
    refine .blamed hwhy rfl hbegins ?_ (hroom.cons_name ht)
    intro more used behind f hfront hphrase
    cases used with
    | nil => cases hphrase
    | cons v used =>
      obtain ⟨rfl, hrest⟩ := List.cons.inj hfront
      exact hfails more used behind f hrest hphrase
  | @tooDeep front rest htokens hbegins hdeep =>
    rw [htokens, ← List.cons_append]
    refine .tooDeep rfl hbegins ?_
    rw [openBehind_cons_name ht, hdeep]

/-! ## The reader -/

theorem not_phrase_nil (f : Formula) : ¬ Phrase [] f := nofun

theorem properlyBegins_phrase : Part.ProperlyBegins Phrase [] :=
  ⟨[⟨.constant, "", 0⟩], _, by simp, .constant rfl⟩

/-- A phrase that does not begin with an operation name is a single token. -/
theorem Phrase.of_not_name {t : Token} {used : List Token} {f : Formula}
    (h : Phrase (t :: used) f) (ht : t.kind ≠ .function) : used = [] ∧
      (t.kind = .reference ∧ (∃ r, Ref.ofText? t.text = some r ∧ f = .ref r) ∨
        t.kind = .constant ∧ f = .constant (Number.read t.text) t.text) := by
  cases h with
  | ref hkind hr => exact ⟨rfl, .inl ⟨hkind, _, hr, rfl⟩⟩
  | constant hkind => exact ⟨rfl, .inr ⟨hkind, rfl⟩⟩
  | binary hword | range hword => exact absurd hword ht

theorem take_finds_first {t : Token} (ht : t.kind ≠ .function) (limit : Nat) (rest : List Token)
    (hroom : 0 < room) : Finding room Phrase (t :: rest) (take limit (t :: rest)) := by
  have hblamed : ∀ why : FormulaError, why.Blames t → (∀ f, ¬ Phrase [t] f) →
      Finding room Phrase (t :: rest) (.error why) := fun why hwhy hnone => by
    refine .blamed_first hwhy hroom properlyBegins_phrase.begins
      (Part.fails_first not_phrase_nil fun used f h => ?_)
    obtain ⟨rfl, -⟩ := h.of_not_name ht
    exact hnone f h
  have hfound : ∀ f, Phrase [t] f → Finding room Phrase (t :: rest) (.ok (f, rest)) :=
    fun f hf => by
      refine .found_first ht hroom hf (Part.settles_first not_phrase_nil fun used g h => ?_)
      obtain ⟨rfl, -⟩ := h.of_not_name ht
      exact ⟨rfl, h.unique hf⟩
  cases hkind : t.kind with
  | reference =>
    rw [take.eq_def]
    simp only [hkind, refOfToken]
    split
    · rename_i r hr
      exact hfound (.ref r) (.ref hkind hr)
    · rename_i hr
      refine hblamed (.badReference t) rfl fun f h => ?_
      rcases (h.of_not_name ht).2 with ⟨-, r, hr', -⟩ | ⟨hkind', -⟩
      · rw [hr] at hr'
        cases hr'
      · rw [hkind] at hkind'
        cases hkind'
  | constant =>
    rw [take_constant hkind]
    exact hfound _ (.constant hkind)
  | function => exact absurd hkind ht
  | _ =>
    have htake : take limit (t :: rest) = .error (.notAnOperand t) := by
      rw [take.eq_def]
      simp only [hkind]
    rw [htake]
    refine hblamed (.notAnOperand t) rfl fun f h => ?_
    rcases (h.of_not_name ht).2 with ⟨hkind', -⟩ | ⟨hkind', -⟩ <;> rw [hkind] at hkind' <;>
      cases hkind'

/-- Any operation name begins a phrase. -/
theorem begins_name {t : Token} (ht : t.kind = .function) : Part.Begins Phrase [t] := by
  have hoperand : Phrase [⟨.constant, "", 0⟩] (constant (Number.read "") "") := .constant rfl
  by_cases hname : t.text ∈ ["add", "sub", "mul", "div"]
  · obtain ⟨used, hused, hphrase⟩ := Phrase.exists_binary ht
      (rfl : Token.kind ⟨.openParen, "(", 0⟩ = _) (rfl : Token.kind ⟨.comma, ",", 0⟩ = _)
      (rfl : Token.kind ⟨.closeParen, ")", 0⟩ = _) hname hoperand hoperand []
    rw [List.append_nil] at hused
    exact ⟨_, _, hused ▸ hphrase⟩
  · have hcorner : Ref.ofText? "A0" = some ⟨0, 0⟩ := rfl
    exact ⟨[⟨.openParen, "(", 0⟩, ⟨.reference, "A0", 0⟩, ⟨.colon, ":", 0⟩, ⟨.reference, "A0", 0⟩,
      ⟨.closeParen, ")", 0⟩], .range t.text ⟨⟨0, 0⟩, ⟨0, 0⟩⟩,
      .range ht rfl rfl rfl rfl rfl hname hcorner hcorner⟩

/-- The reader makes one of the findings, whatever the tokens. -/
theorem take_finds (limit : Nat) (tokens : List Token) :
    Finding (limit + 1) Phrase tokens (take limit tokens) := by
  induction limit generalizing tokens with
  | zero =>
    cases tokens with
    | nil => exact .nothing_found trivial (by decide) properlyBegins_phrase
    | cons t rest =>
      by_cases ht : t.kind = .function
      · have htake : take 0 (t :: rest) = .error .nestedTooDeeply := by
          rw [take.eq_def]
          simp only [ht]
        rw [htake]
        exact .tooDeep (List.singleton_append).symm (begins_name ht) (openBehind_cons_name ht [])
      · exact take_finds_first ht 0 rest (by decide)
  | succ limit ih =>
    have hroom : (0 : Int) < limit + 1 := by omega
    cases tokens with
    | nil => exact .nothing_found trivial (by omega) properlyBegins_phrase
    | cons t rest =>
      by_cases ht : t.kind = .function
      · rw [take.eq_def]
        simp only [ht]
        refine Finding.cons_name ht ?_
        by_cases hname : t.text ∈ ["add", "sub", "mul", "div"]
        · refine Finding.congr ?_ (phrase_binary_iff ht hname)
          simp only [if_pos (BinaryOp.isSome_ofName?_iff.mpr hname)]
          refine (expect_finds .openParen (by decide) hroom).andThen
            (openBehind_of_token (by decide) (by decide)) fun _ rest => ?_
          refine (ih rest).andThen (fun _ _ => Phrase.openBehind_eq) fun left rest => ?_
          refine (expect_finds .comma (by decide) hroom).andThen
            (openBehind_of_token (by decide) (by decide)) fun _ rest => ?_
          refine (ih rest).andThen (fun _ _ => Phrase.openBehind_eq) fun right rest => ?_
          exact (expect_finds .closeParen (by decide) hroom).map fun _ => binary t.text left right
        · refine Finding.congr ?_ (phrase_range_iff ht hname)
          simp only [if_neg (mt BinaryOp.isSome_ofName?_iff.mp hname)]
          refine (expect_finds .openParen (by decide) hroom).andThen
            (openBehind_of_token (by decide) (by decide)) fun _ rest => ?_
          exact (takeArea_finds hroom).map fun area => range t.text area
      · exact take_finds_first ht _ rest (by omega)

/-! ## The verdict on all tokens -/

/-- What the reader says of the tokens as a whole. -/
inductive Verdict (tokens : List Token) : Except FormulaError Formula → Prop where
  | formula {f : Formula} : Phrase tokens f → OpensBelow (nestingLimit + 1) tokens →
      Verdict tokens (.ok f)
  | cutShort {why : FormulaError} : why.AtEnd → Part.ProperlyBegins Phrase tokens →
      OpensBelow (nestingLimit + 1) tokens → Verdict tokens (.error why)
  | blamed {why : FormulaError} {front rest : List Token} {t : Token} : why.Blames t →
      tokens = front ++ t :: rest → Part.Begins Phrase front →
      ¬ Part.Begins Phrase (front ++ [t]) → OpensBelow (nestingLimit + 1) front →
      Verdict tokens (.error why)
  | tooDeep {front rest : List Token} : tokens = front ++ rest → Part.Begins Phrase front →
      openBehind front = nestingLimit + 1 → Verdict tokens (.error .nestedTooDeeply)

theorem Phrase.begins {tokens : List Token} {f : Formula} (hf : Phrase tokens f) :
    Part.Begins Phrase tokens := ⟨[], f, by rwa [List.append_nil]⟩

/-- Nothing goes on where a phrase ends. -/
theorem Phrase.not_properlyBegins {tokens : List Token} {f : Formula} (hf : Phrase tokens f) :
    ¬ Part.ProperlyBegins Phrase tokens := by
  rintro ⟨rest, g, hne, hg⟩
  have hshort := hf.take (Nat.le_max_left f.openCalls g.openCalls) rest
  have hlong := hg.take (Nat.le_max_right f.openCalls g.openCalls) []
  rw [List.append_nil, hshort] at hlong
  cases hlong
  exact hne rfl

theorem ofTokens_verdict (tokens : List Token) : Verdict tokens (ofTokens tokens) := by
  have hfinds := take_finds nestingLimit tokens
  unfold ofTokens
  generalize take nestingLimit tokens = x at hfinds ⊢
  cases hfinds with
  | @found used rest f htokens hused hsettles hroom =>
    cases rest with
    | nil =>
      rw [List.append_nil] at htokens
      subst htokens
      exact .formula hused hroom
    | cons t rest =>
      refine .blamed (rfl : (FormulaError.trailing t).Blames t) htokens ⟨[], f, ?_⟩ ?_ hroom
      · rwa [List.append_nil]
      · rintro ⟨more, g, hphrase⟩
        rw [List.append_assoc] at hphrase
        exact hused.not_properlyBegins ⟨_, g, List.cons_ne_nil t more, hphrase⟩
  | cutShort hwhy hbegins hroom => exact .cutShort hwhy hbegins hroom
  | blamed hwhy htokens hbegins hfails hroom =>
    exact .blamed hwhy htokens hbegins hfails.not_begins hroom
  | tooDeep htokens hbegins hdeep => exact .tooDeep htokens hbegins hdeep

/-- No more calls than the limit are open behind any beginning of the tokens with which a phrase
begins. -/
def CallsWithin (limit : Nat) (tokens : List Token) : Prop :=
  ∀ front rest, tokens = front ++ rest → Part.Begins Phrase front → openBehind front ≤ limit

/-- Nothing is open that the reader has not seen, if it stops where no phrase goes on. -/
theorem OpensBelow.callsWithin {limit : Nat} {used rest : List Token}
    (h : OpensBelow (limit + 1) used)
    (hstop : ∀ t others, rest = t :: others → ¬ Part.Begins Phrase (used ++ [t])) :
    CallsWithin limit (used ++ rest) := by
  intro front more hfront hbegins
  apply Int.lt_add_one_iff.mp
  rcases List.append_eq_append_iff.mp hfront with ⟨_ | ⟨t, others⟩, rfl, hmore⟩ | ⟨others, rfl, -⟩
  · exact h _ [] (by simp)
  · refine absurd ?_ (hstop t (others ++ more) hmore)
    exact Part.Begins.of_append (by rwa [List.append_assoc] : Part.Begins Phrase (_ ++ others))
  · exact h front others rfl

theorem Verdict.callsWithin {tokens : List Token} {x : Except FormulaError Formula}
    (h : Verdict tokens x) (hx : x ≠ .error .nestedTooDeeply) :
    CallsWithin nestingLimit tokens := by
  cases h with
  | formula _ hroom | cutShort _ _ hroom =>
    rw [← List.append_nil tokens]
    exact hroom.callsWithin nofun
  | blamed _ htokens _ hstop hroom =>
    subst htokens
    refine hroom.callsWithin fun t others h => ?_
    cases h
    exact hstop
  | tooDeep => exact absurd rfl hx

/-- The limit on open calls stops the reader exactly if more calls would be open behind tokens with
which a phrase begins. -/
theorem ofTokens_eq_nestedTooDeeply_iff {tokens : List Token} :
    ofTokens tokens = .error .nestedTooDeeply ↔ ¬ CallsWithin nestingLimit tokens := by
  have hverdict := ofTokens_verdict tokens
  constructor
  · intro h hwithin
    rw [h] at hverdict
    cases hverdict with
    | cutShort hwhy | blamed hwhy => exact hwhy.elim
    | tooDeep htokens hbegins hdeep =>
      have hle := hwithin _ _ htokens hbegins
      omega
  · intro hnot
    by_contra h
    exact hnot (hverdict.callsWithin h)

/-- A token is a reference that can be read if its text is a letter and one or two decimal
digits. -/
theorem ofText?_eq_some_iff {text : String} {r : Ref} :
    Ref.ofText? text = some r ↔ Ref.NamedBy text.toList r :=
  ⟨Ref.namedBy_of_ofChars?, Ref.NamedBy.ofChars?⟩

/-- **The token to blame.** While no more calls than the limit are open, tokens are read as the
formula that is derived from them, if there is one. Else they are refused; the message says that
the formula ends too early just if the tokens are the beginning of a phrase that goes on behind
them, and otherwise it points at the first token with which they are no longer the beginning of a
phrase. A reference in a phrase is a letter and one or two decimal digits. -/
theorem ofTokens_blames {tokens : List Token} (hcalls : CallsWithin nestingLimit tokens) :
    (∀ f, ofTokens tokens = .ok f ↔ Phrase tokens f) ∧
    ((∃ why, ofTokens tokens = .error why ∧ SaysEnd why.message) ↔
      Part.ProperlyBegins Phrase tokens) ∧
    ((∀ f, ¬ Phrase tokens f) → ¬ Part.ProperlyBegins Phrase tokens →
      ∃ why front t rest, ofTokens tokens = .error why ∧ tokens = front ++ t :: rest ∧
        Part.Begins Phrase front ∧ ¬ Part.Begins Phrase (front ++ [t]) ∧
        PointsAt why.message t.position) ∧
    ∀ (text : String) (r : Ref), Ref.ofText? text = some r ↔ Ref.NamedBy text.toList r := by
  have hverdict := ofTokens_verdict tokens
  generalize ofTokens tokens = x at hverdict ⊢
  have hreference := fun text r => @ofText?_eq_some_iff text r
  cases hverdict with
  | formula hphrase =>
    refine ⟨fun f => ⟨?_, ?_⟩, ⟨nofun, fun h => absurd h hphrase.not_properlyBegins⟩,
      fun hnone => absurd hphrase (hnone _), hreference⟩
    · rintro ⟨⟩
      exact hphrase
    · exact fun hf => congrArg _ (hphrase.unique hf)
  | cutShort hwhy hbegins =>
    exact ⟨fun f => ⟨nofun, fun hf => absurd hbegins hf.not_properlyBegins⟩,
      ⟨fun _ => hbegins, fun _ => ⟨_, rfl, hwhy.saysEnd⟩⟩, fun _ hends => absurd hbegins hends,
      hreference⟩
  | blamed hwhy htokens hbegins hstop =>
    have hnot : ¬ Part.Begins Phrase tokens := fun h => by
      rw [htokens] at h
      exact hstop h.upTo
    refine ⟨fun f => ⟨nofun, fun hf => absurd hf.begins hnot⟩,
      ⟨?_, fun h => absurd h.begins hnot⟩,
      fun _ _ => ⟨_, _, _, _, rfl, htokens, hbegins, hstop, hwhy.pointsAt⟩, hreference⟩
    rintro ⟨_, ⟨⟩, hends⟩
    exact absurd hends hwhy.pointsAt.not_saysEnd
  | tooDeep htokens hbegins hdeep =>
    have hle := hcalls _ _ htokens hbegins
    omega

/-- The tokens of a call in which the second operand is left out. -/
def oneOperand : List Token :=
  [⟨.function, "add", 0⟩, ⟨.openParen, "(", 3⟩, ⟨.constant, "1", 4⟩, ⟨.closeParen, ")", 5⟩]

theorem callsWithin_oneOperand : CallsWithin nestingLimit oneOperand := by
  intro front rest h _
  have hlength : front.length + rest.length = 4 := by
    rw [← List.length_append, ← h]
    rfl
  have hcount : front.countP (·.kind = .function) ≤ front.length := List.countP_le_length
  simp only [openBehind, nestingLimit]
  omega

theorem ofTokens_blames_oneOperand : CallsWithin nestingLimit oneOperand ∧
    ∃ front t rest, oneOperand = front ++ t :: rest ∧ Part.Begins Phrase front ∧
      ¬ Part.Begins Phrase (front ++ [t]) ∧
      PointsAt "Expected COMMA, got RPAREN at position 5" t.position := by
  obtain ⟨hformula, hends, hblames, -⟩ := ofTokens_blames callsWithin_oneOperand
  have hread : ofTokens oneOperand = .error (.expected .comma (some ⟨.closeParen, ")", 5⟩)) := rfl
  have hpoints : PointsAt "Expected COMMA, got RPAREN at position 5" 5 :=
    ⟨"Expected COMMA, got RPAREN", rfl⟩
  have hnone : ∀ f, ¬ Phrase oneOperand f := fun f hf => by
    rw [← hformula f, hread] at hf
    cases hf
  have hends' : ¬ Part.ProperlyBegins Phrase oneOperand := fun h => by
    obtain ⟨why, hwhy, hsays⟩ := hends.mpr h
    rw [hread] at hwhy
    cases hwhy
    exact hpoints.not_saysEnd hsays
  obtain ⟨why, front, t, rest, hwhy, htokens, hbegins, hstop, hmessage⟩ := hblames hnone hends'
  rw [hread] at hwhy
  cases hwhy
  exact ⟨callsWithin_oneOperand, front, t, rest, htokens, hbegins, hstop, hmessage⟩

end Formula

end Worksheet
