import Worksheet.Error

/-!
# Reports

What a request to a sheet brings about: an answer or an error, and on the way events that are worth
a line in a log. The events of a request that fails are kept up to the failure.
-/

namespace Worksheet

/-- What is worth a line in a log. -/
inductive Event where
  | malformed (text : String) (why : FormulaError)
  | entered (cell : String) (text : String)
  /-- An evaluation cut references off at the depth limit. -/
  | limitReached (formula : String) (limit : Int) (times : Nat)
  | stackExhausted
  /-- An entry has no value since its evaluation was given up. -/
  | withoutValue (text : String) (why : Error)

namespace Event

/-- Whether an event is of interest only when a session is looked at closely. -/
def isDetail : Event → Bool
  | stackExhausted => false
  | _ => true

def line : Event → String
  | malformed text why =>
    "DEBUG: Invalid formula " ++ Text.quote text ++ ": " ++ why.message
  | entered cell text => "DEBUG: " ++ cell ++ " := " ++ Text.quote text
  | limitReached formula limit times =>
    "DEBUG: " ++ Text.quote formula ++ " reached the depth limit of " ++ toString limit ++ " " ++
      toString times ++ " time(s)"
  | stackExhausted =>
    "WARNING: Ran out of stack while evaluating a formula, treating it as a cycle"
  | withoutValue text why =>
    "DEBUG: " ++ Text.quote text ++ " evaluates to NaN: " ++ why.message

end Event

/-- The events of a request in their order, and its outcome. -/
structure Report (α : Type) where
  events : List Event
  outcome : Except Error α

namespace Report

def ofExcept {α : Type} (outcome : Except Error α) : Report α := ⟨[], outcome⟩

def note (event : Event) : Report Unit := ⟨[event], .ok ()⟩

/-- Goes on with a result; an error ends the report. -/
def andThen {α β : Type} (r : Report α) (next : α → Report β) : Report β :=
  match r.outcome with
  | .ok a =>
    let rest := next a
    ⟨r.events ++ rest.events, rest.outcome⟩
  | .error e => ⟨r.events, .error e⟩

/-- Goes on after an error; the events before it are kept. -/
def orElse {α : Type} (r : Report α) (handle : Error → Report α) : Report α :=
  match r.outcome with
  | .ok _ => r
  | .error e =>
    let rest := handle e
    ⟨r.events ++ rest.events, rest.outcome⟩

instance : Monad Report where
  pure a := ⟨[], .ok a⟩
  bind := andThen

theorem map_id {α : Type} (r : Report α) : id <$> r = r := by
  obtain ⟨events, outcome⟩ := r
  cases outcome <;> simp [Functor.map, andThen]

theorem andThen_assoc {α β γ : Type} (r : Report α) (next : α → Report β)
    (last : β → Report γ) :
    (r >>= next) >>= last = r >>= fun a => next a >>= last := by
  obtain ⟨events, outcome⟩ := r
  cases outcome with
  | error e => rfl
  | ok a =>
    simp only [bind, andThen]
    cases (next a).outcome <;> simp

/-- A report does not depend on how the parts of a request are bracketed. -/
instance : LawfulMonad Report :=
  LawfulMonad.mk' _ map_id (fun _ _ => rfl) andThen_assoc

instance : MonadExcept Error Report where
  throw e := ⟨[], .error e⟩
  tryCatch := orElse

instance : MonadLift (Except Error) Report where
  monadLift := ofExcept

/-! ## Outcomes

The events of a request never decide how it goes on, so outcomes are put together as if there were
no events. -/

variable {α β : Type}

@[simp] theorem ok_bind (a : α) (next : α → Except Error β) : (.ok a >>= next) = next a := rfl

@[simp] theorem error_bind (e : Error) (next : α → Except Error β) :
    (.error e >>= next) = .error e := rfl

@[simp] theorem outcome_pure (a : α) : (pure a : Report α).outcome = .ok a := rfl

@[simp] theorem outcome_throw (e : Error) : (throw e : Report α).outcome = .error e := rfl

@[simp] theorem outcome_note (event : Event) : (note event).outcome = .ok () := rfl

@[simp] theorem outcome_lift (outcome : Except Error α) :
    (liftM outcome : Report α).outcome = outcome := rfl

@[simp] theorem outcome_bind (r : Report α) (next : α → Report β) :
    (r >>= next).outcome = r.outcome >>= fun a => (next a).outcome := by
  obtain ⟨events, outcome⟩ := r
  cases outcome <;> rfl

@[simp] theorem outcome_map (f : α → β) (r : Report α) : (f <$> r).outcome = f <$> r.outcome := by
  obtain ⟨events, outcome⟩ := r
  cases outcome <;> rfl

@[simp] theorem outcome_tryCatch (r : Report α) (handle : Error → Report α) :
    (tryCatch r handle).outcome = tryCatch r.outcome fun e => (handle e).outcome := by
  obtain ⟨events, outcome⟩ := r
  cases outcome <;> rfl

theorem outcome_mapM {γ : Type} (xs : List γ) (f : γ → Report β) :
    (xs.mapM f).outcome = xs.mapM fun x => (f x).outcome := by
  induction xs with
  | nil => rfl
  | cons x xs ih => simp [List.mapM_cons, ih]

end Report

end Worksheet
