import StatesLanguage.Error

/-!
# Fresh identifiers

Names of executions, task tokens and the identifiers that templates ask for come from one numbered
supply, so that no two are equal.
-/

namespace StatesLanguage

/-- The identifier that is drawn as the n-th. -/
def identifier (n : Nat) : String :=
  let digits := Nat.toDigits 10 n
  "00000000-0000-4000-8000-" ++ String.ofList (List.replicate (12 - digits.length) '0' ++ digits)

/-- A step that may fail and may draw identifiers; the state is the number of those drawn. What a
failed step has drawn stays drawn. -/
abbrev Draw := ExceptT Failure (StateM Nat)

namespace Draw

/-- An identifier that was not drawn before. -/
def fresh : Draw String :=
  modifyGet fun n => (identifier (n + 1), n + 1)

def ofOutcome {α : Type} (o : Outcome α) : Draw α :=
  ExceptT.mk (pure o)

/-- What is drawn, after so many draws, and how many draws there are then. -/
def runFrom {α : Type} (step : Draw α) (drawn : Nat) : Outcome α × Nat :=
  (step.run).run drawn

end Draw

end StatesLanguage
