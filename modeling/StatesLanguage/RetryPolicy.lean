import StatesLanguage.Path.Reference
import StatesLanguage.Value.Arithmetic
import StatesLanguage.Value.Access

/-!
# Retriers and catchers

What a state does about an error: try again after a delay, go on at the state that a catcher
names, or let the error through. Retriers are asked first, and of them only the first that matches
counts; catchers are asked in order.
-/

namespace StatesLanguage

namespace RetryPolicy

/-- What is done about an error. -/
inductive Decision where
  | retry (delay : Value)
  | caught (next output : Value)
  | propagate
  deriving Inhabited

/-- Whether an error name is among those of an `ErrorEquals`: by itself, by `States.ALL`, or, if it
is no timeout, by `States.TaskFailed`. -/
def errorMatches (errorEquals name : Value) : Outcome Bool := do
  if !errorEquals.truthy then return false
  if ← errorEquals.holds name then return true
  if ← errorEquals.holds (.str "States.ALL") then return true
  if ← errorEquals.holds (.str "States.TaskFailed") then
    return !name.same (.str "States.Timeout")
  return false

/-- The retriers of a state; a single object counts as one, for all errors unless it says so. -/
def retriers (retry : Value) : Value :=
  match retry with
  | .obj [] => .arr []
  | .obj members =>
    .arr [.obj (if Table.has members "ErrorEquals" then members
      else Table.put members "ErrorEquals" (.arr [.str "States.ALL"]))]
  | v => if v.truthy then v else .arr []

def isFor (handler name : Value) : Outcome Bool := do
  errorMatches (← handler.memberOr "ErrorEquals" .null) name

/-- The first retrier or catcher that is for an error of a name. -/
def firstFor (name : Value) : List Value → Outcome (Option Value)
  | [] => .ok none
  | handler :: rest => do
    if ← isFor handler name then return some handler else firstFor name rest

/-- The delay before another attempt, if the retrier allows one: the interval times the backoff
rate, which is at least one, to the power of the attempts made. -/
def delay? (retrier attempts : Value) : Outcome (Option Value) := do
  let interval ← retrier.memberOr "IntervalSeconds" (.int 1)
  let most ← retrier.memberOr "MaxAttempts" (.int 3)
  let rate ← retrier.memberOr "BackoffRate" (.float 2.0)
  let rate := if ← rate.before (.float 1.0) then .float 1.0 else rate
  if ← attempts.notAfter most then
    return some (← interval.mul (← rate.pow attempts))
  else return none

variable [Room]

/-- What a catcher puts into the input: the name of the error and its text. -/
def errorOutput (e : Failure) : Outcome Value := do
  return .obj [("Error", e.name), ("Cause", .str (← e.text))]

def catchDecision (e : Failure) (catchers raw : Value) : Outcome Decision := do
  let handlers ← if catchers.truthy then catchers.iterate else pure []
  match ← firstFor e.name handlers with
  | none => return .propagate
  | some catcher =>
    let error ← errorOutput e
    let path ← catcher.memberOr "ResultPath" Path.root
    let output ← Reference.combine raw path error
    return .caught (← catcher.memberOr "Next" .null) output

/-- Another attempt if a retrier allows it, else the way of a catcher, else the error. -/
def decide (e : Failure) (retry catchers attempts raw : Value) : Outcome Decision := do
  -- Errors of the run itself are neither retried nor caught.
  if e.isRuntime then return .propagate
  match ← firstFor e.name (← (retriers retry).iterate) with
  | some retrier =>
    match ← delay? retrier attempts with
    | some delay => return .retry delay
    | none => catchDecision e catchers raw
  | none => catchDecision e catchers raw

end RetryPolicy

end StatesLanguage
