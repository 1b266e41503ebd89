import StatesLanguage.State

/-!
# States that retry

Task, Parallel and Map states make attempts. After a failed one the state's policy decides whether
there is another, or a catcher takes over, or the error goes on.
-/

namespace StatesLanguage.State

/-- The attempts that a retrier may allow, of a number with a fraction its integer part. -/
def retriesOf (retrier : Value) : Nat :=
  match ((retrier.get? "MaxAttempts").getD (.int 3)).number? with
  | some (.int n) => n.toNat
  | some (.float x) => if Binary.isFinite x then ((Binary.truncate? x).getD 0).toNat else forever
  | none => 0

/-- The most attempts that one of the retriers of a state allows. -/
def maxRetries (s : State) : Nat :=
  match RetryPolicy.retriers (s.field "Retry" .null) with
  | .arr retriers => (retriers.map retriesOf).foldl max 0
  | _ => 0

variable [Room]

/-- What is logged before another attempt. -/
def retryNote (s : State) (e : Failure) (attempts : Nat) (delay : Value) : Outcome String := do
  return s.kind.name ++ " state " ++ s.name ++ " failed with " ++ (← e.name.display) ++ ": " ++
    (← e.text) ++ ", retry " ++ toString attempts ++ " in " ++ (← delay.display) ++ "s"

def catchNote (s : State) (e : Failure) (next : Value) : Outcome String := do
  return s.kind.name ++ " state " ++ s.name ++ " failed with " ++ (← e.name.display) ++
    ", caught, next state " ++ (← next.display)

def sleepSeconds (delay : Value) : Work Unit := do
  Work.sleep (← Work.ofOutcome delay.pause)

def decide (s : State) (e : Failure) (attempts : Nat) (input : Value) :
    Outcome RetryPolicy.Decision :=
  RetryPolicy.decide e (s.field "Retry" .null) (s.field "Catch" .null) (.int attempts) input

/-- Makes attempts, each told how many have failed before it, with so many retries left. What is to
be done when the state fails for good is done once, before a catcher takes over or the error goes
on. -/
def runAttempts (s : State) (input : Value) (attempt : Nat → Work Value)
    (onFailure : Failure → Work Unit) : Nat → Nat → Work Transition := fun left failed => do
  match ← (attempt failed).outcome with
  | .ok output => return ⟨output, s.next⟩
  | .error e =>
    match s.decide e (failed + 1) input with
    | .error problem =>
      -- The policy itself has failed: its error takes the place of the attempt's.
      if problem.isStates then onFailure e
      throw problem
    | .ok .propagate =>
      onFailure e
      throw e
    | .ok (.caught next output) =>
      onFailure e
      Work.tell .info (s.catchNote e next)
      return ⟨output, next⟩
    | .ok (.retry delay) =>
      Work.tell .info (s.retryNote e (failed + 1) delay)
      sleepSeconds delay
      match left with
      | 0 => throw e
      | left + 1 => runAttempts s input attempt onFailure left (failed + 1)

def runWithRetry (s : State) (input : Value) (attempt : Nat → Work Value)
    (onFailure : Failure → Work Unit) : Work Transition :=
  s.runAttempts input attempt onFailure s.maxRetries 0

end StatesLanguage.State
