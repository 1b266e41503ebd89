import StatesLanguage.Choice.Rule
import StatesLanguage.State

/-!
# States that neither call nor retry

Pass, Wait, Choice, Succeed and Fail.
-/

namespace StatesLanguage.State

variable [Room]

def runPass (s : State) (site : Site) (entered : Nat) (input : Value) : Work Transition := do
  let context := s.context site entered 0
  let effective ← s.filterInput input context
  let effective ← s.parameters effective context
  let result := (s.definition.get? "Result").getD effective
  return ⟨← s.combine input result context, s.next⟩

/-! ## Waiting -/

def badSeconds (name : String) (seconds : Value) : Failure :=
  .telling seconds.display fun seconds =>
    .runtime ("Wait state " ++ name ++ " seconds value " ++ seconds ++
      " is not a non-negative number")

def badTimestamp (name : String) (timestamp : Value) : Failure :=
  .telling timestamp.display fun timestamp =>
    .runtime ("Wait state " ++ name ++ " timestamp " ++ timestamp ++ " failed to parse")

/-- A field, or what the path in another one selects. -/
def fieldOrPath (s : State) (key pathKey : String) (input context : Value) : Outcome Value :=
  match s.definition.get? pathKey with
  | some path => Path.apply input context path
  | none => .ok (s.field key .null)

def secondsToWait (s : State) (seconds : Value) : Outcome Int :=
  match seconds with
  | .int n => if n < 0 then .error (badSeconds s.name seconds) else seconds.micros second
  | .float x => if x < 0 then .error (badSeconds s.name seconds) else seconds.micros second
  | _ => .error (badSeconds s.name seconds)

/-- How long a state waits: some seconds, or up to a time. -/
def delay (s : State) (input context : Value) (now : Nat) : Outcome Int := do
  if (s.definition.get? "Seconds").isSome || (s.definition.get? "SecondsPath").isSome then
    s.secondsToWait (← s.fieldOrPath "Seconds" "SecondsPath" input context)
  else
    match ← s.fieldOrPath "Timestamp" "TimestampPath" input context with
    | .null => return 0
    | timestamp =>
      match Instant.ofValue? timestamp with
      | some instant => return instant.micros - now
      | none => throw (badTimestamp s.name timestamp)

def runWait (s : State) (site : Site) (entered : Nat) (input : Value) : Work Transition := do
  let context := s.context site entered 0
  let effective ← s.filterInput input context
  let delay ← Work.ofOutcome (s.delay effective context entered)
  if delay > 0 then Work.sleep delay.toNat
  return ⟨← s.filterOutput effective context, s.next⟩

/-! ## Choosing -/

/-- The first rule that holds. -/
def chosen (input context : Value) : List Value → Outcome (Option Value)
  | [] => .ok none
  | rule :: rest => do
    if ← Choice.matchesRule rule input context then return some (← rule.memberOr "Next" .null)
    else chosen input context rest

def noChoice (arn name : String) : Failure :=
  .ofKind .noChoiceMatched (arn ++ " the 'Choice' state \"" ++ name ++
    "\" failed to find a match for the condition field extracted from its input.")

def runChoice (s : State) (site : Site) (entered : Nat) (input : Value) : Work Transition := do
  let context := s.context site entered 0
  let effective ← s.filterInput input context
  let rules ← Work.ofOutcome (s.field "Choices" (.arr [])).iterate
  let next := (← Work.ofOutcome (chosen effective context rules)).getD (s.field "Default" .null)
  if !next.truthy then throw (noChoice site.identity.arn s.name)
  return ⟨← s.filterOutput effective context, next⟩

/-! ## Ending -/

def runSucceed (s : State) (site : Site) (entered : Nat) (input : Value) : Work Transition := do
  let context := s.context site entered 0
  let effective ← s.filterInput input context
  return ⟨← s.filterOutput effective context, .null⟩

/-- The error of a Fail state. -/
def failure (s : State) : Failure :=
  .withName .named (s.field "Error" (.str "Unspecified"))
    (s.field "Cause" (.str "Unspecified"))

end StatesLanguage.State
