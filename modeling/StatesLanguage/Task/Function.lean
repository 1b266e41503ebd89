import StatesLanguage.Json.Reader
import StatesLanguage.Task
import StatesLanguage.Text.Utf8

/-!
# Tasks that invoke functions

The function gets the parameters as its payload and its answer is the payload of the reply. A reply
that is marked as an error fails the task, named by the mark.
-/

namespace StatesLanguage.Task

def timedOut : Failure :=
  .ofKind .timeout "State or Execution ran for longer than the specified TimeoutSeconds value"

def decodeText (text : String) : Outcome Value :=
  if text = "" then .ok .null
  else match Json.decode text with
    | .ok v => .ok v
    | .error _ => .error (.runtime ("Response " ++ text ++ " does not contain valid JSON"))

/-- What the payload of a reply stands for. -/
def decodePayload : Value → Outcome Value
  | .datum (.bytes content) => do decodeText (← Text.ofUtf8 content)
  | .str text => decodeText text
  | v => .ok v

/-- What a function says about its error, of whatever kind that is, or else all that it answers. -/
def errorMessage (result : Value) : Outcome Value :=
  match result.get? "errorMessage" with
  | some message => .ok message
  | none => (Json.encode result).map .str

/-- The result of a reply, unless it is marked as an error. -/
def functionResult (reply : Value) : Outcome Value := do
  let result ← decodePayload (← reply.memberOr "Payload" .null)
  let mark ← reply.memberOr "FunctionError" .null
  if mark.truthy then throw (.withName .named mark (← errorMessage result))
  return result

/-- Invokes a function, unless its time is over before it begins. -/
def callFunction (request : Value) (limit : Int) : Work Value := do
  if limit ≤ 0 then
    Work.sleep 0
    throw timedOut
  match ← Work.await (.call (.invoke request) (some limit.toNat)) with
  | none => throw timedOut
  -- An error of this kind that the client raises cannot be told from the end of the wait.
  | some (.error (.client "TimeoutError" _)) => throw timedOut
  | some outcome => Work.ofOutcome outcome

variable [Room]

/-- Calls a function and waits for its reply, for no longer than the timeout. -/
def runFunction (task : Task) (scope : Scope) (parameters : Value) : Work Value := do
  let payload ← Work.ofOutcome (Json.encode parameters)
  let seconds ← Work.ofOutcome (task.timeout.floorDiv (.int 1000))
  let details := task.details [("parameters", .str payload), ("timeoutInSeconds", seconds)]
  Work.recordValues scope "TaskScheduled" details
  task.count .scheduled
  task.started scope
  -- The event tells whole seconds, the call gets all of the time.
  let limit ← Work.ofOutcome (task.timeout.div (.int 1000))
  let limit ← Work.ofOutcome (limit.micros second)
  let request := .obj [("FunctionName", .str task.resource), ("Payload", .str payload)]
  Work.ofOutcome (functionResult (← callFunction request limit))

end StatesLanguage.Task
