import StatesLanguage.Json.Reader
import StatesLanguage.Json.Writer
import StatesLanguage.Task

/-!
# Tasks that are done by workers

The parameters are queued for the workers of an activity, and the task waits for the report of the
worker that claims them. If it has waited too long, the work is cancelled.
-/

namespace StatesLanguage.Task

/-- The result that a worker's report stands for: an output that is a text is read as JSON. -/
def reportResult : Report → Outcome Value
  | .success (.str text) =>
    match Json.decode text with
    | .ok v => .ok v
    | .error _ => .error (.runtime ("Activity output " ++ text ++ " is not valid JSON"))
  | .success output => .ok output
  | .failure error cause =>
    .error (.withName .named (error.orElse (.str "States.TaskFailed"))
      (cause.orElse (.str "")))

/-- Looks for a claim and takes a report; the state of the poll says whether a claim was seen. -/
def activityProgress (task : Task) (scope : Scope) (token : String) (seen : Bool) :
    Work (Option Report × Bool) := do
  let starts ← if seen then pure false else Work.perform (.isClaimed token)
  if starts then task.started scope
  return (← Work.perform (.takeReport token), seen || starts)

variable [Room]

/-- Waits for the report on a token, which is cancelled after a timeout. -/
def awaitReport (task : Task) (scope : Scope) (token : String) : Work Report := do
  let poll := Polling.untilDone (activityProgress task scope token) task.timeout task.pollInterval
  match ← (poll false).outcome with
  | .ok report => return report
  | .error e =>
    -- Only a timeout withdraws the work; after any other error its token stays live.
    if e.kind? = some .timeout then Work.perform (.cancelTask token)
    throw e

/-- Work is put into the queue, and the report on it is what the task comes to. -/
def runActivity (task : Task) (scope : Scope) (parameters : Value) : Work Value := do
  let input ← Work.ofOutcome (Json.encode parameters)
  let token ← Work.ofOutcome (← Work.perform (.scheduleTask task.resource input))
  task.scheduled scope [("parameters", .str input)]
  Work.ofOutcome (reportResult (← task.awaitReport scope token))

end StatesLanguage.Task
