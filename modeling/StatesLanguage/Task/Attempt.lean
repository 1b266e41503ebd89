import StatesLanguage.Task.Activity
import StatesLanguage.Task.Container
import StatesLanguage.Task.Function

/-!
# Attempts at a task

One attempt works out the parameters, calls the resource, and fits the result into the output. The
call itself is framed by events, a span and metrics.
-/

namespace StatesLanguage.Task

variable [Room]

def invoke (task : Task) (scope : Scope) (parameters : Value) : Work Value :=
  match task.kind with
  | .function => task.runFunction scope parameters
  | .runTaskSync | .runTaskAsync => task.runContainer scope parameters
  | .activity => task.runActivity scope parameters

/-- A call that is late is counted apart from one that fails. -/
def failureEvent (e : Failure) : Metrics.Event :=
  if e.kind? = some .timeout then .timedOut else .failed

/-- What is counted and recorded of a call that fails. -/
def callFailed (task : Task) (scope : Scope) (e : Failure) : Work Unit := do
  Work.recordFailure scope "TaskFailed" (task.details []) e
  task.count (failureEvent e)

/-- A call with all that is counted and recorded of it; its time is observed however it ends. -/
def invokeResource (task : Task) (execution : String) (scope : Scope) (parameters : Value) :
    Work Value := do
  let start ← Work.now
  let outcome ← (task.invoke scope parameters).outcome
  match outcome with
  | .error e =>
    -- If the error cannot be told, what goes wrong with telling it takes its place.
    let raised := match ← (task.callFailed scope e).outcome with
      | .ok () => e
      | .error problem => problem
    task.observe ((← Work.now) - start)
    Work.perform (.span ⟨task.resource, execution, e.text.toOption.map fun _ => e, some raised⟩)
    throw raised
  | .ok result =>
    task.observe ((← Work.now) - start)
    Work.perform (.span ⟨task.resource, execution, none, none⟩)
    let text ← Work.ofOutcome (Json.encode result)
    Work.record scope "TaskSucceeded" (task.details [("output", .str text)])
    task.count .succeeded
    return result

end StatesLanguage.Task
