import StatesLanguage.Polling
import StatesLanguage.RetryPolicy

/-!
# Tasks

A task state calls the resource that its name stands for. What can be known to be wrong with a task
from its definition alone is found before anything is recorded or called.
-/

namespace StatesLanguage

/-- What a task state calls, and within what time. -/
structure Task where
  name : String
  definition : Value
  kind : ResourceKind
  resource : String
  /-- The timeout and the interval of polling, in milliseconds. -/
  timeout : Value
  pollInterval : Value
  /-- The first part of the names of metrics, if they are asked for. -/
  metrics : Option String
  deriving Inhabited

namespace Task

/-- The timeout, in seconds, of a task that has none of its own. -/
def defaultTimeout : Value := .int 99999999

def missing (what name : String) : Failure :=
  .ofKind .missingAttribute
    ("Required attribute '" ++ what ++ "' not found for ECS state " ++ name ++ ".")

/-- A container needs parameters that name what is to run. -/
def checkContainer (name : String) (definition : Value) : Outcome Unit := do
  let parameters ← definition.memberOr "Parameters" .null
  if !parameters.truthy then throw (missing "Parameters" name)
  if ← parameters.holds (.str "TaskDefinition") then return ()
  if ← parameters.holds (.str "TaskDefinition.$") then return ()
  throw (missing "Parameters.TaskDefinition" name)

variable [Room]

def check (kind : ResourceKind) (name resource : String) (definition : Value) (exists? : Bool) :
    Outcome Unit :=
  match kind with
  | .function => .ok ()
  | .runTaskSync | .runTaskAsync => checkContainer name definition
  | .activity =>
    if exists? then .ok () else .error (ActivityQueue.noSuchActivity (.str resource))

def interval (kind : ResourceKind) (config : Value) : Outcome Value := do
  match kind with
  | .function => return Polling.defaultInterval
  | .runTaskSync | .runTaskAsync =>
    (← config.memberOr "ecs" (.obj [])).memberOr "poll_interval" Polling.defaultInterval
  | .activity => (← config.memberOr "activity" (.obj [])).memberOr "poll_interval" (.int 1000)

def service? : ResourceKind → Option Client.Service
  | .function => some .lambda
  | .runTaskSync | .runTaskAsync => some .ecs
  | .activity => none

def checkService (kind : ResourceKind) (config : Value) : Outcome Unit :=
  match service? kind with
  | some service => (Client.Transport.ofConfig service config).map fun _ => ()
  | none => .ok ()

/-- A task as its definition and the configuration say. -/
def create (name : String) (definition config : Value) (exists? : Bool) : Outcome Task := do
  let resource ← definition.memberOr "Resource" .null
  let kind ← ResourceKind.classify resource
  let config := config.orElse (.obj [])
  let seconds ← definition.memberOr "TimeoutSeconds" defaultTimeout
  let timeout ← seconds.mul (.int 1000)
  let metrics ← Metrics.namespace? config
  -- What is classified is a text.
  let resource := resource.asString?.getD ""
  check kind name resource definition exists?
  checkService kind config
  let pollInterval ← interval kind config
  return ⟨name, definition, kind, resource, timeout, pollInterval, metrics⟩

def resourceType : ResourceKind → String
  | .function => "lambda"
  | .runTaskSync | .runTaskAsync => "ecs"
  | .activity => "activity"

/-- The details of an event of a task, which begin with the resource. -/
def details (task : Task) (more : Members) : Members :=
  [("resource", .str task.resource), ("resourceType", .str (resourceType task.kind))] ++ more

def count (task : Task) (event : Metrics.Event) : Work Unit :=
  match task.metrics with
  | some space => Work.perform (.count space (.of task.kind) event task.resource)
  | none => pure ()

def observe (task : Task) (micros : Nat) : Work Unit :=
  match task.metrics with
  | some space => Work.perform (.observe space (.of task.kind) task.resource micros)
  | none => pure ()

def scheduled (task : Task) (scope : Scope) (more : Members) : Work Unit := do
  Work.record scope "TaskScheduled" (task.details more)
  task.count .scheduled

def started (task : Task) (scope : Scope) : Work Unit :=
  Work.record scope "TaskStarted" (task.details [])

end Task

end StatesLanguage
