import StatesLanguage.Json.Writer
import StatesLanguage.Task

/-!
# Tasks that run containers

A container task is launched from those parameters that the service knows. In the synchronous form
the task then asks for the state of what it has launched until that has stopped.
-/

namespace StatesLanguage.Task

def containerParameters : List String :=
  ["Cluster", "Group", "LaunchType", "NetworkConfiguration", "Overrides", "PlacementConstraints",
    "PlacementStrategy", "PlatformVersion", "TaskDefinition"]

variable [Room]

/-- The request to launch a container, in the spelling of the service. -/
def launchRequest (parameters : Value) : Outcome Value :=
  match parameters with
  | .obj members => camelParameters (.obj (containerParameters.filterMap fun key =>
      match Table.get? members key with
      | none | some .null => none
      | some v => some (key, v)))
  | v => .error (.noField ("'" ++ v.kindName ++ "' object has no attribute 'get'"))

/-- The description of a container in a reply, which must be about one. -/
def oneContainer (reply : Value) : Outcome Value := do
  let tasks ← reply.memberOr "tasks" .null
  let one ← if tasks.truthy then pure ((← tasks.size) == 1) else pure false
  if !one then
    throw (.ofKind .taskFailed
      ("Expected to find one ECS Task in the results, but got: " ++ (← Json.encode tasks)))
  tasks.first

def launchFailed (name failures : String) : Failure :=
  .ofKind .launchFailures
    ("There were failures running the ECS Task for state " ++ name ++ ": " ++ failures)

/-- A launch fails if any of its containers does. -/
def checkLaunch (task : Task) (reply : Value) : Outcome Unit := do
  let failures ← reply.memberOr "failures" .null
  if failures.truthy then throw (launchFailed task.name (← Json.encode failures))

/-- The request for the state of the container that a launch has started, in the same cluster. -/
def describeRequest (request reply : Value) : Outcome Value := do
  let arn ← (← oneContainer reply).require "taskArn"
  let cluster := (request.get? "cluster").getD .null
  return .obj ([("tasks", .arr [arn])] ++ if cluster.truthy then [("cluster", cluster)] else [])

def callService (c : Client.Call) : Work Value := do
  match ← Work.await (.call c none) with
  | some outcome => Work.ofOutcome outcome
  | none => throw (.ofKind .timeout "")

/-- Asks for the state of a container; the state of the poll says whether it was seen running. -/
def containerProgress (task : Task) (scope : Scope) (request : Value) (seen : Bool) :
    Work (Option Value × Bool) := do
  let description ← callService (.describeTasks request)
  let container ← Work.ofOutcome (oneContainer description)
  let status ← Work.ofOutcome (container.memberOr "lastStatus" .null)
  let starts := status.same (.str "RUNNING") && !seen
  if starts then task.started scope
  return (if status.same (.str "STOPPED") then some description else none, seen || starts)

/-- Launches a container, and waits for it to stop if the resource says so. -/
def runContainer (task : Task) (scope : Scope) (parameters : Value) : Work Value := do
  let request ← Work.ofOutcome (launchRequest parameters)
  let reply ← callService (.runTask request)
  Work.ofOutcome (task.checkLaunch reply)
  let text ← Work.ofOutcome (Json.encode request)
  task.scheduled scope [("parameters", .str text)]
  if task.kind = .runTaskAsync then return reply
  let describe ← Work.ofOutcome (describeRequest request reply)
  Polling.untilDone (containerProgress task scope describe) task.timeout task.pollInterval false

end StatesLanguage.Task
