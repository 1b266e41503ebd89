import StatesLanguage.Config
import StatesLanguage.Machine
import StatesLanguage.Scheduler
import StatesLanguage.Worker

/-!
# Running workflows

An interpreter has a configuration, the services and the queue of activities. It runs a machine as
an execution, beside workers, to the end, and keeps the record of it.
-/

namespace StatesLanguage

/-- An interpreter with its configuration and the world that its executions run in. -/
structure Interpreter where
  config : Value
  world : World
  deriving Inhabited

/-- What an execution is started with. -/
structure StartRequest where
  /-- The machine, as an object or as JSON text. -/
  definition : Value
  input : Value
  name : Value
  machineArn : Value
  deriving Inhabited

/-- How starting an execution has ended, and the world then. -/
structure Run where
  /-- Whether an execution came into being. -/
  started : Bool
  outcome : Outcome Unit
  world : World
  deriving Inhabited

namespace Interpreter

def announcement : LogEntry := ⟨.info, "Creating Interpreter, using ujson JSON parser"⟩

variable [Room]

def create (now : Nat) (env : Config.Environment) (source : Config.Source)
    (script : Table (List Client.Answer)) : Outcome Interpreter := do
  let config ← Config.load env source
  let lambda ← Client.Transport.ofConfig .lambda config
  let ecs ← Client.Transport.ofConfig .ecs config
  let world := World.create now .empty ⟨lambda, ecs, script, [], []⟩
  return ⟨config, world.log announcement⟩

def createActivity (i : Interpreter) (arn : Value) : Outcome Interpreter := do
  let (_, queue) ← i.world.queue.perform (.createActivity (Instant.render i.world.now) arn)
  return { i with world := { i.world with queue } }

def createActivities (i : Interpreter) : List Value → Outcome Interpreter
  | [] => .ok i
  | arn :: rest => do createActivities (← i.createActivity arn) rest

def loggingOf (config : Value) : Value :=
  ((config.get? "state_machine").bind (·.get? "logging_configuration")).getD .null

/-- The end of an execution that fails: it is marked before its event is recorded, and the error is
told in both. -/
def concludeFailed (identity : Identity) (e : Failure) : Work Value := do
  Work.perform (.conclude (.error e))
  Work.recordFailure .top "ExecutionFailed" [] e
  Work.tell .error (do
    return "Execution " ++ identity.arn ++ " failed with " ++ (← e.name.display) ++ ": " ++ (← e.text))
  throw e

/-- The end of an execution that succeeds. -/
def concludeSucceeded (output : Value) : Work Value := do
  Work.perform (.conclude (.ok output))
  let text ← Work.ofOutcome (Json.encode output)
  Work.record .top "ExecutionSucceeded" [("output", .str text)]
  return output

/-- The run of an execution. What goes wrong before the machine is made leaves the execution as it
is. -/
def executionWork (identity : Identity) (config definition : Value) : Work Value := do
  let text ← Work.ofOutcome (Json.encode identity.input)
  Work.record .top "ExecutionStarted"
    [("input", .str text), ("stateMachineArn", .str identity.machineArn)]
  let _ ← Work.ofOutcome identity.logPolicy
  let machine ← Work.ofOutcome (Machine.ofDefinition definition)
  -- From here on the execution is concluded, however its machine ends.
  match ← (machine.run ⟨identity, config, []⟩ identity.input).outcome with
  | .error e => concludeFailed identity e
  | .ok output => concludeSucceeded output

/-- A definition given as text is read first. -/
def readDefinition : Value → Outcome Value
  | .str text => Json.decode text
  | v => .ok v

/-- The identity of an execution, and the identifiers drawn by then. -/
def identify (i : Interpreter) (request : StartRequest) : Outcome Identity × Nat :=
  (Identity.create request.name request.machineArn request.input (loggingOf i.config) i.world.now).runFrom
    i.world.drawn

/-- The execution as the main thread, with workers beside it. -/
def runExecution (i : Interpreter) (identity : Identity) (definition : Value) (workers : List Worker) :
    Scheduler :=
  let world := { i.world with execution := Execution.create identity }
  let main := (executionWork identity i.config definition).run
  let aside := workers.map fun w => w.work.run
  Scheduler.run (fun job => (job.work identity i.config).run) Scheduler.manyTurns
    (Scheduler.create world main aside)

def outcomeOf (s : Scheduler) : Outcome Unit :=
  match s.result with
  | some outcome => outcome.map fun _ => ()
  | none => .error (.runtime "The execution did not end")

/-- An execution from its request to its end. -/
def start (i : Interpreter) (request : StartRequest) (workers : List Worker) : Run :=
  match readDefinition request.definition with
  | .error e => ⟨false, .error e, i.world⟩
  | .ok definition =>
    match i.identify request with
    | (.error e, drawn) => ⟨false, .error e, { i.world with drawn }⟩
    | (.ok identity, drawn) =>
      let i := { i with world := { i.world with drawn } }
      let s := i.runExecution identity definition workers
      ⟨true, outcomeOf s, s.world⟩

end Interpreter

end StatesLanguage
