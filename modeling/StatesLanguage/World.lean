import StatesLanguage.Process

/-!
# The world of a run

All that the processes of a run share, and how it answers their effects.
-/

namespace StatesLanguage

/-- All that threads can change: the execution, the logs, the queue, the services and the metrics,
with the time. -/
structure World where
  /-- When the run began, in microseconds since 1970. -/
  began : Nat
  /-- The time, in microseconds since 1970. -/
  now : Nat
  /-- The number of identifiers drawn. -/
  drawn : Nat
  execution : Execution
  logs : Array LogEntry
  queue : ActivityQueue
  services : Client.Services
  metrics : Metrics.Registry
  spans : Array Span
  /-- How many machines were started inside each machine. -/
  machines : List (List Nat × Nat)
  notes : Array (Nat × Note)
  deriving Inhabited

namespace World

def create (now : Nat) (queue : ActivityQueue) (services : Client.Services) : World :=
  { began := now, now, drawn := 0, execution := default, logs := #[], queue, services, metrics := .empty,
    spans := #[], machines := [], notes := #[] }

def log (w : World) (entry : LogEntry) : World :=
  { w with logs := w.logs.push entry }

variable [Room]

def record (w : World) (scope : Scope) (type : String) (details : Members) : World :=
  let w := { w with execution := w.execution.addEvent scope w.now type details }
  match w.execution.identity.logEntry type details with
  | .ok entry => w.log entry
  | .error _ => w

def machinesIn (w : World) (parent : List Nat) : Nat :=
  (w.machines.lookup parent).getD 0

/-- The number of one more machine inside another. -/
def numberMachine (w : World) (parent : List Nat) : World :=
  { w with machines := (parent, w.machinesIn parent + 1) :: w.machines.filter (·.1 != parent) }

/-- The end of the execution, at the time it is. -/
def conclude (w : World) : Outcome Value → World
  | .ok output => { w with execution := w.execution.succeed w.now output }
  | .error e => { w with execution := w.execution.fail w.now e }

/-- Queues work under a fresh token, which stays drawn also if there is no such activity. -/
def scheduleTask (w : World) (arn input : String) : Outcome String × World :=
  let token := identifier (w.drawn + 1)
  let w := { w with drawn := w.drawn + 1 }
  match w.queue.schedule? arn ⟨token, .str input⟩ with
  | some queue => (.ok token, { w with queue })
  | none => (.error (ActivityQueue.noSuchActivity (.str arn)), w)

/-- A report is taken once. -/
def takeReport (w : World) (token : String) : Option Report × World :=
  match w.queue.takeReport? token with
  | some (report, queue) => (some report, { w with queue })
  | none => (none, w)

def getActivityTask (w : World) (arn worker : Value) : Outcome Value × World :=
  match w.queue.perform (.getActivityTask arn worker) with
  | .error e => (.error e, w)
  | .ok (task, queue) =>
    let w := { w with queue }
    match ActivityQueue.claimNote worker task arn with
    | .ok text => (.ok task, if task.truthy then w.log ⟨.debug, text⟩ else w)
    | .error _ => (.ok task, w)

def enqueueResult (w : World) (token output error cause : Value) : Outcome Unit × World :=
  match w.queue.perform (.enqueueResult token output error cause) with
  | .error e => (.error e, w)
  | .ok (_, queue) => (.ok (), { w with queue })

def expand (w : World) (input context template : Value) : Outcome Value × World :=
  let (outcome, drawn) := (Template.apply input context template).runFrom w.drawn
  (outcome, { w with drawn })

/-- What an effect is answered with, and what it changes. -/
def perform (w : World) : (e : Effect) → e.Reply × World
  | .now => (w.now, w)
  | .elapsed => (w.now - w.began, w)
  | .expand input context template => w.expand input context template
  | .record scope type details => ((), w.record scope type details)
  | .historySize => (w.execution.history.size, w)
  | .log level text => ((), w.log ⟨level, text⟩)
  | .numberMachine parent => (w.machinesIn parent, w.numberMachine parent)
  | .conclude outcome => ((), w.conclude outcome)
  | .hasActivity arn => (w.queue.hasActivity arn, w)
  | .scheduleTask arn input => w.scheduleTask arn input
  | .isClaimed token => (w.queue.isClaimed token, w)
  | .takeReport token => w.takeReport token
  | .cancelTask token => ((), { w with queue := w.queue.cancel token })
  | .getActivityTask arn worker => w.getActivityTask arn worker
  | .enqueueResult token output error cause => w.enqueueResult token output error cause
  | .createMetrics => ((), { w with metrics := { w.metrics with created := true } })
  | .count space family event resource =>
    ((), { w with metrics := w.metrics.count space family event resource })
  | .observe space family resource micros =>
    ((), { w with metrics := w.metrics.observe space family resource micros })
  | .span s => ((), { w with spans := w.spans.push s })
  | .note n => ((), { w with notes := w.notes.push (w.now, n) })

end World

end StatesLanguage
