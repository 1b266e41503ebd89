import StatesLanguage.Arn
import StatesLanguage.Value.Access

/-!
# Activity queues

The hand-off of work between task states and the workers of an activity. A task state schedules
work under a fresh token; a worker claims the oldest work of an activity and later reports on its
token; the task state takes that report, once. A token lives until its report is taken or the work
is cancelled.
-/

namespace StatesLanguage

/-- An activity that workers may ask work of. -/
structure Activity where
  arn : String
  name : String
  created : String
  deriving DecidableEq, Inhabited

def Activity.toValue (a : Activity) : Value :=
  .obj [("activityArn", .str a.arn), ("name", .str a.name), ("creationDate", .str a.created)]

/-- Work that waits for a worker of its activity, under a token of its own. -/
structure ScheduledTask where
  token : String
  input : Value
  deriving Inhabited

def ScheduledTask.toValue (t : ScheduledTask) : Value :=
  .obj [("taskToken", .str t.token), ("input", t.input)]

/-- What a worker says its work has come to. -/
inductive Report where
  | success (output : Value)
  | failure (error cause : Value)
  deriving Inhabited

def Report.toValue : Report → Value
  | success output => .obj [("output", output)]
  | failure error cause => .obj [("error", error), ("cause", cause)]

/-- A report is one of failure as soon as it gives an error or a cause. -/
def Report.ofParts (output error cause : Value) : Report :=
  match error, cause with
  | .null, .null => .success output
  | _, _ => .failure error cause

/-- The activities, their work that waits, the tokens that are claimed or have begun, and the
reports that nobody has taken yet. -/
structure ActivityQueue where
  activities : Table Activity
  /-- The unclaimed work of each activity, oldest first. -/
  pending : Table (List ScheduledTask)
  /-- The workers of claimed work, by token. -/
  claimed : Table Value
  reports : Table Report
  /-- The tokens that are still to be settled. -/
  live : List String
  deriving Inhabited

namespace ActivityQueue

def empty : ActivityQueue := ⟨[], [], [], [], []⟩

variable [Room]

def invalidArn (arn : Value) : Failure :=
  .telling arn.display fun arn => .ofKind .invalidArn ("Invalid Arn: '" ++ arn ++ "'")

def invalidParameter (name : String) : Failure :=
  .ofKind .invalidParameter ("Invalid parameter value: " ++ name)

def noSuchActivity (arn : Value) : Failure :=
  .telling arn.display fun arn => .ofKind .noSuchActivity ("Activity does not exist: '" ++ arn ++ "'")

def invalidToken (token : Value) : Failure :=
  .telling token.display fun token => .ofKind .invalidToken ("Invalid Token: '" ++ token ++ "'")

/-- Whether a value is the name of an activity. -/
def isKind (arn : Value) : Bool :=
  Arn.isValid arn (.str "activity")

/-! ## Operations by name -/

/-- The queue with an activity, which an existing one of that name stays. -/
def addActivity (q : ActivityQueue) (activity : Activity) : ActivityQueue :=
  if Table.has q.activities activity.arn then q
  else { q with
    activities := Table.put q.activities activity.arn activity
    pending := Table.put q.pending activity.arn [] }

def hasActivity (q : ActivityQueue) (arn : String) : Bool :=
  Table.has q.activities arn

/-- The queue with work added behind the other work of its activity, if there is such an activity.
-/
def schedule? (q : ActivityQueue) (arn : String) (task : ScheduledTask) : Option ActivityQueue :=
  (Table.get? q.pending arn).map fun tasks => { q with
    pending := Table.put q.pending arn (tasks ++ [task])
    live := q.live ++ [task.token] }

/-- Hands the oldest work of an activity to a worker. -/
def claim? (q : ActivityQueue) (arn : String) (worker : Value) :
    Option (ScheduledTask × ActivityQueue) :=
  match Table.get? q.pending arn with
  | some (task :: rest) => some (task, { q with
      pending := Table.put q.pending arn rest
      claimed := Table.put q.claimed task.token worker })
  | _ => none

/-- Whether a worker has taken the work of a token. -/
def isClaimed (q : ActivityQueue) (token : String) : Bool :=
  Table.has q.claimed token

/-- Accepts the first report on a live token. -/
def report? (q : ActivityQueue) (token : String) (report : Report) : Option ActivityQueue :=
  if q.live.contains token && !Table.has q.reports token then
    some { q with reports := Table.put q.reports token report }
  else none

/-- Takes the report on a token, after which the token is settled. -/
def takeReport? (q : ActivityQueue) (token : String) : Option (Report × ActivityQueue) :=
  (Table.get? q.reports token).map fun report => (report, { q with
    claimed := Table.erase q.claimed token
    reports := Table.erase q.reports token
    live := q.live.filter (· != token) })

/-- The queue without the work of a token, wherever it stands. -/
def cancel (q : ActivityQueue) (token : String) : ActivityQueue :=
  { q with
    pending := q.pending.map fun (arn, tasks) => (arn, tasks.filter (·.token != token))
    claimed := Table.erase q.claimed token
    reports := Table.erase q.reports token
    live := q.live.filter (· != token) }

/-! ## Operations on any values -/

/-- What can be asked of a queue. The token of work is drawn, and the date of an activity read off
the clock, before the queue is asked. -/
inductive Operation where
  | createActivity (date : String) (arn : Value)
  | hasActivity (arn : Value)
  | scheduleTask (token : String) (arn input : Value)
  | findPendingTask (arn worker : Value)
  | getActivityTask (arn worker : Value)
  | isClaimed (token : Value)
  | enqueueResult (token output error cause : Value)
  | getResult (token : Value)
  | cancelTask (token : Value)

/-- A text of 1 to so many characters. -/
def isText (most : Nat) : Value → Bool
  | .str s => 1 ≤ s.length && s.length ≤ most
  | _ => false

def findPendingTask (q : ActivityQueue) (arn worker : Value) : Outcome (Value × ActivityQueue) := do
  match (← arn.asKey).bind (q.claim? · worker) with
  | some (task, q) => return (task.toValue, q)
  | none => return (.null, q)

def getActivityTask (q : ActivityQueue) (arn worker : Value) : Outcome (Value × ActivityQueue) := do
  if !isText 256 arn then throw (invalidParameter "activityArn")
  if !(worker matches .null) && !isText 80 worker then throw (invalidParameter "workerName")
  if !isKind arn then throw (invalidArn arn)
  if !(((← arn.asKey).map q.hasActivity).getD false) then throw (noSuchActivity arn)
  q.findPendingTask arn worker

/-- The answer to an operation and the queue after it. One that fails leaves the queue as it was. -/
def perform (q : ActivityQueue) : Operation → Outcome (Value × ActivityQueue)
  | .createActivity date arn =>
    match arn with
    | .str name =>
      if isKind arn then
        let q := q.addActivity ⟨name, ((Arn.parse? name).map (·.resource)).getD "", date⟩
        .ok (((Table.get? q.activities name).map Activity.toValue).getD .null, q)
      else .error (invalidArn arn)
    | _ => .error (invalidArn arn)
  | .hasActivity arn => do return (.bool (((← arn.asKey).map q.hasActivity).getD false), q)
  | .scheduleTask token arn input => do
    match (← arn.asKey).bind (q.schedule? · ⟨token, input⟩) with
    | some q => return (.str token, q)
    | none => throw (noSuchActivity arn)
  | .findPendingTask arn worker => q.findPendingTask arn worker
  | .getActivityTask arn worker => q.getActivityTask arn worker
  | .isClaimed token => do return (.bool (((← token.asKey).map q.isClaimed).getD false), q)
  | .enqueueResult token output error cause => do
    match (← token.asKey).bind (q.report? · (Report.ofParts output error cause)) with
    | some q => return (.null, q)
    | none => throw (invalidToken token)
  | .getResult token =>
    -- Where there are no reports, the token is not even looked at.
    if q.reports.isEmpty then .ok (.null, q)
    else do
      match (← token.asKey).bind q.takeReport? with
      | some (report, q) => return (report.toValue, q)
      | none => return (.null, q)
  | .cancelTask token => do return (.null, ((← token.asKey).map q.cancel).getD q)

/-- What is logged of a worker that claims work. -/
def claimNote (worker task arn : Value) : Outcome String := do
  return "Worker " ++ (← worker.display) ++ " claimed task " ++
    (← ((task.get? "taskToken").getD .null).display) ++ " of " ++ (← arn.display)

end ActivityQueue

end StatesLanguage
