import StatesLanguage.Duration
import StatesLanguage.Process

/-!
# Workers

A worker asks once, at its time, for work of an activity, and reports on what it gets after a
while.
-/

namespace StatesLanguage

/-- A worker of an activity, and how it goes about its work. -/
structure Worker where
  /-- When the worker asks for work, in seconds. -/
  start : Value
  activity : Value
  name : Value
  /-- What it reports, if it reports at all. -/
  report : Option Value
  /-- How long it works, in seconds. -/
  effort : Value
  deriving Inhabited

namespace Worker

/-- What goes wrong for a worker is noted. -/
def noteError (o : Outcome Unit) : Work Unit :=
  match o with
  | .ok () => pure ()
  | .error e => Work.perform (.note (.failed e))

def pause (seconds : Value) : Work Unit := do
  Work.sleep (← Work.ofOutcome (seconds.micros second)).toNat

def reportParts : List String := ["output", "error", "cause"]

/-- A report must be an object without other members than those of a report. -/
def checkReport : Value → Outcome Unit
  | .obj members =>
    if members.all fun member => reportParts.contains member.1 then .ok ()
    else .error (.wrongType "a report has no part of that name")
  | v => .error (.wrongType ("'" ++ v.kindName ++ "' object is no report"))

def sendReport (task report : Value) : Work Unit := do
  Work.ofOutcome (checkReport report)
  let part (v : Value) (key : String) : Value := (v.get? key).getD .null
  let answer ← Work.perform (.enqueueResult (part task "taskToken") (part report "output")
    (part report "error") (part report "cause"))
  Work.ofOutcome answer
  Work.perform (.note .reported)

/-- Asks for work once. If there is some, the worker takes its time for it and reports. -/
def serve (w : Worker) : Work Unit := do
  let task ← Work.ofOutcome (← Work.perform (.getActivityTask w.activity w.name))
  Work.perform (.note (.claimed task))
  match w.report with
  | some report =>
    if task.truthy then
      pause w.effort
      sendReport task report
  | none => pure ()

def work (w : Worker) : Work Value := do
  pause w.start
  noteError (← w.serve.outcome)
  return .null

end Worker

end StatesLanguage
