import StatesLanguage.Polling
import StatesLanguage.Scheduler

/-!
# Rehearsed polls

A poll whose questions are answered by a script, each answer after its delay.
-/

namespace StatesLanguage.Polling

/-- Asks a question of a script. A script without entries is never done. -/
def scriptedCheck (script : List Client.Answer) : Work (Option Value × List Client.Answer) := do
  Work.perform (.note .checked)
  match Client.nextEntry script with
  | none => return (none, [])
  | some (answer, rest) =>
    if answer.delay > 0 then Work.sleep answer.delay
    let output ← Work.ofOutcome (answer.outcome >>= outputOf)
    return (output, rest)

variable [Room]

/-- A poll of scripted answers, as the only thread of a scheduler. -/
def rehearse (now : Nat) (script : List Client.Answer) (timeout interval : Value) : Scheduler :=
  let main := (untilDone scriptedCheck timeout interval script).run
  Scheduler.run (fun _ => .ret (.ok .null)) Scheduler.manyTurns
    (Scheduler.create (World.create now .empty default) main [])

end StatesLanguage.Polling
