import StatesLanguage.Duration
import StatesLanguage.Process

/-!
# Polling

Asking again and again, at a fixed interval, whether something is done, until a timeout. The last
question is asked when the timeout is reached, so that what is done by then is not missed.
-/

namespace StatesLanguage.Polling

/-- The output that a value reports, if it reports that something is done; nothing at all counts as
not done. -/
def outputOf (v : Value) : Outcome (Option Value) := do
  let v := v.orElse (.obj [])
  let done ← v.memberOr "done" .null
  let output ← v.memberOr "output" .null
  return if done.truthy then some output else none

/-- The interval between questions, in milliseconds, unless another is given. -/
def defaultInterval : Value := .int 3000

/-- The error of a poll that is late, which tells its timeout. -/
def exceeded [Room] (timeout : Value) : Failure :=
  .telling timeout.display fun timeout =>
    .ofKind .timeout ("Exceeded timeout of " ++ timeout ++ "ms waiting for completion")

/-! ## Pace -/

/-- When to ask again: given the times of the first question and of the last one, in microseconds
since the run began, the pause before the next, or nothing if the timeout has passed. -/
abbrev Pace := Nat → Nat → Outcome (Option Nat)

/-- The time as the clock shows it, in floating seconds. -/
def clockSeconds (micros : Nat) : Float :=
  Binary.ofRatio false micros second

/-- The pace of a timeout and an interval in milliseconds, measured with floating seconds. Where
rounding leaves a little of the timeout when it has passed, there is one short pause more. -/
def measuredPace (timeout interval : Value) : Pace := fun first last => do
  let elapsed := (clockSeconds last - clockSeconds first) * 1000.0
  let remaining ← timeout.sub (.float elapsed)
  if ← remaining.notAfter (.int 0) then return none
  let pause := if ← remaining.before interval then remaining else interval
  return some (← (← pause.div (.int 1000)).pause)

/-! ## Questions -/

/-- The microseconds of a number of milliseconds; other values count as none. -/
def microsOrZero (v : Value) : Int :=
  (v.micros millisecond).toOption.getD 0

/-- Questions that a poll may ask without the clock moving. -/
def patience : Nat := 1000000000

/-- How often a poll asks again at most, whose timeout and interval are given in milliseconds. -/
def rounds (timeout interval : Value) : Nat :=
  (microsOrZero timeout).toNat / max (microsOrZero interval).toNat 1 + patience

variable {σ α : Type}

/-- Asks again so many times at most, with a state that the questions hand on. A question is answered
by an output once something is done; a poll that is late fails. -/
def ask (check : σ → Work (Option α × σ)) (pace : Pace) (late : Failure) (first : Nat) :
    Nat → σ → Work α := fun left s => do
  match ← check s with
  | (some output, _) => return output
  | (none, s) =>
    match ← Work.ofOutcome (pace first (← Work.elapsed)) with
    | none => throw late
    | some pause =>
      match left with
      | 0 => throw late
      | left + 1 =>
        Work.sleep pause
        ask check pace late first left s

variable [Room]

/-- Asks until something is done, from now until the timeout. -/
def untilDone (check : σ → Work (Option α × σ)) (timeout interval : Value) (s : σ) : Work α := do
  ask check (measuredPace timeout interval) (exceeded timeout) (← Work.elapsed)
    (rounds timeout interval) s

end StatesLanguage.Polling
