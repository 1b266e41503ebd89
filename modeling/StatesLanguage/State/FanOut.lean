import StatesLanguage.State.Retrying

/-!
# States that run machines inside them

A Parallel state runs its branches, and a Map state its processor once for each item, at the same
time. The outputs are collected in the order of the branches or items. What is still running when
one of them fails goes on running.
-/

namespace StatesLanguage.State

variable [Room]

/-- Records that the state has failed for good. -/
def recordFailed (s : State) (site : Site) (e : Failure) : Work Unit :=
  Work.recordFailure site.scope (s.kind.name ++ "StateFailed") [("name", .str s.name)] e

/-- The outputs of jobs, in their order. -/
def joined (jobs : List Job) : Work Value := do
  return .arr (← Work.ofOutcome (← Work.await (.join jobs)))

/-! ## Parallel -/

/-- All branches at once, each with the same input. -/
def runBranches (s : State) (site : Site) (input effective context : Value) : Work Value := do
  let branches ← Work.ofOutcome (s.field "Branches" .null).iterate
  let result ← joined (branches.map fun branch => .branch site.machine branch effective)
  Work.record site.scope "ParallelStateSucceeded" [("name", .str s.name)]
  s.finish input result context

def runParallel (s : State) (site : Site) (entered : Nat) (input : Value) : Work Transition := do
  let context := s.context site entered 0
  let effective ← s.filterInput input context
  let effective ← s.parameters effective context
  Work.record site.scope "ParallelStateStarted" [("name", .str s.name)]
  s.runWithRetry input
    (fun failed => s.runBranches site input effective (s.context site entered failed))
    (s.recordFailed site)

/-! ## Map -/

def tooFewSlots : Failure :=
  .fault .badValue "Semaphore initial value must be >= 0"

/-- The number of iterations that may run at a time; `none` if there is no bound. Zero asks for all
items at a time, and a number that is not whole is never used up. -/
def capacity (most : Value) (items : Nat) : Outcome (Option Nat) :=
  if !most.truthy then .ok (some (max items 1))
  else match most.number? with
    | none => .error (Value.incomparable most (.int 0))
    | some (.int n) => if n < 0 then .error tooFewSlots else .ok (some n.toNat)
    | some (.float x) =>
      if x < 0 then .error tooFewSlots
      else match Binary.ratio? x with
        | some (num, den) => .ok (if num % den = 0 then some (num / den).toNat else none)
        | none => .ok none

def selector? (s : State) : Option Value :=
  match s.field "ItemSelector" (s.field "Parameters" .null) with
  | .null => none
  | template => some template

/-- An iteration for each item, with so many slots for them as the state allows. -/
def runItems (s : State) (site : Site) (processor input effective : Value) (items : List Value)
    (context : Value) : Work Value := do
  let capacity ← Work.ofOutcome (capacity (s.field "MaxConcurrency" (.int 0)) items.length)
  let slots ← Work.await (.makeSlots capacity)
  let result ← joined (items.zipIdx.map fun (item, index) =>
    .iteration site.machine slots ⟨s.name, processor, index, item, s.selector?, effective, context⟩)
  Work.record site.scope "MapStateSucceeded" []
  s.finish input result context

def noItems (s : State) : Failure :=
  .telling (s.field "ItemsPath" Path.root).display fun path =>
    .ofKind .invalidPath ("Map state " ++ s.name ++ " ItemsPath " ++ path ++ " must select an array")

def runMap (s : State) (site : Site) (entered : Nat) (processor input : Value) : Work Transition := do
  let context := s.context site entered 0
  let effective ← s.filterInput input context
  match ← Work.ofOutcome (Path.apply effective context (s.field "ItemsPath" Path.root)) with
  | .arr items =>
    Work.record site.scope "MapStateStarted" [("length", .int items.length)]
    s.runWithRetry input
      (fun failed => s.runItems site processor input effective items (s.context site entered failed))
      (s.recordFailed site)
  | _ => throw s.noItems

end StatesLanguage.State
