import StatesLanguage.World

/-!
# The scheduler

Threads take turns: each runs until it has to wait. Those that can go on are in a queue; those that
wait for a time are ordered by it. Only when nothing can go on does the clock move, to the next
time that something waits for. A thread that joins others goes on when all have ended, or as soon
as one has failed; the others then still go on.
-/

namespace StatesLanguage

/-- What a thread is for, and so what its end means for others. -/
inductive Role where
  /-- The run ends with this thread. -/
  | main
  /-- Nobody waits for this thread. -/
  | aside
  /-- The thread gives an output to a join. -/
  | part (join place : Nat)
  deriving DecidableEq, Inhabited

/-- A thread: what it is for, and what it is still to do. -/
structure Thread where
  role : Role
  process : Process (Outcome Value)

/-- What can happen next: a thread goes on, or a join hears of the end of one. -/
inductive Turn where
  | resume (t : Thread)
  | ended (join place : Nat) (outcome : Outcome Value)

/-- A turn that comes at a time. -/
structure Timer where
  time : Nat
  turn : Turn

/-- A thread that waits for others to end, and what has come of them so far. -/
structure Join where
  role : Role
  next : Outcome (List Value) → Process (Outcome Value)
  outputs : List (Option Value)
  isOpen : Bool

/-- Slots, so many of which are free; `none` if they never run out. -/
structure Slots where
  free : Option Nat
  waiting : List Thread

/-- The world, the turns that are ready in their order, and who waits for what. -/
structure Scheduler where
  world : World
  ready : List Turn
  timers : List Timer
  joins : Array Join
  slots : Array Slots
  /-- The outcome of the main thread. -/
  result : Option (Outcome Value)

/-- How a turn ends: with the end of its process, or with a wait. -/
inductive Pause (α : Type) where
  | done (a : α)
  | waiting (w : Wait) (next : w.Reply → Process α)

/-- Runs a process up to its end or its next wait. -/
def Process.advance [Room] {α : Type} : Process α → World → Pause α × World
  | .ret a, world => (.done a, world)
  | .wait w next, world => (.waiting w next, world)
  | .effect e next, world =>
    let answer := world.perform e
    advance (next answer.1) answer.2

namespace Scheduler

def enqueue (s : Scheduler) (turns : List Turn) : Scheduler :=
  { s with ready := s.ready ++ turns }

/-- Lets a thread go on at once. -/
def goOn (s : Scheduler) (t : Thread) : Scheduler :=
  { s with ready := .resume t :: s.ready }

/-- Puts a timer behind those of its time. -/
def insertTimer (timer : Timer) : List Timer → List Timer
  | [] => [timer]
  | t :: rest => if t.time ≤ timer.time then t :: insertTimer timer rest else timer :: t :: rest

def after (s : Scheduler) (delay : Nat) (t : Thread) : Scheduler :=
  { s with timers := insertTimer ⟨s.world.now + delay, .resume t⟩ s.timers }

/-- When the answer to a call comes and what it is, if the call may take so long only. -/
def limited (answer : Client.Answer) : Option Nat → Nat × Option (Outcome Value)
  | none => (answer.delay, some answer.outcome)
  | some limit => if answer.delay < limit then (answer.delay, some answer.outcome) else (limit, none)

/-- Threads for all jobs, and a thread that waits for them. -/
def startJoin (s : Scheduler) (work : Job → Process (Outcome Value)) (role : Role) (jobs : List Job)
    (next : Outcome (List Value) → Process (Outcome Value)) : Scheduler :=
  let threads := jobs.zipIdx.map fun (job, place) => Turn.resume ⟨.part s.joins.size place, work job⟩
  { s with joins := s.joins.push ⟨role, next, jobs.map fun _ => none, true⟩ }.enqueue threads

/-- A slot for a thread at once, or behind the others that wait for one. -/
def takeSlot (s : Scheduler) (id : Nat) (t : Thread) : Scheduler :=
  match s.slots[id]? with
  | none => s.goOn t
  | some slots =>
    match slots.free, slots.waiting with
    | none, _ => s.goOn t
    -- A free slot is taken only where nobody waits for one already.
    | some (n + 1), [] => { s with slots := s.slots.setIfInBounds id ⟨some n, []⟩ }.goOn t
    | free, waiting => { s with slots := s.slots.setIfInBounds id ⟨free, waiting ++ [t]⟩ }

/-- Frees a slot, which the first that waits for one gets. -/
def freeSlot (s : Scheduler) (id : Nat) : Scheduler :=
  match s.slots[id]? with
  | none => s
  | some slots =>
    match slots.free, slots.waiting with
    | free, t :: rest =>
      { s with slots := s.slots.setIfInBounds id ⟨free, rest⟩ }.enqueue [.resume t]
    | some n, [] => { s with slots := s.slots.setIfInBounds id ⟨some (n + 1), []⟩ }
    | none, [] => s

variable [Room]

def await (s : Scheduler) (work : Job → Process (Outcome Value)) (role : Role) :
    (w : Wait) → (w.Reply → Process (Outcome Value)) → Scheduler
  | .sleep 0, next => s.enqueue [.resume ⟨role, next ()⟩]
  | .sleep micros, next => s.after micros ⟨role, next ()⟩
  | .call c limit, next =>
    let (answer, services) := s.world.services.call s.world.now c default
    let (delay, reply) := limited answer limit
    { s with world := { s.world with services } }.after delay ⟨role, next reply⟩
  | .join [], next => s.goOn ⟨role, next (.ok [])⟩
  | .join jobs, next => s.startJoin work role jobs next
  | .makeSlots capacity, next =>
    { s with slots := s.slots.push ⟨capacity, []⟩ }.goOn ⟨role, next s.slots.size⟩
  | .takeSlot id, next => s.takeSlot id ⟨role, next ()⟩
  | .freeSlot id, next => (s.freeSlot id).goOn ⟨role, next ()⟩

/-- What the end of a thread means: the result of the run, a turn for its join, or nothing. -/
def finish (s : Scheduler) (outcome : Outcome Value) : Role → Scheduler
  | .main => { s with result := some outcome }
  | .aside => s
  | .part join place => s.enqueue [.ended join place outcome]

def resume (s : Scheduler) (work : Job → Process (Outcome Value)) (t : Thread) : Scheduler :=
  let (pause, world) := t.process.advance s.world
  let s := { s with world }
  match pause with
  | .done outcome => s.finish outcome t.role
  | .waiting w next => s.await work t.role w next

/-- A join hears that a thread has ended. The first error ends it, and the other threads go on
unheard. -/
def notify (s : Scheduler) (join place : Nat) (outcome : Outcome Value) : Scheduler :=
  match s.joins[join]? with
  | none => s
  | some j =>
    -- What the others come to after a failure is of no consequence.
    if !j.isOpen then s
    else match outcome with
      | .error e =>
        { s with joins := s.joins.setIfInBounds join { j with isOpen := false } }.enqueue
          [.resume ⟨j.role, j.next (.error e)⟩]
      | .ok output =>
        let outputs := j.outputs.set place (some output)
        let isOpen := outputs.any (·.isNone)
        let s := { s with joins := s.joins.setIfInBounds join { j with outputs, isOpen } }
        if isOpen then s
        else s.enqueue [.resume ⟨j.role, j.next (.ok (outputs.filterMap id))⟩]

def take (s : Scheduler) (work : Job → Process (Outcome Value)) : Turn → Scheduler
  | .resume t => s.resume work t
  | .ended join place outcome => s.notify join place outcome

/-- The next turn, or else the next move of the clock; `none` if nothing is left to do. -/
def step (s : Scheduler) (work : Job → Process (Outcome Value)) : Option Scheduler :=
  match s.ready with
  | turn :: rest => some ({ s with ready := rest }.take work turn)
  | [] =>
    match s.timers with
    | [] => none
    | first :: _ =>
      -- All that is due at this time becomes ready at once, in the order of its timers.
      let (due, later) := s.timers.span (·.time ≤ first.time)
      some { s with
        world := { s.world with now := first.time }
        timers := later
        ready := due.map (·.turn) }

/-- Takes turns until the main thread has ended, so many at most. -/
def run (work : Job → Process (Outcome Value)) : Nat → Scheduler → Scheduler
  | 0, s => s
  | fuel + 1, s =>
    match s.result with
    | some _ => s
    | none =>
      match s.step work with
      | none => s
      | some s => run work fuel s

/-- More turns than a run takes. -/
def manyTurns : Nat := 1000000000

def create (world : World) (main : Process (Outcome Value))
    (aside : List (Process (Outcome Value))) : Scheduler :=
  { world
    ready := .resume ⟨.main, main⟩ :: aside.map fun p => .resume ⟨.aside, p⟩
    timers := []
    joins := #[]
    slots := #[]
    result := none }

end Scheduler

end StatesLanguage
