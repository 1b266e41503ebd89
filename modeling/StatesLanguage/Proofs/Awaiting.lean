import StatesLanguage.Proofs.ActivityQueue
import StatesLanguage.Proofs.Texts
import StatesLanguage.Task.Activity

/-!
# Waiting for a report

What a task that is done by workers does between two of its pauses: where it begins, and where it
asks once more for the report on its token.
-/

namespace StatesLanguage

/-- Two worlds that differ only in what was recorded. -/
structure World.Alike (w w' : World) : Prop where
  queue : w'.queue = w.queue
  drawn : w'.drawn = w.drawn
  now : w'.now = w.now
  began : w'.began = w.began

variable [Room]

theorem World.alike_record (w : World) (scope : Scope) (type : String) (details : Members) :
    w.Alike (w.record scope type details) := by
  simp only [World.record]
  split <;> exact ⟨rfl, rfl, rfl, rfl⟩

namespace Task

variable (task : Task) (scope : Scope) (token : String)

def poll (first left : Nat) (seen : Bool) : Work Report :=
  Polling.ask (task.activityProgress scope token)
    (Polling.measuredPace task.timeout task.pollInterval) (Polling.exceeded task.timeout) first left
    seen

def conclude : Outcome Report → Work Value
  | .ok report => Work.ofOutcome (reportResult report)
  | .error e => do
    if e.kind? = some .timeout then Work.perform (.cancelTask token)
    throw e

/-- What is left of a task whose work is queued when it asks for the report once more. -/
def awaiting (first left : Nat) (seen : Bool) : Work Value := do
  conclude token (← (task.poll scope token first left seen).outcome)

/-- What asking once comes to: where the task stops, and the queue then. -/
inductive Asked (q : ActivityQueue) : Pause (Outcome Value) → ActivityQueue → Prop
  | reported (report : Report) (q' : ActivityQueue)
      (taken : q.takeReport? token = some (report, q')) : Asked q (.done (reportResult report)) q'
  | failed (e : Failure) (absent : q.takeReport? token = none) (fault : e.isFault = true)
      (unmeasured : Polling.isMeasurable task.timeout = true →
        Polling.isPausable task.pollInterval = false) : Asked q (.done (.error e)) q
  | late (absent : q.takeReport? token = none)
      (measured : Polling.isMeasurable task.timeout = true) :
      Asked q (.done (.error (Polling.exceeded task.timeout))) (q.cancel token)
  | asleep (pause first left : Nat) (seen : Bool) (absent : q.takeReport? token = none)
      (measured : Polling.isMeasurable task.timeout = true) :
      Asked q (.waiting (.sleep pause) fun _ => (task.awaiting scope token first left seen).run) q

theorem advance_activityProgress (seen : Bool) (w : World) :
    ∃ seen' w', w.Alike w' ∧ (task.activityProgress scope token seen).run.advance w =
      (.done (.ok ((w'.takeReport token).1, seen')), (w'.takeReport token).2) := by
  have hstarted : w.Alike (w.record scope "TaskStarted" (task.details [])) := w.alike_record _ _ _
  cases seen with
  | true => exact ⟨true, w, ⟨rfl, rfl, rfl, rfl⟩, rfl⟩
  | false =>
    have hlook := Work.advance_perform (.isClaimed token) w
    simp only [World.perform] at hlook
    cases hclaimed : w.queue.isClaimed token with
    | false =>
      rw [hclaimed] at hlook
      exact ⟨false, w, ⟨rfl, rfl, rfl, rfl⟩, Work.advance_bind_ok hlook _⟩
    | true =>
      rw [hclaimed] at hlook
      exact ⟨true, _, hstarted, Work.advance_bind_ok hlook _⟩

omit [Room] in
theorem run_conclude_fault {e : Failure} (h : e.isFault = true) :
    (conclude token (.error e)).run = .ret (.error e) := by
  cases e with
  | fault kind text => rfl
  | _ => cases h

theorem advance_conclude_late (h : Polling.isMeasurable task.timeout = true) (w : World) :
    (conclude token (.error (Polling.exceeded task.timeout))).run.advance w =
      (.done (.error (Polling.exceeded task.timeout)), { w with queue := w.queue.cancel token }) := by
  obtain ⟨text, htext⟩ := Polling.exceeded_of_measurable h
  rw [htext]
  rfl

theorem run_awaiting (first left : Nat) (seen : Bool) :
    (task.awaiting scope token first left seen).run =
      (task.poll scope token first left seen).run.bind fun o => (conclude token o).run :=
  Work.run_outcome_bind _ _

theorem asked_awaiting (first left : Nat) (seen : Bool) (w : World) :
    let stop := (task.awaiting scope token first left seen).run.advance w
    task.Asked scope token w.queue stop.1 stop.2.queue ∧ stop.2.drawn = w.drawn := by
  obtain ⟨seen', w₁, halike, hcheck⟩ := task.advance_activityProgress scope token seen w
  simp only [run_awaiting, Process.advance_bind]
  unfold poll
  rw [Polling.ask.eq_def, Work.advance_bind_ok hcheck]
  rw [← halike.queue, ← halike.drawn]
  cases htake : w₁.queue.takeReport? token with
  | some found =>
    obtain ⟨report, q'⟩ := found
    have htook : w₁.takeReport token = (some report, { w₁ with queue := q' }) := by
      simp only [World.takeReport, htake]
    rw [htook]
    exact ⟨.reported report q' htake, rfl⟩
  | none =>
    have htook : w₁.takeReport token = (none, w₁) := by
      simp only [World.takeReport, htake]
    simp only [htook]
    rw [Work.advance_bind_ok (Work.advance_elapsed w₁)]
    rcases Polling.measuredPace_cases task.timeout task.pollInterval first (w₁.now - w₁.began) with
      ⟨pause, hpace, hmeasured⟩ | ⟨e, hpace, hfault, hunmeasured⟩
    · rw [hpace]
      have hlate : task.Asked scope token w₁.queue
          ((conclude token (.error (Polling.exceeded task.timeout))).run.advance w₁).1
          ((conclude token (.error (Polling.exceeded task.timeout))).run.advance w₁).2.queue ∧
          ((conclude token (.error (Polling.exceeded task.timeout))).run.advance w₁).2.drawn =
            w₁.drawn := by
        rw [task.advance_conclude_late token hmeasured]
        exact ⟨.late htake hmeasured, rfl⟩
      cases pause with
      | none => exact hlate
      | some pause =>
        cases left with
        | zero => exact hlate
        | succ left =>
          have hasleep : task.Asked scope token w₁.queue _ w₁.queue :=
            .asleep pause first left seen' htake hmeasured
          simp only [run_awaiting] at hasleep
          exact ⟨hasleep, rfl⟩
    · have hfailed := Work.advance_ofOutcome (.error e : Outcome (Option Nat)) w₁
      rw [hpace, Work.advance_bind_error hfailed]
      simp only [run_conclude_fault token hfault]
      exact ⟨.failed e htake hfault hunmeasured, rfl⟩

/-! ## Beginning -/

theorem run_awaitReport :
    (do Work.ofOutcome (reportResult (← task.awaitReport scope token))).run =
      (Polling.untilDone (task.activityProgress scope token) task.timeout task.pollInterval
        false).run.bind fun o => (conclude token o).run := by
  unfold awaitReport
  refine (congrArg (Process.bind · _) (Work.run_outcome_bind _ _)).trans ?_
  simp only [Process.bind_assoc]
  congr 1
  funext o
  cases o with
  | ok report => rfl
  | error e =>
    simp only [conclude]
    split <;> rfl

theorem advance_untilDone (left : Nat) (w : World) :
    (Work.elapsed >>= fun first => task.poll scope token first left false).run.advance w =
      (task.poll scope token (w.now - w.began) left false).run.advance w := by
  exact Work.advance_bind_ok (Work.advance_elapsed w) _

theorem untilDone_eq :
    Polling.untilDone (task.activityProgress scope token) task.timeout task.pollInterval false =
      Work.elapsed >>= fun first =>
        task.poll scope token first (Polling.rounds task.timeout task.pollInterval) false := by
  unfold Polling.untilDone poll
  rfl

theorem advance_awaitReport (w : World) :
    (do Work.ofOutcome (reportResult (← task.awaitReport scope token))).run.advance w =
      (task.awaiting scope token (w.now - w.began)
        (Polling.rounds task.timeout task.pollInterval) false).run.advance w := by
  rw [run_awaitReport, untilDone_eq, run_awaiting]
  exact Process.advance_bind_congr (task.advance_untilDone scope token _ w) _

theorem advance_scheduled (more : Members) (w : World) :
    ∃ w', w.Alike w' ∧ (task.scheduled scope more).run.advance w = (.done (.ok ()), w') := by
  obtain ⟨hqueue, hdrawn, hnow, hbegan⟩ := w.alike_record scope "TaskScheduled" (task.details more)
  unfold scheduled count
  cases task.metrics with
  | none => exact ⟨_, ⟨hqueue, hdrawn, hnow, hbegan⟩, rfl⟩
  | some space =>
    refine ⟨_, ?_, rfl⟩
    exact ⟨hqueue, hdrawn, hnow, hbegan⟩

/-- The token under which a task queues its work in a world, if it does. -/
def tokenIn (w : World) (parameters : Value) : Option String := do
  let input ← (Json.encode parameters).toOption
  (w.scheduleTask task.resource input).1.toOption

/-- What the beginning of a task comes to: its token, where it stops, and the world then. -/
inductive Begun (w : World) : Option String → Pause (Outcome Value) → World → Prop
  | refused (e : Failure) (w' : World) (queue : w'.queue = w.queue) (drawn : w.drawn ≤ w'.drawn) :
      Begun w none (.done (.error e)) w'
  | queued (input : String) (q : ActivityQueue) (pause : Pause (Outcome Value)) (w' : World)
      (scheduled : w.queue.schedule? task.resource ⟨identifier (w.drawn + 1), .str input⟩ = some q)
      (asked : task.Asked scope (identifier (w.drawn + 1)) q pause w'.queue)
      (drawn : w'.drawn = w.drawn + 1) : Begun w (some (identifier (w.drawn + 1))) pause w'

theorem advance_runActivity {parameters : Value} {input : String} {w : World} {q : ActivityQueue}
    (hinput : Json.encode parameters = .ok input)
    (hqueued : w.queue.schedule? task.resource ⟨identifier (w.drawn + 1), .str input⟩ = some q) :
    ∃ w', w'.queue = q ∧ w'.drawn = w.drawn + 1 ∧
      (task.runActivity scope parameters).run.advance w =
        (task.awaiting scope (identifier (w.drawn + 1)) (w'.now - w'.began)
          (Polling.rounds task.timeout task.pollInterval) false).run.advance w' := by
  let w₁ := { w with drawn := w.drawn + 1, queue := q }
  have hschedule : w.perform (.scheduleTask task.resource input) =
      (.ok (identifier (w.drawn + 1)), w₁) := by
    simp only [World.perform, World.scheduleTask, hqueued, w₁]
  obtain ⟨w₂, halike, hrecord⟩ := task.advance_scheduled scope [("parameters", .str input)] w₁
  refine ⟨w₂, halike.queue, halike.drawn, ?_⟩
  have hencoded := Work.advance_ofOutcome (.ok input : Outcome String) w
  have hperformed := Work.advance_perform (.scheduleTask task.resource input) w
  have htoken := Work.advance_ofOutcome (.ok (identifier (w.drawn + 1)) : Outcome String) w₁
  rw [hschedule] at hperformed
  unfold runActivity
  rw [hinput, Work.advance_bind_ok hencoded, Work.advance_bind_ok hperformed,
    Work.advance_bind_ok htoken, Work.advance_bind_ok hrecord]
  exact task.advance_awaitReport scope _ w₂

theorem advance_runActivity_refused {parameters : Value} {input : String} {w : World}
    (hinput : Json.encode parameters = .ok input)
    (hrefused : w.queue.schedule? task.resource ⟨identifier (w.drawn + 1), .str input⟩ = none) :
    (task.runActivity scope parameters).run.advance w =
      (.done (.error (ActivityQueue.noSuchActivity (.str task.resource))),
        { w with drawn := w.drawn + 1 }) := by
  have hencoded := Work.advance_ofOutcome (.ok input : Outcome String) w
  have hperformed := Work.advance_perform (.scheduleTask task.resource input) w
  simp only [World.perform, World.scheduleTask, hrefused] at hperformed
  unfold runActivity
  rw [hinput, Work.advance_bind_ok hencoded, Work.advance_bind_ok hperformed]
  exact Work.advance_bind_error (Work.advance_ofOutcome _ _) _

theorem begun_runActivity (parameters : Value) (w : World) :
    let stop := (task.runActivity scope parameters).run.advance w
    task.Begun scope w (task.tokenIn w parameters) stop.1 stop.2 := by
  cases hinput : Json.encode parameters with
  | error e =>
    have hstop : (task.runActivity scope parameters).run.advance w = (.done (.error e), w) := by
      unfold runActivity
      rw [hinput]
      exact Work.advance_bind_error (Work.advance_ofOutcome _ _) _
    have htoken : task.tokenIn w parameters = none := by
      simp [tokenIn, hinput, Except.toOption]
    simp only [hstop, htoken]
    exact .refused e w rfl (Nat.le_refl _)
  | ok input =>
    cases hqueue : w.queue.schedule? task.resource ⟨identifier (w.drawn + 1), .str input⟩ with
    | none =>
      have htoken : task.tokenIn w parameters = none := by
        simp [tokenIn, hinput, Except.toOption, World.scheduleTask, hqueue]
      simp only [task.advance_runActivity_refused scope hinput hqueue, htoken]
      exact .refused _ _ rfl (Nat.le_succ _)
    | some q =>
      obtain ⟨w', hqueue', hdrawn, hstop⟩ := task.advance_runActivity scope hinput hqueue
      have htoken : task.tokenIn w parameters = some (identifier (w.drawn + 1)) := by
        simp [tokenIn, hinput, Except.toOption, World.scheduleTask, hqueue]
      have hasked := task.asked_awaiting scope (identifier (w.drawn + 1)) (w'.now - w'.began)
        (Polling.rounds task.timeout task.pollInterval) false w'
      simp only [hstop, htoken]
      rw [hqueue', hdrawn] at hasked
      exact .queued input q _ _ hqueue hasked.1 hasked.2

end Task

end StatesLanguage
