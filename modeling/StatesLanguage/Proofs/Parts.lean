import StatesLanguage.Interpreter
import StatesLanguage.Proofs.Asks
import StatesLanguage.Proofs.Settles

/-!
# From parts to runs

What holds of the calls to resources, and of all that has nothing to do with them, holds of the whole
work of an execution and of its jobs, if putting work together preserves it.
-/

namespace StatesLanguage

/-- Whether events of a type say what is done with a task. -/
def Event.isAccount (type : String) : Bool :=
  type == "TaskScheduled" || type == "TaskSucceeded" || type == "TaskFailed"

/-- The effects that are no part of the account of a task, nor of what a worker does about it, nor of
what an iteration says of itself. -/
def Effect.Routine : Effect → Prop
  | .record scope type _ => Event.isAccount type = false ∧ scope.iteration = none
  | .count _ _ _ _ | .observe _ _ _ _ | .span _ | .enqueueResult _ _ _ _ => False
  | _ => True

namespace Work

variable {α β : Type}

/-- Work that does nothing out of the ordinary, and what it gives. -/
def Quiet (made : α → Prop) (x : Work α) : Prop :=
  x.Keeps (.only Effect.Routine Wait.Plain) (fun a _ => made a) (fun _ _ => True) ()

variable {made : β → Prop}

theorem Quiet.bind {mid : α → Prop} {x : Work α} {f : α → Work β} (hx : x.Quiet mid)
    (hf : ∀ a, mid a → (f a).Quiet made) : (x >>= f).Quiet made :=
  Keeps.bind hx fun a _ => hf a

theorem quiet_pure {b : β} (h : made b) : Quiet made (pure b) := h

theorem quiet_throw (e : Failure) : Quiet made (throw e) := trivial

theorem quiet_ofOutcome {o : Outcome β} (h : ∀ b, o = .ok b → made b) : (ofOutcome o).Quiet made :=
  keeps_ofOutcome_of h fun _ _ => trivial

theorem quiet_perform {e : Effect} {made : e.Reply → Prop} (h : e.Routine) (hmade : ∀ r, made r) :
    (perform e).Quiet made :=
  ⟨h, hmade⟩

/-- A property of work that holds of what does nothing out of the ordinary and of what is put together
of work that has it. -/
structure Closed (Q : ∀ {α : Type}, Work α → Prop) : Prop where
  quiet : ∀ {α : Type} {made : α → Prop} {x : Work α}, x.Quiet made → Q x
  bind : ∀ {α β : Type} {x : Work α} {f : α → Work β}, Q x → (∀ a, Q (f a)) → Q (x >>= f)
  outcome : ∀ {α : Type} {x : Work α}, Q x → Q x.outcome
  /-- What is known of the value of such work may be used for what comes after it. -/
  known : ∀ {α β : Type} {made : α → Prop} {x : Work α} {f : α → Work β}, x.Quiet made →
    (∀ a, made a → Q (f a)) → Q (x >>= f)

/-- The property holds of work that starts jobs: branches, or iterations that share slots made for
them. -/
structure Nests (Q : ∀ {α : Type}, Work α → Prop) : Prop extends Closed Q where
  branches : ∀ jobs : List Job, (∀ job ∈ jobs, job.stake = .none) → Q (State.joined jobs)
  slotted : ∀ (capacity : Option Nat) (jobs : Nat → List Job) (f : Value → Work Value),
    (∀ slots, ∀ job ∈ jobs slots, job.stake = .owed slots) → (∀ v, Q (f v)) →
      Q (do f (← State.joined (jobs (← await (.makeSlots capacity)))))

/-- The property holds of what iterations do beside running machines. -/
structure Iterates (Q : ∀ {α : Type}, Work α → Prop) : Prop extends Nests Q where
  record : ∀ scope type details, Event.isAccount type = false → Q (record scope type details)
  takeSlot : ∀ slots, Q (await (.takeSlot slots))
  freeSlot : ∀ slots, Q (await (.freeSlot slots))

abbrev Still (x : Work α) : Prop :=
  x.Quiet fun _ => True

theorem still_ofOutcome (o : Outcome α) : (ofOutcome o).Still :=
  quiet_ofOutcome fun _ _ => trivial

theorem still_pure (a : α) : (pure a : Work α).Still := trivial

theorem still_throw (e : Failure) : (throw e : Work α).Still := trivial

theorem still_perform {e : Effect} (h : e.Routine) : (perform e).Still :=
  quiet_perform h fun _ => trivial

theorem still_record {type : String} (h : Event.isAccount type = false) {scope : Scope}
    (hscope : scope.iteration = none) (details : Members) : (record scope type details).Still :=
  still_perform ⟨h, hscope⟩


theorem still_sleep (micros : Nat) : (sleep micros).Still :=
  ⟨trivial, fun _ => trivial⟩

theorem Still.bind {x : Work α} {f : α → Work β} (hx : x.Still) (hf : ∀ a, (f a).Still) :
    (x >>= f).Still :=
  Quiet.bind hx fun a _ => hf a

theorem still_tell (level : Level) (text : Outcome String) : (tell level text).Still :=
  (still_ofOutcome _).bind fun text => still_perform (e := .log level text) trivial

theorem still_recordFailure [Room] {type : String} (h : Event.isAccount type = false) {scope : Scope}
    (hscope : scope.iteration = none) (details : Members) (e : Failure) :
    (recordFailure scope type details e).Still :=
  (still_ofOutcome _).bind fun _ => (still_record h hscope _).bind fun _ =>
    (still_ofOutcome _).bind fun _ => still_pure ()

theorem still_expand (input context template : Value) : (expand input context template).Still :=
  (still_perform (e := .expand input context template) trivial).bind fun _ => still_ofOutcome _

end Work

open Work

/-! ## What has nothing to do with tasks -/

namespace State

variable (s : State) (site : Site) (entered : Nat) (input : Value)

theorem isAccount_failed (kind : StateKind) : Event.isAccount (kind.name ++ "StateFailed") = false := by
  cases kind <;> rfl

theorem isAccount_entered (kind : StateKind) : Event.isAccount (kind.name ++ "StateEntered") = false := by
  cases kind <;> rfl

theorem isAccount_exited (kind : StateKind) : Event.isAccount (kind.name ++ "StateExited") = false := by
  cases kind <;> rfl

theorem still_parameters (input context : Value) : (s.parameters input context).Still :=
  still_expand _ _ _

variable [Room]

theorem still_combine (input result context : Value) : (s.combine input result context).Still :=
  (still_ofOutcome _).bind fun _ => still_ofOutcome _

theorem still_finish (input result context : Value) : (s.finish input result context).Still :=
  (still_expand _ _ _).bind fun _ => s.still_combine _ _ _

theorem still_recordFailed (e : Failure) : (s.recordFailed site e).Still :=
  still_recordFailure (isAccount_failed s.kind) rfl _ e

omit [Room] in
theorem still_sleepSeconds (delay : Value) : (sleepSeconds delay).Still :=
  (still_ofOutcome _).bind fun _ => still_sleep _

theorem still_runPass : (s.runPass site entered input).Still := by
  unfold runPass
  refine (still_ofOutcome _).bind fun effective => ?_
  refine (s.still_parameters _ _).bind fun effective => ?_
  exact (s.still_combine _ _ _).bind fun output => still_pure _

theorem still_runWait : (s.runWait site entered input).Still := by
  have hend (effective context : Value) : (do
      return ⟨← s.filterOutput effective context, s.next⟩ : Work Transition).Still :=
    (still_ofOutcome _).bind fun output => still_pure _
  unfold runWait
  refine (still_ofOutcome _).bind fun effective => ?_
  refine (still_ofOutcome _).bind fun delay => ?_
  dsimp only
  split
  · exact (still_sleep _).bind fun _ => hend _ _
  · exact hend _ _

theorem still_runChoice : (s.runChoice site entered input).Still := by
  unfold runChoice
  refine (still_ofOutcome _).bind fun effective => ?_
  refine (still_ofOutcome _).bind fun rules => ?_
  refine (still_ofOutcome _).bind fun next => ?_
  dsimp only
  split
  · exact still_throw _
  · exact (still_ofOutcome _).bind fun output => still_pure _

theorem still_runSucceed : (s.runSucceed site entered input).Still :=
  (still_ofOutcome _).bind fun _ => (still_ofOutcome _).bind fun _ => still_pure _

end State

variable [Room]

def Task.IsMade (config : Value) (task : Task) : Prop :=
  ∃ name definition exists?, create name definition config exists? = .ok task

namespace State

variable {site : Site}

/-- A kind of state that is a task has a task that is made of a definition. -/
def TaskMade (config : Value) (kind : StateKind) : Prop :=
  ∀ task, kind = .task task → task.IsMade config

theorem quiet_makeTask (name : String) (definition : Value) :
    (makeTask site name definition).Quiet (TaskMade site.config) := by
  have hmake (exists? : Bool) : Quiet (TaskMade site.config) (do
      let task ← ofOutcome (Task.create name definition site.config exists?)
      if task.metrics.isSome then perform .createMetrics
      return StateKind.task task) := by
    have hmid : (ofOutcome (Task.create name definition site.config exists?)).Quiet
        (Task.IsMade site.config) :=
      quiet_ofOutcome fun task htask => ⟨name, definition, exists?, htask⟩
    refine hmid.bind fun task htask => ?_
    have hmade : TaskMade site.config (.task task) := by
      rintro _ ⟨⟩
      exact htask
    split
    · exact Quiet.bind (still_perform (e := .createMetrics) trivial) fun _ _ => quiet_pure hmade
    · exact quiet_pure hmade
  unfold makeTask
  split
  · rename_i arn _
    exact Quiet.bind (still_perform (e := .hasActivity arn) trivial) fun exists? _ => hmake exists?
  · exact hmake false

theorem taskMade_of_forall_ne {config : Value} {kind : StateKind} (h : ∀ task, kind ≠ .task task) :
    TaskMade config kind :=
  fun task hkind => absurd hkind (h task)

theorem quiet_makeKind (name : String) (definition type : Value) :
    (makeKind site name definition type).Quiet (TaskMade site.config) := by
  unfold makeKind
  refine Quiet.bind (still_ofOutcome _) fun key _ => ?_
  split
  case h_1 => exact quiet_makeTask name definition
  case h_2 =>
    refine quiet_ofOutcome fun kind hkind => taskMade_of_forall_ne fun task htask => ?_
    subst htask
    unfold makeParallel at hkind
    split at hkind <;> cases hkind
  case h_3 =>
    refine quiet_ofOutcome fun kind hkind => taskMade_of_forall_ne fun task htask => ?_
    subst htask
    unfold makeMap at hkind
    dsimp only at hkind
    split at hkind <;> cases hkind
  case h_9 => exact quiet_throw _
  all_goals exact quiet_pure (taskMade_of_forall_ne fun _ => nofun)

theorem quiet_make (states name : Value) :
    (make site states name).Quiet fun s => TaskMade site.config s.kind := by
  unfold make
  split
  · refine Quiet.bind (still_ofOutcome _) fun key _ => ?_
    cases key with
    | none => exact quiet_throw _
    | some key =>
      dsimp only
      split
      · exact quiet_throw _
      · exact quiet_throw _
      · refine Quiet.bind (still_ofOutcome _) fun type _ => ?_
        exact Quiet.bind (quiet_makeKind key _ type) fun kind hkind => quiet_pure hkind
  · exact quiet_throw _

end State

/-! ## From the calls to the whole -/

namespace State

variable {site : Site}

def iterations (s : State) (site : Site) (processor effective : Value) (items : List Value)
    (context : Value) (slots : Nat) : List Job :=
  items.zipIdx.map fun (item, index) =>
    .iteration site.machine slots ⟨s.name, processor, index, item, s.selector?, effective, context⟩

omit [Room] in
theorem stake_of_mem_iterations {s : State} {processor effective context : Value}
    {items : List Value} (slots : Nat) :
    ∀ job ∈ s.iterations site processor effective items context slots, job.stake = .owed slots := by
  intro job hjob
  obtain ⟨item, -, rfl⟩ := List.mem_map.mp hjob
  rfl

end State

namespace Work

variable {Q : ∀ {α : Type}, Work α → Prop} {config : Value}

/-- The calls of all tasks that are made under a configuration. -/
def CallsHave (Q : ∀ {α : Type}, Work α → Prop) (config : Value) : Prop :=
  ∀ task : Task, task.IsMade config → ∀ execution scope, scope.iteration = none → ∀ parameters,
    Q (task.invokeResource execution scope parameters)

namespace Closed

omit [Room] in
theorem still (hQ : Closed Q) {α : Type} {x : Work α} (h : x.Still) : Q x :=
  hQ.quiet h

theorem attemptTask (hQ : Closed Q) {task : Task} {site : Site} (s : State) (input context : Value)
    (hcall : ∀ parameters, Q (task.invokeResource site.identity.arn site.scope parameters)) :
    Q (s.attemptTask task site input context) := by
  unfold State.attemptTask
  refine hQ.bind (hQ.still (still_ofOutcome _)) fun effective => ?_
  refine hQ.bind (hQ.still (s.still_parameters effective context)) fun parameters => ?_
  exact hQ.bind (hcall parameters) fun result => hQ.still (s.still_finish input result context)

theorem runAttempts (hQ : Closed Q) (s : State) (input : Value) {attempt : Nat → Work Value}
    {onFailure : Failure → Work Unit} (hattempt : ∀ failed, Q (attempt failed))
    (hfailure : ∀ e, (onFailure e).Still) (left failed : Nat) :
    Q (s.runAttempts input attempt onFailure left failed) := by
  induction left generalizing failed with
  | zero =>
    unfold State.runAttempts
    refine hQ.bind (hQ.outcome (hattempt failed)) fun o => hQ.still ?_
    cases o with
    | ok output => exact still_pure _
    | error e =>
      dsimp only
      split
      · split
        · exact (hfailure e).bind fun _ => still_throw _
        · exact still_throw _
      · exact (hfailure e).bind fun _ => still_throw _
      · exact (hfailure e).bind fun _ => (still_tell _ _).bind fun _ => still_pure _
      · exact (still_tell _ _).bind fun _ => (State.still_sleepSeconds _).bind fun _ => still_throw _
  | succ left ih =>
    unfold State.runAttempts
    refine hQ.bind (hQ.outcome (hattempt failed)) fun o => ?_
    cases o with
    | ok output => exact hQ.still (still_pure _)
    | error e =>
      dsimp only
      split
      · refine hQ.still ?_
        split
        · exact (hfailure e).bind fun _ => still_throw _
        · exact still_throw _
      · exact hQ.still ((hfailure e).bind fun _ => still_throw _)
      · exact hQ.still ((hfailure e).bind fun _ => (still_tell _ _).bind fun _ => still_pure _)
      · refine hQ.bind (hQ.still (still_tell _ _)) fun _ => ?_
        exact hQ.bind (hQ.still (State.still_sleepSeconds _)) fun _ => ih (failed + 1)

theorem runTask (hQ : Closed Q) {task : Task} {site : Site} (s : State) (entered : Nat)
    (input : Value)
    (hcall : ∀ parameters, Q (task.invokeResource site.identity.arn site.scope parameters)) :
    Q (s.runTask task site entered input) :=
  hQ.runAttempts s input (fun _ => hQ.attemptTask s input _ hcall) (fun _ => still_pure ()) _ _

theorem runMap (hQ : Closed Q) (s : State) (site : Site) (entered : Nat) (processor input : Value)
    (hattempt : ∀ effective items context,
      Q (s.runItems site processor input effective items context)) :
    Q (s.runMap site entered processor input) := by
  unfold State.runMap
  refine hQ.bind (hQ.still (still_ofOutcome _)) fun effective => ?_
  refine hQ.bind (hQ.still (still_ofOutcome _)) fun v => ?_
  split
  · refine hQ.bind (hQ.still (still_record rfl rfl _)) fun _ => ?_
    exact hQ.runAttempts s input (fun _ => hattempt _ _ _) (s.still_recordFailed site) _ _
  · exact hQ.still (still_throw _)

theorem runItems (hQ : Closed Q) (s : State) (site : Site) (processor input effective : Value)
    (items : List Value) (context : Value)
    (hslotted : ∀ capacity,
      State.capacity (s.field "MaxConcurrency" (.int 0)) items.length = .ok capacity →
      ∀ f : Value → Work Value, (∀ v, Q (f v)) → Q (do
        let slots ← await (.makeSlots capacity)
        f (← State.joined (s.iterations site processor effective items context slots)))) :
    Q (s.runItems site processor input effective items context) := by
  unfold State.runItems
  refine hQ.known (quiet_ofOutcome fun capacity h => h) fun capacity hcapacity => ?_
  refine hslotted capacity hcapacity _ fun result => ?_
  exact hQ.still ((still_record rfl rfl _).bind fun _ => s.still_finish input result context)

theorem execute (hQ : Closed Q) (s : State) (site : Site) (input : Value)
    (hrun : ∀ entered, Q (s.run site entered input)) : Q (s.execute site input) := by
  unfold State.execute
  refine hQ.bind (hQ.still (still_perform (e := .now) trivial)) fun entered => ?_
  refine hQ.bind (hQ.still (still_ofOutcome _)) fun text => ?_
  refine hQ.bind (hQ.still (still_record (State.isAccount_entered s.kind) rfl _)) fun _ => ?_
  refine hQ.bind (hrun entered) fun result => hQ.still ?_
  have hexit (text : String) : (do
      record site.scope (s.kind.name ++ "StateExited") [("name", .str s.name), ("output", .str text)]
      return result : Work Transition).Still :=
    (still_record (State.isAccount_exited s.kind) rfl _).bind fun _ => still_pure result
  refine (still_ofOutcome _).bind fun text => ?_
  split
  · exact (still_throw _).bind fun _ => hexit text
  · exact hexit text

end Closed

namespace Nests

theorem runBranches (hQ : Nests Q) (s : State) (site : Site) (input effective context : Value) :
    Q (s.runBranches site input effective context) := by
  have hjobs (branches : List Value) : ∀ job ∈ branches.map fun branch =>
      Job.branch site.machine branch effective, job.stake = .none := by
    intro job hjob
    obtain ⟨branch, -, rfl⟩ := List.mem_map.mp hjob
    rfl
  unfold State.runBranches
  refine hQ.bind (hQ.still (still_ofOutcome _)) fun branches => ?_
  refine hQ.bind (hQ.branches _ (hjobs branches)) fun result => ?_
  exact hQ.still ((still_record rfl rfl _).bind fun _ => s.still_finish input result context)

theorem runParallel (hQ : Nests Q) (s : State) (site : Site) (entered : Nat) (input : Value) :
    Q (s.runParallel site entered input) := by
  unfold State.runParallel
  refine hQ.bind (hQ.still (still_ofOutcome _)) fun effective => ?_
  refine hQ.bind (hQ.still (s.still_parameters effective _)) fun effective => ?_
  refine hQ.bind (hQ.still (still_record rfl rfl _)) fun _ => ?_
  exact hQ.runAttempts s input (fun _ => hQ.runBranches s site _ _ _) (s.still_recordFailed site) _ _

theorem runItems (hQ : Nests Q) (s : State) (site : Site) (processor input effective : Value)
    (items : List Value) (context : Value) :
    Q (s.runItems site processor input effective items context) :=
  hQ.toClosed.runItems s site processor input effective items context fun capacity _ f hf =>
    hQ.slotted capacity _ f State.stake_of_mem_iterations hf

theorem run (hQ : Nests Q) {site : Site} (hcalls : CallsHave Q site.config) (s : State)
    (hmade : State.TaskMade site.config s.kind) (entered : Nat) (input : Value) :
    Q (s.run site entered input) := by
  unfold State.run
  split
  case h_1 => exact hQ.still (s.still_runPass site entered input)
  case h_2 => exact hQ.still (s.still_runWait site entered input)
  case h_3 => exact hQ.still (s.still_runChoice site entered input)
  case h_4 => exact hQ.still (s.still_runSucceed site entered input)
  case h_5 => exact hQ.still (still_throw _)
  case h_6 task hkind => exact hQ.runTask s entered input (hcalls task (hmade task hkind) _ _ rfl)
  case h_7 => exact hQ.runParallel s site entered input
  case h_8 => exact hQ.runMap s site entered _ input fun _ _ _ => hQ.runItems s site _ _ _ _ _

theorem execute (hQ : Nests Q) {site : Site} (hcalls : CallsHave Q site.config) (s : State)
    (hmade : State.TaskMade site.config s.kind) (input : Value) : Q (s.execute site input) :=
  hQ.toClosed.execute s site input fun entered => hQ.run hcalls s hmade entered input

theorem runFrom (hQ : Nests Q) {site : Site} (hcalls : CallsHave Q site.config) (states : Value)
    (fuel : Nat) (current data : Value) : Q (Machine.runFrom site states fuel current data) := by
  induction fuel generalizing current data with
  | zero => exact hQ.still (still_throw _)
  | succ fuel ih =>
    have hunless (size : Nat) {goOn : Work Value} (hgoOn : Q goOn) :
        Q (if size > maxHistory then throw (historyExceeded site.identity.arn) >>= fun _ : Unit => goOn
          else goOn) := by
      split
      · exact hQ.bind (hQ.still (still_throw _)) fun _ => hgoOn
      · exact hgoOn
    unfold Machine.runFrom
    refine hQ.bind (hQ.still (still_perform (e := .historySize) trivial)) fun size => hunless size ?_
    refine hQ.known (State.quiet_make states current) fun state hmade => ?_
    refine hQ.bind (hQ.execute hcalls state hmade data) fun result => ?_
    split
    · split
      · exact hQ.still (still_pure _)
      · exact hQ.still (still_throw _)
    · exact ih _ _

theorem runAll (hQ : Nests Q) {site : Site} (hcalls : CallsHave Q site.config) (m : Machine)
    (input : Value) : Q (m.run site input) := by
  unfold Machine.run
  exact hQ.runFrom hcalls m.states Machine.maxStates m.startAt input

theorem runMachine (hQ : Nests Q) {site : Site} (hcalls : CallsHave Q site.config)
    (definition input : Value) : Q (Job.runMachine site definition input) := by
  unfold Job.runMachine
  refine hQ.bind (hQ.still (still_perform (e := .numberMachine site.machine) trivial)) fun number => ?_
  refine hQ.bind (hQ.still (still_ofOutcome _)) fun machine => ?_
  have hinner : CallsHave Q ({ site with machine := site.machine ++ [number] } : Site).config := hcalls
  exact hQ.runAll hinner machine input

theorem executionWork (hQ : Nests Q) {identity : Identity} {config : Value}
    (hcalls : CallsHave Q config) (definition : Value) :
    Q (Interpreter.executionWork identity config definition) := by
  have hsite : CallsHave Q (Site.mk identity config []).config := hcalls
  unfold Interpreter.executionWork
  refine hQ.bind (hQ.still (still_ofOutcome _)) fun text => ?_
  refine hQ.bind (hQ.still (still_record rfl rfl _)) fun _ => ?_
  refine hQ.bind (hQ.still (still_ofOutcome _)) fun _ => ?_
  refine hQ.bind (hQ.still (still_ofOutcome _)) fun machine => ?_
  refine hQ.bind (hQ.outcome (hQ.runAll hsite machine identity.input)) fun o => ?_
  refine hQ.still ?_
  cases o with
  | error e =>
    refine (still_perform (e := .conclude (.error e)) trivial).bind fun _ => ?_
    refine (still_recordFailure rfl rfl _ e).bind fun _ => ?_
    exact (still_tell _ _).bind fun _ => still_throw e
  | ok output =>
    refine (still_perform (e := .conclude (.ok output)) trivial).bind fun _ => ?_
    refine (still_ofOutcome _).bind fun text => ?_
    exact (still_record rfl rfl _).bind fun _ => still_pure output

end Nests

namespace Iterates

theorem runSlotted (hQ : Iterates Q) {site : Site} (hcalls : CallsHave Q site.config) (i : Iteration)
    (input : Value) : Q (Job.runSlotted site i input) := by
  unfold Job.runSlotted
  refine hQ.bind (hQ.record _ _ _ rfl) fun _ => ?_
  refine hQ.bind (hQ.outcome (hQ.runMachine hcalls i.processor input)) fun o => ?_
  cases o with
  | ok output => exact hQ.bind (hQ.record _ _ _ rfl) fun _ => hQ.still (still_pure output)
  | error e =>
    refine hQ.bind ?_ fun _ => hQ.still (still_throw e)
    refine hQ.bind (hQ.still (still_ofOutcome _)) fun text => hQ.bind (hQ.record _ _ _ rfl) fun _ => ?_
    exact hQ.still ((still_ofOutcome _).bind fun _ => still_pure ())

theorem runIteration (hQ : Iterates Q) {site : Site} (hcalls : CallsHave Q site.config) (slots : Nat)
    (i : Iteration) : Q (Job.runIteration site slots i) := by
  have hslot (input : Value) : Q (do
      await (.takeSlot slots)
      let outcome ← (Job.runSlotted site i input).outcome
      await (.freeSlot slots)
      ofOutcome outcome) := by
    refine hQ.bind (hQ.takeSlot slots) fun _ => ?_
    refine hQ.bind (hQ.outcome (hQ.runSlotted hcalls i input)) fun outcome => ?_
    exact hQ.bind (hQ.freeSlot slots) fun _ => hQ.still (still_ofOutcome outcome)
  unfold Job.runIteration
  split
  · exact hQ.bind (hQ.still (still_pure _)) hslot
  · exact hQ.bind (hQ.still (still_expand _ _ _)) hslot

theorem work (hQ : Iterates Q) {identity : Identity} {config : Value} (hcalls : CallsHave Q config)
    (job : Job) : Q (job.work identity config) := by
  cases job with
  | branch parent definition input =>
    have hsite : CallsHave Q (Site.mk identity config parent).config := hcalls
    exact hQ.runMachine hsite definition input
  | iteration parent slots i =>
    have hsite : CallsHave Q (Site.mk identity config parent).config := hcalls
    exact hQ.runIteration hsite slots i

end Iterates

end Work

end StatesLanguage
