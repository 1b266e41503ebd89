import StatesLanguage.Machine
import StatesLanguage.Proofs.Process
import StatesLanguage.Worker

/-!
# What the parts of a run ask for

Tasks, retries and the making of states record events and call services, but they neither enter nor
leave a state, nor start or number a machine, nor end the execution. This is shown part by part, for
whatever they are answered.
-/

namespace StatesLanguage

/-- The protocol that is nothing but a choice of what may be asked for. -/
def Protocol.only (effects : Effect → Prop) (waits : Wait → Prop) : Protocol Unit :=
  ⟨fun _ e => effects e, fun _ _ _ => (), fun _ w => waits w⟩

/-- What is asked for under one protocol, if it does not move the state of another, is asked for
under that one too. -/
theorem Process.Keeps.of_only {α γ : Type} {P : Protocol γ} {effects : Effect → Prop}
    {waits : Wait → Prop} {post : α → Unit → Prop} {p : Process α} {g : γ}
    (h : p.Keeps (.only effects waits) post ())
    (heffect : ∀ e, effects e → P.allows g e ∧ ∀ r, P.next g e r = g)
    (hwait : ∀ w, waits w → P.mayWait g w) :
    p.Keeps P (fun a g' => g' = g ∧ post a ()) g := by
  induction p with
  | ret a => exact ⟨rfl, h⟩
  | effect e next ih =>
    obtain ⟨hallows, hnext⟩ := heffect e h.1
    refine ⟨hallows, fun r => ?_⟩
    rw [hnext r]
    exact ih r (h.2 r)
  | wait w next ih => exact ⟨hwait w h.1, fun r => ih r (h.2 r)⟩

theorem Work.Keeps.of_only {α γ : Type} {P : Protocol γ} {effects : Effect → Prop}
    {waits : Wait → Prop} {ok : α → Unit → Prop} {err : Failure → Unit → Prop} {work : Work α}
    {g : γ} (h : work.Keeps (.only effects waits) ok err ())
    (heffect : ∀ e, effects e → P.allows g e ∧ ∀ r, P.next g e r = g)
    (hwait : ∀ w, waits w → P.mayWait g w) :
    work.Keeps P (fun a g' => g' = g ∧ ok a ()) (fun e g' => g' = g ∧ err e ()) g := by
  apply (Process.Keeps.of_only h heffect hwait).mono
  intro o g' ho
  cases o <;> exact ho

theorem Work.keeps_ofOutcome_of {α γ : Type} {P : Protocol γ} {ok : α → γ → Prop}
    {err : Failure → γ → Prop} {o : Outcome α} {g : γ} (hok : ∀ a, o = .ok a → ok a g)
    (herr : ∀ e, o = .error e → err e g) : (Work.ofOutcome o).Keeps P ok err g := by
  cases o with
  | ok a => exact hok a rfl
  | error e => exact herr e rfl

/-- Whether an event of a type is one of a state being entered or left. -/
def Event.isMark (type : String) : Bool :=
  Value.occursIn "StateEntered".toList type.toList ||
    Value.occursIn "StateExited".toList type.toList

/-- The types of events that are recorded of an execution itself. -/
def Event.ofExecution : List String :=
  ["ExecutionStarted", "ExecutionSucceeded", "ExecutionFailed"]

/-- Whether an event of a type is recorded between the entry of a state and its exit. -/
def Event.isInner (type : String) : Bool :=
  !isMark type && !ofExecution.contains type

def Event.inner : List String :=
  ["TaskScheduled", "TaskStarted", "TaskSucceeded", "TaskFailed", "ParallelStateStarted",
    "ParallelStateSucceeded", "MapStateStarted", "MapStateSucceeded", "MapIterationStarted",
    "MapIterationSucceeded", "MapIterationFailed"]

theorem Event.isInner_of_mem : ∀ type ∈ inner, isInner type = true := by
  decide +kernel

/-- The effects of a state between its entry and its exit, but for those of workers. -/
def Effect.Plain (scope : Scope) : Effect → Prop
  | .record s type _ => s = scope ∧ Event.isInner type = true
  | .numberMachine _ | .conclude _ | .getActivityTask _ _ | .enqueueResult _ _ _ _ | .note _ => False
  | _ => True

def Wait.Plain : Wait → Prop
  | .sleep _ | .call _ _ => True
  | _ => False

namespace Work

variable {α β : Type} {scope : Scope}

def Plain (scope : Scope) (work : Work α) : Prop :=
  work.Keeps (.only (Effect.Plain scope) Wait.Plain) (fun _ _ => True) (fun _ _ => True) ()

theorem Plain.bind {x : Work α} {f : α → Work β} (hx : x.Plain scope)
    (hf : ∀ a, (f a).Plain scope) : (x >>= f).Plain scope :=
  Keeps.bind hx fun a _ _ => hf a

theorem plain_pure (a : α) : Plain scope (pure a) := trivial

theorem plain_throw (e : Failure) : Plain scope (throw e : Work α) := trivial

theorem plain_ofOutcome (o : Outcome α) : (ofOutcome o).Plain scope := by
  cases o <;> trivial

theorem plain_perform {e : Effect} (h : e.Plain scope) : (perform e).Plain scope :=
  ⟨h, fun _ => trivial⟩

theorem plain_await {w : Wait} (h : w.Plain) : (await w).Plain scope :=
  ⟨h, fun _ => trivial⟩

theorem Plain.outcome {x : Work α} (h : x.Plain scope) : x.outcome.Plain scope :=
  (keeps_outcome x).mpr h

theorem plain_ite {c : Prop} [Decidable c] {x y : Work α} (hx : x.Plain scope)
    (hy : y.Plain scope) : Plain scope (if c then x else y) :=
  keeps_ite (fun _ => hx) fun _ => hy

theorem plain_record {type : String} (h : type ∈ Event.inner) (details : Members) :
    (record scope type details).Plain scope :=
  plain_perform ⟨rfl, Event.isInner_of_mem type h⟩

theorem plain_shown [Room] (details : Members) : (shown details).Plain scope :=
  (plain_ofOutcome _).bind fun _ => plain_pure _

theorem plain_recordValues [Room] {type : String} (h : Event.isInner type = true) (details : Members) :
    (recordValues scope type details).Plain scope :=
  (plain_perform (e := .record scope type details) ⟨rfl, h⟩).bind fun _ => plain_shown _

theorem plain_recordFailure [Room] {type : String} (h : Event.isInner type = true) (details : Members)
    (e : Failure) : (recordFailure scope type details e).Plain scope :=
  (plain_ofOutcome _).bind fun _ =>
    (plain_perform (e := .record scope type _) ⟨rfl, h⟩).bind fun _ => plain_shown _

theorem plain_tell (level : Level) (text : Outcome String) : (tell level text).Plain scope :=
  (plain_ofOutcome _).bind fun text => plain_perform (e := .log level text) trivial

theorem plain_expand (input context template : Value) :
    (expand input context template).Plain scope :=
  (plain_perform (e := .expand input context template) trivial).bind fun _ => plain_ofOutcome _

theorem plain_sleep (micros : Nat) : (sleep micros).Plain scope :=
  plain_await (w := .sleep micros) trivial

end Work

open Work

/-! ## Tasks -/

namespace Polling

variable {σ α : Type} {scope : Scope}

theorem plain_ask {check : σ → Work (Option α × σ)} (hcheck : ∀ s, (check s).Plain scope)
    (pace : Pace) (late : Failure) (first left : Nat) (s : σ) :
    (ask check pace late first left s).Plain scope := by
  induction left generalizing s with
  | zero =>
    unfold ask
    refine (hcheck s).bind ?_
    rintro ⟨_ | output, s⟩
    · refine (plain_perform (e := .elapsed) trivial).bind fun last => ?_
      refine (plain_ofOutcome _).bind fun pause => ?_
      cases pause <;> exact plain_throw _
    · exact plain_pure output
  | succ left ih =>
    unfold ask
    refine (hcheck s).bind ?_
    rintro ⟨_ | output, s⟩
    · refine (plain_perform (e := .elapsed) trivial).bind fun last => ?_
      refine (plain_ofOutcome _).bind fun pause => ?_
      cases pause with
      | none => exact plain_throw _
      | some pause => exact (plain_sleep pause).bind fun _ => ih s
    · exact plain_pure output

theorem plain_untilDone [Room] {check : σ → Work (Option α × σ)} (hcheck : ∀ s, (check s).Plain scope)
    (timeout interval : Value) (s : σ) : (untilDone check timeout interval s).Plain scope :=
  (plain_perform (e := .elapsed) trivial).bind fun _ => plain_ask hcheck _ _ _ _ s

end Polling

namespace Task

variable (task : Task) (scope : Scope)

theorem plain_count (event : Metrics.Event) : (task.count event).Plain scope := by
  unfold count
  split
  · exact plain_perform trivial
  · exact plain_pure ()

theorem plain_observe (micros : Nat) : (task.observe micros).Plain scope := by
  unfold observe
  split
  · exact plain_perform trivial
  · exact plain_pure ()

variable [Room]

omit [Room] in
theorem plain_scheduled (more : Members) : (task.scheduled scope more).Plain scope :=
  (plain_record (by simp [Event.inner]) _).bind fun _ => task.plain_count scope _

omit [Room] in
theorem plain_started : (task.started scope).Plain scope :=
  plain_record (by simp [Event.inner]) _

omit [Room] in
theorem plain_activityProgress (token : String) (seen : Bool) :
    (task.activityProgress scope token seen).Plain scope := by
  have htake (now : Bool) :
      Plain scope (perform (.takeReport token) >>= fun report => pure (report, seen || now)) :=
    (plain_perform (e := .takeReport token) trivial).bind fun _ => plain_pure _
  have hstart (now : Bool) : Plain scope (do
      if now then task.started scope
      return (← perform (.takeReport token), seen || now)) :=
    plain_ite ((task.plain_started scope).bind fun _ => htake now) (htake now)
  unfold activityProgress
  refine plain_ite ?_ ?_
  · exact (plain_pure false).bind hstart
  · exact (plain_perform (e := .isClaimed token) trivial).bind hstart

theorem plain_awaitReport (token : String) : (task.awaitReport scope token).Plain scope := by
  unfold awaitReport
  refine (Polling.plain_untilDone (task.plain_activityProgress scope token) _ _ false).outcome.bind ?_
  rintro (e | report)
  · refine plain_ite ?_ (plain_throw e)
    exact (plain_perform (e := .cancelTask token) trivial).bind fun _ => plain_throw e
  · exact plain_pure report

theorem plain_runActivity (parameters : Value) : (task.runActivity scope parameters).Plain scope := by
  unfold runActivity
  refine (plain_ofOutcome _).bind fun input => ?_
  refine (plain_perform (e := .scheduleTask task.resource input) trivial).bind fun answer => ?_
  refine (plain_ofOutcome answer).bind fun token => ?_
  refine (task.plain_scheduled scope _).bind fun _ => ?_
  exact (task.plain_awaitReport scope token).bind fun _ => plain_ofOutcome _

omit [Room] in
theorem plain_callService (c : Client.Call) : (callService c).Plain scope := by
  refine (plain_await (w := .call c none) trivial).bind fun answer => ?_
  cases answer with
  | none => exact plain_throw _
  | some outcome => exact plain_ofOutcome outcome

omit [Room] in
theorem plain_containerProgress (request : Value) (seen : Bool) :
    (task.containerProgress scope request seen).Plain scope := by
  unfold containerProgress
  refine (plain_callService scope _).bind fun description => ?_
  refine (plain_ofOutcome _).bind fun container => ?_
  refine (plain_ofOutcome _).bind fun status => ?_
  refine plain_ite ?_ (plain_pure _)
  exact (task.plain_started scope).bind fun _ => plain_pure _

theorem plain_runContainer (parameters : Value) :
    (task.runContainer scope parameters).Plain scope := by
  unfold runContainer
  refine (plain_ofOutcome _).bind fun request => ?_
  refine (plain_callService scope _).bind fun reply => ?_
  refine (plain_ofOutcome _).bind fun _ => ?_
  refine (plain_ofOutcome _).bind fun text => ?_
  refine (task.plain_scheduled scope _).bind fun _ => ?_
  refine plain_ite (plain_pure reply) ?_
  refine (plain_ofOutcome _).bind fun describe => ?_
  exact Polling.plain_untilDone (task.plain_containerProgress scope describe) _ _ false

omit [Room] in
theorem plain_callFunction (request : Value) (limit : Int) :
    (callFunction request limit).Plain scope := by
  unfold callFunction
  refine plain_ite ?_ ?_
  · exact (plain_sleep 0).bind fun _ => plain_throw _
  · refine (plain_await (w := .call (.invoke request) (some limit.toNat)) trivial).bind fun answer => ?_
    split
    · exact plain_throw _
    · exact plain_throw _
    · exact plain_ofOutcome _

theorem plain_runFunction (parameters : Value) : (task.runFunction scope parameters).Plain scope := by
  unfold runFunction
  refine (plain_ofOutcome _).bind fun payload => ?_
  refine (plain_ofOutcome _).bind fun seconds => ?_
  refine (plain_recordValues (Event.isInner_of_mem _ (by simp [Event.inner])) _).bind
    fun _ => ?_
  refine (task.plain_count scope _).bind fun _ => ?_
  refine (task.plain_started scope).bind fun _ => ?_
  refine (plain_ofOutcome _).bind fun limit => ?_
  refine (plain_ofOutcome _).bind fun limit => ?_
  exact (plain_callFunction scope _ limit).bind fun _ => plain_ofOutcome _

theorem plain_invoke (parameters : Value) : (task.invoke scope parameters).Plain scope := by
  unfold invoke
  split
  · exact task.plain_runFunction scope parameters
  · exact task.plain_runContainer scope parameters
  · exact task.plain_runContainer scope parameters
  · exact task.plain_runActivity scope parameters

theorem plain_callFailed (e : Failure) : (task.callFailed scope e).Plain scope :=
  (plain_recordFailure (Event.isInner_of_mem _ (by simp [Event.inner])) _ e).bind
    fun _ => task.plain_count scope _

theorem plain_invokeResource (execution : String) (parameters : Value) :
    (task.invokeResource execution scope parameters).Plain scope := by
  unfold invokeResource
  refine (plain_perform (e := .now) trivial).bind fun start => ?_
  refine (task.plain_invoke scope parameters).outcome.bind ?_
  rintro (e | result)
  · refine (task.plain_callFailed scope e).outcome.bind fun told => ?_
    refine (plain_perform (e := .now) trivial).bind fun stop => ?_
    refine (task.plain_observe scope _).bind fun _ => ?_
    exact (plain_perform (e := .span _) trivial).bind fun _ => plain_throw _
  · refine (plain_perform (e := .now) trivial).bind fun stop => ?_
    refine (task.plain_observe scope _).bind fun _ => ?_
    refine (plain_perform (e := .span _) trivial).bind fun _ => ?_
    refine (plain_ofOutcome _).bind fun text => ?_
    refine (plain_record (by simp [Event.inner]) _).bind fun _ => ?_
    exact (task.plain_count scope _).bind fun _ => plain_pure result

end Task

/-! ## States -/

namespace State

variable (s : State) {scope : Scope}

variable [Room]

theorem plain_filterInput (input context : Value) : (s.filterInput input context).Plain scope :=
  plain_ofOutcome _

theorem plain_filterOutput (output context : Value) : (s.filterOutput output context).Plain scope :=
  plain_ofOutcome _

omit [Room] in
theorem plain_parameters (input context : Value) : (s.parameters input context).Plain scope :=
  plain_expand _ _ _

theorem plain_combine (input result context : Value) : (s.combine input result context).Plain scope :=
  (plain_ofOutcome _).bind fun output => s.plain_filterOutput output context

theorem plain_finish (input result context : Value) : (s.finish input result context).Plain scope :=
  (plain_expand _ _ _).bind fun result => s.plain_combine input result context

theorem plain_attemptTask (task : Task) (site : Site) (input context : Value) :
    (s.attemptTask task site input context).Plain site.scope := by
  unfold attemptTask
  refine (s.plain_filterInput input context).bind fun effective => ?_
  refine (s.plain_parameters effective context).bind fun parameters => ?_
  refine (task.plain_invokeResource site.scope _ parameters).bind fun result => ?_
  exact s.plain_finish input result context

omit [Room] in
theorem plain_sleepSeconds (delay : Value) : (sleepSeconds delay).Plain scope :=
  (plain_ofOutcome _).bind fun micros => plain_sleep micros

omit [Room] in
theorem isInner_failed (kind : StateKind) : Event.isInner (kind.name ++ "StateFailed") = true := by
  cases kind
  all_goals
    simp only [StateKind.name]
    decide +kernel

theorem plain_recordFailed (site : Site) (e : Failure) : (s.recordFailed site e).Plain site.scope :=
  plain_recordFailure (isInner_failed s.kind) _ e

section Simple

variable (site : Site) (entered : Nat) (input : Value)

theorem plain_runPass : (s.runPass site entered input).Plain scope := by
  refine (s.plain_filterInput _ _).bind fun effective => ?_
  refine (s.plain_parameters _ _).bind fun effective => ?_
  exact (s.plain_combine _ _ _).bind fun output => plain_pure _

theorem plain_runWait : (s.runWait site entered input).Plain scope := by
  have hout (effective context : Value) : Plain scope (do
      return (⟨← s.filterOutput effective context, s.next⟩ : Transition)) :=
    (s.plain_filterOutput _ _).bind fun output => plain_pure _
  refine (s.plain_filterInput _ _).bind fun effective => ?_
  refine (plain_ofOutcome _).bind fun delay => plain_ite ?_ ?_
  · exact (plain_sleep _).bind fun _ => hout _ _
  · exact hout _ _

theorem plain_runChoice : (s.runChoice site entered input).Plain scope := by
  refine (s.plain_filterInput _ _).bind fun effective => ?_
  refine (plain_ofOutcome _).bind fun rules => ?_
  refine (plain_ofOutcome _).bind fun found => plain_ite (plain_throw _) ?_
  exact (s.plain_filterOutput _ _).bind fun output => plain_pure _

theorem plain_runSucceed : (s.runSucceed site entered input).Plain scope := by
  refine (s.plain_filterInput _ _).bind fun effective => ?_
  exact (s.plain_filterOutput _ _).bind fun output => plain_pure _

end Simple

/-- The part of a machine that a state is: its name, its definition, and what is made of it. -/
structure IsPart (states : Value) (s : State) : Prop where
  found : ∃ members, states = .obj members ∧ Table.get? members s.name = some s.definition
  type : s.definition.memberOr "Type" .null = .ok (.str s.kind.name)
  processor : ∀ processor, s.kind = .map processor →
    processor = (s.definition.get? "ItemProcessor").getD ((s.definition.get? "Iterator").getD .null)

variable (scope)

abbrev Makes {α : Type} (made : α → Prop) (work : Work α) : Prop :=
  work.Keeps (.only (Effect.Plain scope) Wait.Plain) (fun a _ => made a) (fun _ _ => True) ()

theorem makeTask_makes (site : Site) (name : String) (definition : Value) :
    Makes scope (fun kind => ∃ task, kind = .task task) (makeTask site name definition) := by
  have hmake (exists? : Bool) : Makes scope (fun kind => ∃ task, kind = .task task) (do
      let task ← ofOutcome (Task.create name definition site.config exists?)
      if task.metrics.isSome then perform .createMetrics
      return StateKind.task task) := by
    refine Keeps.bind (plain_ofOutcome _) fun task _ _ => keeps_ite ?_ ?_
    · exact fun _ => ⟨trivial, fun _ => ⟨task, rfl⟩⟩
    · exact fun _ => ⟨task, rfl⟩
  unfold makeTask
  split
  · exact ⟨trivial, hmake⟩
  · exact hmake false

/-- What is known of the kind that is made for a type. -/
def KindOf (definition type : Value) (kind : StateKind) : Prop :=
  type = .str kind.name ∧ ∀ processor, kind = .map processor →
    processor = (definition.get? "ItemProcessor").getD ((definition.get? "Iterator").getD .null)

theorem makeKind_makes (site : Site) (name : String) (definition type : Value) :
    Makes scope (KindOf definition type) (makeKind site name definition type) := by
  unfold makeKind
  refine (keeps_bind _ _).mpr (keeps_ofOutcome_of (fun key hkey => ?_) fun _ _ => trivial)
  split
  case h_1 =>
    refine (makeTask_makes scope site name definition).mono ?_ fun _ _ h => h
    rintro _ _ ⟨task, rfl⟩
    exact ⟨Value.eq_str_of_asKey hkey, fun _ h => nomatch h⟩
  case h_2 =>
    refine keeps_ofOutcome_of (fun kind hmake => ?_) fun _ _ => trivial
    unfold makeParallel at hmake
    split at hmake
    · cases hmake
      exact ⟨Value.eq_str_of_asKey hkey, fun _ h => nomatch h⟩
    · cases hmake
  case h_3 =>
    refine keeps_ofOutcome_of (fun kind hmake => ?_) fun _ _ => trivial
    unfold makeMap at hmake
    dsimp only at hmake
    split at hmake
    · cases hmake
      exact ⟨Value.eq_str_of_asKey hkey, fun _ h => (StateKind.map.inj h).symm⟩
    · cases hmake
  case h_9 => trivial
  all_goals exact ⟨Value.eq_str_of_asKey hkey, fun _ h => nomatch h⟩

theorem make_makes (site : Site) (states name : Value) :
    Makes scope (fun s => IsPart states s ∧ name = .str s.name) (make site states name) := by
  unfold make
  split
  · rename_i members
    refine (keeps_bind _ _).mpr (keeps_ofOutcome_of (fun key hkey => ?_) fun _ _ => trivial)
    cases key with
    | none => trivial
    | some key =>
      dsimp only
      split
      · trivial
      · trivial
      · rename_i definition _ hdefinition
        refine (keeps_bind _ _).mpr (keeps_ofOutcome_of (fun type htype => ?_) fun _ _ => trivial)
        refine (makeKind_makes scope site key definition type).bind ?_
        rintro kind _ ⟨rfl, hprocessor⟩
        exact ⟨⟨⟨members, rfl, hdefinition⟩, htype, hprocessor⟩, Value.eq_str_of_asKey hkey⟩
  · trivial

end State

/-! ## Workers -/

def Effect.OfWorker : Effect → Prop
  | .getActivityTask _ _ | .enqueueResult _ _ _ _ | .note _ => True
  | _ => False

namespace Worker

abbrev Asks {α : Type} (work : Work α) : Prop :=
  work.Keeps (.only Effect.OfWorker Wait.Plain) (fun _ _ => True) (fun _ _ => True) ()

theorem asks_ofOutcome {α : Type} (o : Outcome α) : Asks (ofOutcome o) := by
  cases o <;> trivial

theorem asks_pause (seconds : Value) : Asks (pause seconds) :=
  (asks_ofOutcome _).bind fun _ _ _ => ⟨trivial, fun _ => trivial⟩

theorem asks_sendReport (task report : Value) : Asks (sendReport task report) := by
  unfold sendReport
  refine (asks_ofOutcome _).bind fun _ _ _ => ?_
  refine (keeps_bind _ _).mpr ⟨trivial, fun answer => ?_⟩
  exact (asks_ofOutcome answer).bind fun _ _ _ => ⟨trivial, fun _ => trivial⟩

theorem asks_serve (w : Worker) : Asks w.serve := by
  unfold serve
  refine (keeps_bind _ _).mpr ⟨trivial, fun answer => ?_⟩
  refine (asks_ofOutcome answer).bind fun task _ _ => ?_
  refine (keeps_bind _ _).mpr ⟨trivial, fun _ => ?_⟩
  split
  · refine keeps_ite (fun _ => ?_) fun _ => trivial
    exact (asks_pause w.effort).bind fun _ _ _ => asks_sendReport task _
  · trivial

theorem asks_work (w : Worker) : Asks w.work := by
  unfold work
  refine (asks_pause w.start).bind fun _ _ _ => ?_
  refine (keeps_bind _ _).mpr ((keeps_outcome _).mpr ?_)
  refine w.asks_serve.mono (fun _ _ _ => ?_) fun e _ _ => ?_
  · trivial
  · exact ⟨trivial, fun _ => trivial⟩

end Worker

end StatesLanguage
