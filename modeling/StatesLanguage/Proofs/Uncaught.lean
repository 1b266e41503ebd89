import StatesLanguage.Interpreter
import StatesLanguage.Proofs.Quota
import StatesLanguage.Proofs.Texts

/-!
# Errors that nothing catches

A runtime error of a branch or of an iteration goes up through every state and machine around it: the
state that has joined it starts no other attempt and makes no transition, but ends with the same error.
This holds of errors that can be told, as the one of a history that is too long.
-/

namespace StatesLanguage

/-! ## Processes that give up on an error -/

namespace Process

variable {α β : Type}

/-- Whatever it is answered, the process ends with the error, and it waits for nothing but to free a
slot. -/
def GivesUp (e : Failure) (p : Process (Outcome α)) : Prop :=
  p.Keeps (.only (fun _ => True) fun wt => ∃ id, wt = .freeSlot id) (fun o _ => o = .error e) ()

/-- When a join fails with the error, the process gives up. -/
def Surfaces (e : Failure) : Process (Outcome α) → Prop
  | .ret _ => True
  | .effect _ next => ∀ r, (next r).Surfaces e
  | .wait wt next => (∀ r, (next r).Surfaces e) ∧
    match wt, next with
    | .join _, next => (next (.error e)).GivesUp e
    | _, _ => True

variable {e : Failure}

theorem GivesUp.bind {p : Process (Outcome α)} {f : Outcome α → Process (Outcome β)}
    (hp : p.GivesUp e) (hf : (f (.error e)).GivesUp e) : (p.bind f).GivesUp e := by
  refine (keeps_bind _ p f ()).mpr (hp.mono ?_)
  rintro _ _ rfl
  exact hf

theorem Surfaces.bind {p : Process (Outcome α)} {f : Outcome α → Process (Outcome β)}
    (hp : p.Surfaces e) (hf : ∀ o, (f o).Surfaces e) (herror : (f (.error e)).GivesUp e) :
    (p.bind f).Surfaces e := by
  induction p with
  | ret o => exact hf o
  | effect e' next ih => exact fun r => ih r (hp r)
  | wait wt next ih =>
    refine ⟨fun r => ih r (hp.1 r), ?_⟩
    cases wt with
    | join jobs => exact GivesUp.bind hp.2 herror
    | _ => trivial

theorem surfaces_of_only {effects : Effect → Prop} {post : Outcome α → Unit → Prop}
    {p : Process (Outcome α)} (h : p.Keeps (.only effects Wait.Plain) post ()) : p.Surfaces e := by
  induction p with
  | ret o => trivial
  | effect e' next ih => exact fun r => ih r (h.2 r)
  | wait wt next ih =>
    refine ⟨fun r => ih r (h.2 r), ?_⟩
    cases wt with
    | join jobs => exact absurd h.1 id
    | _ => trivial

end Process

namespace Work

variable {α β : Type} {e : Failure}

abbrev GivesUp (e : Failure) (x : Work α) : Prop :=
  x.run.GivesUp e

abbrev Surfaces (e : Failure) (x : Work α) : Prop :=
  x.run.Surfaces e

theorem Surfaces.bind {x : Work α} {f : α → Work β} (hx : x.Surfaces e)
    (hf : ∀ a, (f a).Surfaces e) : (x >>= f).Surfaces e :=
  Process.Surfaces.bind hx (fun o => match o with | .ok a => hf a | .error _ => trivial) rfl

theorem Surfaces.outcome_bind {x : Work α} {f : Outcome α → Work β} (hx : x.Surfaces e)
    (hf : ∀ o, (f o).Surfaces e) (herror : (f (.error e)).GivesUp e) :
    (x.outcome >>= f).Surfaces e := by
  rw [Surfaces, run_outcome_bind]
  exact Process.Surfaces.bind hx hf herror

theorem givesUp_throw : (throw e : Work α).GivesUp e := rfl

theorem givesUp_perform_bind {effect : Effect} {f : effect.Reply → Work α}
    (hf : ∀ r, (f r).GivesUp e) : (perform effect >>= f).GivesUp e :=
  ⟨trivial, hf⟩

theorem surfaces_of_makes {scope : Scope} {made : α → Prop} {x : Work α}
    (h : State.Makes scope made x) : x.Surfaces e :=
  Process.surfaces_of_only h

theorem Plain.surfaces (scope : Scope) {x : Work α} (h : x.Plain scope) : x.Surfaces e :=
  Process.surfaces_of_only h

theorem surfaces_pure (a : α) : (pure a : Work α).Surfaces e := trivial

theorem surfaces_throw (e' : Failure) : (throw e' : Work α).Surfaces e := trivial

theorem surfaces_ofOutcome (o : Outcome α) : (ofOutcome o).Surfaces e := by
  cases o <;> trivial

theorem surfaces_perform (effect : Effect) : (perform effect).Surfaces e := fun _ => trivial

theorem surfaces_tell (level : Level) (text : Outcome String) : (tell level text).Surfaces e :=
  (surfaces_ofOutcome text).bind fun _ => surfaces_perform _

theorem surfaces_joined (jobs : List Job) : (State.joined jobs).Surfaces e := by
  refine ⟨fun r => ?_, rfl⟩
  cases r <;> trivial

end Work

open Work

variable [Room]

/-- An error of the run itself, which can be told wherever it comes to. -/
structure Failure.Fatal (e : Failure) : Prop where
  isRuntime : e.isRuntime = true
  told : ∃ text, e.text = .ok text
  named : ∃ name, e.name = .str name

namespace Work

variable {α : Type} {e : Failure}

theorem surfaces_recordFailure (scope : Scope) (type : String) (details : Members) (e' : Failure) :
    (recordFailure scope type details e').Surfaces e := by
  refine (surfaces_ofOutcome _).bind fun text => (surfaces_perform _).bind fun _ => ?_
  exact (surfaces_ofOutcome _).bind fun _ => surfaces_pure _

theorem givesUp_recordFailure_bind (h : e.Fatal) {scope : Scope} {type : String} {details : Members}
    {f : Unit → Work α} (hf : (f ()).GivesUp e) :
    (recordFailure scope type details e >>= f).GivesUp e := by
  obtain ⟨text, htext⟩ := h.told
  obtain ⟨name, hname⟩ := h.named
  obtain ⟨line, hline⟩ : ∃ line, (Value.obj (Event.fullDetails [] e.name (.str text))).display =
      .ok line := by
    refine Value.display_obj_isOk.mpr ?_
    rw [hname]
    refine List.forall_mem_cons.mpr ⟨⟨_, Value.inner_str Value.texts_sub_one_ne_zero name⟩, ?_⟩
    exact List.forall_mem_singleton.mpr ⟨_, Value.inner_str Value.texts_sub_one_ne_zero text⟩
  unfold recordFailure shown
  rw [htext]
  change GivesUp e (record scope type (Event.fullDetails details e.name (.str text)) >>= fun _ =>
    (ofOutcome (Value.obj (Event.fullDetails [] e.name (.str text))).display >>= fun _ => pure ()) >>= f)
  rw [hline]
  exact givesUp_perform_bind fun _ => hf

end Work

/-! ## States -/

namespace State

variable {s : State} {site : Site} {entered : Nat} {input : Value} {e : Failure}

theorem decide_of_isRuntime (s : State) (h : e.isRuntime = true) (attempts : Nat) (input : Value) :
    s.decide e attempts input = .ok .propagate := by
  simp only [State.decide, RetryPolicy.decide, h]
  rfl

/-- A state that makes attempts gives up on a runtime error, whatever it does about others. -/
theorem surfaces_attempt (h : e.Fatal) {attempt : Work Value}
    {onFailure : Failure → Work Unit} {again : Failure → Value → Work Transition} (failed : Nat)
    (hattempt : attempt.Surfaces e) (hfailure : ∀ e', (onFailure e').Surfaces e)
    (hgiveUp : (onFailure e >>= fun _ => (throw e : Work Transition)).GivesUp e)
    (hagain : ∀ e' delay, (again e' delay).Surfaces e) :
    (do
      match ← attempt.outcome with
      | .ok output => return ⟨output, s.next⟩
      | .error e' =>
        match s.decide e' failed input with
        | .error problem =>
          if problem.isStates then onFailure e'
          throw problem
        | .ok .propagate =>
          onFailure e'
          throw e'
        | .ok (.caught next output) =>
          onFailure e'
          Work.tell .info (s.catchNote e' next)
          return ⟨output, next⟩
        | .ok (.retry delay) => again e' delay : Work Transition).Surfaces e := by
  refine hattempt.outcome_bind (fun o => ?_) ?_
  · cases o with
    | ok output => exact surfaces_pure _
    | error e' =>
      dsimp only
      split
      · split
        · exact (hfailure e').bind fun _ => surfaces_throw _
        · exact surfaces_throw _
      · exact (hfailure e').bind fun _ => surfaces_throw _
      · refine (hfailure e').bind fun _ => ?_
        exact (surfaces_tell _ _).bind fun _ => surfaces_pure _
      · exact hagain e' _
  · dsimp only
    rw [s.decide_of_isRuntime h.isRuntime]
    exact hgiveUp

theorem surfaces_runAttempts (h : e.Fatal) {attempt : Nat → Work Value}
    {onFailure : Failure → Work Unit} (hattempt : ∀ failed, (attempt failed).Surfaces e)
    (hfailure : ∀ e', (onFailure e').Surfaces e)
    (hgiveUp : (onFailure e >>= fun _ => (throw e : Work Transition)).GivesUp e) (left failed : Nat) :
    (s.runAttempts input attempt onFailure left failed).Surfaces e := by
  have hdelay (e' : Failure) (failed : Nat) (delay : Value) {x : Work Transition}
      (hx : x.Surfaces e) : (do
      Work.tell .info (s.retryNote e' failed delay)
      sleepSeconds delay
      x).Surfaces e :=
    (surfaces_tell _ _).bind fun _ =>
      (Plain.surfaces default (plain_sleepSeconds delay)).bind fun _ => hx
  induction left generalizing failed with
  | zero =>
    unfold runAttempts
    exact surfaces_attempt h (failed + 1) (hattempt failed) hfailure hgiveUp
      fun e' delay => hdelay e' (failed + 1) delay (surfaces_throw e')
  | succ left ih =>
    unfold runAttempts
    exact surfaces_attempt h (failed + 1) (hattempt failed) hfailure hgiveUp
      fun e' delay => hdelay e' (failed + 1) delay (ih (failed + 1))

theorem surfaces_runWithRetry (h : e.Fatal) {attempt : Nat → Work Value}
    (hattempt : ∀ failed, (attempt failed).Surfaces e) :
    (s.runWithRetry input attempt (s.recordFailed site)).Surfaces e :=
  surfaces_runAttempts h hattempt (fun e' => surfaces_recordFailure _ _ _ e')
    (givesUp_recordFailure_bind h givesUp_throw) _ _

theorem surfaces_runParallel (h : e.Fatal) :
    (s.runParallel site entered input).Surfaces e := by
  unfold runParallel
  refine (surfaces_ofOutcome _).bind fun effective => ?_
  refine (Plain.surfaces default (s.plain_parameters effective _)).bind fun effective => ?_
  refine (surfaces_perform _).bind fun _ => surfaces_runWithRetry h fun failed => ?_
  unfold runBranches
  refine (surfaces_ofOutcome _).bind fun branches => ?_
  refine (surfaces_joined _).bind fun result => ?_
  refine (surfaces_perform _).bind fun _ => ?_
  exact Plain.surfaces default (s.plain_finish input result _)

theorem surfaces_runMap (h : e.Fatal) (processor : Value) :
    (s.runMap site entered processor input).Surfaces e := by
  unfold runMap
  refine (surfaces_ofOutcome _).bind fun effective => ?_
  refine (surfaces_ofOutcome _).bind fun items => ?_
  split
  · refine (surfaces_perform _).bind fun _ => surfaces_runWithRetry h fun failed => ?_
    unfold runItems
    refine (surfaces_ofOutcome _).bind fun capacity => ?_
    refine Surfaces.bind ⟨fun _ => trivial, trivial⟩ fun slots => ?_
    refine (surfaces_joined _).bind fun result => ?_
    refine (surfaces_perform _).bind fun _ => ?_
    exact Plain.surfaces default (s.plain_finish input result _)
  · exact surfaces_throw _

theorem surfaces_run (h : e.Fatal) : (s.run site entered input).Surfaces e := by
  unfold run
  split
  · exact Plain.surfaces default (s.plain_runPass site entered input)
  · exact Plain.surfaces default (s.plain_runWait site entered input)
  · exact Plain.surfaces default (s.plain_runChoice site entered input)
  · exact Plain.surfaces default (s.plain_runSucceed site entered input)
  · exact surfaces_throw _
  · rename_i task _
    refine surfaces_runAttempts h (fun failed => ?_) (fun _ => surfaces_pure ()) givesUp_throw _ _
    exact Plain.surfaces _ (s.plain_attemptTask task site input _)
  · exact surfaces_runParallel h
  · exact surfaces_runMap h _

theorem surfaces_execute (h : e.Fatal) : (s.execute site input).Surfaces e := by
  unfold execute
  refine (surfaces_perform .now).bind fun entered => ?_
  refine (surfaces_ofOutcome _).bind fun text => ?_
  refine (surfaces_perform _).bind fun _ => ?_
  refine (surfaces_run h).bind fun result => ?_
  refine (surfaces_ofOutcome _).bind fun text => ?_
  dsimp only
  split
  · exact surfaces_throw _
  · exact (surfaces_perform _).bind fun _ => surfaces_pure result

end State

/-! ## Machines -/

section Machines

variable {site : Site} {e : Failure}

theorem Machine.surfaces_runFrom (h : e.Fatal) (states : Value) (fuel : Nat)
    (current data : Value) : (runFrom site states fuel current data).Surfaces e := by
  induction fuel generalizing current data with
  | zero => exact surfaces_throw _
  | succ fuel ih =>
    rw [runFrom]
    refine (surfaces_perform .historySize).bind fun size => ?_
    split
    · exact surfaces_throw _
    · refine (surfaces_of_makes (State.make_makes default site states current)).bind fun state => ?_
      refine (State.surfaces_execute h).bind fun result => ?_
      split
      · split
        · exact surfaces_pure _
        · exact surfaces_throw _
      · exact ih _ _

theorem Job.surfaces_runMachine (h : e.Fatal) (definition input : Value) :
    (runMachine site definition input).Surfaces e := by
  unfold runMachine
  refine (surfaces_perform (.numberMachine site.machine)).bind fun number => ?_
  refine (surfaces_ofOutcome _).bind fun machine => ?_
  exact Machine.surfaces_runFrom h _ _ _ _

theorem Job.surfaces_runSlotted (h : e.Fatal) (i : Iteration) (input : Value) :
    (runSlotted site i input).Surfaces e := by
  unfold runSlotted
  refine (surfaces_perform _).bind fun _ => ?_
  refine (surfaces_runMachine h _ input).outcome_bind (fun o => ?_) ?_
  · cases o with
    | ok output => exact (surfaces_perform _).bind fun _ => surfaces_pure output
    | error e' => exact (surfaces_recordFailure _ _ _ e').bind fun _ => surfaces_throw e'
  · exact givesUp_recordFailure_bind h givesUp_throw

theorem Job.surfaces_runIteration (h : e.Fatal) (slots : Nat) (i : Iteration) :
    (runIteration site slots i).Surfaces e := by
  have hrun (input : Value) : (do
      Work.await (.takeSlot slots)
      let outcome ← (runSlotted site i input).outcome
      Work.await (.freeSlot slots)
      Work.ofOutcome outcome : Work Value).Surfaces e := by
    refine Surfaces.bind ⟨fun _ => trivial, trivial⟩ fun _ => ?_
    refine (surfaces_runSlotted h i input).outcome_bind (fun o => ?_) ⟨⟨slots, rfl⟩, fun _ => rfl⟩
    exact Surfaces.bind ⟨fun _ => trivial, trivial⟩ fun _ => surfaces_ofOutcome o
  unfold runIteration
  split
  · exact hrun _
  · exact (Plain.surfaces default (plain_expand _ _ _)).bind hrun

theorem Job.surfaces_work (h : e.Fatal) (identity : Identity) (config : Value) (job : Job) :
    (job.work identity config).Surfaces e := by
  cases job with
  | branch parent definition input => exact surfaces_runMachine h definition input
  | iteration parent slots i => exact surfaces_runIteration h slots i

theorem Interpreter.surfaces_executionWork (h : e.Fatal) (identity : Identity)
    (config definition : Value) : (executionWork identity config definition).Surfaces e := by
  unfold executionWork
  refine (surfaces_ofOutcome _).bind fun text => ?_
  refine (surfaces_perform _).bind fun _ => ?_
  refine (surfaces_ofOutcome _).bind fun _ => ?_
  refine (surfaces_ofOutcome _).bind fun machine => ?_
  refine (Machine.surfaces_runFrom h _ _ _ _).outcome_bind (fun o => ?_) ?_
  · cases o with
    | error e' =>
      refine (surfaces_perform _).bind fun _ => ?_
      refine (surfaces_recordFailure _ _ _ e').bind fun _ => ?_
      exact (surfaces_tell _ _).bind fun _ => surfaces_throw e'
    | ok output =>
      refine (surfaces_perform _).bind fun _ => ?_
      refine (surfaces_ofOutcome _).bind fun _ => ?_
      exact (surfaces_perform _).bind fun _ => surfaces_pure output
  · refine givesUp_perform_bind fun _ => givesUp_recordFailure_bind h ?_
    obtain ⟨text, htext⟩ := h.told
    obtain ⟨name, hname⟩ := h.named
    rw [htext, hname]
    exact givesUp_perform_bind fun _ => givesUp_throw

end Machines

/-! ## The bound of a machine -/

theorem fatal_historyExceeded (arn : String) : (historyExceeded arn).Fatal :=
  ⟨rfl, ⟨_, rfl⟩, _, rfl⟩

/-- What the quota of the history comes to for a machine at a site. -/
structure Machine.Bounded (m : Machine) (site : Site) : Prop where
  /-- The runs of the machine are made of rounds, with no bound on their number. -/
  by_rounds : ∀ input w o w', (m.run site input).run.Goes w o w' ↔
    ∃ n h, Rounds site m.states n ⟨m.startAt, input, w⟩ h ∧ Stops site m.states h o w'
  /-- Of each round one state is started; where there is room, one more is. -/
  starts : ∀ n h h', Rounds site m.states n h h' → n ≤ 12501 ∧ (h'.world.InQuota → n + 1 ≤ 12501)
  ends : ∀ heads : Nat → Head, ¬∀ i, Round site m.states (heads i) (heads (i + 1))
  two_events : ∀ (s : State) data w t w', (s.execute site data).run.Goes w (.ok t) w' →
    w.events + 2 ≤ w'.events
  never_shrinks : ∀ work s s', Scheduler.step s work = some s' → s.world.Continues s'.world
  exceeded : ∀ h o w', ¬h.world.InQuota → (Stops site m.states h o w' ↔
    o = .error (historyExceeded site.identity.arn) ∧ w' = h.world)
  is_runtime : (historyExceeded site.identity.arn).isRuntime = true
  /-- No policy of any state retries or catches the error. -/
  undecided : ∀ (s : State) attempts input,
    s.decide (historyExceeded site.identity.arn) attempts input = .ok .propagate
  /-- Jobs in which a join fails with the error fail with it, through all states around. -/
  job_surfaces : ∀ job : Job,
    (job.work site.identity site.config).Surfaces (historyExceeded site.identity.arn)
  execution_surfaces : ∀ definition, (Interpreter.executionWork site.identity site.config
    definition).Surfaces (historyExceeded site.identity.arn)

/-- Each run of a machine starts a bounded number of states and ends if they do, and the error by which
it may have to end is one that nothing around it retries or catches. -/
theorem Machine.bounded (m : Machine) (site : Site) : m.Bounded site where
  by_rounds input w o w' := run_goes_iff m input
  starts n h h' hrounds := hrounds.length_le
  ends := not_round_forever
  two_events s data w t w' := State.events_execute
  never_shrinks work s s' := Scheduler.continues_step
  exceeded h o w' hfull := by
    constructor
    · intro hstops
      cases hstops with
      | exceeded full => exact ⟨rfl, rfl⟩
      | unmade room | failed room | last room => exact absurd room hfull
    · rintro ⟨rfl, rfl⟩
      exact .exceeded hfull
  is_runtime := (fatal_historyExceeded _).isRuntime
  undecided s := s.decide_of_isRuntime (fatal_historyExceeded _).isRuntime
  job_surfaces := Job.surfaces_work (fatal_historyExceeded _) site.identity site.config
  execution_surfaces :=
    Interpreter.surfaces_executionWork (fatal_historyExceeded _) site.identity site.config

end StatesLanguage
