import StatesLanguage.Proofs.Asks
import StatesLanguage.Proofs.Concurrency
import StatesLanguage.Proofs.Uniform

/-!
# Machines that time does not touch

Machines of Pass, Wait, Choice, Succeed, Parallel and Map states, to any depth, which neither try
again nor catch errors, and whose data depends neither on the time nor on the identifiers that have
been drawn. Whenever and beside whatever such a machine runs, it gives what it gives when it runs
alone.
-/

namespace StatesLanguage

variable [Room]

namespace State

/-- What the states of a name see of an execution when they are entered at a time. -/
def seen (identity : Identity) (name : String) (entered : Nat) : Value :=
  identity.context (.str name) (.str (Instant.render entered)) (.int 0)

/-- A state that neither calls nor fails nor tries again, and whose data depends neither on the time
nor on the identifiers that have been drawn. -/
structure Timeless (identity : Identity) (s : State) : Prop where
  kind : s.kind ≠ .fail ∧ ∀ task, s.kind ≠ .task task
  /-- A Wait state waits for a number of seconds. -/
  waits : s.kind = .wait → (s.definition.get? "Seconds").isSome
  /-- A Parallel or Map state neither tries again nor catches errors. -/
  tries : s.kind = .parallel ∨ (∃ processor, s.kind = .map processor) →
    s.definition.get? "Retry" = none ∧ s.definition.get? "Catch" = none
  paths : ∀ key path, s.definition.get? key = some path →
    key ∈ ["InputPath", "OutputPath", "ItemsPath", "SecondsPath"] →
      SteadyPath (seen identity s.name) path
  templates : ∀ key template, s.definition.get? key = some template →
    key ∈ ["Parameters", "ResultSelector"] → Template.Steady (seen identity s.name) template
  /-- The template for the input of iterations, which see their item. -/
  selector : ∀ processor template, s.kind = .map processor → s.selector? = some template →
    ∀ i : Iteration, Template.Steady
      (fun entered => Job.iterationContext { i with context := seen identity s.name entered }) template
  choices : s.kind = .choice → ∀ rules, (s.field "Choices" (.arr [])).iterate = .ok rules →
    ∀ rule ∈ rules, ∀ path ∈ (Choice.Rule.ofValue rule).paths, SteadyPath (seen identity s.name) path

end State

/-- A definition of a machine that time does not touch, nor the machines inside it. -/
inductive TimelessMachine (identity : Identity) : Value → Prop
  | of_states {definition : Value}
      (states : ∀ machine s, Machine.ofDefinition definition = .ok machine →
        State.IsPart machine.states s → s.Timeless identity)
      (branches : ∀ machine s branches, Machine.ofDefinition definition = .ok machine →
        State.IsPart machine.states s → s.kind = .parallel →
        (s.field "Branches" .null).iterate = .ok branches →
          ∀ branch ∈ branches, TimelessMachine identity branch)
      (processors : ∀ machine s processor, Machine.ofDefinition definition = .ok machine →
        State.IsPart machine.states s → s.kind = .map processor → TimelessMachine identity processor) :
      TimelessMachine identity definition

namespace State

open Work

variable {work : Job → Process (Outcome Value)} {identity : Identity} {config : Value} {s : State}

/-! ## Paths and templates -/

theorem Timeless.path (h : s.Timeless identity) {key : String}
    (hkey : key ∈ ["InputPath", "OutputPath", "ItemsPath", "SecondsPath"]) :
    SteadyPath (seen identity s.name) (s.field key Path.root) := by
  unfold field
  rcases hpath : s.definition.get? key with _ | path
  · exact fun input => .const (.ok (some input))
  · exact h.paths key path hpath hkey

theorem Timeless.template (h : s.Timeless identity) {key : String}
    (hkey : key ∈ ["Parameters", "ResultSelector"]) :
    Template.Steady (seen identity s.name) (s.field key .null) := by
  unfold field
  rcases htemplate : s.definition.get? key with _ | template
  · exact nofun
  · exact h.templates key template htemplate hkey

abbrev Visiting := List Nat × Nat

variable (h : s.Timeless identity)

include h

theorem uniform_filterInput (input : Value) : Uniform work fun i : Visiting =>
    s.filterInput input (s.context ⟨identity, config, i.1⟩ i.2 0) :=
  uniform_ofOutcome (((h.path (by simp)).filter input).comp Prod.snd)

theorem uniform_filterOutput (output : Value) : Uniform work fun i : Visiting =>
    s.filterOutput output (s.context ⟨identity, config, i.1⟩ i.2 0) :=
  uniform_ofOutcome (((h.path (by simp)).filter output).comp Prod.snd)

theorem uniform_parameters (input : Value) : Uniform work fun i : Visiting =>
    s.parameters input (s.context ⟨identity, config, i.1⟩ i.2 0) :=
  uniform_expand (((h.template (by simp)).apply input).comp Prod.snd)

theorem uniform_combine (input result : Value) : Uniform work fun i : Visiting =>
    s.combine input result (s.context ⟨identity, config, i.1⟩ i.2 0) := by
  refine Uniform.bind (uniform_ofOutcome (.const _)) fun output => ?_
  exact uniform_filterOutput h output

theorem uniform_finish (input result : Value) : Uniform work fun i : Visiting =>
    s.finish input result (s.context ⟨identity, config, i.1⟩ i.2 0) := by
  refine Uniform.bind (uniform_expand ?_) fun result => uniform_combine h input result
  exact ((h.template (by simp)).apply result).comp Prod.snd

theorem uniform_runPass (input : Value) : Uniform work fun i : Visiting =>
    s.runPass ⟨identity, config, i.1⟩ i.2 input := by
  refine Uniform.bind (uniform_filterInput h input) fun effective => ?_
  refine Uniform.bind (uniform_parameters h effective) fun effective => ?_
  exact Uniform.bind (uniform_combine h input _) fun output => uniform_pure _

theorem uniform_runSucceed (input : Value) : Uniform work fun i : Visiting =>
    s.runSucceed ⟨identity, config, i.1⟩ i.2 input := by
  refine Uniform.bind (uniform_filterInput h input) fun effective => ?_
  exact Uniform.bind (uniform_filterOutput h effective) fun output => uniform_pure _

theorem agreed_delay (hwait : s.kind = .wait) (input : Value) :
    Agreed fun i : Visiting => s.delay input (s.context ⟨identity, config, i.1⟩ i.2 0) i.2 := by
  have hseconds := h.waits hwait
  unfold delay
  simp only [hseconds, Bool.true_or, if_true]
  refine Agreed.bind ?_ fun seconds => .const _
  unfold fieldOrPath
  rcases hpath : s.definition.get? "SecondsPath" with _ | path
  · exact .const _
  · exact ((h.paths _ path hpath (by simp)).apply input).comp Prod.snd

theorem uniform_runWait (hwait : s.kind = .wait) (input : Value) : Uniform work fun i : Visiting =>
    s.runWait ⟨identity, config, i.1⟩ i.2 input := by
  refine Uniform.bind (uniform_filterInput h input) fun effective => ?_
  refine Uniform.bind (uniform_ofOutcome (agreed_delay h hwait effective)) fun delay => ?_
  have hend : Uniform work fun i : Visiting => (do
      let output ← s.filterOutput effective (s.context ⟨identity, config, i.1⟩ i.2 0)
      return Transition.mk output s.next) :=
    Uniform.bind (uniform_filterOutput h effective) fun output => uniform_pure _
  by_cases hdelay : delay > 0
  · simp only [hdelay, if_true]
    exact Uniform.bind (uniform_sleep _) fun _ => hend
  · simp only [hdelay, if_false]
    exact hend

theorem uniform_runChoice (hchoice : s.kind = .choice) (input : Value) :
    Uniform work fun i : Visiting => s.runChoice ⟨identity, config, i.1⟩ i.2 input := by
  refine Uniform.bind (uniform_filterInput h input) fun effective => ?_
  refine uniform_ofOutcome_bind fun rules hrules => ?_
  have hchosen := agreed_chosen (h.choices hchoice rules hrules) effective
  refine Uniform.bind (uniform_ofOutcome (hchosen.comp Prod.snd)) fun next => ?_
  cases htruthy : (next.getD (s.field "Default" .null)).truthy with
  | false =>
    simp only [htruthy, Bool.not_false, if_true]
    exact uniform_of_fails fun i => (fails_throw _).bind _
  | true =>
    simp only [htruthy, Bool.not_true, Bool.false_eq_true, if_false]
    exact Uniform.bind (uniform_filterOutput h effective) fun output => uniform_pure _

omit h in
theorem decide_propagate (hretry : s.definition.get? "Retry" = none)
    (hcatch : s.definition.get? "Catch" = none) (e : Failure) (attempts : Nat) (input : Value) :
    s.decide e attempts input = .ok .propagate := by
  simp only [State.decide, field, hretry, hcatch, Option.getD_none]
  unfold RetryPolicy.decide
  split
  · rfl
  · rfl

omit h in
theorem uniform_runWithRetry (hretry : s.definition.get? "Retry" = none)
    (hcatch : s.definition.get? "Catch" = none) {input : Value} {attempt : Visiting → Nat → Work Value}
    {onFailure : Visiting → Failure → Work Unit} (hattempt : Uniform work (attempt · 0))
    (hfailure : ∀ i e, ∃ value, Gives work (onFailure i e) value 0) :
    Uniform work fun i : Visiting => s.runWithRetry input (attempt i) (onFailure i) := by
  unfold runWithRetry
  generalize s.maxRetries = left
  unfold runAttempts
  refine hattempt.outcome_bind (fun output => uniform_pure _) fun i e => ?_
  simp only [decide_propagate hretry hcatch]
  obtain ⟨value, hgives⟩ := hfailure i e
  exact hgives.fails_bind fun _ => fails_throw e

theorem uniform_runBranches (input effective : Value)
    (hbranches : ∀ branches, (s.field "Branches" .null).iterate = .ok branches →
      ∀ branch ∈ branches, UniformJob work fun parent : List Nat => .branch parent branch effective) :
    Uniform work fun i : Visiting =>
      s.runBranches ⟨identity, config, i.1⟩ input effective
        (s.context ⟨identity, config, i.1⟩ i.2 0) := by
  refine uniform_ofOutcome_bind fun branches hiterate => ?_
  refine Uniform.bind ?_ fun result => ?_
  · refine uniform_joined (fun branch hbranch => ?_) fun _ _ _ => rfl
    obtain ⟨value, cost, hgives⟩ := hbranches branches hiterate branch hbranch
    exact ⟨value, cost, fun i : Visiting => hgives i.1⟩
  · exact Uniform.bind (uniform_record _ _ _) fun _ => uniform_finish h input result

theorem uniform_runItems (processor input effective : Value) (items : List Value)
    (hitems : ∀ index item, UniformJob work fun i : Visiting × Nat => .iteration i.1.1 i.2
      ⟨s.name, processor, index, item, s.selector?, effective,
        s.context ⟨identity, config, i.1.1⟩ i.1.2 0⟩) :
    Uniform work fun i : Visiting => s.runItems ⟨identity, config, i.1⟩ processor input effective items
      (s.context ⟨identity, config, i.1⟩ i.2 0) := by
  refine uniform_ofOutcome_bind fun most hmost => ?_
  simp only [← bind_assoc]
  refine Uniform.bind ?_ fun result => ?_
  · refine uniform_slotted (capacity_ne_zero hmost) (fun x _ => ?_) fun _ _ _ _ => ?_
    · exact hitems x.2 x.1
    · rfl
  · exact Uniform.bind (uniform_record _ _ _) fun _ => uniform_finish h input result

theorem uniform_runParallel (htype : s.kind = .parallel) (input : Value)
    (hbranches : ∀ effective branches, (s.field "Branches" .null).iterate = .ok branches →
      ∀ branch ∈ branches, UniformJob work fun parent : List Nat => .branch parent branch effective) :
    Uniform work fun i : Visiting => s.runParallel ⟨identity, config, i.1⟩ i.2 input := by
  obtain ⟨hretry, hcatch⟩ := h.tries (.inl htype)
  refine Uniform.bind (uniform_filterInput h input) fun effective => ?_
  refine Uniform.bind (uniform_parameters h effective) fun effective => ?_
  refine Uniform.bind (uniform_record _ _ _) fun _ => ?_
  exact uniform_runWithRetry hretry hcatch (uniform_runBranches h input effective (hbranches effective))
    fun i e => gives_recordFailure _ _ _ e

theorem uniform_runMap {processor : Value} (htype : s.kind = .map processor) (input : Value)
    (hitems : ∀ effective index item, UniformJob work fun i : Visiting × Nat => .iteration i.1.1 i.2
      ⟨s.name, processor, index, item, s.selector?, effective,
        s.context ⟨identity, config, i.1.1⟩ i.1.2 0⟩) :
    Uniform work fun i : Visiting => s.runMap ⟨identity, config, i.1⟩ i.2 processor input := by
  obtain ⟨hretry, hcatch⟩ := h.tries (.inr ⟨processor, htype⟩)
  refine Uniform.bind (uniform_filterInput h input) fun effective => ?_
  have hpath : Agreed fun entered =>
      Path.apply effective (seen identity s.name entered) (s.field "ItemsPath" Path.root) :=
    (h.path (by simp)).apply effective
  refine Uniform.bind (uniform_ofOutcome (hpath.comp Prod.snd)) fun items => ?_
  cases items with
  | arr items =>
    refine Uniform.bind (uniform_record _ _ _) fun _ => ?_
    exact uniform_runWithRetry hretry hcatch
      (uniform_runItems h processor input effective items (hitems effective))
      fun i e => gives_recordFailure _ _ _ e
  | _ => exact uniform_throw _

/-- The machines inside a state give the same wherever they are started. -/
structure InnerUniform (work : Job → Process (Outcome Value)) (identity : Identity) (config : Value)
    (s : State) : Prop where
  branches : s.kind = .parallel → ∀ effective branches,
    (s.field "Branches" .null).iterate = .ok branches → ∀ branch ∈ branches,
      UniformJob work fun parent : List Nat => .branch parent branch effective
  iterations : ∀ processor, s.kind = .map processor → ∀ effective index item,
    UniformJob work fun i : Visiting × Nat => .iteration i.1.1 i.2
      ⟨s.name, processor, index, item, s.selector?, effective,
        s.context ⟨identity, config, i.1.1⟩ i.1.2 0⟩

theorem uniform_run (hinner : s.InnerUniform work identity config) (input : Value) :
    Uniform work fun i : Visiting => s.run ⟨identity, config, i.1⟩ i.2 input := by
  unfold State.run
  cases hkind : s.kind with
  | pass => exact uniform_runPass h input
  | wait => exact uniform_runWait h hkind input
  | choice => exact uniform_runChoice h hkind input
  | succeed => exact uniform_runSucceed h input
  | fail => exact absurd hkind h.kind.1
  | task task => exact absurd hkind (h.kind.2 task)
  | parallel => exact uniform_runParallel h hkind input (hinner.branches hkind)
  | map processor => exact uniform_runMap h hkind input (hinner.iterations processor hkind)

theorem uniform_execute (hinner : s.InnerUniform work identity config) (input : Value) :
    Uniform work fun machine : List Nat => s.execute ⟨identity, config, machine⟩ input := by
  refine uniform_perform (e := fun _ => .now) ?_
  refine uniform_ofOutcome_bind fun text _ => ?_
  refine Uniform.bind (uniform_record _ _ _) fun _ => ?_
  refine Uniform.bind ((uniform_run h hinner input).comp fun i : (_ : List Nat) × Nat => (i.1, i.2))
    fun result => ?_
  refine uniform_ofOutcome_bind fun text _ => ?_
  by_cases hlong : text.length > maxDataLength
  · simp only [hlong, if_true]
    exact uniform_of_fails fun i => (fails_throw _).bind _
  · simp only [hlong, if_false]
    exact Uniform.bind (uniform_record _ _ _) fun _ => uniform_pure _

omit h in
theorem makeKind_eq {type : Value} (htype : type ≠ .str "Task") (name : String) (definition : Value) :
    ∃ o, ∀ site, makeKind site name definition type = ofOutcome o := by
  unfold makeKind
  rcases hkey : type.asKey with e | key
  · exact ⟨.error e, fun _ => rfl⟩
  · simp only [ofOutcome_ok_bind]
    split
    · exact absurd (Value.eq_str_of_asKey hkey) htype
    all_goals exact ⟨_, fun _ => rfl⟩

omit h in
theorem make_eq {states : Value} (htask : ∀ s task, IsPart states s → s.kind ≠ .task task)
    (name : Value) : ∃ o, ∀ site, make site states name = ofOutcome o := by
  unfold make
  split
  · rename_i members
    rcases hkey : name.asKey with e | key
    · exact ⟨.error e, fun _ => rfl⟩
    · simp only [ofOutcome_ok_bind]
      cases key with
      | none => exact ⟨.error _, fun _ => rfl⟩
      | some key =>
        dsimp only
        split
        · exact ⟨.error _, fun _ => rfl⟩
        · exact ⟨.error _, fun _ => rfl⟩
        · rename_i definition _ hdefinition
          rcases htype : definition.memberOr "Type" .null with e | type
          · exact ⟨.error e, fun _ => rfl⟩
          · have hother : type ≠ .str "Task" := by
              rintro rfl
              exact htask ⟨key, .task default, definition⟩ default
                ⟨⟨members, rfl, hdefinition⟩, htype, nofun⟩ rfl
            obtain ⟨o, ho⟩ := makeKind_eq hother key definition
            refine ⟨o.map (⟨key, ·, definition⟩), fun site => ?_⟩
            rw [ofOutcome_ok_bind, ho site]
            cases o <;> rfl
  · exact ⟨.error _, fun _ => rfl⟩

end State

namespace Machine

open Work

variable {work : Job → Process (Outcome Value)} {identity : Identity} {config states : Value}

theorem uniform_goOn (hstates : ∀ s, State.IsPart states s → s.Timeless identity)
    (hinner : ∀ s, State.IsPart states s → s.InnerUniform work identity config) {fuel : Nat}
    (hrest : ∀ current data, Uniform work fun machine : List Nat =>
      runFrom ⟨identity, config, machine⟩ states fuel current data) (current data : Value) :
    Uniform work fun machine : List Nat => (do
      let state ← State.make ⟨identity, config, machine⟩ states current
      let result ← state.execute ⟨identity, config, machine⟩ data
      match result.next with
      | .null => if isEnd state then return result.output else throw (noNext current)
      | next => runFrom ⟨identity, config, machine⟩ states fuel next result.output) := by
  obtain ⟨o, hmake⟩ := State.make_eq (fun s task hs => (hstates s hs).kind.2 task) current
  simp only [hmake]
  refine uniform_ofOutcome_bind fun s hs => ?_
  have hpart : State.IsPart states s := by
    have hmade := State.make_makes default ⟨identity, config, []⟩ states current
    rw [hmake, hs] at hmade
    exact hmade.1
  refine Uniform.bind (State.uniform_execute (hstates s hpart) (hinner s hpart) data) fun result => ?_
  split
  · split
    · exact uniform_pure _
    · exact uniform_throw _
  · exact hrest _ _

theorem uniform_runFrom (hstates : ∀ s, State.IsPart states s → s.Timeless identity)
    (hinner : ∀ s, State.IsPart states s → s.InnerUniform work identity config) (fuel : Nat)
    (current data : Value) : Uniform work fun machine : List Nat =>
      runFrom ⟨identity, config, machine⟩ states fuel current data := by
  induction fuel generalizing current data with
  | zero => exact uniform_throw _
  | succ fuel ih =>
    obtain ⟨value, cost, hgives⟩ := uniform_goOn hstates hinner ih current data
    refine ⟨value, cost, fun machine => gives_perform (fun w hquota => ?_) fun w hquota => ?_⟩
    · have hsize : ¬(w.perform .historySize).1 > maxHistory := Nat.not_lt.mpr hquota
      simp only [hsize, if_false]
      exact hgives machine
    · have hsize : (w.perform .historySize).1 > maxHistory := Nat.not_le.mp hquota
      simp only [hsize, if_true]
      exact fun f v hv => .inl (((fails_throw _).bind _) f v hv)

end Machine

namespace Job

open Work

variable {work : Job → Process (Outcome Value)} {identity : Identity} {config : Value}

theorem uniform_runMachine {definition : Value}
    (hstates : ∀ machine s, Machine.ofDefinition definition = .ok machine →
      State.IsPart machine.states s → s.Timeless identity)
    (hinner : ∀ machine s, Machine.ofDefinition definition = .ok machine →
      State.IsPart machine.states s → s.InnerUniform work identity config) (input : Value) :
    Uniform work fun machine : List Nat => runMachine ⟨identity, config, machine⟩ definition input := by
  refine uniform_perform (e := fun machine => .numberMachine machine) ?_
  refine uniform_ofOutcome_bind fun machine hmachine => ?_
  exact (Machine.uniform_runFrom (fun s => hstates machine s hmachine)
    (fun s => hinner machine s hmachine) _ _ input).comp fun i : (_ : List Nat) × Nat => i.1 ++ [i.2]

theorem gives_runSlotted {site : Site} {i : Iteration} {input : Value} {value : Option Value}
    {cost : Nat} (h : (runMachine site i.processor input).Gives work value cost) :
    (runSlotted site i input).Gives work value (0 + (cost + (0 + 0))) := by
  refine (gives_record _ _ _).bind (h.outcome_bind (fun output houtput => ?_) (fun h => h) fun e => ?_)
  · rw [houtput]
    refine (gives_record _ _ _).bind ?_
    exact gives_pure output
  · obtain ⟨value, hgives⟩ : ∃ value, (recordFailure (site.iteration i.index) "MapIterationFailed"
        [("index", .int i.index), ("name", .str i.state)] e).Gives work value 0 :=
      gives_recordFailure _ _ _ e
    exact hgives.fails_bind fun _ => fails_throw e

theorem uniform_runSlotted {i : Iteration} (hmachine : ∀ input, Uniform work fun machine : List Nat =>
      runMachine ⟨identity, config, machine⟩ i.processor input) (input : Value) :
    Uniform work fun p : List Nat × Value =>
      runSlotted ⟨identity, config, p.1⟩ { i with context := p.2 } input := by
  obtain ⟨value, cost, hgives⟩ := hmachine input
  exact ⟨value, _, fun p => gives_runSlotted (hgives p.1)⟩

def inputOf (i : Iteration) : Work Value :=
  match i.selector with
  | none => pure i.item
  | some template => Work.expand i.input (iterationContext i) template

theorem run_runIteration (site : Site) (slots : Nat) (i : Iteration) :
    (runIteration site slots i).run = (inputOf i).run.bind fun
      | .ok input => .wait (.takeSlot slots) fun _ =>
          (runSlotted site i input).run.bind fun o => .wait (.freeSlot slots) fun _ => .ret o
      | .error e => .ret (.error e) := by
  have hrest (x : Work Value) : (do
      let input ← x
      Work.await (.takeSlot slots)
      let outcome ← (runSlotted site i input).outcome
      Work.await (.freeSlot slots)
      Work.ofOutcome outcome).run = x.run.bind fun
        | .ok input => .wait (.takeSlot slots) fun _ =>
            (runSlotted site i input).run.bind fun o => .wait (.freeSlot slots) fun _ => .ret o
        | .error e => .ret (.error e) := by
    refine congrArg (Process.bind x.run) (funext fun o => ?_)
    cases o with
    | error e => rfl
    | ok input =>
      exact congrArg (Process.wait (.takeSlot slots)) (funext fun _ => run_outcome_bind _ _)
  rcases hselector : i.selector with _ | template
  all_goals
    simp only [runIteration, inputOf, hselector]
    exact hrest _

theorem gives_of_run {job : Job} {x : Work Value} {value : Option Value} {cost : Nat}
    (h : x.Gives work value cost) (hrun : work job = x.run) (hstake : job.stake = .none) :
    job.Gives work value cost where
  may v hv := by
    rw [hrun, ← x.run.bind_ret] at hv
    rcases h.may _ v hv with ⟨e, herror⟩ | ⟨a, ha, hrest⟩
    · cases herror
    · cases hrest
      exact ha
  must v hv := by
    rw [hrun, hstake, ← x.run.bind_ret]
    exact h.must v hv .none none .ret v 0 fun made => .ret made v

theorem gives_iteration {site : Site} {parent : List Nat} {slots : Nat} {i : Iteration}
    {input value : Option Value} {cost more : Nat}
    (hrun : work (.iteration parent slots i) = (runIteration site slots i).run)
    (hinput : (inputOf i).Gives work input cost)
    (hslotted : ∀ a, input = some a → (runSlotted site i a).Gives work value more)
    (hnone : input = none → value = none) :
    Job.Gives work (.iteration parent slots i) value (cost + (more + 1 + 1)) where
  may v hv := by
    rw [hrun, run_runIteration] at hv
    rcases hinput.may _ v hv with ⟨e, herror⟩ | ⟨a, ha, htaken⟩
    · cases herror
    · cases htaken with
      | waited _ _ hrest =>
        rcases (hslotted a ha).may _ v hrest with ⟨e, herror⟩ | ⟨out, hout, hfreed⟩
        · cases herror with
          | waited _ _ herror => cases herror
        · cases hfreed with
          | waited _ _ hret =>
            cases hret
            exact hout
  must v hv := by
    cases input with
    | none => rw [hnone rfl] at hv; cases hv
    | some a =>
      rw [hrun, run_runIteration]
      refine hinput.must a rfl (.owed slots) none _ v _ fun made => .takeSlot ?_
      exact (hslotted a rfl).must v hv (.held slots) made _ v 1 fun made => .freeSlot (.ret made v)

theorem uniformJob_iteration (i : Iteration) (context : Nat → Value)
    (hwork : ∀ parent slots i, work (.iteration parent slots i) =
      (runIteration ⟨identity, config, parent⟩ slots i).run)
    (hinput : Uniform work fun entered : Nat => inputOf { i with context := context entered })
    (hmachine : ∀ input, Uniform work fun machine : List Nat =>
      runMachine ⟨identity, config, machine⟩ i.processor input) :
    UniformJob work fun p : (List Nat × Nat) × Nat =>
      .iteration p.1.1 p.2 { i with context := context p.1.2 } := by
  obtain ⟨input, cost, hinput⟩ := hinput
  cases input with
  | none =>
    exact ⟨none, cost + (0 + 1 + 1), fun p =>
      gives_iteration (hwork _ _ _) (hinput p.1.2) nofun fun _ => rfl⟩
  | some input =>
    obtain ⟨value, more, hslotted⟩ := uniform_runSlotted hmachine input
    refine ⟨value, cost + (more + 1 + 1), fun p =>
      gives_iteration (hwork _ _ _) (hinput p.1.2) (fun a ha => ?_) nofun⟩
    cases ha
    exact hslotted (p.1.1, context p.1.2)

end Job

open Work in
theorem TimelessMachine.uniform {identity : Identity} {definition : Value}
    (h : TimelessMachine identity definition)
    (config input : Value) : Uniform (fun job => (job.work identity config).run)
      fun machine : List Nat => Job.runMachine ⟨identity, config, machine⟩ definition input := by
  induction h generalizing input with
  | of_states states branches processors ihbranches ihprocessors =>
    refine Job.uniform_runMachine states (fun machine s hmachine hpart => ⟨?_, ?_⟩) input
    · intro hkind effective branches' hiterate branch hbranch
      obtain ⟨value, cost, hgives⟩ :=
        ihbranches machine s branches' hmachine hpart hkind hiterate branch hbranch effective
      exact ⟨value, cost, fun parent => Job.gives_of_run (hgives parent) rfl rfl⟩
    · intro processor hkind effective index item
      let i : Iteration := ⟨s.name, processor, index, item, s.selector?, effective, .null⟩
      refine Job.uniformJob_iteration i (State.seen identity s.name) (fun _ _ _ => rfl) ?_
        (ihprocessors machine s processor hmachine hpart hkind)
      unfold Job.inputOf
      rcases hselector : s.selector? with _ | template
      · simp only [i, hselector]
        exact uniform_pure item
      · simp only [i, hselector]
        exact uniform_expand (((states machine s hmachine hpart).selector processor template hkind
          hselector { i with selector := some template }).apply effective)

/-! ## Machines that read nothing but their input -/

/-- A definition of a state that hands on data, waits or runs branches, and reads nothing but its
input. -/
def Bare (definition : Value) : Bool :=
  (match definition.get? "Type" with
    | some (.str "Pass") | some (.str "Parallel") => true
    | some (.str "Wait") => (definition.get? "Seconds").isSome
    | _ => false) &&
  (["InputPath", "OutputPath", "ItemsPath", "SecondsPath"].all fun key =>
    (definition.get? key).all isData) &&
  ["Parameters", "ResultSelector", "Retry", "Catch"].all fun key => (definition.get? key).isNone

namespace State

variable {states : Value} {s : State}

omit [Room] in
theorem IsPart.get_type (h : IsPart states s) :
    s.definition.get? "Type" = some (.str s.kind.name) := by
  have htype := h.type
  unfold Value.memberOr Value.member at htype
  split at htype
  · rename_i members hdefinition
    rw [hdefinition]
    rcases hget : Table.get? members "Type" with _ | type
    · simp [hget, Except.map] at htype
    · simpa [hget, Except.map, Value.get?] using htype
  · cases htype

omit [Room] in
theorem IsPart.kind_of_bare (hpart : IsPart states s) (h : Bare s.definition = true) :
    s.kind = .pass ∨ s.kind = .parallel ∨ s.kind = .wait ∧ (s.definition.get? "Seconds").isSome := by
  unfold Bare at h
  rw [hpart.get_type, Bool.and_eq_true, Bool.and_eq_true] at h
  cases hkind : s.kind with
  | pass => exact .inl rfl
  | parallel => exact .inr (.inl rfl)
  | wait =>
    rw [hkind] at h
    exact .inr (.inr ⟨rfl, h.1.1⟩)
  | _ =>
    rw [hkind] at h
    cases h.1.1

theorem Timeless.of_bare (identity : Identity) (hpart : IsPart states s)
    (h : Bare s.definition = true) : s.Timeless identity := by
  have hkind := hpart.kind_of_bare h
  unfold Bare at h
  simp only [Bool.and_eq_true, List.all_eq_true, Option.isNone_iff_eq_none] at h
  obtain ⟨⟨-, hpaths⟩, hnone⟩ := h
  refine ⟨?_, fun hwait => ?_, fun _ => ⟨hnone _ (by simp), hnone _ (by simp)⟩,
    fun key path hpath hkey => ?_, fun key template htemplate hkey => ?_,
    fun processor template hmap => ?_, fun hchoice => ?_⟩
  · rcases hkind with hkind | hkind | ⟨hkind, -⟩ <;> simp [hkind]
  · simpa [hwait] using hkind
  · have hdata := hpaths key hkey
    rw [hpath] at hdata
    exact .of_data hdata
  · have hnot := hnone key (by simp only [List.mem_cons] at hkey ⊢; tauto)
    rw [htemplate] at hnot
    cases hnot
  · simp [hmap] at hkind
  · simp [hchoice] at hkind

end State

/-- A machine whose states read nothing but their input is one that time does not touch. -/
theorem TimelessMachine.of_bare {identity : Identity} {startAt : Value} {members : Members}
    (hstates : members.all (fun member => Bare member.2) = true)
    (hbranches : ∀ member ∈ members, ∀ branches,
      ((member.2.get? "Branches").getD .null).iterate = .ok branches →
        ∀ branch ∈ branches, TimelessMachine identity branch) :
    TimelessMachine identity (.obj [("StartAt", startAt), ("States", .obj members)]) := by
  have hmember {machine : Machine} {s : State} (hmachine : Machine.ofDefinition
      (.obj [("StartAt", startAt), ("States", .obj members)]) = .ok machine)
      (hpart : State.IsPart machine.states s) : (s.name, s.definition) ∈ members := by
    obtain ⟨members', hstates', hget⟩ := hpart.found
    cases hmachine
    cases hstates'
    obtain ⟨before, after, hmembers, -⟩ := List.lookup_eq_some_iff.mp hget
    rw [hmembers]
    exact List.mem_append_right _ List.mem_cons_self
  have hbare {machine : Machine} {s : State} (hmachine : Machine.ofDefinition
      (.obj [("StartAt", startAt), ("States", .obj members)]) = .ok machine)
      (hpart : State.IsPart machine.states s) : Bare s.definition = true :=
    List.all_eq_true.mp hstates _ (hmember hmachine hpart)
  refine .of_states (fun machine s hmachine hpart => .of_bare identity hpart (hbare hmachine hpart))
    (fun machine s branches hmachine hpart _ hiterate => ?_)
    fun machine s processor hmachine hpart hmap => ?_
  · exact hbranches _ (hmember hmachine hpart) branches hiterate
  · have hkind := hpart.kind_of_bare (hbare hmachine hpart)
    simp [hmap] at hkind

end StatesLanguage
