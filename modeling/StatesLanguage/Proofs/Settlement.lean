import StatesLanguage.Interpreter
import StatesLanguage.Proofs.Scheduler
import StatesLanguage.Proofs.Texts

/-!
# How executions end

An execution whose machine can be made ends as succeeded or failed, with the outcome of its machine
in its record, whatever runs beside it. One whose machine cannot be made is left running.
-/

namespace StatesLanguage

/-! ## Outputs of machines -/

/-- A state is only left with an output that has a JSON text of bounded length. -/
def HasText (v : Value) : Prop :=
  ∃ text, Json.encode v = .ok text ∧ text.length ≤ State.maxDataLength

section

variable [Room]

theorem execute_hasText (s : State) (site : Site) (input : Value) :
    (s.execute site input).Keeps .free (fun t _ => HasText t.output) (fun _ _ => True) () := by
  rw [State.execute, Work.keeps_bind, Work.keeps_now]
  refine ⟨trivial, fun entered => ?_⟩
  rw [Work.keeps_bind, Work.keeps_ofOutcome]
  cases Json.encode input with
  | error e => trivial
  | ok text =>
    simp only [Work.keeps_bind, Work.keeps_record]
    refine ⟨trivial, fun _ => (Work.keeps_free _).mono (fun result _ _ => ?_) fun _ _ h => h⟩
    rw [Work.keeps_ofOutcome]
    cases hencode : Json.encode result.output with
    | error e => trivial
    | ok text =>
      apply Work.keeps_ite
      · intro _
        trivial
      · intro hlen
        exact ⟨trivial, fun _ => ⟨text, hencode, by omega⟩⟩

theorem runFrom_hasText (site : Site) (states : Value) (fuel : Nat) (current data : Value) :
    (Machine.runFrom site states fuel current data).Keeps .free (fun v _ => HasText v)
      (fun _ _ => True) () := by
  induction fuel generalizing current data with
  | zero => trivial
  | succ fuel ih =>
    rw [Machine.runFrom, Work.keeps_bind, Work.keeps_perform]
    refine ⟨trivial, fun size => Work.keeps_ite (fun _ => trivial) fun _ => ?_⟩
    refine (Work.keeps_free _).bind fun state _ _ => ?_
    refine (execute_hasText state site data).bind fun result _ htext => ?_
    cases result.next
    case null => exact Work.keeps_ite (fun _ => htext) fun _ => trivial
    all_goals exact ih _ _

/-! ## The record of an execution -/

/-- The execution is over, and its record and its last event say how. Of an error the event has the
name as its cause and the text as its error. -/
def Execution.Settled (x : Execution) (o : Outcome Value) : Prop :=
  x.stopped.isSome ∧ ∃ last, x.history.back? = some last ∧ last.scope = .top ∧
    match o with
    | .ok output => x.status = .succeeded ∧ x.output = output ∧ last.type = "ExecutionSucceeded"
    | .error e => ∃ text, e.text = .ok text ∧ x.status = .failed ∧ x.error = e.name ∧
        x.cause = .str text ∧ last.type = "ExecutionFailed" ∧
        (Table.get? last.details "cause").getD .null = x.error ∧
        Table.get? last.details "error" = some x.cause

/-- The execution is over and its run raised what its machine came to. An error without a text fails
the execution under its name only, and what went wrong with telling it is raised instead; so it is where
the event of an error cannot be told. -/
def Execution.Concluded (x : Execution) (result raised : Outcome Value) : Prop :=
  match result with
  | .ok output => raised = .ok output ∧ x.Settled (.ok output)
  | .error e =>
    match e.text with
    | .ok text => x.Settled (.error e) ∧ raised =
        .error (.telling (Value.obj (Event.fullDetails [] e.name (.str text))).display fun _ => e)
    | .error problem => x.status = .failed ∧ x.error = e.name ∧ raised = .error problem

theorem Execution.Concluded.settled_ok {x : Execution} {result : Outcome Value} {output : Value}
    (h : x.Concluded result (.ok output)) : x.Settled (.ok output) := by
  cases result with
  | ok v =>
    cases h.1
    exact h.2
  | error e =>
    simp only [Concluded] at h
    split at h
    · exact nomatch h.2
    · exact nomatch h.2.2

/-- An error that is no fault of the data is not raised in the place of another. -/
theorem Execution.Concluded.settled_error {x : Execution} {result : Outcome Value} {e : Failure}
    (h : x.Concluded result (.error e)) (he : e.isFault = false) : x.Settled (.error e) := by
  cases result with
  | ok v => exact nomatch h.1
  | error e' =>
    simp only [Concluded] at h
    split at h
    · obtain ⟨hsettled, hraised⟩ := h
      cases hraised
      rcases Failure.telling_cases _ _ with ⟨line, -, htold⟩ | ⟨problem, hproblem, htold⟩
      · rwa [htold]
      · rw [htold, Value.display_fault hproblem] at he
        cases he
    · rename_i hproblem
      cases h.2.2
      rw [Failure.text_fault hproblem] at he
      cases he

omit [Room] in
@[simp] theorem World.execution_log (w : World) (entry : LogEntry) :
    (w.log entry).execution = w.execution := rfl

@[simp] theorem World.execution_record (w : World) (scope : Scope) (type : String)
    (details : Members) :
    (w.record scope type details).execution = w.execution.addEvent scope w.now type details := by
  unfold World.record
  dsimp only
  split <;> rfl

end

theorem get?_fullDetails (name : Value) (text : String) :
    (Table.get? (Event.fullDetails [] name (.str text)) "cause").getD .null = name ∧
      Table.get? (Event.fullDetails [] name (.str text)) "error" = some (.str text) := by
  cases name <;> exact ⟨rfl, rfl⟩

namespace Interpreter

section

variable [Room]

def conclude (identity : Identity) : Outcome Value → Work Value
  | .error e => concludeFailed identity e
  | .ok output => concludeSucceeded output

/-- The world after an execution has failed with an error that has a text. -/
def failedWorld (w : World) (e : Failure) (text : String) : World :=
  (w.conclude (.error e)).record .top "ExecutionFailed" (Event.fullDetails [] e.name (.str text))

theorem settled_failedWorld {e : Failure} {text : String} (htext : e.text = .ok text) (w : World) :
    (failedWorld w e text).execution.Settled (.error e) := by
  rw [failedWorld, World.execution_record]
  simp only [World.conclude, Execution.fail, htext]
  exact ⟨rfl, _, Array.back?_push, rfl, text, htext, rfl, rfl, rfl, rfl, get?_fullDetails e.name text⟩

omit [Room] in
theorem mem_fullDetails {name : Value} (h : name ≠ .null) (text : String) :
    ("cause", name) ∈ Event.fullDetails [] name (.str text) := by
  cases name with
  | null => exact absurd rfl h
  | _ => exact List.mem_cons_self

theorem advance_concludeFailed {e : Failure} {text : String} (htext : e.text = .ok text)
    (identity : Identity) (w : World) :
    ∃ w', (concludeFailed identity e).run.advance w = (.done (.error (.telling
        (Value.obj (Event.fullDetails [] e.name (.str text))).display fun _ => e)), w') ∧
      w'.execution = (failedWorld w e text).execution := by
  have hconclude := Work.advance_perform (.conclude (.error e)) w
  have hrecord := Work.advance_recordFailure htext .top "ExecutionFailed" [] (w.conclude (.error e))
  unfold concludeFailed
  rw [Work.advance_bind_ok hconclude]
  cases hline : (Value.obj (Event.fullDetails [] e.name (.str text))).display with
  | error problem =>
    rw [hline] at hrecord
    exact ⟨_, Work.advance_bind_error hrecord _, rfl⟩
  | ok line =>
    have hname : ∃ shown, e.name.display = .ok shown := by
      by_cases hnull : e.name = .null
      · exact ⟨"None", by simp only [hnull, Value.display, Value.inner, if_neg Value.texts_ne_zero]⟩
      · exact Value.display_of_member hline (mem_fullDetails hnull text)
    obtain ⟨shown, hshown⟩ := hname
    rw [hline] at hrecord
    have htold : (do return "Execution " ++ identity.arn ++ " failed with " ++ (← e.name.display) ++
        ": " ++ (← e.text) : Outcome String) =
          .ok ("Execution " ++ identity.arn ++ " failed with " ++ shown ++ ": " ++ text) := by
      rw [hshown, htext]
      rfl
    exact ⟨_, (Work.advance_bind_ok hrecord _).trans
      (Work.advance_bind_ok (Work.advance_tell htold _ _) _), rfl⟩

theorem concludeFailed_settles (identity : Identity) (e : Failure) (w : World) :
    ∃ raised w', (concludeFailed identity e).run.advance w = (.done (.error raised), w') ∧
      w'.execution.Concluded (.error e) (.error raised) := by
  cases htext : e.text with
  | error problem =>
    have hconclude := Work.advance_perform (.conclude (.error e)) w
    refine ⟨problem, w.conclude (.error e), ?_, ?_⟩
    · unfold concludeFailed
      rw [Work.advance_bind_ok hconclude]
      exact Work.advance_bind_error (Work.advance_recordFailure_error htext _ _ _ _) _
    · simp only [Execution.Concluded, htext, World.conclude, Execution.fail]
      exact ⟨trivial, trivial, trivial⟩
  | ok text =>
    obtain ⟨w', hrun, hw'⟩ := advance_concludeFailed htext identity w
    refine ⟨_, w', hrun, ?_⟩
    simp only [Execution.Concluded, htext, hw']
    exact ⟨settled_failedWorld htext w, trivial⟩

theorem conclude_settles (identity : Identity) (o : Outcome Value) (w : World)
    (ho : ∀ v, o = .ok v → HasText v) :
    ∃ raised w', (conclude identity o).run.advance w = (.done raised, w') ∧
      w'.execution.Concluded o raised := by
  cases o with
  | error e =>
    obtain ⟨raised, w', hrun, hconcluded⟩ := concludeFailed_settles identity e w
    exact ⟨_, w', hrun, hconcluded⟩
  | ok v =>
    obtain ⟨text, htext, -⟩ := ho v rfl
    refine ⟨.ok v, (w.conclude (.ok v)).record .top "ExecutionSucceeded" [("output", .str text)],
      ?_, rfl, ?_⟩
    · have hrun : (concludeSucceeded v).run = .effect (.conclude (.ok v)) fun _ =>
          .effect (.record .top "ExecutionSucceeded" [("output", .str text)]) fun _ =>
            .ret (.ok v) := by
        unfold concludeSucceeded
        rw [htext]
        rfl
      rw [conclude, hrun]
      rfl
    · rw [World.execution_record]
      exact ⟨rfl, _, Array.back?_push, rfl, rfl, rfl, rfl⟩

/-! ## Before the machine runs -/

def prepare (identity : Identity) (definition : Value) : Outcome Machine := do
  let _ ← Json.encode identity.input
  let _ ← identity.logPolicy
  Machine.ofDefinition definition

def machineProcess (identity : Identity) (config : Value) (machine : Machine) :
    Process (Outcome Value) :=
  (machine.run ⟨identity, config, []⟩ identity.input).run

theorem executionWork_prepared {identity : Identity} {definition : Value} {machine : Machine}
    (config : Value) (h : prepare identity definition = .ok machine) :
    ∃ details, (executionWork identity config definition).run =
      .effect (.record .top "ExecutionStarted" details) fun _ =>
        (machineProcess identity config machine).bind fun o => (conclude identity o).run := by
  unfold prepare at h
  obtain ⟨text, htext, h⟩ := Outcome.bind_eq_ok.mp h
  obtain ⟨policy, hpolicy, hmachine⟩ := Outcome.bind_eq_ok.mp h
  refine ⟨[("input", .str text), ("stateMachineArn", .str identity.machineArn)], ?_⟩
  unfold executionWork
  rw [htext, hpolicy, hmachine]
  refine congrArg (Process.effect _) (funext fun _ => ?_)
  refine (Work.run_outcome_bind _ _).trans (congrArg (Process.bind _) (funext fun o => ?_))
  cases o <;> rfl

theorem executionWork_unprepared {identity : Identity} {definition : Value} {e : Failure}
    (config : Value) (h : prepare identity definition = .error e) :
    (executionWork identity config definition).run = .ret (.error e) ∨
      ∃ details, (executionWork identity config definition).run =
        .effect (.record .top "ExecutionStarted" details) fun _ => .ret (.error e) := by
  unfold prepare at h
  unfold executionWork
  cases htext : Json.encode identity.input with
  | error e' =>
    rw [htext] at h
    obtain rfl : e' = e := by cases h; rfl
    exact Or.inl rfl
  | ok text =>
    right
    cases hpolicy : identity.logPolicy with
    | error e' =>
      rw [htext, hpolicy] at h
      obtain rfl : e' = e := by cases h; rfl
      exact ⟨_, rfl⟩
    | ok policy =>
      rw [htext, hpolicy] at h
      replace h : Machine.ofDefinition definition = .error e := h
      rw [h]
      exact ⟨_, rfl⟩

/-! ## Whole runs -/

theorem machineProcess_hasText {identity : Identity} {config : Value} {machine : Machine} {v : Value}
    (h : (machineProcess identity config machine).Returns (.ok v)) : HasText v := by
  obtain ⟨_, hv⟩ := (runFrom_hasText _ _ _ _ _).of_returns h
  exact hv

/-- What a process does before it concludes the execution. -/
def Concluding (identity : Identity) (config : Value) (machine : Machine)
    (p : Process (Outcome Value)) : Prop :=
  ∃ rest : Process (Outcome Value), p = rest.bind (fun o => (conclude identity o).run) ∧
    ∀ o, rest.Returns o → (machineProcess identity config machine).Returns o

theorem Concluding.done {identity : Identity} {config : Value} {machine : Machine}
    {p : Process (Outcome Value)} {world : World} {pause : Pause (Outcome Value)} {world' : World}
    (h : Concluding identity config machine p) (hrun : p.advance world = (pause, world')) :
    (∃ raised o, pause = .done raised ∧ (machineProcess identity config machine).Returns o ∧
      world'.execution.Concluded o raised) ∨
    ∃ w next, pause = .waiting w next ∧ ∀ r, Concluding identity config machine (next r) := by
  obtain ⟨rest, rfl, hrest⟩ := h
  rw [Process.advance_bind] at hrun
  rcases hadvance : rest.advance world with ⟨_ | ⟨w, next⟩, mid⟩
  · rename_i o
    have ho := hrest o (Process.returns_of_done hadvance)
    obtain ⟨raised, w', hconclude, hconcluded⟩ := conclude_settles identity o mid fun v hv =>
      machineProcess_hasText (hv ▸ ho)
    rw [hadvance] at hrun
    cases hconclude.symm.trans hrun
    exact Or.inl ⟨raised, o, rfl, ho, hconcluded⟩
  · rw [hadvance] at hrun
    cases hrun
    exact Or.inr ⟨w, _, rfl, fun r => ⟨next r, rfl, fun o ho =>
      hrest o (Process.returns_of_waiting hadvance ho)⟩⟩

theorem runExecution_prepared {i : Interpreter} {identity : Identity} {definition : Value}
    {workers : List Worker} {machine : Machine} {o : Outcome Value}
    (hprepare : prepare identity definition = .ok machine)
    (ho : (i.runExecution identity definition workers).result = some o) :
    ∃ result, (machineProcess identity i.config machine).Returns result ∧
      (i.runExecution identity definition workers).world.execution.Concluded result o := by
  obtain ⟨details, hwork⟩ := executionWork_prepared i.config hprepare
  have hmain : Concluding identity i.config machine
      (executionWork identity i.config definition).run := by
    refine ⟨.effect (.record .top "ExecutionStarted" details) fun _ =>
      machineProcess identity i.config machine, hwork, ?_⟩
    rintro o ⟨_, ho⟩
    exact ho
  have hstep (p : Process (Outcome Value)) (world : World) (w : Wait)
      (next : w.Reply → Process (Outcome Value)) (world' : World)
      (hp : Concluding identity i.config machine p)
      (hrun : p.advance world = (.waiting w next, world')) (r : w.Reply) :
      Concluding identity i.config machine (next r) := by
    rcases hp.done hrun with ⟨raised, o, ho, -⟩ | ⟨w', next', hw, hnext⟩
    · cases ho
    · cases hw
      exact hnext r
  have hthreads : Scheduler.All (fun role p => role = .main → Concluding identity i.config machine p)
      (Scheduler.create { i.world with execution := Execution.create identity }
        (executionWork identity i.config definition).run
        (workers.map fun w => w.work.run)).threads := by
    rw [Scheduler.threads_create, Scheduler.all_cons]
    refine ⟨?_, ?_⟩
    · rintro p rfl -
      exact hmain
    · intro role own hmem p hp hrole
      simp [hrole] at hmem
  obtain ⟨p, world, hp, hrun⟩ := Scheduler.run_main _ hstep _ _ hthreads rfl o ho
  rcases hp.done hrun with ⟨raised, result, hraised, hreturns, hconcluded⟩ | ⟨w, next, hw, -⟩
  · cases hraised
    exact ⟨result, hreturns, hconcluded⟩
  · cases hw

theorem runExecution_unprepared (i : Interpreter) (workers : List Worker) {identity : Identity}
    {definition : Value} {e : Failure} (hprepare : prepare identity definition = .error e) :
    (i.runExecution identity definition workers).result = some (.error e) ∧
      (i.runExecution identity definition workers).world.execution.status = .running ∧
      (i.runExecution identity definition workers).world.execution.stopped = none := by
  have hmain : ∃ world', (executionWork identity i.config definition).run.advance
      { i.world with execution := Execution.create identity } = (.done (.error e), world') ∧
        world'.execution.status = .running ∧ world'.execution.stopped = none := by
    rcases executionWork_unprepared i.config hprepare with hwork | ⟨details, hwork⟩
    · rw [hwork]
      exact ⟨_, rfl, rfl, rfl⟩
    · rw [hwork]
      refine ⟨_, rfl, ?_⟩
      simp only [World.perform, World.execution_record]
      exact ⟨rfl, rfl⟩
  obtain ⟨world', hrun, hstatus, hstopped⟩ := hmain
  obtain ⟨hworld, hresult⟩ := Scheduler.run_create_done
    (fun job => (job.work identity i.config).run) hrun (workers.map fun w => w.work.run) 999999999
  exact ⟨hresult, (congrArg (·.execution.status) hworld).trans hstatus,
    (congrArg (·.execution.stopped) hworld).trans hstopped⟩

def withDrawn (i : Interpreter) (drawn : Nat) : Interpreter :=
  { i with world := { i.world with drawn } }

theorem start_eq (i : Interpreter) (request : StartRequest) (workers : List Worker)
    {definition : Value} {identity : Identity} {drawn : Nat} {o : Outcome Value}
    (hread : readDefinition request.definition = .ok definition)
    (hidentity : i.identify request = (.ok identity, drawn))
    (hended : ((i.withDrawn drawn).runExecution identity definition workers).result = some o) :
    i.start request workers = ⟨true, o.map fun _ => (),
      ((i.withDrawn drawn).runExecution identity definition workers).world⟩ := by
  simp only [start, hread, hidentity]
  rw [← withDrawn, outcomeOf, hended]

/-- When a run is over, its execution is concluded with what its machine came to, if that could be made.
If it could not, the error of that is what the run ends with, and the execution is still taken to be
running. -/
theorem start_settles (i : Interpreter) (request : StartRequest) (workers : List Worker)
    {definition : Value} {identity : Identity} {drawn : Nat} {o : Outcome Value}
    (hread : readDefinition request.definition = .ok definition)
    (hidentity : i.identify request = (.ok identity, drawn))
    (hended : ((i.withDrawn drawn).runExecution identity definition workers).result = some o) :
    (i.start request workers).started = true ∧
      (i.start request workers).outcome = o.map (fun _ => ()) ∧
      match prepare identity definition with
      | .ok machine => ∃ result,
          (machine.run ⟨identity, i.config, []⟩ identity.input).run.Returns result ∧
          (i.start request workers).world.execution.Concluded result o
      | .error e => o = .error e ∧ (i.start request workers).world.execution.status = .running ∧
          (i.start request workers).world.execution.stopped = none := by
  rw [start_eq i request workers hread hidentity hended]
  refine ⟨rfl, rfl, ?_⟩
  cases hprepare : prepare identity definition with
  | ok machine => exact runExecution_prepared hprepare hended
  | error e =>
    obtain ⟨hresult, hstatus, hstopped⟩ :=
      runExecution_unprepared (i.withDrawn drawn) workers hprepare
    exact ⟨Option.some.inj (hended.symm.trans hresult), hstatus, hstopped⟩

/-! ## Two small runs -/

/-- An interpreter with no activities and with services that are never asked. -/
def bare : Interpreter :=
  ⟨.obj [], World.create 0 .empty ⟨default, default, [], [], []⟩⟩

def requestOf (definition : Value) : StartRequest :=
  ⟨definition, .obj [], .str "one", .null⟩

def firstIdentity : Identity :=
  { name := "one"
    arn := "arn:aws:states:local:0123456789:execution:local_state_machine:one"
    machineArn := Identity.localMachine
    input := .obj []
    started := 0
    logging := .obj [] }

omit [Room] in
theorem identify_requestOf (definition : Value) :
    bare.identify (requestOf definition) = (.ok firstIdentity, 0) := by
  rfl

end

def succeedMachine : Value :=
  .obj [("StartAt", .str "A"), ("States", .obj [("A", .obj [("Type", .str "Succeed")])])]

theorem run_succeedMachine :
    ((bare.withDrawn 0).runExecution firstIdentity succeedMachine []).result = some (.ok (.obj [])) := by
  rfl

theorem prepare_succeedMachine : prepare firstIdentity succeedMachine =
    .ok ⟨.obj [("A", .obj [("Type", .str "Succeed")])], .str "A"⟩ := by
  rfl

def failMachine : Value :=
  .obj [("StartAt", .str "A"), ("States", .obj [("A", .obj [("Type", .str "Fail"),
    ("Error", .str "Broken"), ("Cause", .str "It does not work")])])]

def broken : Failure :=
  .states .named (.str "Broken") (.str "It does not work")

theorem run_failMachine :
    ((bare.withDrawn 0).runExecution firstIdentity failMachine []).result = some (.error broken) := by
  rfl

theorem prepare_failMachine : prepare firstIdentity failMachine =
    .ok ⟨.obj [("A", .obj [("Type", .str "Fail"), ("Error", .str "Broken"),
      ("Cause", .str "It does not work")])], .str "A"⟩ := by
  rfl

/-- Of two runs, one succeeds and one fails. -/
theorem start_settles_succeedMachine :
    ((bare.start (requestOf succeedMachine) []).outcome = .ok () ∧
      (bare.start (requestOf succeedMachine) []).world.execution.Settled (.ok (.obj []))) ∧
    (bare.start (requestOf failMachine) []).outcome = .error broken ∧
      (bare.start (requestOf failMachine) []).world.execution.Settled (.error broken) := by
  have hsucceed : readDefinition (requestOf succeedMachine).definition = .ok succeedMachine := rfl
  have hfail : readDefinition (requestOf failMachine).definition = .ok failMachine := rfl
  have h := start_settles bare (requestOf succeedMachine) [] hsucceed
    (identify_requestOf succeedMachine) run_succeedMachine
  have h' := start_settles bare (requestOf failMachine) [] hfail
    (identify_requestOf failMachine) run_failMachine
  rw [prepare_succeedMachine] at h
  rw [prepare_failMachine] at h'
  obtain ⟨-, houtcome, result, -, hconcluded⟩ := h
  obtain ⟨-, houtcome', result', -, hconcluded'⟩ := h'
  exact ⟨⟨houtcome, hconcluded.settled_ok⟩, houtcome', hconcluded'.settled_error rfl⟩

/-- A definition that is a list gives no machine, and its execution never stops. -/
theorem start_leaves_running :
    (bare.start (requestOf (.str "[]")) []).started = true ∧
      ∃ e, (bare.start (requestOf (.str "[]")) []).outcome = .error e ∧
        (bare.start (requestOf (.str "[]")) []).world.execution.status = .running ∧
        ¬(bare.start (requestOf (.str "[]")) []).world.execution.Settled (.error e) := by
  have hread : readDefinition (requestOf (.str "[]")).definition = .ok (.arr []) := by rfl
  have hprepare : prepare firstIdentity (.arr []) =
      .error (.noField "'list' object has no attribute 'get'") := by rfl
  obtain ⟨hresult, hstatus, hstopped⟩ := runExecution_unprepared (bare.withDrawn 0) [] hprepare
  rw [start_eq bare (requestOf (.str "[]")) [] hread (identify_requestOf _) hresult]
  refine ⟨rfl, _, rfl, hstatus, ?_⟩
  rintro ⟨hsome, -⟩
  rw [hstopped] at hsome
  cases hsome

end Interpreter

end StatesLanguage
