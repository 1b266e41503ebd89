import StatesLanguage.Proofs.Texts
import StatesLanguage.Proofs.Transitions

/-!
# Catching all errors

A state whose one catcher is for all errors lets only those through that no catcher is for. This
holds of the errors of its attempts that can be told. What a Parallel or Map state works out before its
first attempt is out of the catcher's reach, and what goes wrong there ends the state.
-/

namespace StatesLanguage

/-! ## The decision of a catch-all -/

namespace RetryPolicy

theorem errorMatches_all (name : Value) :
    errorMatches (.arr [.str "States.ALL"]) name = .ok true := by
  simp only [errorMatches, Value.holds, Outcome.ok_bind]
  cases [Value.str "States.ALL"].any (Value.same name) <;> rfl

end RetryPolicy

namespace State

variable {s : State} {next input : Value} {site : Site} {entered : Nat}

/-- The state has no retriers and one catcher, which is for all errors, goes on at `next` and has no
`ResultPath`. -/
structure CatchesAll (s : State) (next : Value) : Prop where
  never_retries : s.definition.get? "Retry" = none
  catcher : ∃ members, s.definition.get? "Catch" = some (.arr [.obj members]) ∧
    Table.get? members "ErrorEquals" = some (.arr [.str "States.ALL"]) ∧
    Table.get? members "Next" = some next ∧ Table.get? members "ResultPath" = none

section

variable [Room]

theorem CatchesAll.decide_eq (h : s.CatchesAll next) (e : Failure) (attempts : Nat) :
    s.decide e attempts input =
      if e.isRuntime then .ok .propagate else (RetryPolicy.errorOutput e).map (.caught next) := by
  obtain ⟨members, hcatch, hequals, hnext, hpath⟩ := h.catcher
  have hfor : RetryPolicy.isFor (.obj members) e.name = .ok true := by
    simp only [RetryPolicy.isFor, Value.memberOr, Value.member, hequals]
    exact RetryPolicy.errorMatches_all e.name
  have hfirst : RetryPolicy.firstFor e.name [.obj members] = .ok (some (.obj members)) := by
    rw [RetryPolicy.firstFor, hfor]
    rfl
  have hcaught : RetryPolicy.catchDecision e (.arr [.obj members]) input =
      (RetryPolicy.errorOutput e).map (.caught next) := by
    unfold RetryPolicy.catchDecision
    change (RetryPolicy.firstFor e.name [.obj members] >>= _) = _
    rw [hfirst, Outcome.ok_bind]
    simp only [Value.memberOr, Value.member, hnext, hpath]
    cases RetryPolicy.errorOutput e <;> rfl
  simp only [State.decide, field, h.never_retries, hcatch, Option.getD_none, Option.getD_some]
  unfold RetryPolicy.decide
  split
  · rfl
  · exact hcaught

/-! ## One attempt -/

def endCatching (s : State) (site : Site) (next : Value) : Outcome Value → Work Transition
  | .ok output => return ⟨output, s.next⟩
  | .error e => do
    if e.isRuntime then
      s.onFailure site e
      throw e
    else
      let output ← Work.ofOutcome (RetryPolicy.errorOutput e)
      s.onFailure site e
      Work.tell .info (s.catchNote e next)
      return ⟨output, next⟩

theorem CatchesAll.runWithRetry_eq (h : s.CatchesAll next) (attempt : Nat → Work Value) :
    s.runWithRetry input attempt (s.onFailure site) =
      (attempt 0).outcome >>= s.endCatching site next := by
  unfold runWithRetry runAttempts
  congr 1
  funext o
  cases o with
  | ok output => rfl
  | error e =>
    simp only [h.decide_eq, endCatching]
    cases e.isRuntime with
    | true => rfl
    | false =>
      cases htold : RetryPolicy.errorOutput e with
      | ok output => rfl
      | error problem =>
        have hfault : problem.isStates = false :=
          Failure.isStates_of_isFault (Failure.text_fault (RetryPolicy.errorOutput_eq_error.mp htold))
        simp only [Bool.false_eq_true, if_false, Except.map, hfault]
        rfl

theorem CatchesAll.run_eq (h : s.CatchesAll next) {preparation : Work (Nat → Work Value)}
    (hprep : s.preparation? site entered input = some preparation) :
    s.run site entered input = (do
      let attempt ← preparation
      s.endCatching site next (← (attempt 0).outcome)) := by
  rw [run_eq_preparation hprep]
  simp only [h.runWithRetry_eq]

/-! ## The errors of a state that catches all -/

/-- What is to be told of an error by the state that fails with it, and cannot: the error itself, the
details of the event, or the line of the log. The last is the error that comes of that. -/
inductive Untold (s : State) (next : Value) (e : Failure) : Failure → Prop
  | text {problem : Failure} (h : e.text = .error problem) : s.Untold next e problem
  | details {text : String} {problem : Failure} (noTask : ∀ task, s.kind ≠ .task task)
      (htext : e.text = .ok text)
      (h : (Value.obj (Event.fullDetails [] e.name (.str text))).display = .error problem) :
      s.Untold next e problem
  | note {problem : Failure} (h : s.catchNote e next = .error problem) : s.Untold next e problem

theorem keeps_onFailure (e : Failure) (g : Records) :
    (s.onFailure site e).Keeps .recording (fun _ _ => True)
      (fun problem _ => s.Untold next e problem) g := by
  unfold onFailure
  split
  · trivial
  · rename_i hkind
    exact Work.keeps_recordFailure (fun _ _ => trivial)
      (fun text problem htext h => .details hkind htext h) fun problem h => .text h

theorem keeps_endCatching (o : Outcome Value) (g : Records) :
    (s.endCatching site next o).Keeps .recording (fun _ _ => True)
      (fun problem _ => problem.isRuntime = true ∨ ∃ e, o = .error e ∧ s.Untold next e problem) g := by
  cases o with
  | ok output => trivial
  | error e =>
    have hfailure (g : Records) : (s.onFailure site e).Keeps .recording (fun _ _ => True)
        (fun problem _ => problem.isRuntime = true ∨
          ∃ e', (.error e : Outcome Value) = .error e' ∧ s.Untold next e' problem) g :=
      (keeps_onFailure e g).mono (fun _ _ h => h) fun _ _ h => Or.inr ⟨e, rfl, h⟩
    simp only [endCatching]
    by_cases hruntime : e.isRuntime = true
    · rw [if_pos hruntime]
      exact (hfailure g).bind fun _ g _ => Or.inl hruntime
    · rw [if_neg hruntime]
      refine (Work.keeps_bind (Work.ofOutcome (RetryPolicy.errorOutput e)) _).mpr ?_
      cases htold : RetryPolicy.errorOutput e with
      | error problem => exact Or.inr ⟨e, rfl, .text (RetryPolicy.errorOutput_eq_error.mp htold)⟩
      | ok output =>
        refine (hfailure g).bind fun _ g _ => ?_
        refine (Work.keeps_bind (Work.tell .info (s.catchNote e next)) _).mpr ?_
        refine (Work.keeps_bind (Work.ofOutcome (s.catchNote e next)) _).mpr ?_
        cases hnote : s.catchNote e next with
        | error problem => exact Or.inr ⟨e, rfl, .note hnote⟩
        | ok text => exact ⟨trivial, fun _ => trivial⟩

/-- A state that catches all errors makes a transition of every error of its attempt that is not one
of runtime, with the error as the output. It raises others only if they are raised before the attempt,
where no catcher sees them, or come of telling the attempt's error. -/
theorem run_catches_all (h : s.CatchesAll next) {preparation : Work (Nat → Work Value)}
    (hprep : s.preparation? site entered input = some preparation) :
    s.run site entered input = (do
      let attempt ← preparation
      match ← (attempt 0).outcome with
      | .ok output => return ⟨output, s.next⟩
      | .error e => do
        if e.isRuntime then
          s.onFailure site e
          throw e
        else
          let output ← Work.ofOutcome (RetryPolicy.errorOutput e)
          s.onFailure site e
          Work.tell .info (s.catchNote e next)
          return ⟨output, next⟩) ∧
    ∀ w t e' w', (s.run site entered input).run.Course w t (.error e') w' → e'.isRuntime = true ∨
      preparation.run.Course w t (.error e') w' ∨ ∃ t₁ t₂ t₃ attempt w₁ e w₂, t = t₁ ++ (t₂ ++ t₃) ∧
        preparation.run.Course w t₁ (.ok attempt) w₁ ∧
        (attempt 0).run.Course w₁ t₂ (.error e) w₂ ∧ s.Untold next e e' := by
  have hrun := h.run_eq hprep
  refine ⟨hrun, fun w t e' w' hcourse => ?_⟩
  rw [hrun] at hcourse
  rcases Work.course_bind_inv hcourse with ⟨t₁, t₂, attempt, w₁, rfl, hready, hattempt⟩ | ⟨e, he, hfails⟩
  · rw [Work.run_outcome_bind] at hattempt
    obtain ⟨t₂, t₃, o, w₂, rfl, houtcome, hend⟩ := Process.Course.bind_inv hattempt
    rcases (keeps_endCatching o []).course hend with hruntime | ⟨e, rfl, huntold⟩
    · exact Or.inl hruntime
    · exact Or.inr (Or.inr ⟨t₁, t₂, t₃, attempt, w₁, e, w₂, rfl, hready, houtcome, huntold⟩)
  · cases he
    exact Or.inr (Or.inl hfails)

end

/-! ## Parameters that the input does not give -/

def asksForMember (kind : StateKind) : State :=
  { name := "P"
    kind
    definition := .obj [
      ("Parameters", .obj [("a.$", .str "$.member")]),
      ("Branches", .arr [.obj [("StartAt", .str "A"),
        ("States", .obj [("A", .obj [("Type", .str "Succeed")])])]]),
      ("Catch", .arr [.obj [("ErrorEquals", .arr [.str "States.ALL"]), ("Next", .str "C")]]),
      ("End", .bool true)] }

theorem asksForMember_catchesAll (kind : StateKind) :
    (asksForMember kind).CatchesAll (.str "C") where
  never_retries := rfl
  catcher := ⟨_, rfl, rfl, rfl, rfl⟩

/-- As a Task, which works out its parameters in the attempt, the state goes on at the catcher's. -/
theorem task_catches_member :
    (asksForMember (.task default)).CatchesAll (.str "C") ∧ ∀ w t o w',
      ((asksForMember (.task default)).run default 0 (.obj [])).run.Course w t o w' →
        ∃ cause, o = .ok ⟨.obj [("Error", .str "States.ParameterPathFailure"), ("Cause", .str cause)],
          .str "C"⟩ := by
  refine ⟨asksForMember_catchesAll _, fun w t o w' hcourse => ?_⟩
  rw [(run_catches_all (asksForMember_catchesAll _) rfl).1] at hcourse
  cases hcourse with
  | effect hcourse =>
    cases hcourse with
    | effect hcourse =>
      cases hcourse
      exact ⟨_, rfl⟩

/-- As a Parallel state, it ends with the error of the parameters, which no catcher sees. -/
theorem parallel_raises_member :
    (asksForMember .parallel).CatchesAll (.str "C") ∧ ∃ w t e w',
      ((asksForMember .parallel).run default 0 (.obj [])).run.Course w t (.error e) w' ∧
        e.name = .str "States.ParameterPathFailure" ∧ e.isRuntime = false :=
  ⟨asksForMember_catchesAll _, World.create 0 .empty ⟨default, default, [], [], []⟩, _, _, _,
    .effect (.ret _ _), rfl, rfl⟩

end State

end StatesLanguage
