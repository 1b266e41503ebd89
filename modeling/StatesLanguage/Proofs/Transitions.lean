import StatesLanguage.Proofs.Asks
import StatesLanguage.Proofs.Course
import StatesLanguage.State.Run

/-!
# Where states lead

A state that does not fail goes on at another, or nowhere. Where that is, is said here for every type
of state, together with what the state records before it gets there: a choice goes by the first of its
rules that holds, and a state whose last attempt has failed by the first catcher for the error that it
failed with.
-/

namespace StatesLanguage

/-! ## What processes return -/

namespace Process

variable {α β : Type} [Room]

/-- The process may record these events and return this value. What it asks for at once is answered as
some world answers it; where it waits, it may be answered anything. -/
inductive MayReturn : Process α → Records → α → Prop
  | ret (a : α) : MayReturn (.ret a) [] a
  | effect {e : Effect} {next : e.Reply → Process α} {rs : Records} {a : α} (w : World)
      (rest : MayReturn (next (w.perform e).1) rs a) : MayReturn (.effect e next) (e.records ++ rs) a
  | wait {wt : Wait} {next : wt.Reply → Process α} {rs : Records} {a : α} (r : wt.Reply)
      (rest : MayReturn (next r) rs a) : MayReturn (.wait wt next) rs a

theorem MayReturn.bind_inv {p : Process α} {f : α → Process β} {rs : Records} {b : β}
    (h : (p.bind f).MayReturn rs b) :
    ∃ rs₁ rs₂ a, rs = rs₁ ++ rs₂ ∧ p.MayReturn rs₁ a ∧ (f a).MayReturn rs₂ b := by
  induction p generalizing rs with
  | ret a => exact ⟨[], rs, a, rfl, .ret a, h⟩
  | effect e next ih =>
    cases h with
    | effect w rest =>
      obtain ⟨rs₁, rs₂, a, rfl, hp, hf⟩ := ih _ rest
      exact ⟨e.records ++ rs₁, rs₂, a, (List.append_assoc _ _ _).symm, .effect w hp, hf⟩
  | wait wt next ih =>
    cases h with
    | wait r rest =>
      obtain ⟨rs₁, rs₂, a, rfl, hp, hf⟩ := ih _ rest
      exact ⟨rs₁, rs₂, a, rfl, .wait r hp, hf⟩

theorem Keeps.mayReturn {post : α → Records → Prop} {p : Process α} {g rs : Records} {a : α}
    (h : p.Keeps .recording post g) (hp : p.MayReturn rs a) : post a (g ++ rs) := by
  induction hp generalizing g with
  | ret a =>
    rw [List.append_nil]
    exact h
  | effect w rest ih =>
    rw [← List.append_assoc]
    exact ih (h.2 _)
  | wait r rest ih => exact ih (h.2 r)

end Process

namespace Work

variable {α β : Type} {rs : Records}

section

variable [Room] {x : Work α} {f : α → Work β} {b : β}

theorem mayReturn_bind (h : (x >>= f).run.MayReturn rs (.ok b)) :
    ∃ rs₁ rs₂ a, rs = rs₁ ++ rs₂ ∧ x.run.MayReturn rs₁ (.ok a) ∧
      (f a).run.MayReturn rs₂ (.ok b) := by
  obtain ⟨rs₁, rs₂, o, rfl, hx, hf⟩ := Process.MayReturn.bind_inv (p := x.run) h
  cases o with
  | ok a => exact ⟨rs₁, rs₂, a, rfl, hx, hf⟩
  | error e => cases hf

theorem mayReturn_ofOutcome_bind {o : Outcome α} (h : (ofOutcome o >>= f).run.MayReturn rs (.ok b)) :
    ∃ a, o = .ok a ∧ (f a).run.MayReturn rs (.ok b) := by
  cases o with
  | ok a => exact ⟨a, rfl, h⟩
  | error e => cases h

theorem Silent.mayReturn_bind (hx : x.Silent) (h : (x >>= f).run.MayReturn rs (.ok b)) :
    ∃ a, x.run.MayReturn [] (.ok a) ∧ (f a).run.MayReturn rs (.ok b) := by
  obtain ⟨rs₁, rs₂, a, rfl, hx', hf⟩ := Work.mayReturn_bind h
  obtain rfl : rs₁ = [] := (hx []).mayReturn hx'
  exact ⟨a, hx', hf⟩

end

end Work

namespace State

section

variable [Room]

/-! ## Attempts and what comes before them -/

/-- What a state that makes attempts works out before the first: how an attempt is made, which is
told how many have failed. -/
def preparation? (s : State) (site : Site) (entered : Nat) (input : Value) :
    Option (Work (Nat → Work Value)) :=
  match s.kind with
  | .task task =>
    some (pure fun failed => s.attemptTask task site input (s.context site entered failed))
  | .parallel => some do
    let context := s.context site entered 0
    let effective ← s.filterInput input context
    let effective ← s.parameters effective context
    Work.record site.scope "ParallelStateStarted" [("name", .str s.name)]
    return fun failed => s.runBranches site input effective (s.context site entered failed)
  | .map processor => some do
    let context := s.context site entered 0
    let effective ← s.filterInput input context
    match ← Work.ofOutcome (Path.apply effective context (s.field "ItemsPath" Path.root)) with
    | .arr items =>
      Work.record site.scope "MapStateStarted" [("length", .int items.length)]
      return fun failed =>
        s.runItems site processor input effective items (s.context site entered failed)
    | _ => throw s.noItems
  | _ => none

def onFailure (s : State) (site : Site) (e : Failure) : Work Unit :=
  match s.kind with
  | .task _ => pure ()
  | _ => s.recordFailed site e

theorem run_eq_preparation {s : State} {site : Site} {entered : Nat} {input : Value}
    {preparation : Work (Nat → Work Value)}
    (h : s.preparation? site entered input = some preparation) :
    s.run site entered input =
      preparation >>= fun attempt => s.runWithRetry input attempt (s.onFailure site) := by
  unfold preparation? at h
  unfold run onFailure
  split at h
  · rename_i task hkind
    cases h
    simp only [hkind]
    rfl
  · rename_i hkind
    cases h
    simp only [hkind, runParallel, bind_assoc, pure_bind]
  · rename_i processor hkind
    cases h
    simp only [hkind, runMap, bind_assoc]
    congr 1
    funext effective
    congr 1
    funext items
    cases items <;> simp only [bind_assoc, pure_bind] <;> rfl
  · cases h

/-! ## After the last attempt -/

/-- What the attempts of a state record and how the last of them ends. Each before the last has
failed and was to be tried again. -/
inductive Tries (s : State) (input : Value) (attempt : Nat → Work Value) :
    Nat → Records → Outcome Value → Prop
  | last {failed : Nat} {rs : Records} {o : Outcome Value}
      (made : (attempt failed).run.MayReturn rs o) : Tries s input attempt failed rs o
  | again {failed : Nat} {rs rs' : Records} {e : Failure} {delay : Value} {o : Outcome Value}
      (made : (attempt failed).run.MayReturn rs (.error e))
      (retried : s.decide e (failed + 1) input = .ok (.retry delay))
      (rest : Tries s input attempt (failed + 1) rs' o) : Tries s input attempt failed (rs ++ rs') o

/-- The first of the state's catchers for the name of an error takes over: the transition goes to its
`Next`, with the error put where its `ResultPath` says. -/
structure Catches (s : State) (input : Value) (e : Failure) (t : Transition) : Prop where
  handled : e.isRuntime = false
  first : ∃ catchers catcher path error, (s.field "Catch" .null).iterate = .ok catchers ∧
    RetryPolicy.firstFor e.name catchers = .ok (some catcher) ∧
    catcher.memberOr "Next" .null = .ok t.next ∧
    RetryPolicy.errorOutput e = .ok error ∧
    catcher.memberOr "ResultPath" Path.root = .ok path ∧
    Reference.combine input path error = .ok t.output

/-- How a state goes on after its last attempt: where it says itself, or where a catcher does. -/
inductive GoesOn (s : State) (site : Site) (input : Value) :
    Outcome Value → Records → Transition → Prop
  | succeeded (output : Value) : GoesOn s site input (.ok output) [] ⟨output, s.next⟩
  | caught {e : Failure} {rs : Records} {t : Transition}
      (told : (s.onFailure site e).run.MayReturn rs (.ok ())) (catches : s.Catches input e t) :
      GoesOn s site input (.error e) rs t

theorem catches_of_decide {s : State} {e : Failure} {attempts : Nat} {input next output : Value}
    (h : s.decide e attempts input = .ok (.caught next output)) :
    s.Catches input e ⟨output, next⟩ := by
  unfold decide RetryPolicy.decide at h
  split at h
  · cases h
  · rename_i hruntime
    obtain ⟨retriers, -, h⟩ := Outcome.bind_eq_ok.mp h
    obtain ⟨found, -, h⟩ := Outcome.bind_eq_ok.mp h
    have hcaught : RetryPolicy.catchDecision e (s.field "Catch" .null) input =
        .ok (.caught next output) := by
      cases found with
      | none => exact h
      | some retrier =>
        obtain ⟨delay, -, h⟩ := Outcome.bind_eq_ok.mp h
        cases delay with
        | none => exact h
        | some delay => cases h
    unfold RetryPolicy.catchDecision at hcaught
    dsimp only at hcaught
    split at hcaught
    · obtain ⟨catchers, hcatchers, hcaught⟩ := Outcome.bind_eq_ok.mp hcaught
      obtain ⟨found, hfirst, hcaught⟩ := Outcome.bind_eq_ok.mp hcaught
      cases found with
      | none => cases hcaught
      | some catcher =>
        obtain ⟨error, herror, hcaught⟩ := Outcome.bind_eq_ok.mp hcaught
        obtain ⟨path, hpath, hcaught⟩ := Outcome.bind_eq_ok.mp hcaught
        obtain ⟨output', houtput, hcaught⟩ := Outcome.bind_eq_ok.mp hcaught
        obtain ⟨next', hnext, hcaught⟩ := Outcome.bind_eq_ok.mp hcaught
        cases hcaught
        exact ⟨Bool.eq_false_iff.mpr hruntime, catchers, catcher, path, error, hcatchers, hfirst,
          hnext, herror, hpath, houtput⟩
    · cases hcaught

omit [Room] in
theorem silent_tell (level : Level) (text : Outcome String) : (Work.tell level text).Silent :=
  (Work.silent_ofOutcome text).bind fun _ => Work.silent_perform rfl

omit [Room] in
theorem silent_sleepSeconds (delay : Value) : (sleepSeconds delay).Silent :=
  (Work.silent_ofOutcome delay.pause).bind fun _ => Work.silent_await _

theorem not_mayReturn_throw {x : Work Unit} {e : Failure} {rs : Records} {t : Transition} :
    ¬(x >>= fun _ => throw e : Work Transition).run.MayReturn rs (.ok t) := by
  intro h
  obtain ⟨_, _, _, _, _, h⟩ := Work.mayReturn_bind h
  cases h

theorem mayReturn_runAttempts {s : State} {site : Site} {input : Value} {attempt : Nat → Work Value}
    {left failed : Nat} {rs : Records} {t : Transition}
    (h : (s.runAttempts input attempt (s.onFailure site) left failed).run.MayReturn rs (.ok t)) :
    ∃ rs₁ rs₂ o, rs = rs₁ ++ rs₂ ∧ s.Tries input attempt failed rs₁ o ∧
      s.GoesOn site input o rs₂ t := by
  induction left using Nat.strongRecOn generalizing failed rs with
  | ind left ih =>
    rw [runAttempts.eq_def] at h
    change ((attempt failed).outcome >>= _).run.MayReturn rs (.ok t) at h
    rw [Work.run_outcome_bind] at h
    obtain ⟨rs₁, rs₂, o, rfl, hmade, hrest⟩ := h.bind_inv
    cases o with
    | ok output =>
      cases hrest
      exact ⟨rs₁, [], .ok output, rfl, .last hmade, .succeeded output⟩
    | error e =>
      cases hdecide : s.decide e (failed + 1) input with
      | error problem =>
        simp only [hdecide] at hrest
        split at hrest
        · exact absurd hrest not_mayReturn_throw
        · cases hrest
      | ok decision =>
        simp only [hdecide] at hrest
        cases decision with
        | propagate => exact absurd hrest not_mayReturn_throw
        | caught next output =>
          obtain ⟨rs₂, rs₃, _, rfl, htold, hrest⟩ := Work.mayReturn_bind hrest
          obtain ⟨_, -, hrest⟩ := (silent_tell _ _).mayReturn_bind hrest
          cases hrest
          exact ⟨rs₁, rs₂, .error e, by rw [List.append_nil], .last hmade,
            .caught htold (catches_of_decide hdecide)⟩
        | retry delay =>
          obtain ⟨_, -, hrest⟩ := (silent_tell _ _).mayReturn_bind hrest
          obtain ⟨_, -, hrest⟩ := (silent_sleepSeconds delay).mayReturn_bind hrest
          cases left with
          | zero => cases hrest
          | succ left =>
            obtain ⟨rs₂, rs₃, o, rfl, htries, hgoes⟩ := ih left (Nat.lt_succ_self left) hrest
            exact ⟨rs₁ ++ rs₂, rs₃, o, (List.append_assoc _ _ _).symm, .again hmade hdecide htries,
              hgoes⟩

/-! ## All states -/

/-- The first rule of a Choice state that holds of the input goes on there, or its default if none
does. -/
structure Chooses (s : State) (site : Site) (entered : Nat) (input next : Value) : Prop where
  somewhere : next.truthy = true
  first : ∃ effective rules,
    Path.filter input (s.context site entered 0) (s.field "InputPath" Path.root) = .ok effective ∧
    (s.field "Choices" (.arr [])).iterate = .ok rules ∧
    ((∃ before rule after, rules = before ++ rule :: after ∧
        (∀ r ∈ before, Choice.matchesRule r effective (s.context site entered 0) = .ok false) ∧
        Choice.matchesRule rule effective (s.context site entered 0) = .ok true ∧
        rule.memberOr "Next" .null = .ok next) ∨
      (∀ r ∈ rules, Choice.matchesRule r effective (s.context site entered 0) = .ok false) ∧
        next = s.field "Default" .null)

/-- The state may record these events after it is entered at a time with an input, and then be left
with this transition. -/
def Leads (s : State) (site : Site) (entered : Nat) (input : Value) (rs : Records) (t : Transition) :
    Prop :=
  match s.kind with
  | .pass | .wait => t.next = s.next
  | .succeed => t.next = .null
  | .fail => False
  | .choice => s.Chooses site entered input t.next
  | .task _ | .parallel | .map _ => ∃ preparation attempt rs₀ rs₁ rs₂ o, rs = rs₀ ++ (rs₁ ++ rs₂) ∧
      s.preparation? site entered input = some preparation ∧
      preparation.run.MayReturn rs₀ (.ok attempt) ∧ s.Tries input attempt 0 rs₁ o ∧
      s.GoesOn site input o rs₂ t

/-- Whether a machine may end with the state. -/
def IsFinal (s : State) : Prop :=
  s.kind = .succeed ∨ (s.field "End" .null).truthy = true

theorem chosen_eq_ok {input context : Value} {rules : List Value} {found : Option Value}
    (h : chosen input context rules = .ok found) :
    (∃ before rule after next, found = some next ∧ rules = before ++ rule :: after ∧
        (∀ r ∈ before, Choice.matchesRule r input context = .ok false) ∧
        Choice.matchesRule rule input context = .ok true ∧ rule.memberOr "Next" .null = .ok next) ∨
      found = none ∧ ∀ r ∈ rules, Choice.matchesRule r input context = .ok false := by
  induction rules with
  | nil =>
    cases h
    exact Or.inr ⟨rfl, fun _ h => nomatch h⟩
  | cons rule rest ih =>
    unfold chosen at h
    obtain ⟨holds, hholds, h⟩ := Outcome.bind_eq_ok.mp h
    cases holds with
    | true =>
      obtain ⟨next, hnext, h⟩ := Outcome.bind_eq_ok.mp h
      cases h
      exact Or.inl ⟨[], rule, rest, next, rfl, rfl, fun _ h => (nomatch h), hholds, hnext⟩
    | false =>
      rcases ih h with ⟨before, rule', after, next, rfl, rfl, hbefore, hrule, hnext⟩ | ⟨rfl, hall⟩
      · exact Or.inl ⟨rule :: before, rule', after, next, rfl, rfl,
          List.forall_mem_cons.mpr ⟨hholds, hbefore⟩, hrule, hnext⟩
      · exact Or.inr ⟨rfl, List.forall_mem_cons.mpr ⟨hholds, hall⟩⟩

section

variable {s : State} {site : Site} {entered : Nat} {input : Value} {rs : Records} {t : Transition}

theorem next_of_runPass (h : (s.runPass site entered input).run.MayReturn rs (.ok t)) :
    t.next = s.next := by
  obtain ⟨_, _, effective, -, -, h⟩ := Work.mayReturn_bind h
  obtain ⟨_, _, effective, -, -, h⟩ := Work.mayReturn_bind h
  obtain ⟨_, _, output, -, -, h⟩ := Work.mayReturn_bind h
  cases h
  rfl

theorem next_of_runWait (h : (s.runWait site entered input).run.MayReturn rs (.ok t)) :
    t.next = s.next := by
  obtain ⟨_, _, effective, -, -, h⟩ := Work.mayReturn_bind h
  obtain ⟨_, _, delay, -, -, h⟩ := Work.mayReturn_bind h
  have hout {rs : Records} (h : (s.filterOutput effective (s.context site entered 0) >>= fun output =>
      (return ⟨output, s.next⟩ : Work Transition)).run.MayReturn rs (.ok t)) : t.next = s.next := by
    obtain ⟨_, _, output, -, -, h⟩ := Work.mayReturn_bind h
    cases h
    rfl
  dsimp only at h
  split at h
  · obtain ⟨_, _, _, -, -, h⟩ := Work.mayReturn_bind h
    exact hout h
  · exact hout h

theorem next_of_runSucceed (h : (s.runSucceed site entered input).run.MayReturn rs (.ok t)) :
    t.next = .null := by
  obtain ⟨_, _, effective, -, -, h⟩ := Work.mayReturn_bind h
  obtain ⟨_, _, output, -, -, h⟩ := Work.mayReturn_bind h
  cases h
  rfl

theorem chooses_of_runChoice (h : (s.runChoice site entered input).run.MayReturn rs (.ok t)) :
    s.Chooses site entered input t.next := by
  obtain ⟨effective, heffective, h⟩ := Work.mayReturn_ofOutcome_bind h
  obtain ⟨rules, hrules, h⟩ := Work.mayReturn_ofOutcome_bind h
  obtain ⟨found, hfound, h⟩ := Work.mayReturn_ofOutcome_bind h
  dsimp only at h
  split at h
  · cases h
  · rename_i htruthy
    obtain ⟨output, -, h⟩ := Work.mayReturn_ofOutcome_bind h
    cases h
    refine ⟨by simpa using htruthy, effective, rules, heffective, hrules, ?_⟩
    rcases chosen_eq_ok hfound with ⟨before, rule, after, next, rfl, hrule⟩ | ⟨rfl, hnone⟩
    · exact Or.inl ⟨before, rule, after, hrule⟩
    · exact Or.inr ⟨hnone, rfl⟩

theorem leads_of_attempts (hprep : (s.preparation? site entered input).isSome)
    (h : (s.run site entered input).run.MayReturn rs (.ok t)) :
    ∃ preparation attempt rs₀ rs₁ rs₂ o, rs = rs₀ ++ (rs₁ ++ rs₂) ∧
      s.preparation? site entered input = some preparation ∧
      preparation.run.MayReturn rs₀ (.ok attempt) ∧ s.Tries input attempt 0 rs₁ o ∧
      s.GoesOn site input o rs₂ t := by
  obtain ⟨preparation, hprep⟩ := Option.isSome_iff_exists.mp hprep
  rw [run_eq_preparation hprep] at h
  obtain ⟨rs₀, rs', attempt, rfl, hready, h⟩ := Work.mayReturn_bind h
  obtain ⟨rs₁, rs₂, o, rfl, htries, hgoes⟩ := mayReturn_runAttempts h
  exact ⟨preparation, attempt, rs₀, rs₁, rs₂, o, rfl, hprep, hready, htries, hgoes⟩

/-- A state that is left leads where its transition goes. -/
theorem leads_of_run (h : (s.run site entered input).run.MayReturn rs (.ok t)) :
    s.Leads site entered input rs t := by
  have hrun := h
  unfold run at hrun
  unfold Leads
  cases hkind : s.kind with
  | pass =>
    simp only [hkind] at hrun
    exact next_of_runPass hrun
  | wait =>
    simp only [hkind] at hrun
    exact next_of_runWait hrun
  | choice =>
    simp only [hkind] at hrun
    exact chooses_of_runChoice hrun
  | succeed =>
    simp only [hkind] at hrun
    exact next_of_runSucceed hrun
  | fail =>
    simp only [hkind] at hrun
    cases hrun
  | _ =>
    dsimp only
    refine leads_of_attempts ?_ h
    simp only [preparation?, hkind, Option.isSome_some]

end

end

end State

end StatesLanguage
