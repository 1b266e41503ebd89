import StatesLanguage.Interpreter
import StatesLanguage.Proofs.Team
import StatesLanguage.Proofs.Trace

/-!
# Threads record traces

The protocol of the threads of an execution: each runs one machine at most, under a number of its
own, and what it records of states is a trace of that machine.
-/

namespace StatesLanguage

/-- A run of a machine, by the numbers of the machines around it and its own, and the events of its
states so far. -/
structure Activation where
  scope : List Nat
  machine : Machine
  records : Records

/-- How far a thread is. -/
inductive Stage where
  | idle
  | called (parent : List Nat) (definition : Value)
  | running (a : Activation)
  | over (a : Activation)
  /-- The thread was answered as no world answers. -/
  | lost

def Stage.activation? : Stage → Option Activation
  | .running a | .over a => some a
  | _ => none

/-- The numbers of the machine that a job is started in. -/
def Job.parent : Job → List Nat
  | .branch parent _ _ | .iteration parent _ _ => parent

def Job.definition : Job → Value
  | .branch _ definition _ => definition
  | .iteration _ _ i => i.processor

/-- The place of a machine in the same execution. -/
def Site.within (base : Site) (scope : List Nat) : Site :=
  { base with machine := scope }

/-- Whether an event in a scope is one of the states of a machine. -/
def Event.ofStates (scope : Scope) (type : String) : Bool :=
  scope.iteration.isNone && !ofExecution.contains type

/-- Threads are started for the machines inside the states of the own machine only. -/
def Wait.Inside (scope : List Nat) (m : Machine) : Wait → Prop
  | .join jobs => ∀ job ∈ jobs, job.parent = scope ∧ m.Contains job.definition
  | _ => True

/-- A machine that is started has a number and no events yet. -/
def Stage.start (scope : List Nat) (definition : Value) : Stage :=
  match Machine.ofDefinition definition with
  | .ok m => .running ⟨scope, m, []⟩
  | .error _ => .idle

def Activation.after (a : Activation) : Effect → Stage
  | .record scope type details =>
    .running { a with
      records := a.records ++ if Event.ofStates scope type then [(type, details)] else [] }
  | .conclude (.ok _) => .over a
  | _ => .running a

variable [Room]

def Effect.Answers (e : Effect) (r : e.Reply) : Prop :=
  ∃ w : World, r = (w.perform e).1

open Classical in
noncomputable def Stage.next : Stage → (e : Effect) → e.Reply → Stage
  | .running a, e, r => if e.Answers r then a.after e else .lost
  | .called parent definition, .numberMachine _, n => start (parent ++ [n]) definition
  | g, _, _ => g

def Stage.Allows (base : Site) (g : Stage) : Effect → Prop
  | .record scope type details => Event.ofStates scope type = true → g = .lost ∨ ∃ a,
      g = .running a ∧ scope = ⟨a.scope, none⟩ ∧
        a.machine.Traces (base.within a.scope) (a.records ++ [(type, details)])
  | .numberMachine parent => g = .lost ∨ ∃ definition, g = .called parent definition
  | .conclude (.ok output) => g = .lost ∨ ∃ a, g = .running a ∧ a.scope = [] ∧
      a.machine.Ends (base.within []) a.records output
  | _ => True

omit [Room] in
def Stage.MayWait (g : Stage) : Wait → Prop
  | .join jobs => g = .lost ∨ ∃ a, g = .running a ∧ (Wait.join jobs).Inside a.scope a.machine
  | _ => True

noncomputable def tracing (base : Site) : Team Stage where
  allows := Stage.Allows base
  next := Stage.next
  mayWait := Stage.MayWait
  idle := .idle
  hired job := .called job.parent job.definition

/-- Work that keeps the protocol and ends in a stage that is known, or lost. -/
abbrev Work.Traces (base : Site) {α : Type} (work : Work α) (ok : α → Stage → Prop) (g : Stage) :
    Prop :=
  work.Keeps (tracing base).toProtocol (fun a g' => g' = .lost ∨ ok a g') (fun _ _ => True) g

section Traces

variable {base : Site} {α β : Type} {g : Stage} {x : Work α} {f : α → Work β}
  {mid : α → Stage → Prop} {ok : β → Stage → Prop}

theorem Process.keeps_lost (p : Process α) :
    p.Keeps (tracing base).toProtocol (fun _ g => g = .lost) .lost := by
  induction p with
  | ret a => exact rfl
  | effect e next ih =>
    refine ⟨?_, fun r => ih r⟩
    cases e with
    | record => exact fun _ => Or.inl rfl
    | numberMachine => exact Or.inl rfl
    | conclude o => cases o <;> simp [tracing, Stage.Allows]
    | _ => trivial
  | wait w next ih =>
    refine ⟨?_, fun r => ih r⟩
    cases w with
    | join => exact Or.inl rfl
    | _ => trivial

theorem Work.traces_lost (x : Work α) (ok : α → Stage → Prop) : x.Traces base ok .lost := by
  refine Process.Keeps.mono (Process.keeps_lost x.run) fun o g h => ?_
  cases o with
  | ok a => exact Or.inl h
  | error e => trivial

theorem Work.Traces.bind (hx : x.Traces base mid g)
    (hf : ∀ a g', mid a g' → (f a).Traces base ok g') : (x >>= f).Traces base ok g := by
  refine (Work.keeps_bind x f).mpr (hx.mono ?_ fun _ _ _ => trivial)
  rintro a g' (rfl | hmid)
  · exact Work.traces_lost _ _
  · exact hf a g' hmid

theorem Work.Traces.outcome_bind {f : Outcome α → Work β} (hx : x.Traces base mid g)
    (hf : ∀ a g', mid a g' → (f (.ok a)).Traces base ok g')
    (herr : ∀ e g', (f (.error e)).Traces base ok g') : (x.outcome >>= f).Traces base ok g := by
  refine (Work.keeps_bind _ _).mpr ((Work.keeps_outcome _).mpr (hx.mono ?_ fun e g' _ => herr e g'))
  rintro a g' (rfl | hmid)
  · exact Work.traces_lost _ _
  · exact hf a g' hmid

theorem Work.traces_ofOutcome_bind {o : Outcome α} (hf : ∀ a, o = .ok a → (f a).Traces base ok g) :
    (Work.ofOutcome o >>= f).Traces base ok g :=
  (Work.keeps_bind _ _).mpr (Work.keeps_ofOutcome_of hf fun _ _ => trivial)

/-! ## What says nothing of states -/

omit [Room] in
def Effect.Quiet : Effect → Prop
  | .record scope type _ => Event.ofStates scope type = false
  | .numberMachine _ | .conclude (.ok _) => False
  | _ => True

omit [Room] in
theorem Activation.after_quiet (a : Activation) {e : Effect} (h : e.Quiet) :
    a.after e = .running a := by
  cases e with
  | record scope type details =>
    have hquiet : Event.ofStates scope type = false := h
    simp [after, hquiet]
  | numberMachine => exact h.elim
  | conclude o =>
    cases o with
    | ok output => exact h.elim
    | error e => rfl
  | _ => rfl

theorem Stage.next_quiet (g : Stage) {e : Effect} (h : e.Quiet) (r : e.Reply) :
    g.next e r = g ∨ g.next e r = .lost := by
  cases g with
  | running a =>
    by_cases hanswers : e.Answers r
    · exact Or.inl ((if_pos hanswers).trans (a.after_quiet h))
    · exact Or.inr (if_neg hanswers)
  | called parent definition =>
    cases e with
    | numberMachine => exact h.elim
    | _ => exact Or.inl rfl
  | _ => exact Or.inl rfl

theorem Stage.next_running (a : Activation) (e : Effect) (w : World) :
    (running a).next e (w.perform e).1 = a.after e :=
  if_pos ⟨w, rfl⟩

theorem Stage.next_perform_quiet (g : Stage) {e : Effect} (h : e.Quiet) (w : World) :
    g.next e (w.perform e).1 = g := by
  cases g with
  | running a => exact (next_running a e w).trans (a.after_quiet h)
  | called parent definition =>
    cases e with
    | numberMachine => exact h.elim
    | _ => rfl
  | _ => rfl

theorem Stage.allows_quiet (base : Site) (g : Stage) {e : Effect} (h : e.Quiet) : g.Allows base e := by
  cases e with
  | record scope type details =>
    intro hown
    rw [show Event.ofStates scope type = false from h] at hown
    cases hown
  | numberMachine => exact h.elim
  | conclude o =>
    cases o with
    | ok output => exact h.elim
    | error e => trivial
  | _ => trivial

theorem Process.Keeps.quiet {effects : Effect → Prop} {waits : Wait → Prop} {post : α → Unit → Prop}
    {p : Process α} (h : p.Keeps (.only effects waits) post ()) (heffect : ∀ e, effects e → e.Quiet)
    (hwait : ∀ w g, waits w → (tracing base).mayWait g w) (g : Stage) :
    p.Keeps (tracing base).toProtocol (fun a g' => (g' = .lost ∨ g' = g) ∧ post a ()) g := by
  induction p generalizing g with
  | ret a => exact ⟨Or.inr rfl, h⟩
  | effect e next ih =>
    have hquiet := heffect e h.1
    refine ⟨Stage.allows_quiet base g hquiet, fun r => ?_⟩
    have hrest := ih r (h.2 r)
    rcases g.next_quiet hquiet r with hsame | hlost
    · change Keeps _ _ _ (g.next e r)
      rw [hsame]
      exact hrest g
    · change Keeps _ _ _ (g.next e r)
      rw [hlost]
      exact (hrest .lost).mono fun _ _ h => ⟨Or.inl (by tauto), h.2⟩
  | wait w next ih => exact ⟨hwait w g h.1, fun r => ih r (h.2 r) g⟩

theorem Work.Keeps.quiet {effects : Effect → Prop} {waits : Wait → Prop} {made : α → Prop}
    (h : x.Keeps (.only effects waits) (fun a _ => made a) (fun _ _ => True) ())
    (heffect : ∀ e, effects e → e.Quiet) (hwait : ∀ w g, waits w → (tracing base).mayWait g w)
    (g : Stage) : x.Traces base (fun a g' => g' = g ∧ made a) g := by
  refine (Process.Keeps.quiet h heffect hwait g).mono ?_
  rintro (e | a) g' ⟨hg, hmade⟩
  · trivial
  · exact hg.imp_right fun hg => ⟨hg, hmade⟩

omit [Room] in
theorem Effect.Plain.quiet {scope : Scope} (hscope : scope.iteration ≠ none) {e : Effect}
    (h : e.Plain scope) : e.Quiet := by
  cases e with
  | record scope' type details =>
    obtain rfl : scope' = scope := h.1
    cases hiteration : scope'.iteration with
    | none => exact absurd hiteration hscope
    | some => simp [Quiet, Event.ofStates, hiteration]
  | numberMachine | conclude => exact h.elim
  | _ => trivial

theorem plain_mayWait {w : Wait} (h : w.Plain) (g : Stage) : (tracing base).mayWait g w := by
  cases w with
  | join jobs => exact h.elim
  | _ => trivial

theorem State.Makes.quiet {scope : Scope} {made : α → Prop} (h : State.Makes scope made x)
    (hscope : scope.iteration ≠ none) (g : Stage) :
    x.Traces base (fun a g' => g' = g ∧ made a) g :=
  Work.Keeps.quiet h (fun _ he => he.quiet hscope) (fun _ g hw => plain_mayWait hw g) g

theorem Work.traces_quiet {e : Effect} (h : e.Quiet) (g : Stage) :
    (Work.perform e).Traces base (fun _ g' => g' = g) g := by
  refine ⟨Stage.allows_quiet base g h, fun r => ?_⟩
  exact (g.next_quiet h r).symm

/-! ## What is recorded of states -/

/-- A machine has entered a state, which it has not left. -/
structure Activation.Inside (a : Activation) (base : Site) (visits : List Visit) (v : Visit) : Prop where
  path : a.machine.IsPath (base.within a.scope) (visits ++ [v])
  records : a.records = (visits ++ [v]).flatMap Visit.records
  staying : v.output = none

variable {a : Activation} {visits : List Visit} {v : Visit}

theorem Activation.Inside.add (h : a.Inside base visits v) {rs : Records}
    (hrs : ∀ r ∈ rs, Event.isInner r.1 = true) :
    { a with records := a.records ++ rs }.Inside base visits { v with inner := v.inner ++ rs } := by
  refine ⟨h.path.goOn rfl rfl ?_ ?_, ?_, h.staying⟩
  · intro r hr
    rcases List.mem_append.mp hr with hr | hr
    · exact h.path.inner v (by simp) r hr
    · exact hrs r hr
  · intro text htext
    exact h.path.bounded v (by simp) text htext
  · simp [h.records, Visit.records, h.staying]

omit [Room] in
theorem Effect.Plain.records_inner {scope : Scope} {e : Effect} (h : e.Plain scope) :
    ∀ r ∈ e.records, Event.isInner r.1 = true := by
  cases e with
  | record scope' type details => simpa [records] using h.2
  | _ => simp [records]

omit [Room] in
theorem Event.ofStates_of_isInner {type : String} (h : isInner type = true) (scope : List Nat) :
    ofStates ⟨scope, none⟩ type = true := by
  rw [isInner, Bool.and_eq_true] at h
  simpa [ofStates] using h.2

omit [Room] in
theorem Activation.after_plain (a : Activation) {e : Effect} (h : e.Plain ⟨a.scope, none⟩) :
    a.after e = .running { a with records := a.records ++ e.records } := by
  cases e with
  | record scope type details =>
    obtain ⟨rfl, hinner⟩ := h
    simp [after, Event.ofStates_of_isInner hinner, Effect.records]
  | numberMachine | conclude => exact h.elim
  | _ => simp [after, Effect.records]

theorem Process.Keeps.inside {p : Process α} {post : α → Unit → Prop}
    (hp : p.Keeps (.only (Effect.Plain ⟨a.scope, none⟩) (Wait.Inside a.scope a.machine)) post ())
    (h : a.Inside base visits v) :
    p.Keeps (tracing base).toProtocol (fun x g' => g' = .lost ∨ ∃ rs, p.MayReturn rs x ∧
      g' = .running { a with records := a.records ++ rs } ∧
        { a with records := a.records ++ rs }.Inside base visits { v with inner := v.inner ++ rs })
      (.running a) := by
  induction p generalizing a v with
  | ret x =>
    refine Or.inr ⟨[], .ret x, by rw [List.append_nil], ?_⟩
    simpa using h
  | effect e next ih =>
    have hadd := h.add (Effect.Plain.records_inner hp.1)
    refine ⟨?_, fun r => ?_⟩
    · cases e with
      | record scope type details =>
        obtain ⟨rfl, -⟩ := hp.1
        exact fun _ => Or.inr ⟨a, rfl, rfl, _, hadd.path, hadd.records⟩
      | numberMachine | conclude => exact hp.1.elim
      | _ => trivial
    by_cases hanswers : e.Answers r
    · change Keeps _ _ _ ((Stage.running a).next e r)
      rw [Stage.next, if_pos hanswers, a.after_plain hp.1]
      obtain ⟨w, rfl⟩ := hanswers
      refine (ih (a := { a with records := a.records ++ e.records }) _ (hp.2 _) hadd).mono ?_
      rintro x g' (rfl | ⟨rs, hx, rfl, hinside⟩)
      · exact Or.inl rfl
      · exact Or.inr ⟨e.records ++ rs, .effect w hx, by simp, by simpa using hinside⟩
    · change Keeps _ _ _ ((Stage.running a).next e r)
      rw [Stage.next, if_neg hanswers]
      exact (Process.keeps_lost _).mono fun _ _ h => Or.inl h
  | wait w next ih =>
    refine ⟨?_, fun r => ?_⟩
    · cases w with
      | join jobs => exact Or.inr ⟨a, rfl, hp.1⟩
      | _ => trivial
    · refine (ih r (hp.2 r) h).mono ?_
      rintro x g' (rfl | ⟨rs, hx, hg⟩)
      · exact Or.inl rfl
      · exact Or.inr ⟨rs, .wait r hx, hg⟩

theorem Work.Keeps.inside {ok : α → Unit → Prop} {err : Failure → Unit → Prop}
    (hx : x.Keeps (.only (Effect.Plain ⟨a.scope, none⟩) (Wait.Inside a.scope a.machine)) ok err ())
    (h : a.Inside base visits v) :
    x.Traces base (fun y g' => ∃ rs, x.run.MayReturn rs (.ok y) ∧
      g' = .running { a with records := a.records ++ rs } ∧
        { a with records := a.records ++ rs }.Inside base visits { v with inner := v.inner ++ rs })
      (.running a) := by
  refine (Process.Keeps.inside hx h).mono ?_
  rintro (e | y) g' hg
  · trivial
  · exact hg

end Traces

/-! ## Inside states -/

namespace Work

variable {α β : Type} {scope : List Nat} {m : Machine}

/-- Work that may start machines, but only those inside the states of a machine. -/
abbrev Inside (scope : List Nat) (m : Machine) (work : Work α) : Prop :=
  work.Keeps (.only (Effect.Plain ⟨scope, none⟩) (Wait.Inside scope m)) (fun _ _ => True)
    (fun _ _ => True) ()

omit [Room] in
theorem Inside.bind {x : Work α} {f : α → Work β} (hx : x.Inside scope m)
    (hf : ∀ a, (f a).Inside scope m) : (x >>= f).Inside scope m :=
  Keeps.bind hx fun a _ _ => hf a

omit [Room] in
theorem Plain.inside {x : Work α} (h : x.Plain ⟨scope, none⟩) : x.Inside scope m := by
  refine (Keeps.of_only h (fun _ he => ⟨he, fun _ => rfl⟩) fun w hw => ?_).mono
    (fun _ _ _ => trivial) fun _ _ _ => trivial
  cases w with
  | join jobs => exact hw.elim
  | _ => trivial

end Work

namespace State

open Work

variable {s : State} {site : Site} {m : Machine} (hpart : s.IsPart m.states)

omit [Room] in
theorem inside_joined {scope : List Nat} {jobs : List Job}
    (h : ∀ job ∈ jobs, job.parent = scope ∧ m.Contains job.definition) :
    (joined jobs).Inside scope m := by
  refine (keeps_bind _ _).mpr ⟨h, fun answer => ?_⟩
  exact Inside.bind (plain_ofOutcome answer).inside fun result => (plain_pure _).inside

theorem inside_runAttempts (input : Value) {attempt : Nat → Work Value} {onFailure : Failure → Work Unit}
    (hattempt : ∀ n, (attempt n).Inside site.machine m)
    (hfailure : ∀ e, (onFailure e).Plain site.scope) (left failed : Nat) :
    (s.runAttempts input attempt onFailure left failed).Inside site.machine m := by
  induction left using Nat.strongRecOn generalizing failed with
  | ind left ih =>
    rw [runAttempts.eq_def]
    refine Inside.bind ((keeps_outcome _).mpr (hattempt failed)) fun o => ?_
    cases o with
    | ok output => exact (plain_pure _).inside
    | error e =>
      dsimp only
      cases s.decide e (failed + 1) input with
      | error problem =>
        dsimp only
        split
        · exact Inside.bind (hfailure e).inside fun _ => (plain_throw _).inside
        · exact (plain_throw _).inside
      | ok decision =>
        cases decision with
        | propagate => exact Inside.bind (hfailure e).inside fun _ => (plain_throw _).inside
        | caught next output =>
          refine Inside.bind (hfailure e).inside fun _ => ?_
          exact Inside.bind (plain_tell _ _).inside fun _ => (plain_pure _).inside
        | retry delay =>
          refine Inside.bind (plain_tell _ _).inside fun _ => ?_
          refine Inside.bind (plain_sleepSeconds delay).inside fun _ => ?_
          cases left with
          | zero => exact (plain_throw _).inside
          | succ left => exact ih left (Nat.lt_succ_self left) (failed + 1)

section

include hpart

theorem inside_runBranches (hkind : s.kind = .parallel) (input effective context : Value) :
    (s.runBranches site input effective context).Inside site.machine m := by
  unfold runBranches
  refine (keeps_bind _ _).mpr (keeps_ofOutcome_of (fun branches hbranches => ?_) fun _ _ => trivial)
  refine Inside.bind (inside_joined fun job hjob => ?_) fun result => ?_
  · obtain ⟨branch, hbranch, rfl⟩ := List.mem_map.mp hjob
    exact ⟨rfl, s, hpart, Or.inl ⟨hkind, branches, hbranches, hbranch⟩⟩
  · refine Inside.bind (plain_record (by simp [Event.inner]) _).inside fun _ => ?_
    exact (s.plain_finish _ _ _).inside

theorem inside_runItems {processor : Value} (hkind : s.kind = .map processor)
    (input effective : Value) (items : List Value) (context : Value) :
    (s.runItems site processor input effective items context).Inside site.machine m := by
  unfold runItems
  refine Inside.bind (plain_ofOutcome _).inside fun capacity => ?_
  refine (keeps_bind _ _).mpr ⟨trivial, fun slots => ?_⟩
  refine Inside.bind (inside_joined fun job hjob => ?_) fun result => ?_
  · obtain ⟨⟨item, index⟩, -, rfl⟩ := List.mem_map.mp hjob
    exact ⟨rfl, s, hpart, Or.inr hkind⟩
  · refine Inside.bind (plain_record (by simp [Event.inner]) _).inside fun _ => ?_
    exact (s.plain_finish _ _ _).inside

theorem inside_runParallel (hkind : s.kind = .parallel) (entered : Nat) (input : Value) :
    (s.runParallel site entered input).Inside site.machine m := by
  unfold runParallel
  refine Inside.bind (s.plain_filterInput _ _).inside fun effective => ?_
  refine Inside.bind (s.plain_parameters _ _).inside fun effective => ?_
  refine Inside.bind (plain_record (by simp [Event.inner]) _).inside fun _ => ?_
  exact inside_runAttempts input (fun _ => inside_runBranches hpart hkind _ _ _)
    (fun e => s.plain_recordFailed site e) _ _

theorem inside_runMap {processor : Value} (hkind : s.kind = .map processor) (entered : Nat)
    (input : Value) : (s.runMap site entered processor input).Inside site.machine m := by
  unfold runMap
  refine Inside.bind (s.plain_filterInput _ _).inside fun effective => ?_
  refine Inside.bind (plain_ofOutcome _).inside fun selected => ?_
  split
  · rename_i items
    refine Inside.bind (plain_record (by simp [Event.inner]) _).inside fun _ => ?_
    exact inside_runAttempts input (fun _ => inside_runItems hpart hkind _ _ _ _)
      (fun e => s.plain_recordFailed site e) _ _
  · exact (plain_throw _).inside

end

include hpart in
theorem inside_run (site : Site) (entered : Nat) (input : Value) :
    (s.run site entered input).Inside site.machine m := by
  unfold run
  cases hkind : s.kind with
  | pass => exact (s.plain_runPass site entered input).inside
  | wait => exact (s.plain_runWait site entered input).inside
  | choice => exact (s.plain_runChoice site entered input).inside
  | succeed => exact (s.plain_runSucceed site entered input).inside
  | fail => exact (plain_throw _).inside
  | task task =>
    exact inside_runAttempts input (fun _ => (s.plain_attemptTask task site input _).inside)
      (fun _ => plain_pure ()) _ _
  | parallel => exact inside_runParallel hpart hkind entered input
  | map processor => exact inside_runMap hpart hkind entered input

end State

/-! ## States and machines -/

omit [Room] in
theorem Event.ofStates_entered (kind : StateKind) (scope : List Nat) :
    ofStates ⟨scope, none⟩ (kind.name ++ "StateEntered") = true := by
  cases kind
  all_goals
    simp only [StateKind.name, ofStates]
    decide +kernel

omit [Room] in
theorem Event.ofStates_exited (kind : StateKind) (scope : List Nat) :
    ofStates ⟨scope, none⟩ (kind.name ++ "StateExited") = true := by
  cases kind
  all_goals
    simp only [StateKind.name, ofStates]
    decide +kernel

section

variable {base : Site} {a : Activation} {visits : List Visit}

theorem Work.traces_record {type : String} {details : Members}
    (hown : Event.ofStates ⟨a.scope, none⟩ type = true)
    (htraces : a.machine.Traces (base.within a.scope) (a.records ++ [(type, details)])) :
    (Work.record ⟨a.scope, none⟩ type details).Traces base
      (fun _ g' => g' = .running { a with records := a.records ++ [(type, details)] })
      (.running a) := by
  refine ⟨fun _ => Or.inr ⟨a, rfl, rfl, htraces⟩, fun r => ?_⟩
  by_cases hanswers : (Effect.record ⟨a.scope, none⟩ type details).Answers r
  · refine Or.inr ((if_pos hanswers).trans ?_)
    simp [Activation.after, hown]
  · exact Or.inl (if_neg hanswers)

/-- A state is entered, run and left: this adds a visit to the path of its machine. -/
theorem State.execute_traces {s : State} {input : Value} (hpart : s.IsPart a.machine.states)
    (hpath : a.machine.IsPath (base.within a.scope) visits)
    (hrecords : a.records = visits.flatMap Visit.records)
    (hnext : ∀ text, Json.encode input = .ok text →
      a.machine.Awaits (base.within a.scope) visits (.str s.name) text) :
    (s.execute (base.within a.scope) input).Traces base
      (fun t g' => ∃ v text, v.state = s ∧ v.output = some text ∧ Json.encode t.output = .ok text ∧
        v.Leads (base.within a.scope) t.next ∧
        a.machine.IsPath (base.within a.scope) (visits ++ [v]) ∧
        g' = .running { a with records := (visits ++ [v]).flatMap Visit.records }) (.running a) := by
  unfold execute
  refine Work.Traces.bind (Work.traces_quiet (e := .now) trivial _) ?_
  rintro entered _ rfl
  refine Work.traces_ofOutcome_bind fun before hbefore => ?_
  have hentered := hpath.enter hpart (hnext before hbefore)
  have htrace : a.records ++ [s.entry before] =
      (visits ++ [Visit.mk s before [] none]).flatMap Visit.records := by
    simp [hrecords, Visit.records]
  refine Work.Traces.bind (Work.traces_record (Event.ofStates_entered s.kind _)
    ⟨_, hentered, htrace⟩) ?_
  rintro _ _ rfl
  have hinside : { a with records := a.records ++ [s.entry before] }.Inside base visits
      ⟨s, before, [], none⟩ := ⟨hentered, htrace, rfl⟩
  have hstate : (s.run (base.within a.scope) entered input).Inside a.scope a.machine :=
    inside_run hpart (base.within a.scope) entered input
  refine Work.Traces.bind (Work.Keeps.inside hstate hinside) ?_
  rintro t _ ⟨rs, hrun, rfl, hinside⟩
  refine Work.traces_ofOutcome_bind fun after hafter => ?_
  refine Work.keeps_ite (fun _ => trivial) fun hlength => ?_
  have hleft := hinside.path.goOn (w := Visit.mk s before ([] ++ rs) (some after)) rfl rfl
    (hinside.path.inner ⟨s, before, [] ++ rs, none⟩ (by simp)) fun _ htext => by
      cases htext
      exact Nat.not_lt.mp hlength
  have htrace : a.records ++ [s.entry before] ++ rs ++ [s.exit after] =
      (visits ++ [Visit.mk s before ([] ++ rs) (some after)]).flatMap Visit.records := by
    simp [hrecords, Visit.records]
  refine Work.Traces.bind (Work.traces_record (Event.ofStates_exited s.kind _)
    ⟨_, hleft, htrace⟩) ?_
  rintro _ _ rfl
  refine Or.inr ⟨_, after, rfl, rfl, hafter, ?_, hleft, by rw [← htrace]; rfl⟩
  exact ⟨entered, input, after, t, hbefore, rfl, hafter, leads_of_run hrun, rfl⟩

theorem isFinal_of_isEnd {s : State} {site : Site} {entered : Nat} {input : Value} {rs : Records}
    {t : Transition} (hend : Machine.isEnd s = true) (hleads : s.Leads site entered input rs t) :
    s.IsFinal := by
  unfold Machine.isEnd at hend
  unfold State.Leads at hleads
  cases hkind : s.kind with
  | succeed => exact Or.inl hkind
  | fail =>
    rw [hkind] at hleads
    exact hleads.elim
  | _ =>
    rw [hkind] at hend
    exact Or.inr hend

theorem Machine.runFrom_traces (fuel : Nat) {current data : Value}
    (hpath : a.machine.IsPath (base.within a.scope) visits)
    (hrecords : a.records = visits.flatMap Visit.records)
    (hnext : ∀ text, Json.encode data = .ok text →
      a.machine.Awaits (base.within a.scope) visits current text) :
    (runFrom (base.within a.scope) a.machine.states fuel current data).Traces base
      (fun output g' => ∃ rs, g' = .running { a with records := rs } ∧
        a.machine.Ends (base.within a.scope) rs output) (.running a) := by
  induction fuel generalizing a visits current data with
  | zero => trivial
  | succ fuel ih =>
    unfold runFrom
    refine Work.Traces.bind (Work.traces_quiet (e := .historySize) trivial _) ?_
    rintro size _ rfl
    refine Work.keeps_ite (fun _ => trivial) fun _ => ?_
    -- The making of a state records nothing, so it is quiet in any scope.
    refine Work.Traces.bind ((State.make_makes ⟨[], some 0⟩ (base.within a.scope) a.machine.states
      current).quiet nofun _) ?_
    rintro s _ ⟨rfl, hpart, rfl⟩
    refine Work.Traces.bind (State.execute_traces hpart hpath hrecords hnext) ?_
    rintro t _ ⟨v, text, rfl, houtput, htext, hleads, hpath', rfl⟩
    -- The next state is awaited with the text that this one was left with.
    have hawaits : ∀ text, Json.encode t.output = .ok text →
        a.machine.Awaits (base.within a.scope) (visits ++ [v]) t.next text := by
      intro text' htext'
      rw [htext'] at htext
      cases htext
      simpa [Awaits] using ⟨houtput, hleads⟩
    have hrest := ih (a := ⟨a.scope, a.machine, (visits ++ [v]).flatMap Visit.records⟩) hpath' rfl
      hawaits
    cases hnext : t.next with
    | null =>
      refine Work.keeps_ite (fun hend => ?_) fun _ => trivial
      obtain ⟨_, _, _, _, _, _, _, hleads, _⟩ := hleads
      exact Or.inr ⟨_, rfl, visits, v, text, hpath', rfl, isFinal_of_isEnd hend hleads, houtput, htext⟩
    | _ =>
      rw [hnext] at hrest
      exact hrest

theorem Machine.run_traces (m : Machine) (scope : List Nat) (input : Value) :
    (m.run (base.within scope) input).Traces base
      (fun output g' => ∃ rs, g' = .running ⟨scope, m, rs⟩ ∧ m.Ends (base.within scope) rs output)
      (.running ⟨scope, m, []⟩) :=
  runFrom_traces (a := ⟨scope, m, []⟩) maxStates isPath_nil rfl fun _ _ => rfl

end

/-! ## Jobs -/

/-- Work that keeps the protocol to its end, wherever that leaves its thread. -/
abbrev Work.Traced (base : Site) {α : Type} (work : Work α) (g : Stage) : Prop :=
  work.Traces base (fun _ _ => True) g

section

variable {base : Site} {α β : Type} {g : Stage}

theorem Work.Traces.andThen {x : Work α} {f : α → Work β} (hx : x.Traced base g)
    (hf : ∀ a g', (f a).Traced base g') : (x >>= f).Traced base g :=
  Work.Traces.bind hx fun a g' _ => hf a g'

theorem Work.traced_quiet {e : Effect} (h : e.Quiet) (g : Stage) : (Work.perform e).Traced base g :=
  (Work.traces_quiet h g).mono (fun _ _ _ => Or.inr trivial) fun _ _ h => h

theorem Work.traced_record {scope : Scope} {type : String} (h : Event.ofStates scope type = false)
    (details : Members) (g : Stage) : (Work.record scope type details).Traced base g :=
  traced_quiet (e := .record scope type details) h g

theorem Work.traced_recordFailure {scope : Scope} {type : String}
    (h : Event.ofStates scope type = false) (details : Members) (e : Failure) (g : Stage) :
    (Work.recordFailure scope type details e).Traced base g := by
  refine Work.traces_ofOutcome_bind fun text _ => ?_
  refine Traces.andThen (traced_record h _ g) fun _ g => ?_
  exact Work.traces_ofOutcome_bind fun _ _ => Or.inr trivial

theorem Work.traced_tell (level : Level) (text : Outcome String) (g : Stage) :
    (Work.tell level text).Traced base g :=
  Work.traces_ofOutcome_bind fun text _ => traced_quiet (e := .log level text) trivial g

end

namespace Job

variable {base : Site} (parent : List Nat)

theorem runMachine_traced (definition input : Value) :
    (runMachine (base.within parent) definition input).Traced base (.called parent definition) := by
  unfold runMachine
  refine (Work.keeps_bind _ _).mpr ⟨Or.inr ⟨definition, rfl⟩, fun number => ?_⟩
  refine Work.traces_ofOutcome_bind fun m hm => ?_
  have hstart : (tracing base).next (.called parent definition) (.numberMachine parent) number =
      .running ⟨parent ++ [number], m, []⟩ := by
    simp [tracing, Stage.next, Stage.start, hm]
  change Work.Traced base _ ((tracing base).next (.called parent definition)
    (.numberMachine parent) number)
  rw [hstart]
  exact (m.run_traces (parent ++ [number]) input).mono (fun _ _ h => h.imp_right fun _ => trivial)
    fun _ _ h => h

theorem runSlotted_traced (i : Iteration) (input : Value) :
    (runSlotted (base.within parent) i input).Traced base (.called parent i.processor) := by
  unfold runSlotted
  have hstarted : (Effect.record ((base.within parent).iteration i.index) "MapIterationStarted"
    [("index", .int i.index), ("name", .str i.state)]).Quiet := rfl
  refine Work.Traces.bind (Work.traces_quiet hstarted _) ?_
  rintro _ _ rfl
  refine Work.Traces.outcome_bind (runMachine_traced parent i.processor input) (fun output g _ => ?_)
    fun e g => ?_
  · exact Work.Traces.andThen (Work.traced_record rfl _ g) fun _ _ => Or.inr trivial
  · exact Work.Traces.andThen (Work.traced_recordFailure rfl _ e g) fun _ _ => trivial

theorem runIteration_traced (slots : Nat) (i : Iteration) :
    (runIteration (base.within parent) slots i).Traced base (.called parent i.processor) := by
  have hslotted (input : Value) : (do
      Work.await (.takeSlot slots)
      let outcome ← (runSlotted (base.within parent) i input).outcome
      Work.await (.freeSlot slots)
      Work.ofOutcome outcome : Work Value).Traced base (.called parent i.processor) := by
    refine (Work.keeps_bind _ _).mpr ⟨trivial, fun _ => ?_⟩
    refine Work.Traces.outcome_bind (runSlotted_traced parent i input) (fun output g _ => ?_)
      fun e g => ?_
    · exact ⟨trivial, fun _ => Or.inr trivial⟩
    · exact ⟨trivial, fun _ => trivial⟩
  unfold runIteration
  split
  · exact hslotted _
  · rename_i template _
    have hexpand : (Effect.expand i.input (iterationContext i) template).Quiet := trivial
    rw [Work.expand, bind_assoc]
    refine Work.Traces.bind (Work.traces_quiet hexpand _) ?_
    rintro answer _ rfl
    exact Work.traces_ofOutcome_bind fun input _ => hslotted input

end Job

theorem Team.obeys_of_traced {base : Site} {work : Work Value} {g : Stage}
    (h : work.Traced base g) : (tracing base).Obeys work.run g :=
  Team.obeys_of_keeps h

theorem Job.work_obeys (identity : Identity) (config : Value) (job : Job) :
    (tracing ⟨identity, config, []⟩).Obeys (job.work identity config).run
      ((tracing ⟨identity, config, []⟩).hired job) := by
  cases job with
  | branch parent definition input => exact Team.obeys_of_traced (runMachine_traced parent definition input)
  | iteration parent slots i => exact Team.obeys_of_traced (runIteration_traced parent slots i)

/-! ## Executions and workers -/

section

variable {base : Site}

theorem Interpreter.concludeFailed_traced (identity : Identity) (e : Failure) (g : Stage) :
    (concludeFailed identity e).Traced base g := by
  unfold concludeFailed
  refine (Work.keeps_bind _ _).mpr ⟨trivial, fun _ => ?_⟩
  refine Work.Traces.andThen (Work.traced_recordFailure (by decide) _ e _) fun _ g => ?_
  exact Work.Traces.andThen (Work.traced_tell _ _ g) fun _ _ => trivial

theorem Interpreter.concludeSucceeded_traced {m : Machine} {rs : Records} {output : Value}
    (hends : m.Ends (base.within []) rs output) :
    (concludeSucceeded output).Traced base (.running ⟨[], m, rs⟩) := by
  unfold concludeSucceeded
  refine (Work.keeps_bind _ _).mpr ⟨Or.inr ⟨_, rfl, rfl, hends⟩, fun _ => ?_⟩
  refine Work.traces_ofOutcome_bind fun text _ => ?_
  exact Work.Traces.andThen (Work.traced_record (by decide) _ _) fun _ _ => Or.inr trivial

theorem Interpreter.executionWork_obeys (identity : Identity) (config definition : Value) :
    (tracing ⟨identity, config, []⟩).Obeys (executionWork identity config definition).run
      (.start [] definition) := by
  apply Team.obeys_of_traced
  unfold executionWork
  refine Work.traces_ofOutcome_bind fun text _ => ?_
  have hstarted : Event.ofStates .top "ExecutionStarted" = false := by decide
  refine Work.Traces.bind (Work.traces_quiet (e := .record _ _ _) hstarted _) ?_
  rintro _ _ rfl
  refine Work.traces_ofOutcome_bind fun _ _ => ?_
  refine Work.traces_ofOutcome_bind fun m hm => ?_
  rw [Stage.start, hm]
  refine Work.Traces.outcome_bind (m.run_traces [] identity.input) ?_
    fun e g => concludeFailed_traced identity e g
  rintro output _ ⟨rs, rfl, hends⟩
  exact concludeSucceeded_traced hends

theorem Worker.work_obeys (w : Worker) : (tracing base).Obeys w.work.run .idle := by
  apply Team.obeys_of_keeps
  apply Work.Keeps.of_only w.asks_work
  · intro e he
    cases e with
    | getActivityTask | enqueueResult | note => exact ⟨trivial, fun _ => rfl⟩
    | _ => exact he.elim
  · exact fun w hw => plain_mayWait hw _

end

end StatesLanguage
