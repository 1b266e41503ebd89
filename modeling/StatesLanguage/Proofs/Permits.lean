import StatesLanguage.Proofs.Pact
import StatesLanguage.Proofs.Parts

/-!
# Permits

An iteration says that it has begun only while it has a slot, and keeps the slot until it has said that
it is over, or has failed with an error that has no text, of which it says nothing. Who starts iterations
has made the slots that they share just before, so that each attempt of a Map state has slots of its own.
-/

namespace StatesLanguage

inductive Phase where
  | begun
  | over
  deriving DecidableEq

/-- What an effect says of the iteration that has it. -/
def Effect.phase? : Effect → Option Phase
  | .record scope type _ =>
    if scope.iteration.isNone then none
    else if type = "MapIterationStarted" then some .begun
    else if type = "MapIterationSucceeded" ∨ type = "MapIterationFailed" then some .over
    else none
  | _ => none

/-- Whether a thread has a slot, and what it has said of its iteration. -/
inductive Permit where
  /-- The thread has no slot. -/
  | none
  /-- It has taken one and has said nothing yet. -/
  | held
  /-- It has said that it has begun. -/
  | busy
  /-- It has also said that it is over. -/
  | told
  /-- It has given the slot back without having said so. -/
  | lost
  deriving DecidableEq

/-- What a thread has to do with slots. -/
structure Stance where
  /-- The slots of which it may take one. -/
  slots : Option Nat
  permit : Permit
  /-- The slots that it has made for jobs. -/
  made : Option Nat
  /-- The capacities of the slots that it makes. -/
  sized : Option Nat → Prop

def Stance.setPermit (g : Stance) (permit : Permit) : Stance := { g with permit }

def Stance.setMade (g : Stance) (made : Option Nat) : Stance := { g with made }

/-- Only without a slot, or having said that it has begun, a thread may do as it likes. -/
def Stance.Free (g : Stance) : Prop := g.permit = .none ∨ g.permit = .busy

theorem Stance.Free.ne_told {g : Stance} (h : g.Free) : g.permit ≠ .told := by
  rcases h with h | h <;> simp [h]

/-- The error in place of a text that there is not. -/
def Failure.Wordless [Room] (e' : Failure) : Prop := ∃ e : Failure, e.text = .error e'

theorem Stance.setMade_eq_self {g : Stance} {made : Option Nat} (h : g.made = made) :
    g.setMade made = g := by
  subst h
  rfl

def permits : Pact Stance where
  does g e _ g' :=
    match e.phase? with
    | none => g.Free ∧ g' = g
    | some .begun => g.permit = .held ∧ g' = g.setPermit .busy
    | some .over => g.permit = .busy ∧ g' = g.setPermit .told
  mayWait g
    | .sleep _ | .call _ _ => g.Free
    | .join jobs => g.Free ∧ ∃ slots, (∀ job ∈ jobs, job.stake.slots? = slots) ∧
      ∀ id, slots = some id → g.made = some id
    | .makeSlots capacity => g.Free ∧ g.sized capacity
    | .takeSlot id => g.slots = some id ∧ g.permit = .none
    | .freeSlot id => g.slots = some id ∧ (g.permit = .told ∨ g.permit = .busy)
  after g
    | .join _, _ => g.setMade none
    | .makeSlots _, id => g.setMade (some id)
    | .takeSlot _, _ => g.setPermit .held
    | .freeSlot _, _ => g.setPermit (if g.permit = .told then .none else .lost)
    | _, _ => g
  told _ _ := True
  answered _ _ := True

theorem Effect.phase?_of_routine {e : Effect} (h : e.Routine) : e.phase? = none := by
  cases e with
  | record scope type details =>
    have hscope : scope.iteration = none := h.2
    simp only [phase?, hscope, Option.isNone_none, if_true]
  | _ => rfl

theorem Effect.phase?_of_plain {e : Effect} {scope : Scope} (hscope : scope.iteration = none)
    (h : e.Plain scope) : e.phase? = none := by
  cases e with
  | record scope' type details =>
    obtain rfl : scope' = scope := h.1
    simp only [phase?, hscope, Option.isNone_none, if_true]
  | _ => rfl

namespace Work

variable {g : Stance}

/-- However the work ends, its thread then has to do with slots what it had when it started. -/
abbrev Returns (g : Stance) {α : Type} (work : Work α) : Prop :=
  work.Stays permits g fun _ => True

theorem returns_of_only (hfree : g.Free) {α : Type} {effects : Effect → Prop} {post : α → Prop}
    {work : Work α} (h : work.Keeps (.only effects Wait.Plain) (fun a _ => post a) (fun _ _ => True) ())
    (heffect : ∀ e, effects e → e.phase? = none) : work.Stays permits g post := by
  refine Honours.of_only h (fun e r he => ?_) fun wt hwait => ?_
  · simp only [permits, heffect e he]
    exact ⟨hfree, trivial⟩
  · cases wt with
    | sleep | call => exact ⟨hfree, fun _ => rfl⟩
    | _ => exact hwait.elim

theorem closed_returns (hfree : g.Free) : Closed fun {α} (work : Work α) => work.Returns g where
  quiet h := (returns_of_only hfree h fun _ => Effect.phase?_of_routine).mono fun _ _ => trivial
  bind hx hf := hx.bind fun a _ => hf a
  outcome hx := hx.outcome.mono fun _ _ => trivial
  known hx hf := (returns_of_only hfree hx fun _ => Effect.phase?_of_routine).bind hf

theorem honours_joined (hfree : g.Free) (jobs : List Job) {slots : Option Nat}
    (hjobs : ∀ job ∈ jobs, job.stake.slots? = slots) (hmade : ∀ id, slots = some id → g.made = some id) :
    (State.joined jobs).Honours permits (fun _ g' => g' = g.setMade none)
      (fun _ g' => g' = g.setMade none) g := by
  have hawait : (await (.join jobs)).Honours permits (fun _ g' => g' = g.setMade none)
      (fun _ g' => g' = g.setMade none) g :=
    honours_await ⟨hfree, slots, hjobs, hmade⟩ fun _ _ => rfl
  refine hawait.bind ?_
  rintro outcome _ rfl
  have hgather : Returns (g.setMade none) (ofOutcome outcome >>= fun outs => pure (Value.arr outs)) :=
    (stays_ofOutcome fun _ _ => trivial).bind fun _ _ => stays_pure trivial
  exact Honours.mono hgather (fun _ _ h => h.1) fun _ _ h => h

theorem returns_slotted (hfree : g.Free) (hmade : g.made = none) {capacity : Option Nat}
    (hsized : g.sized capacity) {jobs : Nat → List Job} {f : Value → Work Value}
    (hjobs : ∀ slots, ∀ job ∈ jobs slots, job.stake = .owed slots) (hf : ∀ v, (f v).Returns g) :
    Returns g (do f (← State.joined (jobs (← await (.makeSlots capacity))))) := by
  have hslots : (await (.makeSlots capacity)).Honours permits (fun id g' => g' = g.setMade (some id))
      (fun _ g' => g' = g) g :=
    honours_await ⟨hfree, hsized⟩ fun _ _ => rfl
  refine hslots.bind ?_
  rintro slots _ rfl
  have hjoined := honours_joined (g := g.setMade (some slots)) hfree (jobs slots)
    (fun job hjob => congrArg Stake.slots? (hjobs slots job hjob)) fun id hid => hid
  have hback : (g.setMade (some slots)).setMade none = g := Stance.setMade_eq_self hmade
  rw [hback] at hjoined
  refine hjoined.bind ?_
  rintro v _ rfl
  exact hf v

theorem nests_returns (hfree : g.Free) (hmade : g.made = none) (hsized : ∀ capacity, g.sized capacity) :
    Nests fun {α} (work : Work α) => work.Returns g where
  toClosed := closed_returns hfree
  branches jobs hjobs := by
    have hjoined := honours_joined hfree jobs
      (fun job hjob => congrArg Stake.slots? (hjobs job hjob)) nofun
    rw [Stance.setMade_eq_self hmade] at hjoined
    exact hjoined.mono (fun _ _ h => ⟨h, trivial⟩) fun _ _ h => h
  slotted capacity _ _ hjobs hf := returns_slotted hfree hmade (hsized capacity) hjobs hf

theorem callsHave_returns [Room] (hfree : g.Free) (config : Value) :
    CallsHave (fun {α} (work : Work α) => work.Returns g) config := by
  intro task _ execution scope hscope parameters
  have hplain := task.plain_invokeResource scope execution parameters
  exact returns_of_only hfree hplain fun _ => Effect.phase?_of_plain hscope

end Work

/-! ## Jobs -/

namespace Job

open Work

def stance (job : Job) : Stance :=
  ⟨job.stake.slots?, .none, none, fun _ => True⟩

section Phases

variable {g : Stance} {e : Effect} {err : Failure → Stance → Prop}

theorem honours_begun (h : e.phase? = some .begun) :
    (perform e).Honours permits (fun _ g' => g' = g.setPermit .busy) err (g.setPermit .held) := by
  refine honours_perform fun _ _ => ⟨g.setPermit .busy, ?_, rfl⟩
  simp only [permits, h]
  exact ⟨rfl, rfl⟩

theorem honours_over (h : e.phase? = some .over) :
    (perform e).Honours permits (fun _ g' => g' = g.setPermit .told) err (g.setPermit .busy) := by
  refine honours_perform fun _ _ => ⟨g.setPermit .told, ?_, rfl⟩
  simp only [permits, h]
  exact ⟨rfl, rfl⟩

end Phases

variable [Room]

theorem honours_failed {g : Stance} (scope : Scope) (hscope : scope.iteration.isNone = false)
    (details : Members) (e : Failure) :
    (recordFailure scope "MapIterationFailed" details e).Honours permits
      (fun _ g' => g' = g.setPermit .told)
      (fun e' g' => g' = g.setPermit .told ∨ g' = g.setPermit .busy ∧ e'.Wordless)
      (g.setPermit .busy) := by
  have hphase (details : Members) :
      (Effect.record scope "MapIterationFailed" details).phase? = some .over := by
    simp [Effect.phase?, hscope]
  have htext : (ofOutcome e.text).Honours permits (fun _ g' => g' = g.setPermit .busy)
      (fun e' g' => g' = g.setPermit .told ∨ g' = g.setPermit .busy ∧ e'.Wordless)
      (g.setPermit .busy) :=
    honours_ofOutcome (fun _ _ => rfl) fun e' he => Or.inr ⟨rfl, e, he⟩
  refine htext.bind ?_
  rintro text _ rfl
  refine Honours.bind (honours_over (hphase _)) ?_
  rintro _ _ rfl
  refine Honours.bind (honours_ofOutcome (fun _ _ => rfl) fun _ _ => Or.inl rfl) ?_
  rintro _ _ rfl
  exact honours_ofOutcome (o := .ok ()) (fun _ _ => rfl) nofun

section Iterations

variable {g : Stance} (hmade : g.made = none) (hsized : ∀ capacity, g.sized capacity)

include hmade hsized

/-- An iteration says that it is over, unless there is no text of its error. -/
theorem honours_runSlotted (site : Site) (i : Iteration) (input : Value) :
    (runSlotted site i input).Honours permits (fun _ g' => g' = g.setPermit .told)
      (fun e g' => g' = g.setPermit .told ∨ g' = g.setPermit .busy ∧ e.Wordless)
      (g.setPermit .held) := by
  have hfree : (g.setPermit .busy).Free := Or.inr rfl
  have hrun : (runMachine site i.processor input).Returns (g.setPermit .busy) :=
    (nests_returns hfree hmade hsized).runMachine (callsHave_returns hfree site.config) i.processor input
  unfold runSlotted
  refine Honours.bind (honours_begun rfl) ?_
  rintro _ _ rfl
  refine hrun.honours_outcome.bind ?_
  rintro o _ ⟨rfl, -⟩
  cases o with
  | ok output =>
    refine Honours.bind (honours_over rfl) ?_
    rintro _ _ rfl
    exact honours_ofOutcome (o := .ok output) (fun _ _ => rfl) nofun
  | error e =>
    refine (honours_failed (site.iteration i.index) rfl _ e).bind ?_
    rintro _ _ rfl
    exact honours_ofOutcome (o := .error e) nofun fun _ _ => Or.inl rfl

theorem honours_runIteration {slots : Nat} (hslots : g.slots = some slots) (site : Site)
    (i : Iteration) :
    (runIteration site slots i).Honours permits (fun _ g' => g' = g.setPermit .none)
      (fun e g' => g' = g.setPermit .none ∨ g' = g.setPermit .lost ∧ e.Wordless)
      (g.setPermit .none) := by
  have hslot (input : Value) : Honours permits (fun _ g' => g' = g.setPermit .none)
      (fun e g' => g' = g.setPermit .none ∨ g' = g.setPermit .lost ∧ e.Wordless) (do
      await (.takeSlot slots)
      let outcome ← (runSlotted site i input).outcome
      await (.freeSlot slots)
      ofOutcome outcome) (g.setPermit .none) := by
    have htake : (await (.takeSlot slots)).Honours permits (fun _ g' => g' = g.setPermit .held)
        (fun e g' => g' = g.setPermit .none ∨ g' = g.setPermit .lost ∧ e.Wordless)
        (g.setPermit .none) :=
      honours_await ⟨hslots, rfl⟩ fun _ _ => rfl
    have hfree {permit : Permit} (hpermit : permit = .told ∨ permit = .busy) :
        (await (.freeSlot slots)).Honours permits
          (fun _ g' => g' = g.setPermit (if permit = .told then .none else .lost))
          (fun e g' => g' = g.setPermit .none ∨ g' = g.setPermit .lost ∧ e.Wordless)
          (g.setPermit permit) :=
      honours_await ⟨hslots, hpermit⟩ fun _ _ => rfl
    refine htake.bind ?_
    rintro _ _ rfl
    have hrun : (runSlotted site i input).outcome.Honours permits
        (fun o g' => g' = g.setPermit .told ∨ g' = g.setPermit .busy ∧ ∃ e, o = .error e ∧ e.Wordless)
        (fun e g' => g' = g.setPermit .none ∨ g' = g.setPermit .lost ∧ e.Wordless)
        (g.setPermit .held) :=
      Honours.outcome (Honours.mono (honours_runSlotted hmade hsized site i input)
        (fun _ _ h => Or.inl h) fun e _ h => h.imp_right (And.imp_right fun he => ⟨e, rfl, he⟩))
    refine hrun.bind ?_
    rintro outcome _ (rfl | ⟨rfl, e, rfl, he⟩)
    · refine (hfree (Or.inl rfl)).bind ?_
      rintro _ _ rfl
      exact honours_ofOutcome (fun _ _ => rfl) fun _ _ => Or.inl rfl
    · refine (hfree (Or.inr rfl)).bind ?_
      rintro _ _ rfl
      refine honours_ofOutcome nofun ?_
      rintro _ ⟨⟩
      exact Or.inr ⟨rfl, he⟩
  have hclosed := closed_returns (g := g.setPermit .none) (Or.inl rfl)
  have hexpand (work : Work Value) (hwork : work.Returns (g.setPermit .none)) :
      work.Honours permits (fun _ g' => g' = g.setPermit .none)
        (fun e g' => g' = g.setPermit .none ∨ g' = g.setPermit .lost ∧ e.Wordless)
        (g.setPermit .none) :=
    Honours.mono hwork (fun _ _ h => h.1) fun _ _ h => Or.inl h
  unfold runIteration
  split
  · refine (hexpand _ (hclosed.still (still_pure _))).bind ?_
    rintro input _ rfl
    exact hslot input
  · refine (hexpand _ (hclosed.still (still_expand _ _ _))).bind ?_
    rintro input _ rfl
    exact hslot input

end Iterations

theorem honours_work (job : Job) (identity : Identity) (config : Value) :
    (job.work identity config).Honours permits (fun _ g' => g'.permit = .none)
      (fun e g' => g'.permit = .none ∨ g'.permit = .lost ∧ e.Wordless) job.stance := by
  cases job with
  | branch parent definition input =>
    have hfree : (stance (.branch parent definition input)).Free := Or.inl rfl
    have hnests := nests_returns hfree rfl fun _ => trivial
    have hcalls := callsHave_returns hfree (Site.mk identity config parent).config
    refine Honours.mono (hnests.runMachine hcalls definition input) ?_ ?_
    · rintro _ _ ⟨rfl, -⟩
      rfl
    · rintro _ _ rfl
      exact Or.inl rfl
  | iteration parent slots i =>
    have hrun := honours_runIteration (g := stance (.iteration parent slots i)) rfl
      (fun _ => trivial) rfl ⟨identity, config, parent⟩ i
    refine Honours.mono hrun ?_ ?_
    · rintro _ _ rfl
      rfl
    · rintro _ _ (rfl | ⟨rfl, he⟩)
      · exact Or.inl rfl
      · exact Or.inr ⟨rfl, he⟩

end Job

namespace State

open Work

theorem capacity_int {m : Nat} (hm : 0 < m) (items : Nat) : capacity (.int m) items = .ok (some m) := by
  have htruthy : (Value.int m).truthy = true := by
    simp only [Value.truthy, bne_iff_ne]
    omega
  have hnegative : ¬(m : Int) < 0 := by omega
  simp only [capacity, htruthy, Value.number?, hnegative, Bool.not_true, Bool.false_eq_true, if_false,
    Int.toNat_natCast]

theorem returns_execute [Room] {s : State} {processor : Value} {m : Nat} {g : Stance}
    (hkind : s.kind = .map processor) (hmost : s.field "MaxConcurrency" (.int 0) = .int m)
    (hm : 0 < m) (hfree : g.Free) (hmade : g.made = none) (hsized : g.sized (some m)) (site : Site)
    (input : Value) : (s.execute site input).Returns g := by
  refine (closed_returns hfree).execute s site input fun entered => ?_
  unfold run
  rw [hkind]
  refine (closed_returns hfree).runMap s site entered processor input fun effective items context => ?_
  refine (closed_returns hfree).runItems s site processor input effective items context ?_
  intro capacity hcapacity f hf
  rw [hmost, capacity_int hm] at hcapacity
  cases hcapacity
  exact returns_slotted hfree hmade hsized stake_of_mem_iterations hf

end State

end StatesLanguage
