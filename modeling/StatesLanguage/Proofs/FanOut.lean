import Mathlib.Data.List.Forall2
import StatesLanguage.Proofs.Crew
import StatesLanguage.Proofs.Timeless

/-!
# Machines that run at the same time

A Parallel or Map state whose machines time does not touch collects what they give when each of them
runs alone, in the order of the branches or items, whichever of them moves when, and however few of
the iterations may run at a time.
-/

namespace StatesLanguage

section

variable [Room]

/-! ## A main thread that starts a join -/

namespace Scheduler

variable {work : Job → Process (Outcome Value)}

theorem inevitable_of_single {s : Scheduler} {turn : Turn} {goal : Scheduler → Prop}
    (hready : s.ready = [turn]) (htimers : s.timers = [])
    (h : ∀ world, Inevitable (Move work) goal ({ s with world, ready := [] }.take work turn)) :
    Inevitable (Move work) goal s := by
  refine .later ⟨_, .take s.world [] [] turn hready⟩ fun s' hmove => ?_
  cases hmove with
  | take world before after other hother =>
    rw [hready] at hother
    cases before with
    | nil =>
      obtain ⟨rfl, rfl⟩ := List.cons.inj hother
      exact h world
    | cons first rest => simp at hother
  | fire world before after timer htimer => simp [htimers] at htimer

theorem exists_startJoin (work : Job → Process (Outcome Value)) (s : Scheduler) (job : Job)
    (jobs : List Job) (f : Outcome Value → Process (Outcome Value)) :
    ∃ next, s.take work (.resume ⟨.main, (State.joined (job :: jobs)).run.bind f⟩) =
        s.startJoin work .main (job :: jobs) next ∧ ∀ outs, next (.ok outs) = f (.ok (.arr outs)) :=
  ⟨_, rfl, fun _ => rfl⟩

end Scheduler

/-- Whichever thread moves when, and whatever goes on around, a main thread that starts with some work
comes to other work, unless the history gets longer than it may be. -/
def Work.ComesTo (work : Job → Process (Outcome Value)) (x y : Work Value) : Prop :=
  ∀ (k : Outcome Value → Process (Outcome Value)) (world : World),
    Inevitable (Scheduler.Move work)
      (fun s => ¬s.world.InQuota ∨ .resume ⟨.main, y.run.bind k⟩ ∈ s.ready)
      (Scheduler.create world (x.run.bind k) [])

namespace State

open Work

variable {work : Job → Process (Outcome Value)}

theorem exists_parts {κ : Type} {l : List κ} {outs : List Value} {job : κ → Job}
    (h : List.Forall₂ (fun x out => ∃ cost, (job x).Gives work (some out) cost) l outs) :
    ∃ parts : List Part, parts.map (·.job) = l.map job ∧ parts.map (·.out) = outs ∧
      ∀ part ∈ parts, part.job.Gives work (some part.out) part.cost := by
  induction h with
  | nil => exact ⟨[], rfl, rfl, nofun⟩
  | @cons x out l outs hfirst _ ih =>
    obtain ⟨cost, hfirst⟩ := hfirst
    obtain ⟨parts, hjobs, houts, hparts⟩ := ih
    refine ⟨⟨job x, out, cost⟩ :: parts, by simp [hjobs], by simp [houts], ?_⟩
    exact List.forall_mem_cons.mpr ⟨hfirst, hparts⟩

section

variable {κ : Type} {l : List κ} {outs : List Value} {y : Value → Work Value}

/-- A main thread that starts jobs gets their outputs in the order of the jobs. -/
theorem inevitable_joined {job : κ → Job} (made : Option Nat)
    (h : List.Forall₂ (fun x out => ∃ cost, (job x).Gives work (some out) cost) l outs)
    (hslots : ∀ x ∈ l, ∀ id, (job x).stake = .owed id → made = some id)
    {k : Outcome Value → Process (Outcome Value)} {s : Scheduler}
    (hready : s.ready = [.resume ⟨.main, (joined (l.map job) >>= y).run.bind k⟩])
    (htimers : s.timers = []) (hjoins : s.joins = #[])
    (hfit : SlotsFit s.slots (fun _ => 0) 0 ↑made.toList) :
    Inevitable (Scheduler.Move work)
      (fun t => ¬t.world.InQuota ∨ .resume ⟨.main, (y (.arr outs)).run.bind k⟩ ∈ t.ready) s := by
  obtain ⟨parts, hjobs, rfl, hparts⟩ := exists_parts h
  have howed (part : Part) (hpart : part ∈ parts) (id : Nat) (hid : part.job.stake = .owed id) :
      made = some id := by
    have hjob : part.job ∈ l.map job := hjobs ▸ List.mem_map_of_mem hpart
    obtain ⟨x, hx, hxjob⟩ := List.mem_map.mp hjob
    exact hslots x hx id (hxjob ▸ hid)
  obtain ⟨f, hrun, hf⟩ : ∃ f,
      (joined (l.map job) >>= y).run.bind k = (joined (l.map job)).run.bind f ∧
        ∀ v, f (.ok v) = (y v).run.bind k := ⟨_, run_bind_bind _ _ _, fun _ => rfl⟩
  rw [hrun, ← hjobs] at hready
  rw [← hf]
  refine Scheduler.inevitable_of_single hready htimers fun world => ?_
  cases parts with
  | nil => exact .now (.inr List.mem_cons_self)
  | cons part parts =>
    obtain ⟨next, hstart, hnext⟩ := Scheduler.exists_startJoin work
      { s with world, ready := [] } part.job (parts.map (·.job)) f
    have hcrew : Crew work next _ ({ s with world, ready := [] }.startJoin work .main _ next) _ _ :=
      .of_startJoin (List.cons_ne_nil part parts) (fun part hpart => (hparts part hpart).must _ rfl)
        howed rfl htimers hjoins hfit
    have hinevitable := hcrew.inevitable Crew.rested_recruits
    rw [hnext] at hinevitable
    exact (congrArg (Inevitable _ _) hstart).mpr hinevitable

theorem comesTo_joined {job : κ → Job}
    (h : List.Forall₂ (fun x out => ∃ cost, (job x).Gives work (some out) cost) l outs)
    (hstake : ∀ x ∈ l, (job x).stake = .none) :
    ComesTo work (joined (l.map job) >>= y) (y (.arr outs)) := by
  intro k world
  refine inevitable_joined none h (fun x hx id hid => ?_) rfl rfl rfl SlotsFit.empty
  rw [hstake x hx] at hid
  cases hid

theorem comesTo_slotted {job : κ → Nat → Job} {capacity : Option Nat} (husable : capacity ≠ some 0)
    (h : ∀ id, List.Forall₂ (fun x out => ∃ cost, (job x id).Gives work (some out) cost) l outs)
    (hstake : ∀ x ∈ l, ∀ id, (job x id).stake = .owed id) :
    ComesTo work (await (.makeSlots capacity) >>= fun id => joined (l.map (job · id)) >>= y)
      (y (.arr outs)) := by
  intro k world
  refine Scheduler.inevitable_of_single rfl rfl fun world => ?_
  refine inevitable_joined (some 0) (h 0) (fun x hx id hid => ?_) rfl rfl rfl
    (SlotsFit.empty.push husable)
  rw [hstake x hx] at hid
  cases hid
  rfl

end

end State

/-! ## Machines that run alone -/

abbrev Site.work (site : Site) (job : Job) : Process (Outcome Value) :=
  (job.work site.identity site.config).run

/-- A machine that has a scheduler for itself, in some world, ends with an output. -/
def Site.EndsAlone (site : Site) (definition input out : Value) : Prop :=
  ∃ (parent : List Nat) (world : World) (fuel : Nat),
    (Scheduler.run site.work fuel (Scheduler.create world
      (site.work (.branch parent definition input)) [])).result = some (.ok out)

/-- The input of an iteration: its item or, if there is a template for it, what this expands to
whatever identifiers have been drawn. -/
def Iteration.StartsOn (i : Iteration) (start : Value) : Prop :=
  match i.selector with
  | none => start = i.item
  | some template => ∀ drawn,
      ((Template.apply i.input (Job.iterationContext i) template).runFrom drawn).1 = .ok start

namespace Job

open Work

variable {site : Site} {definition input out : Value}

theorem gives_of_endsAlone (h : TimelessMachine site.identity definition)
    (halone : site.EndsAlone definition input out) :
    ∃ cost, ∀ parent : List Nat,
      (runMachine { site with machine := parent } definition input).Gives site.work (some out) cost := by
  obtain ⟨value, cost, hgives⟩ := h.uniform site.config input
  obtain ⟨parent, world, fuel, hrun⟩ := halone
  have hbranch : Job.Gives site.work (.branch parent definition input) value cost :=
    gives_of_run (hgives parent) rfl rfl
  have hvalue : value = some out := hbranch.may out (Scheduler.may_of_run hrun)
  exact ⟨cost, fun parent => hvalue ▸ hgives parent⟩

theorem gives_inputOf {work : Job → Process (Outcome Value)} {i : Iteration} {start : Value}
    (h : i.StartsOn start) : (inputOf i).Gives work (some start) 0 := by
  unfold Iteration.StartsOn at h
  unfold inputOf
  rcases hselector : i.selector with _ | template
  · simp only [hselector] at h ⊢
    rw [h]
    exact gives_pure i.item
  · simp only [hselector] at h ⊢
    exact gives_expand fun drawn => by rw [h drawn]; rfl

theorem gives_iteration_of_endsAlone {i : Iteration} {start : Value}
    (h : TimelessMachine site.identity i.processor) (hstart : i.StartsOn start)
    (halone : site.EndsAlone i.processor start out) :
    ∃ cost, ∀ slots, Job.Gives site.work (.iteration site.machine slots i) (some out) cost := by
  obtain ⟨cost, hgives⟩ := gives_of_endsAlone h halone
  obtain ⟨more, hslotted⟩ : ∃ more, (runSlotted site i start).Gives site.work (some out) more :=
    ⟨_, gives_runSlotted (hgives site.machine)⟩
  refine ⟨0 + (more + 1 + 1), fun slots =>
    gives_iteration rfl (gives_inputOf hstart) (fun a ha => ?_) nofun⟩
  exact Option.some.inj ha ▸ hslotted

end Job

end

namespace State

open Work

/-- An attempt of a Parallel or Map state, whose machines time does not touch, collects in the order of
branches or items what each machine gives alone, and goes on to make its result of that. -/
theorem attempt_collects [Room] (s : State) (site : Site) (input effective context : Value)
    (outs : List Value) :
    (∀ branches, (s.field "Branches" .null).iterate = .ok branches →
      (∀ branch ∈ branches, TimelessMachine site.identity branch) →
      List.Forall₂ (site.EndsAlone · effective ·) branches outs →
      ComesTo site.work (s.runBranches site input effective context) do
        record site.scope "ParallelStateSucceeded" [("name", .str s.name)]
        s.finish input (.arr outs) context) ∧
    (∀ processor items, TimelessMachine site.identity processor →
      (s.field "MaxConcurrency" (.int 0)).NotNegative →
      List.Forall₂ (fun (item, index) out => ∃ start,
        Iteration.StartsOn ⟨s.name, processor, index, item, s.selector?, effective, context⟩ start ∧
          site.EndsAlone processor start out) items.zipIdx outs →
      ComesTo site.work (s.runItems site processor input effective items context) do
        record site.scope "MapStateSucceeded" []
        s.finish input (.arr outs) context) := by
  refine ⟨fun branches hbranches htimeless halone => ?_,
    fun processor items htimeless hmost halone => ?_⟩
  · unfold runBranches
    rw [hbranches, ofOutcome_ok_bind]
    refine comesTo_joined ?_ fun _ _ => rfl
    refine ((List.forall₂_and_left _ _).mpr ⟨htimeless, halone⟩).imp ?_
    rintro branch out ⟨htimeless, hends⟩
    obtain ⟨cost, hgives⟩ := Job.gives_of_endsAlone htimeless hends
    exact ⟨cost, Job.gives_of_run (hgives site.machine) rfl rfl⟩
  · obtain ⟨most, hcapacity⟩ := exists_capacity hmost items.length
    unfold runItems
    rw [hcapacity, ofOutcome_ok_bind]
    refine comesTo_slotted (capacity_ne_zero hcapacity) (fun id => ?_) fun _ _ _ => rfl
    refine halone.imp ?_
    rintro ⟨item, index⟩ out ⟨start, hstart, hends⟩
    obtain ⟨cost, hgives⟩ := Job.gives_iteration_of_endsAlone htimeless hstart hends
    exact ⟨cost, hgives id⟩

def early : Value :=
  .obj [("StartAt", .str "Pass"), ("States", .obj [
    ("Pass", .obj [("Type", .str "Pass"), ("Result", .str "early"), ("End", .bool true)])])]

def late : Value :=
  .obj [("StartAt", .str "Wait"), ("States", .obj [
    ("Wait", .obj [("Type", .str "Wait"), ("Seconds", .int 1), ("Next", .str "Pass")]),
    ("Pass", .obj [("Type", .str "Pass"), ("Result", .str "late"), ("End", .bool true)])])]

def both : State :=
  ⟨"Both", .parallel,
    .obj [("Type", .str "Parallel"), ("Branches", .arr [late, early]), ("End", .bool true)]⟩

def nested : Value :=
  .obj [("StartAt", .str "Both"), ("States", .obj [("Both", both.definition)])]

/-- A state that runs a machine with such a state, for one item at a time. -/
def each : State :=
  ⟨"Each", .map nested, .obj [("MaxConcurrency", .int 1)]⟩

theorem timeless_branches [Room] (identity : Identity) :
    ∀ branch ∈ [late, early], TimelessMachine identity branch := by
  refine List.forall_mem_cons.mpr ⟨.of_bare rfl ?_, List.forall_mem_singleton.mpr (.of_bare rfl ?_)⟩
  · exact List.forall_mem_cons.mpr ⟨nofun, List.forall_mem_singleton.mpr nofun⟩
  · exact List.forall_mem_singleton.mpr nofun

/-- Whether a run came to the outputs of both machines. -/
def isLateEarly : Option (Outcome Value) → Bool
  | some (.ok (.arr [.str "late", .str "early"])) => true
  | _ => false

theorem eq_of_isLateEarly {result : Option (Outcome Value)} (h : isLateEarly result = true) :
    result = some (.ok (.arr [.str "late", .str "early"])) := by
  unfold isLateEarly at h
  split at h
  · rfl
  · cases h

theorem attempt_collects_nested :
    ComesTo (default : Site).work (both.runBranches default .null .null .null) (do
        record Scope.top "ParallelStateSucceeded" [("name", .str "Both")]
        both.finish .null (.arr [.str "late", .str "early"]) .null) ∧
      ComesTo (default : Site).work (each.runItems default nested .null .null [.int 1, .int 2] .null) (do
        record Scope.top "MapStateSucceeded" []
        each.finish .null (.arr [.arr [.str "late", .str "early"], .arr [.str "late", .str "early"]])
          .null) := by
  have hnested : TimelessMachine (default : Site).identity nested := by
    refine .of_bare rfl (List.forall_mem_singleton.mpr fun branches hbranches => ?_)
    cases hbranches
    exact timeless_branches _
  refine ⟨(attempt_collects both default .null .null .null _).1 [late, early] rfl
      (timeless_branches _) ?_,
    (attempt_collects each default .null .null .null _).2 nested [.int 1, .int 2] hnested ?_ ?_⟩
  · exact .cons ⟨[], default, 10, rfl⟩ (.cons ⟨[], default, 10, rfl⟩ .nil)
  · exact Int.one_nonneg
  · exact .cons ⟨.int 1, rfl, [], default, 20, eq_of_isLateEarly (by decide +kernel)⟩
      (.cons ⟨.int 2, rfl, [], default, 20, eq_of_isLateEarly (by decide +kernel)⟩ .nil)

end State

end StatesLanguage
