import StatesLanguage.Proofs.Interleaving

/-!
# Chronicles

What the threads of a scheduler do, in order, whichever of them moves when and whatever the world is at
each turn. Of each act it is told whose it is, which the history does not say. Of the scheduler
proper the history is what its chronicle records (`contents_run`).
-/

namespace StatesLanguage

inductive Doing where
  | effect (e : Effect)
  /-- The thread gives a slot back, after the last effect of its turn, and goes on as `next`. -/
  | leave (last : Option Effect) (next : Process (Outcome Value))

/-- An act and the role of the thread whose it is. -/
abbrev Deed := Role × Doing

def Doing.content? : Doing → Option (Scope × String × Members)
  | .effect (.record scope type details) => some (scope, type, details)
  | _ => none

def Pause.doings (last : Option Effect) : Pause (Outcome Value) → List Doing
  | .waiting (.freeSlot _) next => [.leave last (next ())]
  | _ => []

variable [Room]

def Process.effects {α : Type} : Process α → World → List Effect
  | .ret _, _ => []
  | .wait _ _, _ => []
  | .effect e next, w => e :: effects (next (w.perform e).1) (w.perform e).2

/-- What a process does in a turn. -/
def Process.doings (p : Process (Outcome Value)) (w : World) : List Doing :=
  (p.effects w).map .effect ++ (p.advance w).1.doings (p.effects w).getLast?

def Turn.deeds (w : World) : Turn → List Deed
  | .resume t => (t.process.doings w).map (t.role, ·)
  | .ended _ _ _ => []

namespace Scheduler

variable {work : Job → Process (Outcome Value)} {s s' : Scheduler} {deeds : List Deed}

/-- What is done while a scheduler comes from one state to another by moves. -/
inductive Chronicle (work : Job → Process (Outcome Value)) (s : Scheduler) :
    Scheduler → List Deed → Prop
  | start : Chronicle work s s []
  | take {s' : Scheduler} {deeds : List Deed} (earlier : Chronicle work s s' deeds) (world : World)
      (before after : List Turn) (turn : Turn) (ready : s'.ready = before ++ turn :: after) :
      Chronicle work s ({ s' with world, ready := before ++ after }.take work turn)
        (deeds ++ turn.deeds world)
  | fire {s' : Scheduler} {deeds : List Deed} (earlier : Chronicle work s s' deeds) (world : World)
      (before after : List Timer) (timer : Timer) (timers : s'.timers = before ++ timer :: after) :
      Chronicle work s
        { s' with world, timers := before ++ after, ready := s'.ready ++ [timer.turn] } deeds

/-! ## The chronicle of a run -/

def stepDeeds (s : Scheduler) : List Deed :=
  (s.ready.head?.map (·.deeds s.world)).getD []

def runDeeds (work : Job → Process (Outcome Value)) : Nat → Scheduler → List Deed
  | 0, _ => []
  | fuel + 1, s =>
    match s.result with
    | some _ => []
    | none =>
      match s.step work with
      | none => []
      | some s' => s.stepDeeds ++ runDeeds work fuel s'

theorem Chronicle.fire_all (h : Chronicle work s s' deeds) (due later : List Timer)
    (htimers : s'.timers = due ++ later) (hdue : due ≠ []) (now : Nat) :
    Chronicle work s { s' with
      world := { s'.world with now }
      timers := later
      ready := s'.ready ++ due.map (·.turn) } deeds := by
  induction due using List.reverseRecOn generalizing later with
  | nil => exact absurd rfl hdue
  | append_singleton due timer ih =>
    rw [List.append_assoc] at htimers
    by_cases honly : due = []
    · subst honly
      simpa using h.fire { s'.world with now } [] later timer htimers
    · have hbefore := ih (timer :: later) htimers honly
      have hlast := hbefore.fire { s'.world with now } [] later timer rfl
      simpa using hlast

theorem Chronicle.step {t : Scheduler} (h : Chronicle work s s' deeds) (hstep : s'.step work = some t) :
    Chronicle work s t (deeds ++ s'.stepDeeds) := by
  unfold Scheduler.step at hstep
  split at hstep
  · rename_i turn rest hready
    obtain rfl := Option.some.inj hstep
    rw [stepDeeds, hready]
    exact h.take s'.world [] rest turn hready
  · rename_i hready
    split at hstep
    · cases hstep
    · rename_i first later htimers
      rw [List.span_eq_takeWhile_dropWhile] at hstep
      obtain rfl := Option.some.inj hstep
      have hsplit : s'.timers = s'.timers.takeWhile (·.time ≤ first.time) ++
          s'.timers.dropWhile (·.time ≤ first.time) := List.takeWhile_append_dropWhile.symm
      have hfired := h.fire_all _ _ hsplit (by simp [htimers]) first.time
      simpa [stepDeeds, hready] using hfired

theorem chronicle_run (work : Job → Process (Outcome Value)) (fuel : Nat) (s : Scheduler) :
    Chronicle work s (run work fuel s) (runDeeds work fuel s) := by
  suffices h : ∀ t deeds, Chronicle work s t deeds →
      Chronicle work s (run work fuel t) (deeds ++ runDeeds work fuel t) from
    h s [] .start
  intro t deeds h
  induction fuel generalizing t deeds with
  | zero => simpa [run, runDeeds] using h
  | succ fuel ih =>
    cases hresult : t.result with
    | some o => simpa [run, runDeeds, hresult] using h
    | none =>
      cases hstep : t.step work with
      | none => simpa [run, runDeeds, hresult, hstep] using h
      | some t' =>
        simp only [run, runDeeds, hresult, hstep]
        rw [← List.append_assoc]
        exact ih t' _ (h.step hstep)

end Scheduler

/-! ## The history of a run -/

def World.contents (w : World) : List (Scope × String × Members) :=
  w.execution.history.toList.map fun event => (event.scope, event.type, event.details)

theorem World.contents_perform (w : World) (e : Effect) :
    (w.perform e).2.contents = w.contents ++ (Doing.effect e).content?.toList := by
  unfold contents
  by_cases h : e.Unrecorded
  · rw [(w.perform_unrecorded h).1]
    cases e with
    | record => exact h.elim
    | _ => exact (List.append_nil _).symm
  · cases e with
    | record scope type details =>
      simp only [perform, execution_record, Execution.history_addEvent, List.map_append]
      rfl
    | numberMachine parent => exact (List.append_nil _).symm
    | conclude o =>
      cases o with
      | ok v => exact (List.append_nil _).symm
      | error e => simp [perform, World.conclude, Doing.content?]
    | _ => exact absurd trivial h

theorem Process.contents_advance {α : Type} (p : Process α) (w : World) :
    (p.advance w).2.contents =
      w.contents ++ (p.effects w).filterMap fun e => (Doing.effect e).content? := by
  induction p generalizing w with
  | ret a => exact (List.append_nil _).symm
  | wait wt next _ => exact (List.append_nil _).symm
  | effect e next ih =>
    have hrest := ih (w.perform e).1 (w.perform e).2
    rw [World.contents_perform] at hrest
    simp only [advance, effects, hrest, List.append_assoc]
    cases he : (Doing.effect e).content? <;> simp [he]

omit [Room] in
theorem Pause.content?_acts (last : Option Effect) (pause : Pause (Outcome Value)) :
    (pause.doings last).filterMap Doing.content? = [] := by
  cases pause with
  | done o => rfl
  | waiting wt next => cases wt <;> rfl

namespace Scheduler

variable {work : Job → Process (Outcome Value)} {s s' : Scheduler}

theorem contents_step (h : s.step work = some s') :
    s'.world.contents = s.world.contents ++ s.stepDeeds.filterMap fun d => d.2.content? := by
  unfold step at h
  split at h
  · rename_i turn rest hready
    obtain rfl := Option.some.inj h
    rw [stepDeeds, hready]
    cases turn with
    | resume t =>
      have hworld := execution_resume { s with ready := rest } work t
      have hdeeds : (Turn.deeds s.world (.resume t)).filterMap (fun d => d.2.content?) =
          (t.process.effects s.world).filterMap fun e => (Doing.effect e).content? := by
        simp only [Turn.deeds, Process.doings, List.filterMap_map, List.map_append,
          List.filterMap_append, Function.comp_def]
        rw [show ((t.process.advance s.world).1.doings _).filterMap (fun a => a.content?) = [] from
          Pause.content?_acts _ _, List.append_nil]
      rw [List.head?_cons, Option.map_some, Option.getD_some, hdeeds,
        ← t.process.contents_advance s.world, World.contents, take, hworld]
      rfl
    | ended join place o =>
      have hworld := (notify_frame { s with ready := rest } join place o).1
      rw [take, hworld]
      exact (List.append_nil _).symm
  · rename_i hready
    rw [stepDeeds, hready]
    split at h
    · cases h
    · obtain rfl := Option.some.inj h
      exact (List.append_nil _).symm

theorem contents_run (work : Job → Process (Outcome Value)) (fuel : Nat) (s : Scheduler) :
    (run work fuel s).world.contents =
      s.world.contents ++ (runDeeds work fuel s).filterMap fun d => d.2.content? := by
  induction fuel generalizing s with
  | zero => exact (List.append_nil _).symm
  | succ fuel ih =>
    cases hresult : s.result with
    | some o => simp [run, runDeeds, hresult]
    | none =>
      cases hstep : s.step work with
      | none => simp [run, runDeeds, hresult, hstep]
      | some s' =>
        simp only [run, runDeeds, hresult, hstep]
        rw [ih, contents_step hstep, List.filterMap_append, List.append_assoc]

end Scheduler

end StatesLanguage
