import Mathlib.Data.List.TakeWhile
import StatesLanguage.Proofs.Scheduler

/-!
# Runs against the clock

How long a process waits is settled where it sleeps: it goes on as much later as it says. What else it
waits for may take any time, and what it does takes none. The scheduler keeps to this whatever runs
beside a thread, so what its main thread comes to, it comes to against the clock (`timed_of_run`).
-/

namespace StatesLanguage

/-- How the time may pass in a wait. -/
def Wait.Lasts : Wait → Nat → Nat → Prop
  | .sleep micros, before, after => after = before + micros
  | _, before, after => before ≤ after

theorem Wait.Lasts.le {w : Wait} {before after : Nat} (h : w.Lasts before after) : before ≤ after := by
  cases w with
  | sleep micros => exact h ▸ Nat.le_add_right before micros
  | _ => exact h

section

variable [Room]

theorem World.clock_perform (w : World) (e : Effect) :
    (w.perform e).2.now = w.now ∧ (w.perform e).2.began = w.began := by
  cases e with
  | record scope type details =>
    simp only [perform, record]
    split <;> exact ⟨rfl, rfl⟩
  | conclude o => cases o <;> exact ⟨rfl, rfl⟩
  | scheduleTask arn input =>
    simp only [perform, scheduleTask]
    split <;> exact ⟨rfl, rfl⟩
  | takeReport token =>
    simp only [perform, takeReport]
    split <;> exact ⟨rfl, rfl⟩
  | getActivityTask arn worker =>
    simp only [perform, getActivityTask]
    split
    · exact ⟨rfl, rfl⟩
    · split
      · split <;> exact ⟨rfl, rfl⟩
      · exact ⟨rfl, rfl⟩
  | enqueueResult token output error cause =>
    simp only [perform, enqueueResult]
    split <;> exact ⟨rfl, rfl⟩
  | _ => exact ⟨rfl, rfl⟩

namespace Process

variable {α β : Type} {w w₁ w' : World} {a : α}

theorem clock_advance (p : Process α) (w : World) :
    (p.advance w).2.now = w.now ∧ (p.advance w).2.began = w.began := by
  induction p generalizing w with
  | ret a => exact ⟨rfl, rfl⟩
  | wait wt next _ => exact ⟨rfl, rfl⟩
  | effect e next ih =>
    obtain ⟨hnow, hbegan⟩ := w.clock_perform e
    obtain ⟨hnow', hbegan'⟩ := ih (w.perform e).1 (w.perform e).2
    exact ⟨hnow'.trans hnow, hbegan'.trans hbegan⟩

/-- A run of a process against the clock. Where it waits it may be answered anything, and others may
have changed the world in any way. -/
inductive Timed : Process α → World → α → World → Prop
  | ret (a : α) (w : World) : Timed (.ret a) w a w
  | effect {e : Effect} {next : e.Reply → Process α} {w w' : World} {a : α}
      (rest : Timed (next (w.perform e).1) (w.perform e).2 a w') : Timed (.effect e next) w a w'
  | wait {wt : Wait} {next : wt.Reply → Process α} {w w₁ w' : World} {a : α} (r : wt.Reply)
      (lasts : wt.Lasts w.now w₁.now) (began : w₁.began = w.began) (rest : Timed (next r) w₁ a w') :
      Timed (.wait wt next) w a w'

theorem Timed.clock {p : Process α} (h : p.Timed w a w') :
    w.now ≤ w'.now ∧ w'.began = w.began := by
  induction h with
  | ret a w => exact ⟨le_rfl, rfl⟩
  | effect rest ih =>
    obtain ⟨hnow, hbegan⟩ := World.clock_perform _ _
    exact ⟨hnow ▸ ih.1, ih.2.trans hbegan⟩
  | wait r lasts began rest ih => exact ⟨lasts.le.trans ih.1, ih.2.trans began⟩

theorem timed_bind {p : Process α} {f : α → Process β} {b : β} :
    (p.bind f).Timed w b w' ↔ ∃ a w₁, p.Timed w a w₁ ∧ (f a).Timed w₁ b w' := by
  constructor
  · intro h
    induction p generalizing w with
    | ret a => exact ⟨a, w, .ret a w, h⟩
    | effect e next ih =>
      cases h with
      | effect rest =>
        obtain ⟨a, w₁, hp, hf⟩ := ih _ rest
        exact ⟨a, w₁, .effect hp, hf⟩
    | wait wt next ih =>
      cases h with
      | wait r lasts began rest =>
        obtain ⟨a, w₁, hp, hf⟩ := ih _ rest
        exact ⟨a, w₁, .wait r lasts began hp, hf⟩
  · rintro ⟨a, w₁, hp, hf⟩
    induction hp with
    | ret a w => exact hf
    | effect rest ih => exact .effect (ih hf)
    | wait r lasts began rest ih => exact .wait r lasts began (ih hf)

theorem timed_of_done {p : Process α} (h : p.advance w = (.done a, w')) : p.Timed w a w' := by
  induction p generalizing w with
  | ret b =>
    cases h
    exact .ret _ _
  | effect e next ih => exact .effect (ih _ h)
  | wait wt next _ => cases h

theorem timed_of_waiting {p : Process α} {wt : Wait} {next : wt.Reply → Process α} {w₂ : World}
    (h : p.advance w = (.waiting wt next, w₁)) (r : wt.Reply) (lasts : wt.Lasts w.now w₂.now)
    (began : w₂.began = w.began) (rest : (next r).Timed w₂ a w') : p.Timed w a w' := by
  induction p generalizing w with
  | ret b => cases h
  | effect e next ih =>
    obtain ⟨hnow, hbegan⟩ := w.clock_perform e
    exact .effect (ih _ h (hnow.symm ▸ lasts) (hbegan.symm ▸ began))
  | wait wt' next' _ =>
    cases h
    exact .wait r lasts began rest

instance (w : Wait) : Inhabited w.Reply := by
  cases w <;> exact inferInstance

theorem exists_timed (p : Process α) (w : World) : ∃ a w', p.Timed w a w' := by
  induction p generalizing w with
  | ret a => exact ⟨a, w, .ret a w⟩
  | effect e next ih =>
    obtain ⟨a, w', h⟩ := ih (w.perform e).1 (w.perform e).2
    exact ⟨a, w', .effect h⟩
  | wait wt next ih =>
    obtain ⟨w₁, hlasts, hbegan⟩ : ∃ w₁ : World, wt.Lasts w.now w₁.now ∧ w₁.began = w.began := by
      cases wt with
      | sleep micros => exact ⟨{ w with now := w.now + micros }, rfl, rfl⟩
      | _ => exact ⟨w, le_refl w.now, rfl⟩
    obtain ⟨a, w', h⟩ := ih default w₁
    exact ⟨a, w', .wait default hlasts hbegan h⟩

end Process

namespace Work

variable {α β : Type} {w w' : World}

theorem timed_bind {x : Work α} {f : α → Work β} {o : Outcome β} :
    (x >>= f).run.Timed w o w' ↔
      (∃ a w₁, x.run.Timed w (.ok a) w₁ ∧ (f a).run.Timed w₁ o w') ∨
        ∃ e, o = .error e ∧ x.run.Timed w (.error e) w' := by
  refine Process.timed_bind.trans ⟨?_, ?_⟩
  · rintro ⟨a | e, w₁, hx, hf⟩
    · cases hf
      exact .inr ⟨_, rfl, hx⟩
    · exact .inl ⟨_, w₁, hx, hf⟩
  · rintro (⟨a, w₁, hx, hf⟩ | ⟨e, rfl, hx⟩)
    · exact ⟨.ok a, w₁, hx, hf⟩
    · exact ⟨.error e, w', hx, .ret _ _⟩

theorem timed_ofOutcome {x o : Outcome α} :
    (ofOutcome x).run.Timed w o w' ↔ o = x ∧ w' = w := by
  constructor
  · intro h
    cases h
    exact ⟨rfl, rfl⟩
  · rintro ⟨rfl, rfl⟩
    exact .ret _ _

theorem timed_pure {a : α} {o : Outcome α} :
    (pure a : Work α).run.Timed w o w' ↔ o = .ok a ∧ w' = w :=
  timed_ofOutcome

theorem timed_throw {e : Failure} {o : Outcome α} :
    (throw e : Work α).run.Timed w o w' ↔ o = .error e ∧ w' = w :=
  timed_ofOutcome

theorem timed_ofOutcome_bind {x : Outcome α} {f : α → Work β} {o : Outcome β} :
    (ofOutcome x >>= f).run.Timed w o w' ↔
      match x with
      | .ok a => (f a).run.Timed w o w'
      | .error e => o = .error e ∧ w' = w := by
  cases x with
  | ok a => rfl
  | error e => exact timed_throw

theorem timed_perform_bind {e : Effect} {f : e.Reply → Work β} {o : Outcome β} :
    (perform e >>= f).run.Timed w o w' ↔ (f (w.perform e).1).run.Timed (w.perform e).2 o w' := by
  constructor
  · intro h
    cases h with
    | effect rest => exact rest
  · exact .effect

theorem timed_sleep_bind {micros : Nat} {f : Unit → Work β} {o : Outcome β} :
    (sleep micros >>= f).run.Timed w o w' ↔
      ∃ w₁, w₁.now = w.now + micros ∧ w₁.began = w.began ∧ (f ()).run.Timed w₁ o w' := by
  constructor
  · intro h
    cases h with
    | wait r lasts began rest => exact ⟨_, lasts, began, rest⟩
  · rintro ⟨w₁, lasts, began, rest⟩
    exact .wait () lasts began rest

theorem timed_then {x : Work α} {y o : Outcome β} :
    (x >>= fun _ => ofOutcome y).run.Timed w o w' ↔
      ∃ told, x.run.Timed w told w' ∧ o = told >>= fun _ => y := by
  rw [timed_bind]
  constructor
  · rintro (⟨a, w₁, hx, hy⟩ | ⟨e, rfl, hx⟩)
    · obtain ⟨rfl, rfl⟩ := timed_ofOutcome.mp hy
      exact ⟨.ok a, hx, rfl⟩
    · exact ⟨.error e, hx, rfl⟩
  · rintro ⟨e | a, hx, rfl⟩
    · exact .inr ⟨e, rfl, hx⟩
    · exact .inl ⟨a, w', hx, timed_ofOutcome.mpr ⟨rfl, rfl⟩⟩

theorem timed_outcome_bind {x : Work α} {f : Outcome α → Work β} {o : Outcome β} :
    (x.outcome >>= f).run.Timed w o w' ↔
      ∃ a w₁, x.run.Timed w a w₁ ∧ (f a).run.Timed w₁ o w' := by
  rw [run_outcome_bind]
  exact Process.timed_bind

end Work

end

/-! ## The clock of the scheduler -/

namespace Scheduler

/-- The run has not ended, and something holds of all threads at the times when they go on. A thread
that sleeps goes on at the time of its timer, and one that waits for others may go on at any time from
now. -/
structure Punctual (began : Nat) (P : Role → Nat → Process (Outcome Value) → Prop) (s : Scheduler) :
    Prop where
  began : s.world.began = began
  result : s.result = none
  resumes : ∀ t, .resume t ∈ s.ready → P t.role s.world.now t.process
  timers : ∀ timer ∈ s.timers, s.world.now ≤ timer.time ∧
    ∃ t, timer.turn = .resume t ∧ P t.role timer.time t.process
  ordered : s.timers.Pairwise (·.time ≤ ·.time)
  joins : ∀ j ∈ s.joins, j.isOpen = true → ∀ now, s.world.now ≤ now → ∀ o, P j.role now (j.next o)
  queues : ∀ slots ∈ s.slots, ∀ t ∈ slots.waiting, ∀ now, s.world.now ≤ now → P t.role now t.process

/-- A property of threads that stays with them when they go on as their waits say. -/
def Lasting [Room] (began : Nat) (P : Role → Nat → Process (Outcome Value) → Prop) : Prop :=
  ∀ (role : Role) (p : Process (Outcome Value)) (w w' : World) (wt : Wait)
    (next : wt.Reply → Process (Outcome Value)), w.began = began → P role w.now p →
      p.advance w = (.waiting wt next, w') → ∀ now, wt.Lasts w.now now → ∀ r, P role now (next r)

namespace Punctual

variable {began : Nat} {P : Role → Nat → Process (Outcome Value) → Prop} {s : Scheduler}

theorem goOn (h : s.Punctual began P) {t : Thread} (ht : P t.role s.world.now t.process) :
    (s.goOn t).Punctual began P where
  began := h.began
  result := h.result
  resumes t' ht' := by
    rcases List.mem_cons.mp ht' with heq | hold
    · cases heq
      exact ht
    · exact h.resumes t' hold
  timers := h.timers
  ordered := h.ordered
  joins := h.joins
  queues := h.queues

theorem enqueue (h : s.Punctual began P) {turns : List Turn}
    (hturns : ∀ t, .resume t ∈ turns → P t.role s.world.now t.process) :
    (s.enqueue turns).Punctual began P where
  began := h.began
  result := h.result
  resumes t ht := (List.mem_append.mp ht).elim (h.resumes t) (hturns t)
  timers := h.timers
  ordered := h.ordered
  joins := h.joins
  queues := h.queues

theorem ordered_insertTimer {timer : Timer} {timers : List Timer}
    (h : timers.Pairwise (·.time ≤ ·.time)) :
    (insertTimer timer timers).Pairwise (·.time ≤ ·.time) := by
  induction timers with
  | nil => exact List.pairwise_singleton _ _
  | cons first rest ih =>
    obtain ⟨hfirst, hrest⟩ := List.pairwise_cons.mp h
    unfold insertTimer
    split
    · rename_i hle
      refine List.pairwise_cons.mpr ⟨fun t ht => ?_, ih hrest⟩
      rcases List.mem_cons.mp ((insertTimer_perm _ _).mem_iff.mp ht) with rfl | hold
      · exact hle
      · exact hfirst t hold
    · rename_i hlt
      have hlater : timer.time ≤ first.time := Nat.le_of_not_le hlt
      refine List.pairwise_cons.mpr ⟨fun t ht => ?_, h⟩
      rcases List.mem_cons.mp ht with rfl | hold
      · exact hlater
      · exact hlater.trans (hfirst t hold)

theorem after (h : s.Punctual began P) (delay : Nat) {t : Thread}
    (ht : P t.role (s.world.now + delay) t.process) : (s.after delay t).Punctual began P where
  began := h.began
  result := h.result
  resumes := h.resumes
  timers timer htimer := by
    rcases List.mem_cons.mp ((insertTimer_perm _ _).mem_iff.mp htimer) with rfl | hold
    · exact ⟨Nat.le_add_right _ _, t, rfl, ht⟩
    · exact h.timers timer hold
  ordered := ordered_insertTimer h.ordered
  joins := h.joins
  queues := h.queues

theorem slots (h : s.Punctual began P) {slots : Array Slots}
    (hslots : ∀ group ∈ slots, ∀ t ∈ group.waiting, ∀ now, s.world.now ≤ now →
      P t.role now t.process) : { s with slots }.Punctual began P :=
  ⟨h.began, h.result, h.resumes, h.timers, h.ordered, h.joins, hslots⟩

theorem setSlots (h : s.Punctual began P) (id : Nat) {new : Slots}
    (hnew : ∀ t ∈ new.waiting, ∀ now, s.world.now ≤ now → P t.role now t.process) :
    { s with slots := s.slots.setIfInBounds id new }.Punctual began P := by
  refine h.slots fun group hgroup t ht => ?_
  rcases Array.mem_or_eq_of_mem_setIfInBounds hgroup with hold | rfl
  · exact h.queues group hold t ht
  · exact hnew t ht

theorem takeSlot (h : s.Punctual began P) (id : Nat) {t : Thread}
    (ht : ∀ now, s.world.now ≤ now → P t.role now t.process) : (s.takeSlot id t).Punctual began P := by
  have hnow := ht s.world.now le_rfl
  unfold Scheduler.takeSlot
  split
  · exact h.goOn hnow
  · rename_i slots hslots
    have hwaiting := h.queues slots (Array.mem_of_getElem? hslots)
    split
    · exact h.goOn hnow
    · exact (h.setSlots id fun t' ht' => by cases ht').goOn hnow
    · refine h.setSlots id fun t' ht' => ?_
      rcases List.mem_append.mp ht' with hold | hnew
      · exact hwaiting t' hold
      · cases List.mem_singleton.mp hnew
        exact ht

theorem freeSlot (h : s.Punctual began P) (id : Nat) : (s.freeSlot id).Punctual began P := by
  unfold Scheduler.freeSlot
  split
  · exact h
  · rename_i slots hslots
    have hwaiting := h.queues slots (Array.mem_of_getElem? hslots)
    split
    · rename_i t rest hqueue
      rw [hqueue] at hwaiting
      refine (h.setSlots id fun t' ht' => hwaiting t' (List.mem_cons_of_mem _ ht')).enqueue ?_
      intro t' ht'
      cases List.mem_singleton.mp ht'
      exact hwaiting t List.mem_cons_self s.world.now le_rfl
    · exact h.setSlots id fun t' ht' => by cases ht'
    · exact h

theorem world (h : s.Punctual began P) {w : World} (hnow : w.now = s.world.now)
    (hbegan : w.began = s.world.began) : { s with world := w }.Punctual began P where
  began := hbegan.trans h.began
  result := h.result
  resumes t ht := by
    have hold := h.resumes t ht
    rwa [← hnow] at hold
  timers timer htimer := by
    have hold := h.timers timer htimer
    rwa [← hnow] at hold
  ordered := h.ordered
  joins j hj hopen now hle := h.joins j hj hopen now (hnow ▸ hle)
  queues slots hslots t ht now hle := h.queues slots hslots t ht now (hnow ▸ hle)

theorem setJoins (h : s.Punctual began P) {joins : Array Join}
    (hjoins : ∀ j ∈ joins, j.isOpen = true → ∀ now, s.world.now ≤ now → ∀ o, P j.role now (j.next o)) :
    { s with joins }.Punctual began P :=
  ⟨h.began, h.result, h.resumes, h.timers, h.ordered, hjoins, h.queues⟩

theorem setJoin (h : s.Punctual began P) (id : Nat) {new : Join}
    (hnew : new.isOpen = true → ∀ now, s.world.now ≤ now → ∀ o, P new.role now (new.next o)) :
    { s with joins := s.joins.setIfInBounds id new }.Punctual began P := by
  refine h.setJoins fun j hj => ?_
  rcases Array.mem_or_eq_of_mem_setIfInBounds hj with hold | rfl
  · exact h.joins j hold
  · exact hnew

theorem startJoin (h : s.Punctual began P) (work : Job → Process (Outcome Value)) {role : Role}
    {jobs : List Job} {next : Outcome (List Value) → Process (Outcome Value)}
    (hspawn : ∀ join place job, P (.part join place) s.world.now (work job))
    (hnext : ∀ now, s.world.now ≤ now → ∀ o, P role now (next o)) :
    (s.startJoin work role jobs next).Punctual began P := by
  refine (h.setJoins fun j hj hopen => ?_).enqueue fun t ht => ?_
  · rcases Array.mem_push.mp hj with hold | rfl
    · exact h.joins j hold hopen
    · exact hnext
  · obtain ⟨⟨job, place⟩, -, heq⟩ := List.mem_map.mp ht
    cases heq
    exact hspawn _ _ _

theorem await [Room] (h : s.Punctual began P) (work : Job → Process (Outcome Value)) {role : Role} {w : Wait}
    {next : w.Reply → Process (Outcome Value)}
    (hspawn : ∀ join place job, P (.part join place) s.world.now (work job))
    (hnext : ∀ now, w.Lasts s.world.now now → ∀ r, P role now (next r)) :
    (s.await work role w next).Punctual began P := by
  cases w with
  | sleep micros =>
    cases micros with
    | zero =>
      refine h.enqueue fun t ht => ?_
      cases List.mem_singleton.mp ht
      exact hnext s.world.now rfl ()
    | succ micros => exact h.after (t := ⟨role, next ()⟩) _ (hnext _ rfl ())
  | call c limit =>
    let answer := s.world.services.call s.world.now c default
    have hcalled : { s with world := { s.world with services := answer.2 } }.Punctual began P :=
      h.world rfl rfl
    exact hcalled.after (t := ⟨role, next (limited answer.1 limit).2⟩) (limited answer.1 limit).1
      (hnext _ (Nat.le_add_right _ _) _)
  | join jobs =>
    cases jobs with
    | nil => exact h.goOn (t := ⟨role, next (.ok [])⟩) (hnext _ le_rfl _)
    | cons job rest => exact h.startJoin work hspawn hnext
  | makeSlots capacity =>
    refine (h.slots fun group hgroup t ht => ?_).goOn (hnext _ le_rfl _)
    rcases Array.mem_push.mp hgroup with hold | rfl
    · exact h.queues group hold t ht
    · cases ht
  | takeSlot id => exact h.takeSlot id fun now hle => hnext now hle ()
  | freeSlot id =>
    have hworld : (s.freeSlot id).world = s.world := by
      unfold Scheduler.freeSlot
      repeat' split
      all_goals rfl
    exact (h.freeSlot id).goOn (hnext _ (congrArg World.now hworld).ge _)

theorem notify (h : s.Punctual began P) (join place : Nat) (o : Outcome Value) :
    (s.notify join place o).Punctual began P := by
  unfold Scheduler.notify
  split
  · exact h
  · rename_i j hj
    have hnext := h.joins j (Array.mem_of_getElem? hj)
    split
    · exact h
    · rename_i hopen
      have hopen : j.isOpen = true := by simpa using hopen
      have hgoOn (o : Outcome (List Value)) : P j.role s.world.now (j.next o) :=
        hnext hopen s.world.now le_rfl o
      cases o with
      | error e =>
        refine (h.setJoin join fun hclosed => by cases hclosed).enqueue fun t ht => ?_
        cases List.mem_singleton.mp ht
        exact hgoOn _
      | ok output =>
        have hset (outputs : List (Option Value)) (isOpen : Bool) :
            { s with joins := s.joins.setIfInBounds join { j with outputs, isOpen } }.Punctual began P :=
          h.setJoin join fun _ => hnext hopen
        dsimp only
        split
        · exact hset _ _
        · refine (hset _ _).enqueue fun t ht => ?_
          cases List.mem_singleton.mp ht
          exact hgoOn _

theorem fire (h : s.Punctual began P) {first : Timer} {later : List Timer}
    (htimers : s.timers = first :: later) :
    { s with
      world := { s.world with now := first.time }
      timers := s.timers.dropWhile (·.time ≤ first.time)
      ready := (s.timers.takeWhile (·.time ≤ first.time)).map (·.turn) : Scheduler }.Punctual began P := by
  have hfirst : ∀ timer ∈ s.timers, first.time ≤ timer.time := by
    intro timer htimer
    have hordered := h.ordered
    rw [htimers] at htimer hordered
    rcases List.mem_cons.mp htimer with rfl | hlater
    · exact le_rfl
    · exact (List.pairwise_cons.mp hordered).1 timer hlater
  have hnow : s.world.now ≤ first.time := (h.timers first (htimers ▸ List.mem_cons_self)).1
  refine ⟨h.began, h.result, fun t ht => ?_, fun timer htimer => ?_, ?_, ?_, ?_⟩
  · obtain ⟨timer, hmem, hturn⟩ := List.mem_map.mp ht
    have htimer := (List.takeWhile_sublist _).subset hmem
    have hdue : timer.time ≤ first.time := by simpa using List.mem_takeWhile_imp hmem
    obtain ⟨-, t', hturn', ht'⟩ := h.timers timer htimer
    cases hturn'.symm.trans hturn
    exact (hfirst timer htimer).antisymm hdue ▸ ht'
  · have hmem := (List.dropWhile_sublist _).subset htimer
    exact ⟨hfirst timer hmem, (h.timers timer hmem).2⟩
  · exact h.ordered.sublist (List.dropWhile_sublist _)
  · exact fun j hj hopen now hle => h.joins j hj hopen now (hnow.trans hle)
  · exact fun slots hslots t ht now hle => h.queues slots hslots t ht now (hnow.trans hle)

variable [Room]

theorem step (h : s.Punctual began P) (work : Job → Process (Outcome Value)) {s' : Scheduler}
    (hspawn : ∀ join place now job, P (.part join place) now (work job))
    (hlasting : Lasting began P)
    (hstep : s.step work = some s') :
    s'.Punctual began P ∨ ∃ p o, P .main s.world.now p ∧ p.advance s.world = (.done o, s'.world) ∧
      s'.result = some o := by
  unfold Scheduler.step at hstep
  split at hstep
  · rename_i turn rest hready
    obtain rfl := Option.some.inj hstep
    have hrest : { s with ready := rest }.Punctual began P :=
      ⟨h.began, h.result, fun t ht => h.resumes t (hready ▸ List.mem_cons_of_mem _ ht), h.timers,
        h.ordered, h.joins, h.queues⟩
    cases turn with
    | ended join place o => exact .inl (hrest.notify join place o)
    | resume t =>
      have ht := h.resumes t (hready ▸ List.mem_cons_self)
      obtain ⟨hnow, hbegan⟩ := t.process.clock_advance s.world
      simp only [Scheduler.take, Scheduler.resume]
      rcases hrun : t.process.advance s.world with ⟨pause, w⟩
      rw [hrun] at hnow hbegan
      have hran := hrest.world hnow hbegan
      cases pause with
      | done o =>
        cases hrole : t.role with
        | main => exact .inr ⟨t.process, o, hrole ▸ ht, hrun, rfl⟩
        | aside => exact .inl hran
        | part join place =>
          exact .inl (hran.enqueue fun t' ht' => by cases List.mem_singleton.mp ht')
      | waiting wt next =>
        refine .inl (hran.await work (fun join place job => hspawn join place _ job) fun now hlasts r => ?_)
        exact hlasting _ _ _ _ _ _ h.began ht hrun now (hnow ▸ hlasts) r
  · -- No thread is ready, so the clock moves to the first timer.
    rename_i hready
    split at hstep
    · cases hstep
    · rename_i first later htimers
      rw [List.span_eq_takeWhile_dropWhile] at hstep
      obtain rfl := Option.some.inj hstep
      exact .inl (h.fire htimers)

theorem run (h : s.Punctual began P) (work : Job → Process (Outcome Value))
    (hspawn : ∀ join place now job, P (.part join place) now (work job))
    (hlasting : Lasting began P) {fuel : Nat} {o : Outcome Value} (ho : (run work fuel s).result = some o) :
    ∃ p w, w.began = began ∧ P .main w.now p ∧
      p.advance w = (.done o, (Scheduler.run work fuel s).world) := by
  induction fuel generalizing s with
  | zero => cases h.result.symm.trans ho
  | succ fuel ih =>
    simp only [Scheduler.run, h.result] at ho ⊢
    cases hstep : s.step work with
    | none =>
      rw [hstep] at ho
      cases h.result.symm.trans ho
    | some s' =>
      simp only [hstep] at ho ⊢
      rcases h.step work hspawn hlasting hstep with hs' | ⟨p, o', hp, hrun, hend⟩
      · exact ih hs' ho
      · rw [run_of_result hend] at ho ⊢
        cases hend.symm.trans ho
        exact ⟨p, s.world, h.began, hp, hrun⟩

end Punctual

variable [Room]

/-- What a process comes to from a time on, all of a process comes to that started at another. -/
def IsLeftOf (main : Process (Outcome Value)) (w : World) (now : Nat) (p : Process (Outcome Value)) :
    Prop :=
  ∀ w₁ : World, w₁.now = now → w₁.began = w.began → ∀ o w', p.Timed w₁ o w' →
    ∃ w₀ : World, w₀.now = w.now ∧ w₀.began = w.began ∧ main.Timed w₀ o w'

theorem lasting_isLeftOf (main : Process (Outcome Value)) (w : World) :
    Lasting w.began fun role now p => role = .main → IsLeftOf main w now p := by
  intro role p w₁ w₂ wt next hbegan hp hrun now hlasts r hmain w₃ hnow hbegan₃ o w' hrest
  refine hp hmain w₁ rfl hbegan o w' (Process.timed_of_waiting hrun r ?_ ?_ hrest)
  · exact hnow.symm ▸ hlasts
  · exact hbegan₃.trans hbegan.symm

/-- What a run ends with, its main thread comes to against the clock, from when it was started. -/
theorem timed_of_run {work : Job → Process (Outcome Value)} {main : Process (Outcome Value)}
    {aside : List (Process (Outcome Value))} {w : World} {fuel : Nat} {o : Outcome Value}
    (h : (run work fuel (create w main aside)).result = some o) :
    ∃ w₀ : World, w₀.now = w.now ∧ w₀.began = w.began ∧
      main.Timed w₀ o (run work fuel (create w main aside)).world := by
  have hstart : (create w main aside).Punctual w.began
      fun role now p => role = .main → IsLeftOf main w now p := by
    refine ⟨rfl, rfl, fun t ht hmain => ?_, nofun, List.Pairwise.nil, nofun, nofun⟩
    rcases List.mem_cons.mp ht with heq | haside
    · cases heq
      exact fun w₁ hnow hbegan o w' hrun => ⟨w₁, hnow, hbegan, hrun⟩
    · obtain ⟨p, -, heq⟩ := List.mem_map.mp haside
      cases heq
      cases hmain
  obtain ⟨p, w₁, hbegan, hp, hrun⟩ := hstart.run work (fun join place now job => nofun)
    (lasting_isLeftOf main w) h
  exact hp rfl w₁ rfl hbegan o _ (Process.timed_of_done hrun)

end Scheduler

end StatesLanguage
