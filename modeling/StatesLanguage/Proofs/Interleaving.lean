import StatesLanguage.Proofs.History

/-!
# Interleavings

Schedulers that take any turn next, and let any time come next. Between two turns the world may
change in any way, so that what holds here holds beside any other threads.
-/

namespace StatesLanguage

variable [Room]

namespace Scheduler

/-- One turn that is ready is taken, or one timer fires, in any world. -/
inductive Move (work : Job → Process (Outcome Value)) (s : Scheduler) : Scheduler → Prop
  | take (world : World) (before after : List Turn) (turn : Turn)
      (ready : s.ready = before ++ turn :: after) :
      Move work s ({ s with world, ready := before ++ after }.take work turn)
  | fire (world : World) (before after : List Timer) (timer : Timer)
      (timers : s.timers = before ++ timer :: after) :
      Move work s { s with world, timers := before ++ after, ready := s.ready ++ [timer.turn] }

end Scheduler

/-! ## What cannot be avoided -/

/-- Whatever steps are taken, a goal is reached, and until then there always is a step. -/
inductive Inevitable {σ : Type} (step : σ → σ → Prop) (goal : σ → Prop) : σ → Prop
  | now {s : σ} (reached : goal s) : Inevitable step goal s
  | later {s : σ} (some : ∃ s', step s s') (all : ∀ s', step s s' → Inevitable step goal s') :
      Inevitable step goal s

omit [Room] in
/-- A goal is reached if, until it is, there is a step and each step makes a number smaller. -/
theorem Inevitable.of_measure {σ : Type} {step : σ → σ → Prop} {goal : σ → Prop}
    (inv : σ → Nat → Prop)
    (h : ∀ s n, inv s n → goal s ∨
      (∃ s', step s s') ∧ ∀ s', step s s' → goal s' ∨ ∃ m < n, inv s' m)
    {s : σ} {n : Nat} (hs : inv s n) : Inevitable step goal s := by
  induction n using Nat.strongRecOn generalizing s with
  | ind n ih =>
    rcases h s n hs with hgoal | ⟨hsome, hall⟩
    · exact .now hgoal
    · refine .later hsome fun s' hstep => ?_
      rcases hall s' hstep with hgoal | ⟨m, hless, hs'⟩
      · exact .now hgoal
      · exact ih m hless hs'

/-! ## The size of the history -/

/-- The history is not longer than it may be when a state is started. -/
def World.InQuota (w : World) : Prop :=
  w.execution.history.size ≤ maxHistory

theorem World.history_perform (w : World) (e : Effect) :
    w.execution.history.size ≤ (w.perform e).2.execution.history.size := by
  by_cases h : e.Unrecorded
  · rw [(w.perform_unrecorded h).1]
  · cases e with
    | record scope type details =>
      simp only [perform, execution_record, Execution.addEvent, Array.size_push]
      omega
    | numberMachine parent => exact le_rfl
    | conclude o => cases o <;> simp [perform, World.conclude, Execution.succeed]
    | _ => exact absurd trivial h

theorem Process.history_advance {α : Type} (p : Process α) (w : World) :
    w.execution.history.size ≤ (p.advance w).2.execution.history.size := by
  induction p generalizing w with
  | ret a => exact le_rfl
  | wait wt next _ => exact le_rfl
  | effect e next ih => exact (w.history_perform e).trans (ih _ _)

end StatesLanguage
