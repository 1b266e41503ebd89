import StatesLanguage.Proofs.Interleaving

/-!
# The quota of a history

However the states of a machine lead in circles, one run of it starts a bounded number of them. Each
state that is left has recorded two events, events of others only use the quota up sooner, and a
machine that finds the quota used up fails.
-/

namespace StatesLanguage

/-! ## Histories grow -/

def World.events (w : World) : Nat :=
  w.execution.history.size

variable [Room]

theorem World.events_record (w : World) (scope : Scope) (type : String) (details : Members) :
    (w.record scope type details).events = w.events + 1 := by
  simp only [events, execution_record, Execution.addEvent, Array.size_push]

/-- The history goes on where it was. -/
def World.Continues (w w' : World) : Prop :=
  w.execution.history.toList <+: w'.execution.history.toList

omit [Room] in
theorem World.Continues.events_le {w w' : World} (h : w.Continues w') : w.events ≤ w'.events :=
  h.length_le

theorem World.continues_perform (w : World) (e : Effect) : w.Continues (w.perform e).2 := by
  by_cases h : e.Unrecorded
  · simp only [Continues, (w.perform_unrecorded h).1, List.prefix_rfl]
  · cases e with
    | record scope type details =>
      simp only [Continues, perform, execution_record, Execution.history_addEvent]
      exact List.prefix_append _ _
    | numberMachine parent => exact List.prefix_rfl
    | conclude o =>
      cases o with
      | ok output => exact List.prefix_rfl
      | error e =>
        simp only [Continues, perform, World.conclude, Execution.history_fail, List.prefix_rfl]
    | _ => exact absurd trivial h

theorem Process.continues_advance {α : Type} (p : Process α) (w : World) :
    w.Continues (p.advance w).2 := by
  induction p generalizing w with
  | ret a => exact List.prefix_rfl
  | wait wt next _ => exact List.prefix_rfl
  | effect e next ih => exact (w.continues_perform e).trans (ih _ _)

theorem Scheduler.continues_step {work : Job → Process (Outcome Value)} {s s' : Scheduler}
    (h : s.step work = some s') : s.world.Continues s'.world := by
  cases step_cases h with
  | quiet now world => exact world ▸ List.prefix_rfl
  | ended t rest o before run =>
    have hgrows := t.process.continues_advance s.world
    rwa [run] at hgrows
  | waits t rest w next world services own before run after =>
    have hgrows := t.process.continues_advance s.world
    rw [run] at hgrows
    exact after ▸ hgrows
  | forks t rest jobs next before run =>
    have hgrows := t.process.continues_advance s.world
    rwa [run] at hgrows

/-! ## Runs beside others -/

namespace Process

variable {α β : Type} {w w₁ w' : World}

/-- A run of a process. Where it waits it may be answered anything, and others may have changed the
world, but not so that its history is shorter. -/
inductive Goes : Process α → World → α → World → Prop
  | ret (a : α) (w : World) : Goes (.ret a) w a w
  | effect {e : Effect} {next : e.Reply → Process α} {w w' : World} {a : α}
      (rest : Goes (next (w.perform e).1) (w.perform e).2 a w') : Goes (.effect e next) w a w'
  | wait {wt : Wait} {next : wt.Reply → Process α} {w w₁ w' : World} {a : α} (r : wt.Reply)
      (others : w.events ≤ w₁.events) (rest : Goes (next r) w₁ a w') : Goes (.wait wt next) w a w'

theorem Goes.events_le {p : Process α} {a : α} (h : p.Goes w a w') : w.events ≤ w'.events := by
  induction h with
  | ret a w => exact le_rfl
  | effect rest ih => exact (World.continues_perform _ _).events_le.trans ih
  | wait r others rest ih => exact others.trans ih

theorem goes_bind {p : Process α} {f : α → Process β} {b : β} :
    (p.bind f).Goes w b w' ↔ ∃ a w₁, p.Goes w a w₁ ∧ (f a).Goes w₁ b w' := by
  constructor
  · intro h
    induction p generalizing w with
    | ret a => exact ⟨a, w, .ret a w, h⟩
    | effect e next ih =>
      cases h with
      | effect rest =>
        obtain ⟨a, w₁, hp, hf⟩ := ih _ rest
        exact ⟨a, w₁, .effect hp, hf⟩
    | wait wt next ih =>
      cases h with
      | wait r others rest =>
        obtain ⟨a, w₁, hp, hf⟩ := ih _ rest
        exact ⟨a, w₁, .wait r others hp, hf⟩
  · rintro ⟨a, w₁, hp, hf⟩
    induction hp with
    | ret a w => exact hf
    | effect rest ih => exact .effect (ih hf)
    | wait r others rest ih => exact .wait r others (ih hf)

end Process

namespace Work

variable {α β : Type} {w w' : World}

theorem goes_bind {x : Work α} {f : α → Work β} {o : Outcome β} :
    (x >>= f).run.Goes w o w' ↔
      (∃ a w₁, x.run.Goes w (.ok a) w₁ ∧ (f a).run.Goes w₁ o w') ∨
        ∃ e, o = .error e ∧ x.run.Goes w (.error e) w' := by
  refine Process.goes_bind.trans ⟨?_, ?_⟩
  · rintro ⟨a | e, w₁, hx, hf⟩
    · cases hf
      exact .inr ⟨_, rfl, hx⟩
    · exact .inl ⟨_, w₁, hx, hf⟩
  · rintro (⟨a, w₁, hx, hf⟩ | ⟨e, rfl, hx⟩)
    · exact ⟨.ok a, w₁, hx, hf⟩
    · exact ⟨.error e, w', hx, .ret _ _⟩

theorem goes_bind_ok {x : Work α} {f : α → Work β} {b : β} :
    (x >>= f).run.Goes w (.ok b) w' ↔
      ∃ a w₁, x.run.Goes w (.ok a) w₁ ∧ (f a).run.Goes w₁ (.ok b) w' := by
  rw [goes_bind]
  refine or_iff_left ?_
  rintro ⟨e, he, -⟩
  cases he

theorem goes_perform_bind {e : Effect} {f : e.Reply → Work β} {o : Outcome β} :
    (perform e >>= f).run.Goes w o w' ↔ (f (w.perform e).1).run.Goes (w.perform e).2 o w' := by
  constructor
  · intro h
    cases h with
    | effect rest => exact rest
  · exact .effect

theorem goes_pure {a : α} {o : Outcome α} :
    (pure a : Work α).run.Goes w o w' ↔ o = .ok a ∧ w' = w := by
  constructor
  · intro h
    cases h
    exact ⟨rfl, rfl⟩
  · rintro ⟨rfl, rfl⟩
    exact .ret _ _

theorem goes_throw {e : Failure} {o : Outcome α} :
    (throw e : Work α).run.Goes w o w' ↔ o = .error e ∧ w' = w := by
  constructor
  · intro h
    cases h
    exact ⟨rfl, rfl⟩
  · rintro ⟨rfl, rfl⟩
    exact .ret _ _

end Work

/-! ## States that are left -/

theorem State.events_execute {s : State} {site : Site} {input : Value} {t : Transition}
    {w w' : World} (h : (s.execute site input).run.Goes w (.ok t) w') :
    w.events + 2 ≤ w'.events := by
  obtain ⟨entered, w₁, hnow, h⟩ := Work.goes_bind_ok.mp h
  obtain ⟨text, w₂, hinput, h⟩ := Work.goes_bind_ok.mp h
  have hrun := Work.goes_perform_bind.mp h
  obtain ⟨result, w₃, hresult, h⟩ := Work.goes_bind_ok.mp hrun
  obtain ⟨text, w₄, houtput, h⟩ := Work.goes_bind_ok.mp h
  have hentered := hresult.events_le
  rw [World.perform, World.events_record] at hentered
  have hbefore := hnow.events_le.trans hinput.events_le
  have hafter := houtput.events_le
  dsimp only at h
  split at h
  · obtain ⟨_, w₅, hlarge, _⟩ := Work.goes_bind_ok.mp h
    cases (Work.goes_throw.mp hlarge).1
  · have hleft := (Work.goes_perform_bind.mp h).events_le
    rw [World.perform, World.events_record] at hleft
    omega

/-! ## Rounds of a machine -/

namespace Machine

/-- A machine that is about to start a state on some data. -/
structure Head where
  current : Value
  data : Value
  world : World

variable (site : Site) (states : Value)

/-- A machine makes a state, runs it, and leaves it for another. -/
inductive Round (h : Head) : Head → Prop
  | next {state : State} {result : Transition} {w₁ w₂ : World} (room : h.world.InQuota)
      (made : (State.make site states h.current).run.Goes h.world (.ok state) w₁)
      (left : (state.execute site h.data).run.Goes w₁ (.ok result) w₂) (more : result.next ≠ .null) :
      Round h ⟨result.next, result.output, w₂⟩

inductive Rounds : Nat → Head → Head → Prop
  | none (h : Head) : Rounds 0 h h
  | more {h h₁ h₂ : Head} {n : Nat} (first : Round site states h h₁) (rest : Rounds n h₁ h₂) :
      Rounds (n + 1) h h₂

/-- What a machine comes to that starts no other state or one more, which is the last. -/
inductive Stops (h : Head) : Outcome Value → World → Prop
  | exceeded (full : ¬h.world.InQuota) :
      Stops h (.error (historyExceeded site.identity.arn)) h.world
  | unmade {e : Failure} {w₁ : World} (room : h.world.InQuota)
      (unmade : (State.make site states h.current).run.Goes h.world (.error e) w₁) : Stops h (.error e) w₁
  | failed {state : State} {e : Failure} {w₁ w₂ : World} (room : h.world.InQuota)
      (made : (State.make site states h.current).run.Goes h.world (.ok state) w₁)
      (failed : (state.execute site h.data).run.Goes w₁ (.error e) w₂) : Stops h (.error e) w₂
  | last {state : State} {result : Transition} {w₁ w₂ : World} (room : h.world.InQuota)
      (made : (State.make site states h.current).run.Goes h.world (.ok state) w₁)
      (left : (state.execute site h.data).run.Goes w₁ (.ok result) w₂) (none : result.next = .null) :
      Stops h (if isEnd state then .ok result.output else .error (noNext h.current)) w₂

variable {site : Site} {states : Value} {h h' : Head} {n : Nat}

theorem Round.events_le (hround : Round site states h h') :
    h.world.InQuota ∧ h.world.events + 2 ≤ h'.world.events := by
  obtain ⟨room, made, left, more⟩ := hround
  have hmade := made.events_le
  have hleft := State.events_execute left
  exact ⟨room, by dsimp only; omega⟩

theorem Rounds.events_le (hrounds : Rounds site states n h h') :
    h.world.events + 2 * n ≤ h'.world.events := by
  induction hrounds with
  | none h => exact le_rfl
  | more first rest ih =>
    have hfirst := first.events_le.2
    omega

theorem Rounds.in_quota (hrounds : Rounds site states n h h') :
    n = 0 ∨ h.world.events + 2 * n ≤ maxHistory + 2 := by
  induction hrounds with
  | none h => exact .inl rfl
  | more first rest ih =>
    obtain ⟨hroom, hevents⟩ := first.events_le
    unfold World.InQuota at hroom
    unfold World.events at *
    omega

/-- So many rounds a machine can make and no more, and if it then starts a state that it does not
leave, it has made one round less. -/
theorem Rounds.length_le (hrounds : Rounds site states n h h') :
    n ≤ maxStates ∧ (h'.world.InQuota → n + 1 ≤ maxStates) := by
  have hmade := hrounds.in_quota
  have hevents := hrounds.events_le
  unfold World.InQuota
  simp only [maxStates, World.events, maxHistory] at *
  omega

/-- No machine goes from state to state for ever. -/
theorem not_round_forever (heads : Nat → Head) :
    ¬∀ i, Round site states (heads i) (heads (i + 1)) := by
  intro hall
  have hrounds (n i : Nat) : Rounds site states n (heads i) (heads (i + n)) := by
    induction n generalizing i with
    | zero => exact .none _
    | succ n ih =>
      have hrest := ih (i + 1)
      rw [Nat.add_right_comm] at hrest
      exact .more (hall i) hrest
  have hbounded := (hrounds (maxStates + 1) 0).length_le.1
  omega

/-! ## The loop by rounds -/

theorem goes_left_iff (fuel : Nat) (state : State) (result : Transition) {w w' : World}
    {o : Outcome Value} :
    (match result.next with
      | .null => if isEnd state then return result.output else throw (noNext h.current)
      | next => runFrom site states fuel next result.output : Work Value).run.Goes w o w' ↔
      (result.next = .null ∧
        o = (if isEnd state then .ok result.output else .error (noNext h.current)) ∧ w' = w) ∨
      result.next ≠ .null ∧ (runFrom site states fuel result.next result.output).run.Goes w o w' := by
  split
  · rename_i hnull
    simp only [hnull, true_and, ne_eq, not_true, false_and, or_false]
    split
    · exact Work.goes_pure
    · exact Work.goes_throw
  · rename_i hmore
    exact ⟨fun hrest => .inr ⟨hmore, hrest⟩,
      fun hrest => hrest.elim (fun hnull => absurd hnull.1 hmore) And.right⟩

theorem runFrom_succ_goes_iff (fuel : Nat) {o : Outcome Value} {w' : World} :
    (runFrom site states (fuel + 1) h.current h.data).run.Goes h.world o w' ↔
      Stops site states h o w' ∨ ∃ h₁, Round site states h h₁ ∧
        (runFrom site states fuel h₁.current h₁.data).run.Goes h₁.world o w' := by
  rw [runFrom]
  refine Work.goes_perform_bind.trans ?_
  by_cases hroom : h.world.InQuota
  · rw [if_neg (show ¬(h.world.perform .historySize).1 > maxHistory from Nat.not_lt.mpr hroom)]
    simp only [Work.goes_bind]
    constructor
    · rintro (⟨state, w₁, hmade, ⟨result, w₂, hleft, hrest⟩ | ⟨e, rfl, hfailed⟩⟩ | ⟨e, rfl, hunmade⟩)
      · rcases (goes_left_iff fuel state result).mp hrest with ⟨hnull, rfl, rfl⟩ | ⟨hmore, hrest⟩
        · exact .inl (.last hroom hmade hleft hnull)
        · exact .inr ⟨_, .next hroom hmade hleft hmore, hrest⟩
      · exact .inl (.failed hroom hmade hfailed)
      · exact .inl (.unmade hroom hunmade)
    · rintro (hstops | ⟨h₁, ⟨room, hmade, hleft, hmore⟩, hrest⟩)
      · cases hstops with
        | exceeded full => exact absurd hroom full
        | unmade room hunmade => exact .inr ⟨_, rfl, hunmade⟩
        | failed room hmade hfailed => exact .inl ⟨_, _, hmade, .inr ⟨_, rfl, hfailed⟩⟩
        | last room hmade hleft hnull =>
          refine .inl ⟨_, _, hmade, .inl ⟨_, _, hleft, ?_⟩⟩
          exact (goes_left_iff fuel _ _).mpr (.inl ⟨hnull, rfl, rfl⟩)
      · refine .inl ⟨_, _, hmade, .inl ⟨_, _, hleft, ?_⟩⟩
        exact (goes_left_iff fuel _ _).mpr (.inr ⟨hmore, hrest⟩)
  · rw [if_pos (show (h.world.perform .historySize).1 > maxHistory from Nat.lt_of_not_le hroom)]
    refine Work.goes_throw.trans ?_
    constructor
    · rintro ⟨rfl, rfl⟩
      exact .inl (.exceeded hroom)
    · rintro (hstops | ⟨h₁, ⟨room, -, -, -⟩, -⟩)
      · cases hstops with
        | exceeded full => exact ⟨rfl, rfl⟩
        | unmade room | failed room | last room => exact absurd room hroom
      · exact absurd room hroom

/-- Runs of the loop are rounds and what comes after the last. When the loop has used up its bound on
rounds, it fails as if it had found no room in the history. -/
theorem runFrom_goes_iff (fuel : Nat) {o : Outcome Value} {w' : World} :
    (runFrom site states fuel h.current h.data).run.Goes h.world o w' ↔
      (∃ n h', n < fuel ∧ Rounds site states n h h' ∧ Stops site states h' o w') ∨
        ∃ h', Rounds site states fuel h h' ∧
          o = .error (historyExceeded site.identity.arn) ∧ w' = h'.world := by
  induction fuel generalizing h with
  | zero =>
    rw [runFrom, Work.goes_throw]
    constructor
    · rintro ⟨rfl, rfl⟩
      exact .inr ⟨h, .none h, rfl, rfl⟩
    · rintro (⟨n, h', hn, -⟩ | ⟨h', hrounds, rfl, rfl⟩)
      · cases hn
      · cases hrounds
        exact ⟨rfl, rfl⟩
  | succ fuel ih =>
    rw [runFrom_succ_goes_iff]
    constructor
    · rintro (hstops | ⟨h₁, hround, hrest⟩)
      · exact .inl ⟨0, h, Nat.succ_pos fuel, .none h, hstops⟩
      · rcases ih.mp hrest with ⟨n, h', hn, hrounds, hstops⟩ | ⟨h', hrounds, rfl, rfl⟩
        · exact .inl ⟨n + 1, h', Nat.succ_lt_succ hn, .more hround hrounds, hstops⟩
        · exact .inr ⟨h', .more hround hrounds, rfl, rfl⟩
    · rintro (⟨n, h', hn, hrounds, hstops⟩ | ⟨h', hrounds, rfl, rfl⟩)
      · cases hrounds with
        | none h => exact .inl hstops
        | more first rest =>
          exact .inr ⟨_, first, ih.mpr (.inl ⟨_, h', Nat.lt_of_succ_lt_succ hn, rest, hstops⟩)⟩
      · cases hrounds with
        | more first rest => exact .inr ⟨_, first, ih.mpr (.inr ⟨h', rest, rfl, rfl⟩)⟩

theorem run_goes_iff (m : Machine) (input : Value) {w w' : World} {o : Outcome Value} :
    (m.run site input).run.Goes w o w' ↔ ∃ n h, Rounds site m.states n ⟨m.startAt, input, w⟩ h ∧
      Stops site m.states h o w' := by
  refine (runFrom_goes_iff (h := ⟨m.startAt, input, w⟩) maxStates).trans ⟨?_, ?_⟩
  · rintro (⟨n, h', -, hrounds, hstops⟩ | ⟨h', hrounds, rfl, rfl⟩)
    · exact ⟨n, h', hrounds, hstops⟩
    · refine ⟨maxStates, h', hrounds, .exceeded fun hroom => ?_⟩
      exact Nat.not_succ_le_self _ (hrounds.length_le.2 hroom)
  · rintro ⟨n, h', hrounds, hstops⟩
    rcases Nat.lt_or_eq_of_le hrounds.length_le.1 with hless | rfl
    · exact .inl ⟨n, h', hless, hrounds, hstops⟩
    · cases hstops with
      | exceeded full => exact .inr ⟨h', hrounds, rfl, rfl⟩
      | unmade room | failed room | last room =>
        exact absurd (hrounds.length_le.2 room) (Nat.not_succ_le_self _)

end Machine

end StatesLanguage
