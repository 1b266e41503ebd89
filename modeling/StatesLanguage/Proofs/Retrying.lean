import Mathlib.Data.List.Fold
import Mathlib.Data.List.MinMax
import StatesLanguage.Proofs.Backoff
import StatesLanguage.Proofs.CatchAll
import StatesLanguage.Proofs.Timing

/-!
# Attempts by a policy

How a state goes that makes attempts, if its retriers and catchers are well formed. Attempts share one
count, whatever errors they fail with, so the first retrier for the last error decides by how many have
failed before. What is to be done when the state fails for good is done once, unless the error of the
attempt cannot be told where it has to be, or the catcher that takes over has an input or a path that is
nested too deep: then the state fails without it.
-/

namespace StatesLanguage

/-- What an error is told by in a log: its name and its text. -/
def Failure.words [Room] (e : Failure) : Outcome (String × String) := do
  return (← e.name.display, ← e.text)

namespace State

open RetryPolicy (covers mostOf delayOf)


/-- The state has these retriers and catchers, and the clock can show the delays of its retriers. -/
structure Retries (s : State) (retriers catchers : List Value) : Prop where
  retry : s.field "Retry" (.arr []) = .arr retriers
  catches : s.field "Catch" (.arr []) = .arr catchers
  whole : ∀ r ∈ retriers, RetryPolicy.IsWhole r
  handlers : ∀ c ∈ catchers, RetryPolicy.IsHandler c
  shown : ∀ r ∈ retriers, ∀ k : Nat, 1 ≤ k → (k : Int) ≤ mostOf r → Value.Fits (delayOf r k)

def mostRetries (retriers : List Value) : Nat :=
  (retriers.map fun r => (mostOf r).toNat).foldl max 0

/-- A state with its policy, and how it makes an attempt and what it does when it fails for good. -/
structure Trials where
  state : State
  retriers : List Value
  catchers : List Value
  input : Value
  attempt : Nat → Work Value
  onFailure : Failure → Work Unit

section

variable [Room]

namespace Trials

variable (t : Trials)

def run : Work Transition :=
  t.state.runWithRetry t.input t.attempt t.onFailure

def placed (catcher : Value) (e : Failure) : Outcome Value := do
  Reference.combine t.input ((catcher.get? "ResultPath").getD Path.root) (← RetryPolicy.errorOutput e)

/-- The first retrier for an error allows another attempt when `k` have failed. -/
structure Allows (k : Nat) (e : Failure) (r : Value) : Prop where
  ordinary : e.isRuntime = false
  first : t.retriers.find? (covers · e.name) = some r
  allowed : (k : Int) ≤ mostOf r

/-- The attempt after `k` failed ones fails, and there is another, after a delay that grows with the
failed attempts. -/
inductive Again (k : Nat) (w w₂ : World) : Prop
  | fails {e : Failure} {r : Value} {words : String × String} {w₁ : World}
      (failed : (t.attempt k).run.Timed w (.error e) w₁) (allows : t.Allows (k + 1) e r)
      (told : e.words = .ok words)
      (later : w₂.now = w₁.now + delayOf r (k + 1) * second) (began : w₂.began = w₁.began)

/-- What comes of an error that there is no other attempt after. -/
inductive GivesUp (e : Failure) (w : World) : Outcome Transition → World → Prop
  | raised {told : Outcome Unit} {w' : World}
      (uncaught : e.isRuntime = true ∨ t.catchers.find? (covers · e.name) = none)
      (tells : (t.onFailure e).run.Timed w told w') : GivesUp e w (told >>= fun _ => .error e) w'
  | caught {c output : Value} {told : Outcome Unit} {w' : World} (ordinary : e.isRuntime = false)
      (first : t.catchers.find? (covers · e.name) = some c) (placed : t.placed c e = .ok output)
      (tells : (do
        t.onFailure e
        Work.tell .info (t.state.catchNote e ((c.get? "Next").getD .null))).run.Timed w told w') :
      GivesUp e w (told >>= fun _ => .ok ⟨output, (c.get? "Next").getD .null⟩) w'
  | misplaced {c : Value} {problem : Failure} {told : Outcome Unit} {w' : World}
      (ordinary : e.isRuntime = false) (first : t.catchers.find? (covers · e.name) = some c)
      (placed : t.placed c e = .error problem) (kind : problem.kind? = some .resultPathMatch)
      (tells : (t.onFailure e).run.Timed w told w') :
      GivesUp e w (told >>= fun _ => .error problem) w'
  | refused {c : Value} {problem : Failure} (ordinary : e.isRuntime = false)
      (first : t.catchers.find? (covers · e.name) = some c) (placed : t.placed c e = .error problem)
      (why : RetryPolicy.Refuses e t.input c problem) : GivesUp e w (.error problem) w

/-- The attempt after `k` failed ones is the last. -/
inductive Ends (k : Nat) (w : World) : Outcome Transition → World → Prop
  | succeeds {output : Value} {w' : World} (succeeded : (t.attempt k).run.Timed w (.ok output) w') :
      Ends k w (.ok ⟨output, t.state.next⟩) w'
  | fails {e : Failure} {w₁ w' : World} {o : Outcome Transition}
      (failed : (t.attempt k).run.Timed w (.error e) w₁) (last : ∀ r, ¬t.Allows (k + 1) e r)
      (gives : t.GivesUp e w₁ o w') : Ends k w o w'
  /-- There would be another attempt, but that cannot be told. -/
  | untold {e : Failure} {r : Value} {w₁ : World} {problem : Failure}
      (failed : (t.attempt k).run.Timed w (.error e) w₁) (allows : t.Allows (k + 1) e r)
      (why : e.words = .error problem) : Ends k w (.error problem) w₁

/-- Attempts one after another, from the one after `k` failed ones to the one after `m`. -/
inductive Retried : Nat → World → Nat → World → Prop
  | none (k : Nat) (w : World) : Retried k w k w
  | more {k m : Nat} {w w₁ w₂ : World} (first : t.Again k w w₁) (rest : Retried (k + 1) w₁ m w₂) :
      Retried k w m w₂

/-! ## The loop by attempts -/

/-- What a state does that makes no other attempt. -/
def conclude (e : Failure) : Outcome RetryPolicy.Decision → Work Transition
  | .error problem => do
    if problem.isStates then t.onFailure e
    throw problem
  | .ok (.caught next output) => do
    t.onFailure e
    Work.tell .info (t.state.catchNote e next)
    return ⟨output, next⟩
  | .ok _ => do
    t.onFailure e
    throw e

/-- What a state does after an attempt, with so many retries left. -/
def goOn (left failed : Nat) : Outcome Value → Work Transition
  | .ok output => return ⟨output, t.state.next⟩
  | .error e =>
    match t.state.decide e (failed + 1) t.input with
    | .ok (.retry delay) => do
      Work.tell .info (t.state.retryNote e (failed + 1) delay)
      sleepSeconds delay
      match left with
      | 0 => throw e
      | left + 1 => t.state.runAttempts t.input t.attempt t.onFailure left (failed + 1)
    | decision => t.conclude e decision

theorem runAttempts_eq (left failed : Nat) :
    t.state.runAttempts t.input t.attempt t.onFailure left failed =
      (t.attempt failed).outcome >>= t.goOn left failed := by
  rw [runAttempts.eq_def]
  congr 1
  funext a
  cases a with
  | ok output => rfl
  | error e =>
    simp only [goOn]
    rcases t.state.decide e (failed + 1) t.input with problem | (delay | ⟨next, output⟩ | _) <;> rfl

end Trials

theorem Retries.decide_eq {s : State} {retriers catchers : List Value} (h : s.Retries retriers catchers)
    (e : Failure) (attempts : Nat) (input : Value) :
    s.decide e attempts input = RetryPolicy.decided e retriers catchers input attempts := by
  have hretry (given : Option Value) (catchers attempts : Value) :
      RetryPolicy.decide e (given.getD .null) catchers attempts input =
        RetryPolicy.decide e (given.getD (.arr [])) catchers attempts input := by
    cases given <;> rfl
  have hcatch (given : Option Value) (retriers attempts : Value) :
      RetryPolicy.decide e retriers (given.getD .null) attempts input =
        RetryPolicy.decide e retriers (given.getD (.arr [])) attempts input := by
    cases given <;> rfl
  have hretriers := h.retry
  have hcatchers := h.catches
  simp only [field] at hretriers hcatchers
  rw [State.decide, field, field, hretry, hcatch, hretriers, hcatchers]

omit [Room] in
theorem sleepSeconds_int {n : Nat} (h : Value.Fits n) :
    sleepSeconds (.int n) = Work.sleep (n * second) := by
  have hmicros : (Value.int n).micros second = .ok ((n * second : Nat) : Int) := by
    simp only [Value.micros, Value.number?, Value.Number.micros, Value.Number.toFloat_int, if_pos h,
      Int.natCast_mul]
    rfl
  have hpause : (Value.int n).pause = .ok (n * second) := by
    have hsize : (if Decidable.decide ((n : Int) ≤ 0) then 0 else max 1 ((n * second : Nat) : Int).toNat) =
        n * second := by
      simp only [Int.toNat_natCast, decide_eq_true_iff, second]
      split <;> omega
    rw [Value.pause, hmicros, Outcome.ok_bind, Value.notAfter_int, Outcome.ok_bind, hsize]
    rfl
  rw [sleepSeconds, hpause]
  rfl

theorem retryNote_eq (s : State) (e : Failure) (attempts : Nat) {delay : Nat} (h : Value.Fits delay) :
    ∃ note : String × String → String, s.retryNote e attempts (.int delay) = e.words.map note := by
  obtain ⟨shown, hshown⟩ := Value.display_of_toFloat (v := .int delay) rfl (if_pos h)
  refine ⟨fun (name, text) => s.kind.name ++ " state " ++ s.name ++ " failed with " ++ name ++ ": " ++
    text ++ ", retry " ++ toString attempts ++ " in " ++ shown ++ "s", ?_⟩
  rw [retryNote, hshown, Failure.words]
  cases e.name.display with
  | error problem => rfl
  | ok name => cases e.text <;> rfl

namespace Trials

variable {t : Trials} {e : Failure} {w w' : World} {o : Outcome Transition} {k m : Nat}

theorem conclude_propagate_iff :
    (t.conclude e (.ok .propagate)).run.Timed w o w' ↔
      ∃ told, (t.onFailure e).run.Timed w told w' ∧ o = told >>= fun _ => .error e :=
  Work.timed_then

theorem conclude_caught_iff {next output : Value} :
    (t.conclude e (.ok (.caught next output))).run.Timed w o w' ↔
      ∃ told, (do
          t.onFailure e
          Work.tell .info (t.state.catchNote e next)).run.Timed w told w' ∧
        o = told >>= fun _ => .ok ⟨output, next⟩ := by
  rw [← Work.timed_then, bind_assoc]
  rfl

theorem conclude_misplaced_iff {problem : Failure} (h : problem.kind? = some .resultPathMatch) :
    (t.conclude e (.error problem)).run.Timed w o w' ↔
      ∃ told, (t.onFailure e).run.Timed w told w' ∧ o = told >>= fun _ => .error problem := by
  have hstates : problem.isStates = true := by rw [Failure.isStates, h]; rfl
  simp only [conclude, hstates, if_true]
  exact Work.timed_then

theorem conclude_refused_iff {problem : Failure} (h : problem.isFault = true) :
    (t.conclude e (.error problem)).run.Timed w o w' ↔ o = .error problem ∧ w' = w := by
  simp only [conclude, Failure.isStates_of_isFault h, Bool.false_eq_true, if_false]
  exact Work.timed_throw

/-- What is decided about an error that there is no other attempt after. -/
def lastWord (t : Trials) (e : Failure) : Outcome RetryPolicy.Decision :=
  if e.isRuntime then .ok .propagate else RetryPolicy.catching e t.catchers t.input

theorem lastWord_of_uncaught
    (h : e.isRuntime = true ∨ t.catchers.find? (covers · e.name) = none) :
    t.lastWord e = .ok .propagate := by
  unfold lastWord
  rcases h with hruntime | hnone
  · rw [if_pos hruntime]
  · rw [RetryPolicy.catching, hnone, ite_self]

theorem lastWord_of_first {c : Value} (hordinary : e.isRuntime = false)
    (hfirst : t.catchers.find? (covers · e.name) = some c) :
    t.lastWord e =
      (t.placed c e).map fun output => .caught ((c.get? "Next").getD .null) output := by
  rw [lastWord, hordinary, if_neg Bool.false_ne_true, RetryPolicy.catching, hfirst, placed]
  cases RetryPolicy.errorOutput e <;> rfl

theorem lastWord_ne_retry (t : Trials) (e : Failure) (delay : Value) :
    t.lastWord e ≠ .ok (.retry delay) := by
  unfold lastWord
  split
  · nofun
  · exact RetryPolicy.catching_ne_retry e t.catchers t.input delay

theorem placed_error {c : Value} {problem : Failure} (h : t.placed c e = .error problem) :
    problem.kind? = some .resultPathMatch ∨ RetryPolicy.Refuses e t.input c problem := by
  rcases Outcome.bind_eq_error.mp h with huntold | ⟨error, -, h⟩
  · exact .inr (.untold problem (RetryPolicy.errorOutput_eq_error.mp huntold))
  · exact (Reference.combine_error h).imp_right (.unplaced problem)

theorem GivesUp.concludes (h : t.GivesUp e w o w') :
    (t.conclude e (t.lastWord e)).run.Timed w o w' := by
  cases h with
  | raised uncaught tells =>
    rw [lastWord_of_uncaught uncaught]
    exact conclude_propagate_iff.mpr ⟨_, tells, rfl⟩
  | caught ordinary first placed tells =>
    rw [lastWord_of_first ordinary first, placed]
    exact conclude_caught_iff.mpr ⟨_, tells, rfl⟩
  | misplaced ordinary first placed kind tells =>
    rw [lastWord_of_first ordinary first, placed]
    exact (conclude_misplaced_iff kind).mpr ⟨_, tells, rfl⟩
  | refused ordinary first placed why =>
    rw [lastWord_of_first ordinary first, placed]
    exact (conclude_refused_iff why.isFault).mpr ⟨rfl, rfl⟩

theorem givesUp_of_concludes (h : (t.conclude e (t.lastWord e)).run.Timed w o w') :
    t.GivesUp e w o w' := by
  by_cases huncaught : e.isRuntime = true ∨ t.catchers.find? (covers · e.name) = none
  · rw [lastWord_of_uncaught huncaught] at h
    obtain ⟨told, htells, rfl⟩ := conclude_propagate_iff.mp h
    exact .raised huncaught htells
  · obtain ⟨hordinary, hsome⟩ := not_or.mp huncaught
    have hordinary : e.isRuntime = false := Bool.eq_false_iff.mpr hordinary
    obtain ⟨c, hfirst⟩ := Option.ne_none_iff_exists'.mp hsome
    have hlast := lastWord_of_first hordinary hfirst
    rw [hlast] at h
    cases hplaced : t.placed c e with
    | ok output =>
      rw [hplaced] at h
      obtain ⟨told, htells, rfl⟩ := conclude_caught_iff.mp h
      exact .caught hordinary hfirst hplaced htells
    | error problem =>
      rw [hplaced] at h
      rcases placed_error hplaced with hkind | hwhy
      · obtain ⟨told, htells, rfl⟩ := (conclude_misplaced_iff hkind).mp h
        exact .misplaced hordinary hfirst hplaced hkind htells
      · obtain ⟨rfl, rfl⟩ := (conclude_refused_iff hwhy.isFault).mp h
        exact .refused hordinary hfirst hplaced hwhy

theorem conclude_timed_iff :
    (t.conclude e (t.lastWord e)).run.Timed w o w' ↔ t.GivesUp e w o w' :=
  ⟨givesUp_of_concludes, GivesUp.concludes⟩

theorem decide_of_last (h : t.state.Retries t.retriers t.catchers)
    (hlast : ∀ r, ¬t.Allows k e r) : t.state.decide e k t.input = t.lastWord e := by
  rw [h.decide_eq, lastWord]
  cases hruntime : e.isRuntime with
  | true => exact RetryPolicy.decided_of_isRuntime hruntime _ _ _ _
  | false =>
    rw [RetryPolicy.decided_whole h.whole h.handlers hruntime, if_neg Bool.false_ne_true]
    cases hfirst : t.retriers.find? (covers · e.name) with
    | none => rfl
    | some r => exact if_neg fun hallowed => hlast r ⟨hruntime, hfirst, hallowed⟩

theorem decide_of_allowed (h : t.state.Retries t.retriers t.catchers) {r : Value}
    (hr : t.Allows k e r) : t.state.decide e k t.input = .ok (.retry (.int (delayOf r k))) := by
  rw [h.decide_eq, RetryPolicy.decided_whole h.whole h.handlers hr.ordinary, hr.first]
  exact if_pos hr.allowed

theorem goOn_of_conclude {left failed : Nat} {decision : Outcome RetryPolicy.Decision}
    (hdecide : t.state.decide e (failed + 1) t.input = decision)
    (hno : ∀ delay, decision ≠ .ok (.retry delay)) :
    t.goOn left failed (.error e) = t.conclude e decision := by
  simp only [goOn, hdecide]

def retry (t : Trials) (e : Failure) : Nat → Nat → Work Transition
  | 0, _ => throw e
  | left + 1, failed => t.state.runAttempts t.input t.attempt t.onFailure left (failed + 1)

theorem goOn_retry {left failed delay : Nat} (hfits : Value.Fits delay)
    (hdecide : t.state.decide e (failed + 1) t.input = .ok (.retry (.int delay))) :
    t.goOn left failed (.error e) = (do
      let note ← Work.ofOutcome (t.state.retryNote e (failed + 1) (.int delay))
      Work.log .info note
      Work.sleep (delay * second)
      t.retry e left failed) := by
  simp only [goOn, hdecide, sleepSeconds_int hfits, Work.tell, bind_assoc]
  cases left <;> rfl

theorem goOn_error_iff (h : t.state.Retries t.retriers t.catchers) (left failed : Nat) :
    (t.goOn left failed (.error e)).run.Timed w o w' ↔
      (∀ r, ¬t.Allows (failed + 1) e r) ∧ t.GivesUp e w o w' ∨
      ∃ r, t.Allows (failed + 1) e r ∧
        match e.words with
        | .ok _ => ∃ w₁, w₁.now = w.now + delayOf r (failed + 1) * second ∧ w₁.began = w.began ∧
          (t.retry e left failed).run.Timed w₁ o w'
        | .error problem => o = .error problem ∧ w' = w := by
  by_cases hlast : ∀ r, ¬t.Allows (failed + 1) e r
  · rw [goOn_of_conclude (decide_of_last h hlast) (t.lastWord_ne_retry e), conclude_timed_iff]
    constructor
    · exact fun hgives => .inl ⟨hlast, hgives⟩
    · rintro (⟨-, hgives⟩ | ⟨r, hr, -⟩)
      · exact hgives
      · exact absurd hr (hlast r)
  · obtain ⟨r, hr⟩ := not_forall_not.mp hlast
    have hfits := h.shown r (List.mem_of_find?_eq_some hr.first) _ (Nat.succ_pos failed) hr.allowed
    have hunique {r'} (hr' : t.Allows (failed + 1) e r') : r' = r :=
      Option.some.inj (hr'.first.symm.trans hr.first)
    rw [goOn_retry hfits (decide_of_allowed h hr), Work.timed_ofOutcome_bind]
    obtain ⟨note, hnote⟩ := t.state.retryNote_eq e (failed + 1) hfits
    rw [hnote]
    have hiff {P : Value → Prop} : ((∀ r, ¬t.Allows (failed + 1) e r) ∧ t.GivesUp e w o w' ∨
        ∃ r, t.Allows (failed + 1) e r ∧ P r) ↔ P r := by
      refine ⟨?_, fun hP => .inr ⟨r, hr, hP⟩⟩
      rintro (⟨hnot, -⟩ | ⟨r', hr', hP⟩)
      · exact absurd hnot hlast
      · exact hunique hr' ▸ hP
    rw [hiff]
    cases e.words with
    | ok words => exact Work.timed_perform_bind.trans Work.timed_sleep_bind
    | error problem => exact Iff.rfl

/-! ## How many attempts there are -/

omit [Room] in
theorem mostOf_le_mostRetries {retriers : List Value} {r : Value} (h : r ∈ retriers) :
    mostOf r ≤ mostRetries retriers := by
  have hle : (mostOf r).toNat ≤ mostRetries retriers := by
    rw [mostRetries, List.foldl_eq_foldr]
    exact List.le_max_of_le' 0 (List.mem_map_of_mem h) le_rfl
  omega

omit [Room] in
theorem maxRetries_eq (h : t.state.Retries t.retriers t.catchers) :
    t.state.maxRetries = mostRetries t.retriers := by
  have hretriers : RetryPolicy.retriers (t.state.field "Retry" .null) = .arr t.retriers := by
    have hretry := h.retry
    unfold field at hretry ⊢
    cases hgiven : t.state.definition.get? "Retry" with
    | none =>
      rw [hgiven] at hretry
      exact hretry
    | some given =>
      rw [hgiven] at hretry
      obtain rfl : given = .arr t.retriers := hretry
      cases t.retriers <;> rfl
  have hmost : t.retriers.map retriesOf = t.retriers.map fun r => (mostOf r).toNat := by
    refine List.map_congr_left fun r hr => ?_
    rw [retriesOf, (h.whole r hr).get_most]
    rfl
  simp only [maxRetries, hretriers, hmost, mostRetries]

theorem Again.le (h : t.Again k w w') : k + 1 ≤ mostRetries t.retriers := by
  obtain ⟨-, allows, -⟩ := h
  exact Int.ofNat_le.mp
    (allows.allowed.trans (mostOf_le_mostRetries (List.mem_of_find?_eq_some allows.first)))

theorem Retried.le (h : t.Retried k w m w') : m = k ∨ m ≤ mostRetries t.retriers := by
  induction h with
  | none k w => exact .inl rfl
  | more first rest ih =>
    rcases ih with rfl | hle
    · exact .inr first.le
    · exact .inr hle

theorem runAttempts_timed_step (h : t.state.Retries t.retriers t.catchers) {left : Nat}
    (hleft : left = 0 → mostRetries t.retriers ≤ k) :
    (t.state.runAttempts t.input t.attempt t.onFailure left k).run.Timed w o w' ↔
      t.Ends k w o w' ∨ ∃ more w₁, left = more + 1 ∧ t.Again k w w₁ ∧
        (t.state.runAttempts t.input t.attempt t.onFailure more (k + 1)).run.Timed w₁ o w' := by
  rw [runAttempts_eq, Work.timed_outcome_bind]
  constructor
  · rintro ⟨e | output, w₁, hattempt, hrest⟩
    · rcases (goOn_error_iff h left k).mp hrest with
        ⟨hlast, hgives⟩ | ⟨r, hr, hgoes⟩
      · exact .inl (.fails hattempt hlast hgives)
      · cases hwords : e.words with
        | error problem =>
          rw [hwords] at hgoes
          obtain ⟨rfl, rfl⟩ := hgoes
          exact .inl (.untold hattempt hr hwords)
        | ok words =>
          rw [hwords] at hgoes
          obtain ⟨w₂, hnow, hbegan, hrest⟩ := hgoes
          have hagain : t.Again k w w₂ := .fails hattempt hr hwords hnow hbegan
          cases left with
          | zero =>
            have hnone := hleft rfl
            have hsome := hagain.le
            omega
          | succ more => exact .inr ⟨more, w₂, rfl, hagain, hrest⟩
    · obtain ⟨rfl, rfl⟩ := Work.timed_pure.mp hrest
      exact .inl (.succeeds hattempt)
  · rintro (hends | ⟨more, w₁, rfl, hagain, hrest⟩)
    · cases hends with
      | succeeds succeeded => exact ⟨_, _, succeeded, Work.timed_pure.mpr ⟨rfl, rfl⟩⟩
      | fails failed last gives =>
        exact ⟨_, _, failed, (goOn_error_iff h left k).mpr (.inl ⟨last, gives⟩)⟩
      | untold failed allows why =>
        refine ⟨_, _, failed, (goOn_error_iff h left k).mpr (.inr ⟨_, allows, ?_⟩)⟩
        rw [why]
        exact ⟨rfl, rfl⟩
    · obtain ⟨failed, allows, told, later, began⟩ := hagain
      refine ⟨_, _, failed, (goOn_error_iff h (more + 1) k).mpr (.inr ⟨_, allows, ?_⟩)⟩
      rw [told]
      exact ⟨w₁, later, began, hrest⟩

/-- The bound on retries is none: the state goes as attempts follow one another. -/
theorem runAttempts_timed_iff (h : t.state.Retries t.retriers t.catchers) {left : Nat}
    (hleft : left + k = mostRetries t.retriers) :
    (t.state.runAttempts t.input t.attempt t.onFailure left k).run.Timed w o w' ↔
      ∃ m w₁, t.Retried k w m w₁ ∧ t.Ends m w₁ o w' := by
  -- The attempts that have failed and the retries left are always as many as the most generous retrier
  -- allows, so the bound is reached only where no retrier allows another attempt.
  induction left generalizing k w with
  | zero =>
    rw [runAttempts_timed_step h fun _ => by omega]
    constructor
    · rintro (hends | ⟨more, w₁, hzero, -⟩)
      · exact ⟨k, w, .none k w, hends⟩
      · cases hzero
    · rintro ⟨m, w₁, hretried, hends⟩
      cases hretried with
      | none => exact .inl hends
      | more first rest =>
        have hle := first.le
        omega
  | succ left ih =>
    rw [runAttempts_timed_step h fun hzero => absurd hzero (Nat.succ_ne_zero left)]
    constructor
    · rintro (hends | ⟨more, w₁, heq, hagain, hrest⟩)
      · exact ⟨k, w, .none k w, hends⟩
      · cases heq
        obtain ⟨m, w₂, hretried, hends⟩ := (ih (by omega)).mp hrest
        exact ⟨m, w₂, .more hagain hretried, hends⟩
    · rintro ⟨m, w₂, hretried, hends⟩
      cases hretried with
      | none => exact .inl hends
      | more first rest =>
        exact .inr ⟨left, _, rfl, first, (ih (by omega)).mpr ⟨m, w₂, rest, hends⟩⟩

theorem run_timed_iff (h : t.state.Retries t.retriers t.catchers) :
    t.run.run.Timed w o w' ↔ ∃ m w₁, t.Retried 0 w m w₁ ∧ t.Ends m w₁ o w' :=
  runAttempts_timed_iff h (maxRetries_eq h)

end Trials

/-! ## States that make attempts -/

def MakesAttempts (s : State) : Prop :=
  match s.kind with
  | .task _ | .parallel | .map _ => True
  | _ => False

omit [Room] in
theorem retryCount_context (s : State) (site : Site) (entered failed : Nat) :
    ((s.context site entered failed).get? "State").bind (·.get? "RetryCount") =
      some (.int failed) := rfl

/-- What a Map state attempts with its items, if it has items. -/
def attemptItems (s : State) (site : Site) (processor input effective : Value) :
    Value → Work (Value → Work Value)
  | .arr items => do
    Work.record site.scope "MapStateStarted" [("length", .int items.length)]
    return fun context => s.runItems site processor input effective items context
  | _ => throw s.noItems

/-- Attempts differ in what they are told of the execution, and in nothing else. -/
theorem run_eq_trials {s : State} (h : s.MakesAttempts) (retriers catchers : List Value) (site : Site)
    (entered : Nat) (input : Value) :
    ∃ before : Work (Value → Work Value), s.run site entered input = before >>= fun body =>
      (Trials.mk s retriers catchers input (fun failed => body (s.context site entered failed))
        (s.onFailure site)).run := by
  have hbefore {before : Work (Value → Work Value)}
      (hprep : s.preparation? site entered input = some (before >>= fun body =>
        pure fun failed => body (s.context site entered failed))) :
      s.run site entered input = before >>= fun body =>
        (Trials.mk s retriers catchers input (fun failed => body (s.context site entered failed))
          (s.onFailure site)).run := by
    rw [run_eq_preparation hprep, bind_assoc]
    rfl
  unfold MakesAttempts at h
  split at h
  · rename_i task hkind
    refine ⟨pure fun context => s.attemptTask task site input context, hbefore ?_⟩
    simp only [preparation?, hkind]
    rfl
  · rename_i hkind
    refine ⟨do
      let context := s.context site entered 0
      let effective ← s.filterInput input context
      let effective ← s.parameters effective context
      Work.record site.scope "ParallelStateStarted" [("name", .str s.name)]
      return fun context => s.runBranches site input effective context, hbefore ?_⟩
    simp only [preparation?, hkind, bind_assoc, pure_bind]
  · rename_i processor hkind
    refine ⟨do
      let context := s.context site entered 0
      let effective ← s.filterInput input context
      let items ← Work.ofOutcome (Path.apply effective context (s.field "ItemsPath" Path.root))
      s.attemptItems site processor input effective items, hbefore ?_⟩
    simp only [preparation?, hkind, bind_assoc]
    congr 2
    funext effective
    congr 1
    funext items
    cases items <;> simp only [attemptItems, bind_assoc, pure_bind] <;> rfl
  · exact h.elim

/-- How a state goes that makes attempts by a policy. It makes one after another, the next after the
delay of the first retrier for the error, as long as that allows, and then it ends: with the output of
an attempt, or as a catcher says, or with an error, and then it has told of its failure once. It fails
without that if the last error cannot be told, or if the catcher cannot put it into the input, which is
so only where the input or the path is nested too deep or the path is no text. -/
theorem attempts_by_policy (t : Trials) (h : t.state.Retries t.retriers t.catchers)
    (hattempts : t.state.MakesAttempts) :
    (∀ (site : Site) (entered : Nat),
      (∃ before : Work (Value → Work Value), t.state.run site entered t.input = before >>= fun body =>
        { t with
          attempt := fun failed => body (t.state.context site entered failed)
          onFailure := t.state.onFailure site : Trials }.run) ∧
      ∀ failed : Nat, ((t.state.context site entered failed).get? "State").bind
        (·.get? "RetryCount") = some (.int failed)) ∧
    (∀ w : World, (∃ o w', t.run.run.Timed w o w') ∧
      (∀ o w', t.run.run.Timed w o w' ↔ ∃ m w₁, t.Retried 0 w m w₁ ∧ t.Ends m w₁ o w') ∧
      ∀ m w₁, t.Retried 0 w m w₁ → m ≤ mostRetries t.retriers) := by
  refine ⟨fun site entered => ⟨?_, retryCount_context t.state site entered⟩, fun w => ⟨?_, ?_, ?_⟩⟩
  · exact run_eq_trials hattempts t.retriers t.catchers site entered t.input
  · exact Process.exists_timed t.run.run w
  · exact fun o w' => Trials.run_timed_iff h
  · intro m w₁ hretried
    exact hretried.le.elim (fun hzero => hzero ▸ Nat.zero_le _) id

end

def failingOnce : Trials where
  state := ⟨"P", .parallel, .obj [("Retry", .arr [RetryPolicy.retrierTwice])]⟩
  retriers := [RetryPolicy.retrierTwice]
  catchers := []
  input := .null
  attempt failed := if failed = 0 then throw (.client "E" "x") else pure .null
  onFailure _ := pure ()

theorem retries_failingOnce :
    failingOnce.state.Retries failingOnce.retriers failingOnce.catchers where
  retry := rfl
  catches := rfl
  whole r hr := by
    obtain rfl := List.mem_singleton.mp hr
    exact RetryPolicy.isWhole_retrierTwice
  handlers := nofun
  shown r hr k hone hmost := by
    obtain rfl := List.mem_singleton.mp hr
    change (k : Int) ≤ 2 at hmost
    obtain rfl | rfl : k = 1 ∨ k = 2 := by omega
    all_goals decide +kernel

theorem attempts_by_policy_failingOnce :
    failingOnce.state.Retries failingOnce.retriers failingOnce.catchers ∧
      failingOnce.state.MakesAttempts ∧
      ∃ w', failingOnce.run.run.Timed (World.create 0 .empty default) (.ok ⟨.null, .null⟩) w' ∧
        w'.now = 6000000 := by
  let w : World := World.create 0 .empty default
  let w' : World := { w with now := 6000000 }
  have hfails : (failingOnce.attempt 0).run.Timed w (.error (.client "E" "x")) w :=
    Work.timed_throw.mpr ⟨rfl, rfl⟩
  have hsucceeds : (failingOnce.attempt 1).run.Timed w' (.ok .null) w' :=
    Work.timed_pure.mpr ⟨rfl, rfl⟩
  have hallows : failingOnce.Allows 1 (.client "E" "x") RetryPolicy.retrierTwice :=
    ⟨rfl, rfl, by decide⟩
  have hagain : failingOnce.Again 0 w w' := .fails hfails hallows rfl (by decide +kernel) rfl
  obtain ⟨-, hgoes⟩ := attempts_by_policy failingOnce retries_failingOnce trivial
  refine ⟨retries_failingOnce, trivial, w', ((hgoes w).2.1 _ w').mpr ?_, rfl⟩
  exact ⟨1, w', .more hagain (.none 1 w'), .succeeds hsucceeds⟩

/-- A Parallel state whose catcher puts errors into its input. -/
def catchingInPlace : State :=
  ⟨"P", .parallel, .obj [("Catch", .arr [RetryPolicy.catcherInPlace])]⟩

theorem run_tooDeep [Room] {s : State} {retriers catchers : List Value} (h : s.Retries retriers catchers)
    {e : Failure} {input : Value}
    (hdecided : RetryPolicy.decided e retriers catchers input 1 = .error tooDeep)
    (onFailure : Failure → Work Unit) :
    s.runWithRetry input (fun _ => throw e) onFailure = throw tooDeep := by
  let t : Trials := ⟨s, retriers, catchers, input, fun _ => throw e, onFailure⟩
  have hfirst : t.run = t.goOn t.state.maxRetries 0 (.error e) := t.runAttempts_eq t.state.maxRetries 0
  have hno (delay : Value) : (.error tooDeep : Outcome RetryPolicy.Decision) ≠ .ok (.retry delay) := nofun
  have hgives : t.goOn t.state.maxRetries 0 (.error e) = t.conclude e (.error tooDeep) :=
    Trials.goOn_of_conclude ((h.decide_eq e 1 input).trans hdecided) hno
  exact hfirst.trans hgives

/-- A state that fails with neither its error nor one of the catcher's path, and tells of no failure. -/
theorem deep_input_not_told :
    catchingInPlace.Retries [] [RetryPolicy.catcherInPlace] ∧ catchingInPlace.MakesAttempts ∧
      (∀ onFailure, catchingInPlace.runWithRetry (RetryPolicy.nested 600)
        (fun _ => throw (.client "E" "x")) onFailure = throw tooDeep) ∧
      tooDeep ≠ .client "E" "x" ∧ tooDeep.kind? ≠ some .resultPathMatch := by
  have hretries : catchingInPlace.Retries [] [RetryPolicy.catcherInPlace] := {
    retry := rfl
    catches := rfl
    whole := nofun
    handlers := fun c hc => List.mem_singleton.mp hc ▸ RetryPolicy.isHandler_catcherInPlace
    shown := nofun }
  have hdecided := RetryPolicy.decided_nested (e := .client "E" "x") (n := 599) rfl (by decide) rfl le_rfl
  exact ⟨hretries, trivial, run_tooDeep hretries hdecided, nofun, nofun⟩

end State

end StatesLanguage
