import Mathlib.Algebra.Order.Floor.Div
import StatesLanguage.Polling
import StatesLanguage.Proofs.Clock
import StatesLanguage.Proofs.Timing

/-!
# The questions of a poll

When a poll asks, and how it ends, if the time is measured exactly. It asks at its interval, and a last
time when its timeout is reached. The first answer is what it ends with, also if that comes after the
timeout. How many rounds it may make is no bound on it: the timeout is reached before. In whole seconds
the floating clock shows the exact time (`untilDone_timed_iff`).
-/

namespace StatesLanguage.Polling

/-! ## Exact time -/

/-- The pace of a timeout and an interval in microseconds, if the time is measured exactly. -/
def exactPace (timeout interval : Nat) : Pace := fun first last =>
  let remaining := timeout - (last - first)
  .ok (if remaining = 0 then none else some (min interval remaining))

section

variable {timeout interval : Nat}

theorem le_ceilDiv_mul (timeout : Nat) (hinterval : 0 < interval) : timeout ≤ timeout ⌈/⌉ interval * interval := by
  rw [Nat.mul_comm]
  exact (ceilDiv_le_iff_le_mul hinterval).mp le_rfl

theorem ceilDiv_le_succ (hinterval : 0 < interval) : timeout ⌈/⌉ interval ≤ timeout / interval + 1 := by
  rw [Nat.ceilDiv_eq_add_pred_div, ← Nat.add_div_right _ hinterval]
  exact Nat.div_le_div_right (by omega)

/-- The exact pace at the time of a question: the poll is late once it has asked as often as fits. -/
theorem exactPace_grid (hinterval : 0 < interval) (first k : Nat) :
    exactPace timeout interval first (first + min (k * interval) timeout) =
      .ok (if timeout ⌈/⌉ interval ≤ k then none
        else some (min interval (timeout - k * interval))) := by
  have hlate : timeout ⌈/⌉ interval ≤ k ↔ timeout ≤ k * interval := by
    rw [ceilDiv_le_iff_le_mul hinterval, Nat.mul_comm]
  simp only [exactPace, hlate]
  congr 1
  split
  · rw [if_pos (by omega)]
  · rw [if_neg (by omega)]
    congr 1
    omega

theorem measuredPace_eq_exactPace {first elapsed : Nat} (hinterval : 0 < interval)
    (hle : elapsed ≤ timeout) (hinterval' : interval * 1000 < 2 ^ 53)
    (htimeout : timeout * 1000 < 2 ^ 53) (hfirst : first + timeout < 2 ^ 53) :
    measuredPace (.int (timeout * 1000 : Nat)) (.int (interval * 1000 : Nat)) (first * second)
        ((first + elapsed) * second) =
      exactPace (timeout * second) (interval * second) (first * second)
        ((first + elapsed) * second) := by
  have hremaining : timeout * second - ((first + elapsed) * second - first * second) =
      (timeout - elapsed) * second := by
    rw [← Nat.sub_mul, Nat.add_sub_cancel_left, Nat.sub_mul]
  have hnone : (timeout - elapsed) * second = 0 ↔ timeout - elapsed = 0 := by
    rw [Nat.mul_eq_zero]
    exact or_iff_left (by decide)
  rw [measuredPace_seconds hinterval hle hinterval' htimeout hfirst]
  simp only [exactPace, hremaining, hnone, Nat.mul_min_mul_right]

theorem measuredPace_seconds_grid {first : Nat} (hinterval : 0 < interval)
    (htimeout : timeout * 1000 < 2 ^ 53) (hinterval' : interval * 1000 < 2 ^ 53)
    (hfirst : first + timeout < 2 ^ 53) (k : Nat) :
    measuredPace (.int (timeout * 1000 : Nat)) (.int (interval * 1000 : Nat)) (first * second)
        (first * second + min (k * (interval * second)) (timeout * second)) =
      exactPace (timeout * second) (interval * second) (first * second)
        (first * second + min (k * (interval * second)) (timeout * second)) := by
  have htime : first * second + min (k * (interval * second)) (timeout * second) =
      (first + min (k * interval) timeout) * second := by
    rw [← Nat.mul_assoc, Nat.mul_min_mul_right, ← Nat.add_mul]
  rw [htime]
  exact measuredPace_eq_exactPace hinterval (Nat.min_le_right _ _) hinterval' htimeout hfirst

theorem ceilDiv_le_rounds {timeout interval : Value} (hinterval : 0 < (microsOrZero interval).toNat) :
    (microsOrZero timeout).toNat ⌈/⌉ (microsOrZero interval).toNat ≤ rounds timeout interval := by
  rw [rounds, max_eq_left hinterval]
  generalize (microsOrZero timeout).toNat = t
  generalize (microsOrZero interval).toNat = i at *
  exact (ceilDiv_le_succ hinterval).trans (Nat.add_le_add_left (by decide) _)

theorem le_rounds_mul (timeout : Value) {interval : Value} (hinterval : 0 < (microsOrZero interval).toNat) :
    (microsOrZero timeout).toNat ≤ rounds timeout interval * (microsOrZero interval).toNat :=
  (le_ceilDiv_mul _ hinterval).trans (Nat.mul_le_mul_right _ (ceilDiv_le_rounds hinterval))

theorem microsOrZero_millis {n : Nat} (hn : n < 2 ^ 53) :
    (microsOrZero (.int n)).toNat = n * 1000 := by
  have hmicros : (Value.int n).micros millisecond = .ok (n * (millisecond : Nat)) := by
    have hnumber : (Value.int n).number? = some (.int n) := rfl
    rw [Value.micros, hnumber]
    dsimp only
    rw [Value.Number.micros, Value.Number.toFloat_whole hn]
    rfl
  rw [microsOrZero, hmicros]
  change ((n : Int) * (1000 : Nat)).toNat = n * 1000
  omega

theorem microsOrZero_seconds {n : Nat} (hn : n * 1000 < 2 ^ 53) :
    (microsOrZero (.int (n * 1000 : Nat))).toNat = n * second := by
  rw [microsOrZero_millis hn, Nat.mul_assoc]
  rfl

theorem microsOrZero_le (n : Nat) : (microsOrZero (.int n)).toNat ≤ n * 1000 := by
  have hnumber : (Value.int n).number? = some (.int n) := rfl
  rw [microsOrZero, Value.micros, hnumber]
  dsimp only
  rw [Value.Number.micros]
  cases Value.Number.toFloat (.int n) with
  | error e => exact Nat.zero_le _
  | ok x =>
    change ((n : Int) * (1000 : Nat)).toNat ≤ n * 1000
    omega

theorem ceilDiv_lt_rounds {timeout interval : Nat} (hinterval : 0 < interval)
    (htimeout : timeout < 2 ^ 53) :
    timeout ⌈/⌉ interval + 1 ≤ rounds (.int timeout) (.int interval) := by
  have hmost : max (microsOrZero (.int interval)).toNat 1 ≤ interval * 1000 :=
    max_le (microsOrZero_le interval) (Nat.mul_pos hinterval (by decide))
  rw [rounds, microsOrZero_millis htimeout]
  calc timeout ⌈/⌉ interval + 1 ≤ timeout / interval + 1 + 1 :=
        Nat.succ_le_succ (ceilDiv_le_succ hinterval)
    _ = timeout * 1000 / (interval * 1000) + 2 := by
        rw [Nat.mul_div_mul_right _ _ (by decide)]
    _ ≤ timeout * 1000 / max (microsOrZero (.int interval)).toNat 1 + patience :=
        Nat.add_le_add (Nat.div_le_div_left hmost (by omega)) (by decide)

end

variable {σ α : Type}

/-- What the answer to a question ends a poll with, if it does. -/
def answer? : Outcome (Option α) → Option (Outcome α)
  | .ok none => none
  | .ok (some output) => some (.ok output)
  | .error e => some (.error e)

structure Head (σ : Type) where
  state : σ
  world : World

section

variable [Room]

section

variable (check : σ → Work (Option α × σ)) (timeout interval start : Nat)

/-- A question that is answered in time, with nothing yet, is followed by another after the interval,
or when the timeout is reached if that is sooner. -/
inductive Again (h : Head σ) : Head σ → Prop
  | ask {s : σ} {w₁ w₂ : World} (undone : (check h.state).run.Timed h.world (.ok (none, s)) w₁)
      (early : w₁.now < start + timeout)
      (later : w₂.now = min (w₁.now + interval) (start + timeout)) (began : w₂.began = w₁.began) :
      Again h ⟨s, w₂⟩

/-- A poll asks until it is answered or late. It asks questions at these times, which have these
answers. -/
inductive Polls (late : Failure) :
    Head σ → List (Nat × Outcome (Option α)) → Outcome α → World → Prop
  | answered {h : Head σ} {r : Outcome (Option α × σ)} {o : Outcome α} {w' : World}
      (asked : (check h.state).run.Timed h.world r w') (answer : answer? (r.map Prod.fst) = some o) :
      Polls late h [(h.world.now, r.map Prod.fst)] o w'
  | late {h : Head σ} {s : σ} {w' : World}
      (undone : (check h.state).run.Timed h.world (.ok (none, s)) w')
      (past : start + timeout ≤ w'.now) : Polls late h [(h.world.now, .ok none)] (.error late) w'
  | again {h h' : Head σ} {asked : List (Nat × Outcome (Option α))} {o : Outcome α} {w' : World}
      (next : Again check timeout interval start h h') (rest : Polls late h' asked o w') :
      Polls late h ((h.world.now, .ok none) :: asked) o w'

end

variable {check : σ → Work (Option α × σ)} {timeout interval start : Nat} {late : Failure}
  {h h' : Head σ} {asked : List (Nat × Outcome (Option α))} {o : Outcome α} {w' : World}

/-! ## The loop by questions -/

omit [Room] in
theorem exactPace_eq {began now : Nat} (hbegan : began ≤ start) (hstart : start ≤ now) :
    exactPace timeout interval (start - began) (now - began) =
      .ok (if start + timeout ≤ now then none
        else some (min (now + interval) (start + timeout) - now)) := by
  simp only [exactPace]
  congr 1
  split
  · rw [if_pos (by omega)]
  · rw [if_neg (by omega)]
    congr 1
    omega

theorem paced_timed {w : World} {next : Option Nat → Work α} (hbegan : w.began ≤ start)
    (hstart : start ≤ w.now) :
    (do next (← Work.ofOutcome (exactPace timeout interval (start - w.began) (← Work.elapsed))) :
        Work α).run.Timed w o w' ↔
      if start + timeout ≤ w.now then (next none).run.Timed w o w'
      else (next (some (min (w.now + interval) (start + timeout) - w.now))).run.Timed w o w' := by
  refine Work.timed_perform_bind.trans ?_
  change (Work.ofOutcome (exactPace timeout interval (start - w.began) (w.now - w.began)) >>=
    next).run.Timed w o w' ↔ _
  rw [exactPace_eq hbegan hstart, Work.timed_ofOutcome_bind]
  dsimp only
  split <;> rfl

theorem ask_timed_step {left : Nat} (hbegan : h.world.began ≤ start) (hstart : start ≤ h.world.now)
    (hleft : left = 0 → start + timeout ≤ h.world.now) :
    (ask check (exactPace timeout interval) late (start - h.world.began) left h.state).run.Timed
        h.world o w' ↔
      (∃ r, (check h.state).run.Timed h.world r w' ∧ answer? (r.map Prod.fst) = some o) ∨
      (∃ s, (check h.state).run.Timed h.world (.ok (none, s)) w' ∧ start + timeout ≤ w'.now ∧
        o = .error late) ∨
      ∃ more h', left = more + 1 ∧ Again check timeout interval start h h' ∧
        (ask check (exactPace timeout interval) late (start - h'.world.began) more h'.state).run.Timed
          h'.world o w' := by
  rw [ask.eq_def, Work.timed_bind]
  constructor
  · rintro (⟨⟨found, s⟩, w₁, hcheck, hrest⟩ | ⟨e, rfl, hcheck⟩)
    · obtain ⟨hnow, hbegan₁⟩ := hcheck.clock
      cases found with
      | some output =>
        obtain ⟨rfl, rfl⟩ := Work.timed_pure.mp hrest
        exact .inl ⟨_, hcheck, rfl⟩
      | none =>
        rw [← hbegan₁] at hrest hbegan
        have hrest := (paced_timed hbegan (hstart.trans hnow)).mp hrest
        split at hrest
        · rename_i hover
          obtain ⟨rfl, rfl⟩ := Work.timed_throw.mp hrest
          exact .inr (.inl ⟨s, hcheck, hover, rfl⟩)
        · rename_i hearly
          -- Rounds cannot run out here: `hleft` says that the poll would be late.
          cases left with
          | zero => exact absurd ((hleft rfl).trans hnow) hearly
          | succ more =>
            obtain ⟨w₂, hnow₂, hbegan₂, hrest⟩ := Work.timed_sleep_bind.mp hrest
            refine .inr (.inr ⟨more, ⟨s, w₂⟩, rfl, .ask hcheck (by omega) ?_ hbegan₂, ?_⟩)
            · omega
            · dsimp only
              rwa [hbegan₂]
    · exact .inl ⟨_, hcheck, rfl⟩
  · rintro (⟨r, hcheck, hanswer⟩ | ⟨s, hcheck, hover, rfl⟩ | ⟨more, h', rfl, hagain, hrest⟩)
    · rcases r with e | ⟨_ | output, s⟩
      · cases hanswer
        exact .inr ⟨e, rfl, hcheck⟩
      · cases hanswer
      · cases hanswer
        exact .inl ⟨_, w', hcheck, Work.timed_pure.mpr ⟨rfl, rfl⟩⟩
    · obtain ⟨hnow, hbegan₁⟩ := hcheck.clock
      refine .inl ⟨_, w', hcheck, ?_⟩
      rw [← hbegan₁] at hbegan ⊢
      refine (paced_timed hbegan (hstart.trans hnow)).mpr ?_
      rw [if_pos hover]
      exact Work.timed_throw.mpr ⟨rfl, rfl⟩
    · obtain ⟨hcheck, hearly, hlater, hbegan₂⟩ := hagain
      rename_i s w₁ w₂
      obtain ⟨hnow, hbegan₁⟩ := hcheck.clock
      refine .inl ⟨_, w₁, hcheck, ?_⟩
      rw [← hbegan₁] at hbegan ⊢
      refine (paced_timed hbegan (hstart.trans hnow)).mpr ?_
      rw [if_neg (by omega)]
      refine Work.timed_sleep_bind.mpr ⟨w₂, by omega, hbegan₂, ?_⟩
      rwa [← hbegan₂]

theorem Again.clock (hagain : Again check timeout interval start h h') :
    h.world.now < start + timeout ∧ h'.world.now ≤ start + timeout ∧
      min (h.world.now + interval) (start + timeout) ≤ h'.world.now ∧
      h'.world.began = h.world.began := by
  obtain ⟨undone, early, later, began⟩ := hagain
  obtain ⟨hnow, hbegan⟩ := undone.clock
  refine ⟨by omega, ?_, ?_, began.trans hbegan⟩
  · dsimp only
    omega
  · dsimp only
    omega

theorem exists_polls_iff :
    (∃ asked, Polls check timeout interval start late h asked o w') ↔
      (∃ r, (check h.state).run.Timed h.world r w' ∧ answer? (r.map Prod.fst) = some o) ∨
      (∃ s, (check h.state).run.Timed h.world (.ok (none, s)) w' ∧ start + timeout ≤ w'.now ∧
        o = .error late) ∨
      ∃ h', Again check timeout interval start h h' ∧
        ∃ asked, Polls check timeout interval start late h' asked o w' := by
  constructor
  · rintro ⟨asked, hpolls⟩
    cases hpolls with
    | answered hcheck hanswer => exact .inl ⟨_, hcheck, hanswer⟩
    | late hcheck hover => exact .inr (.inl ⟨_, hcheck, hover, rfl⟩)
    | again hnext hpolls => exact .inr (.inr ⟨_, hnext, _, hpolls⟩)
  · rintro (⟨r, hcheck, hanswer⟩ | ⟨s, hcheck, hover, rfl⟩ | ⟨h', hnext, asked, hpolls⟩)
    · exact ⟨_, .answered hcheck hanswer⟩
    · exact ⟨_, .late hcheck hover⟩
    · exact ⟨_, .again hnext hpolls⟩

/-- A poll that may make enough rounds does what a poll does that may make any number. -/
theorem ask_timed_iff {left : Nat} (hinterval : 0 < interval) (hbegan : h.world.began ≤ start)
    (hstart : start ≤ h.world.now) (hleft : start + timeout ≤ h.world.now + left * interval) :
    (ask check (exactPace timeout interval) late (start - h.world.began) left h.state).run.Timed
        h.world o w' ↔ ∃ asked, Polls check timeout interval start late h asked o w' := by
  -- A round moves the clock by the interval at least, unless it moves to the timeout.
  induction left generalizing h with
  | zero =>
    rw [ask_timed_step hbegan hstart fun _ => by omega, exists_polls_iff]
    refine or_congr_right (or_congr_right ⟨?_, ?_⟩)
    · rintro ⟨more, h', hzero, -⟩
      cases hzero
    · rintro ⟨h', hnext, -⟩
      have hearly := hnext.clock.1
      omega
  | succ left ih =>
    have hrest {h'} (hnext : Again check timeout interval start h h') :=
      have ⟨hearly, _, hlater, hbegan'⟩ := hnext.clock
      ih (h := h') (hbegan' ▸ hbegan) (by omega) (by rw [Nat.succ_mul] at hleft; omega)
    rw [ask_timed_step hbegan hstart fun hzero => absurd hzero (Nat.succ_ne_zero left),
      exists_polls_iff]
    refine or_congr_right (or_congr_right ⟨?_, ?_⟩)
    · rintro ⟨more, h', heq, hnext, hask⟩
      cases heq
      exact ⟨h', hnext, (hrest hnext).mp hask⟩
    · rintro ⟨h', hnext, hpolls⟩
      exact ⟨left, h', rfl, hnext, (hrest hnext).mpr hpolls⟩

theorem poll_timed_iff {left : Nat} (hinterval : 0 < interval) (hleft : timeout ≤ left * interval)
    {s : σ} {w : World} (hbegan : w.began ≤ w.now) :
    (do ask check (exactPace timeout interval) late (← Work.elapsed) left s : Work α).run.Timed w o w' ↔
      ∃ asked, Polls check timeout interval w.now late ⟨s, w⟩ asked o w' :=
  Work.timed_perform_bind.trans
    (ask_timed_iff (h := ⟨s, w⟩) hinterval hbegan le_rfl (Nat.add_le_add_left hleft w.now))

/-! ## The times of questions -/

theorem not_again_forever (hinterval : 0 < interval) (heads : Nat → Head σ) :
    ¬∀ i, Again check timeout interval start (heads i) (heads (i + 1)) := by
  intro hall
  have hlater (i : Nat) : min ((heads 0).world.now + i * interval) (start + timeout) ≤
      (heads i).world.now := by
    induction i with
    | zero => simp
    | succ i ih =>
      have hnext := (hall i).clock.2.2.1
      rw [Nat.succ_mul]
      omega
  have hover := hlater (start + timeout)
  have hearly := (hall (start + timeout)).clock.1
  have hmany : start + timeout ≤ (start + timeout) * interval := Nat.le_mul_of_pos_right _ hinterval
  omega

namespace Polls

theorem length_le {n : Nat} (hpolls : Polls check timeout interval start late h asked o w')
    (hn : start + timeout ≤ h.world.now + n * interval) : asked.length ≤ n + 1 := by
  induction hpolls generalizing n with
  | answered => exact Nat.le_add_left 1 n
  | late => exact Nat.le_add_left 1 n
  | again next rest ih =>
    obtain ⟨hearly, -, hlater, -⟩ := next.clock
    cases n with
    | zero => omega
    | succ n =>
      rw [Nat.succ_mul] at hn
      exact Nat.succ_le_succ (ih (by omega))

theorem length_le_ceilDiv (hpolls : Polls check timeout interval start late h asked o w')
    (hinterval : 0 < interval) (hnow : h.world.now = start) :
    asked.length ≤ timeout ⌈/⌉ interval + 1 := by
  apply hpolls.length_le
  rw [hnow]
  exact Nat.add_le_add_left (le_ceilDiv_mul _ hinterval) start

theorem in_time (hpolls : Polls check timeout interval start late h asked o w')
    (hnow : h.world.now ≤ start + timeout) : ∀ x ∈ asked, x.1 ≤ start + timeout := by
  induction hpolls with
  | answered => simpa using hnow
  | late => simpa using hnow
  | again next rest ih => exact List.forall_mem_cons.mpr ⟨hnow, ih next.clock.2.1⟩

theorem of_mem (hpolls : Polls check timeout interval start late h asked o w')
    {x : Nat × Outcome (Option α)} (hx : x ∈ asked) :
    ∃ s w r w', (check s).run.Timed w r w' ∧ x.2 = r.map Prod.fst := by
  induction hpolls with
  | answered checked answer =>
    obtain rfl := List.mem_singleton.mp hx
    exact ⟨_, _, _, _, checked, rfl⟩
  | late undone past =>
    obtain rfl := List.mem_singleton.mp hx
    exact ⟨_, _, _, _, undone, rfl⟩
  | again next rest ih =>
    rcases List.mem_cons.mp hx with rfl | hx
    · obtain ⟨undone, -⟩ := next
      exact ⟨_, _, _, _, undone, rfl⟩
    · exact ih hx

theorem last (hpolls : Polls check timeout interval start late h asked o w') :
    ∃ earlier time r, asked = earlier ++ [(time, r)] ∧ (∀ x ∈ earlier, answer? x.2 = none) ∧
      (answer? r = some o ∨ answer? r = none ∧ o = .error late ∧ start + timeout ≤ w'.now) := by
  induction hpolls with
  | answered checked answer => exact ⟨[], _, _, rfl, nofun, .inl answer⟩
  | late undone past => exact ⟨[], _, _, rfl, nofun, .inr ⟨rfl, rfl, past⟩⟩
  | again next rest ih =>
    obtain ⟨earlier, time, r, rfl, hearlier, hlast⟩ := ih
    exact ⟨_ :: earlier, time, r, rfl, List.forall_mem_cons.mpr ⟨rfl, hearlier⟩, hlast⟩

theorem length_pos (hpolls : Polls check timeout interval start late h asked o w') :
    0 < asked.length := by
  cases hpolls <;> exact Nat.succ_pos _

theorem last_result (hpolls : Polls check timeout interval start late h asked o w')
    {results : Nat → Outcome (Option α)}
    (hresults : asked.map Prod.snd = (List.range asked.length).map results) :
    ∃ n, asked.length = n + 1 ∧ (∀ k < n, answer? (results k) = none) ∧
      (answer? (results n) = some o ∨
        answer? (results n) = none ∧ o = .error late ∧ start + timeout ≤ w'.now) := by
  obtain ⟨earlier, time, r, rfl, hearlier, hlast⟩ := hpolls.last
  have hlength : (earlier ++ [(time, r)]).length = earlier.length + 1 := by simp
  rw [hlength, List.range_succ, List.map_append, List.map_append] at hresults
  obtain ⟨hmap, hr⟩ := List.append_inj' hresults rfl
  obtain rfl : r = results earlier.length := List.singleton_inj.mp hr
  refine ⟨earlier.length, hlength, fun k hk => ?_, hlast⟩
  have hmem : results k ∈ earlier.map Prod.snd := by
    rw [hmap]
    exact List.mem_map_of_mem (List.mem_range.mpr hk)
  obtain ⟨x, hx, heq⟩ := List.mem_map.mp hmem
  exact heq ▸ hearlier x hx

theorem times {k : Nat} (hpolls : Polls check timeout interval start late h asked o w')
    (hinstant : ∀ s w r w', (check s).run.Timed w r w' → w'.now = w.now)
    (hnow : h.world.now = start + min (k * interval) timeout) :
    asked.map Prod.fst =
        (List.range' k asked.length).map (fun i => start + min (i * interval) timeout) ∧
      w'.now = start + min ((k + (asked.length - 1)) * interval) timeout := by
  induction hpolls generalizing k with
  | answered checked answer => simp [hnow, hinstant _ _ _ _ checked, List.range'_one]
  | late undone past => simp [hnow, hinstant _ _ _ _ undone, List.range'_one]
  | again next rest ih =>
    obtain ⟨undone, early, later, -⟩ := next
    have hsame := hinstant _ _ _ _ undone
    obtain ⟨htimes, hend⟩ := ih (k := k + 1) (by rw [Nat.succ_mul]; dsimp only; omega)
    have hindex (n : Nat) (hn : 0 < n) : k + 1 + (n - 1) = k + (n + 1 - 1) := by omega
    rw [List.map_cons, List.length_cons, List.range'_succ, List.map_cons, htimes, hnow, hend,
      hindex _ rest.length_pos]
    exact ⟨rfl, rfl⟩

/-- A poll whose questions take no time is late at its timeout, and has asked all it can then. -/
theorem late_on_time (hpolls : Polls check timeout interval start late h asked o w')
    (hinterval : 0 < interval) (hinstant : ∀ s w r w', (check s).run.Timed w r w' → w'.now = w.now)
    (hnow : h.world.now = start) (hover : start + timeout ≤ w'.now) :
    asked.length = timeout ⌈/⌉ interval + 1 ∧ w'.now = start + timeout := by
  obtain ⟨-, hend⟩ := hpolls.times (k := 0) hinstant (by simpa using hnow)
  rw [Nat.zero_add] at hend
  have hsome := hpolls.length_pos
  have hatMost := hpolls.length_le_ceilDiv hinterval hnow
  have hatLeast : timeout ⌈/⌉ interval ≤ asked.length - 1 := by
    rw [ceilDiv_le_iff_le_mul hinterval, Nat.mul_comm]
    omega
  exact ⟨by omega, by omega⟩

theorem of_results (hpolls : Polls check timeout interval start late h asked o w')
    (hinterval : 0 < interval) (hinstant : ∀ s w r w', (check s).run.Timed w r w' → w'.now = w.now)
    (hnow : h.world.now = start) {results : Nat → Outcome (Option α)}
    (hresults : asked.map Prod.snd = (List.range asked.length).map results) :
    (∀ n ≤ timeout ⌈/⌉ interval, (∀ k < n, answer? (results k) = none) →
      answer? (results n) ≠ none → asked.length = n + 1 ∧ answer? (results n) = some o ∧
        w'.now = start + min (n * interval) timeout) ∧
    ((∀ k ≤ timeout ⌈/⌉ interval, answer? (results k) = none) →
      asked.length = timeout ⌈/⌉ interval + 1 ∧ o = .error late ∧ w'.now = start + timeout) := by
  obtain ⟨-, hend⟩ := hpolls.times (k := 0) hinstant (by simpa using hnow)
  obtain ⟨n, hn, hearlier, hlast⟩ := hpolls.last_result hresults
  rw [hn, Nat.zero_add, Nat.add_sub_cancel] at hend
  have hatMost := hpolls.length_le_ceilDiv hinterval hnow
  have hlate (hover : start + timeout ≤ w'.now) := hpolls.late_on_time hinterval hinstant hnow hover
  constructor
  · intro m hm hnone hsome
    rcases Nat.lt_trichotomy m n with hlt | rfl | hgt
    · exact absurd (hearlier m hlt) hsome
    · rcases hlast with hanswer | ⟨hnot, -⟩
      · exact ⟨hn, hanswer, hend⟩
      · exact absurd hnot hsome
    · -- A poll that has not come to the answer has been late.
      rcases hlast with hanswer | ⟨-, -, hover⟩
      · cases (hnone n hgt).symm.trans hanswer
      · have hall := (hlate hover).1
        omega
  · intro hnone
    rcases hlast with hanswer | ⟨-, hfails, hover⟩
    · cases (hnone n (by omega)).symm.trans hanswer
    · obtain ⟨hall, hat⟩ := hlate hover
      exact ⟨hall, hfails, hat⟩

end Polls

/-- How a poll goes if time is exact. It ends, after a bounded number of questions, none of which it
asks after its timeout. What it ends with is the first answer, however late that comes. Without one it
fails, and not before the timeout. If its questions take no time, it asks at the multiples of the
interval and at the timeout, and ends when it is answered, or else at the timeout, after all these
questions. -/
theorem poll_in_time (check : σ → Work (Option α × σ)) (late : Failure) (s : σ)
    {timeout interval left : Nat} (hinterval : 0 < interval) (hleft : timeout ≤ left * interval)
    {w : World} (hbegan : w.began ≤ w.now) :
    (∃ asked o w', Polls check timeout interval w.now late ⟨s, w⟩ asked o w') ∧
    (∀ heads : Nat → Head σ, ¬∀ i, Again check timeout interval w.now (heads i) (heads (i + 1))) ∧
    (∀ o w', (do ask check (exactPace timeout interval) late (← Work.elapsed) left s :
        Work α).run.Timed w o w' ↔
      ∃ asked, Polls check timeout interval w.now late ⟨s, w⟩ asked o w') ∧
    ∀ asked o w', Polls check timeout interval w.now late ⟨s, w⟩ asked o w' →
      asked.length ≤ timeout ⌈/⌉ interval + 1 ∧ (∀ x ∈ asked, x.1 ≤ w.now + timeout) ∧
      (∃ earlier time r, asked = earlier ++ [(time, r)] ∧ (∀ x ∈ earlier, answer? x.2 = none) ∧
        (answer? r = some o ∨ answer? r = none ∧ o = .error late ∧ w.now + timeout ≤ w'.now)) ∧
      ((∀ s w r w', (check s).run.Timed w r w' → w'.now = w.now) →
        asked.map Prod.fst =
          (List.range asked.length).map (fun k => w.now + min (k * interval) timeout) ∧
        ∀ results : Nat → Outcome (Option α),
          asked.map Prod.snd = (List.range asked.length).map results →
          (∀ n ≤ timeout ⌈/⌉ interval, (∀ k < n, answer? (results k) = none) →
            answer? (results n) ≠ none → asked.length = n + 1 ∧ answer? (results n) = some o ∧
              w'.now = w.now + min (n * interval) timeout) ∧
          ((∀ k ≤ timeout ⌈/⌉ interval, answer? (results k) = none) →
            asked.length = timeout ⌈/⌉ interval + 1 ∧ o = .error late ∧
              w'.now = w.now + timeout)) := by
  refine ⟨?_, fun heads => not_again_forever hinterval heads,
    fun o w' => poll_timed_iff hinterval hleft hbegan, ?_⟩
  · obtain ⟨o, w', htimed⟩ := Process.exists_timed
      (do ask check (exactPace timeout interval) late (← Work.elapsed) left s : Work α).run w
    obtain ⟨asked, hpolls⟩ := (poll_timed_iff hinterval hleft hbegan).mp htimed
    exact ⟨asked, o, w', hpolls⟩
  · intro asked o w' hpolls
    refine ⟨hpolls.length_le_ceilDiv hinterval rfl, hpolls.in_time (Nat.le_add_right _ _),
      hpolls.last, fun hinstant => ?_⟩
    obtain ⟨htimes, -⟩ := hpolls.times (k := 0) hinstant (by simp)
    exact ⟨List.range_eq_range' ▸ htimes, fun results => hpolls.of_results hinterval hinstant rfl⟩

/-! ## Whole seconds -/

theorem ask_timed_congr {pace : Pace} {first left k : Nat} (hinterval : 0 < interval)
    (hexact : ∀ k, pace first (first + min (k * interval) timeout) =
      exactPace timeout interval first (first + min (k * interval) timeout))
    (hinstant : ∀ s w r w', (check s).run.Timed w r w' → w'.now = w.now) {s : σ} {w : World}
    (hbegan : w.began ≤ w.now) (hnow : w.now - w.began = first + min (k * interval) timeout) :
    (ask check pace late first left s).run.Timed w o w' ↔
      (ask check (exactPace timeout interval) late first left s).run.Timed w o w' := by
  -- The invariant is `hnow`: question k is asked k intervals after the first, or when time is over.
  induction left using Nat.strong_induction_on generalizing k s w with
  | h left ih =>
  rw [ask.eq_def, ask.eq_def check (exactPace timeout interval), Work.timed_bind, Work.timed_bind]
  refine or_congr_left (exists_congr fun ⟨found, s₁⟩ => exists_congr fun w₁ =>
    and_congr_right fun hcheck => ?_)
  cases found with
  | some output => rfl
  | none =>
    have hsame := hinstant _ _ _ _ hcheck
    have hbegan₁ := hcheck.clock.2
    have helapsed : (w₁.perform .elapsed).1 = first + min (k * interval) timeout := by
      rw [← hnow, ← hsame, ← hbegan₁]
      rfl
    dsimp only
    refine Work.timed_perform_bind.trans (.trans ?_ Work.timed_perform_bind.symm)
    rw [helapsed, hexact k, exactPace_grid hinterval]
    refine Work.timed_ofOutcome_bind.trans (.trans ?_ Work.timed_ofOutcome_bind.symm)
    dsimp only
    by_cases hlate : timeout ⌈/⌉ interval ≤ k
    · rw [if_pos hlate]
    · rw [if_neg hlate]
      have hmore : k * interval < timeout := by
        by_contra hno
        exact hlate ((ceilDiv_le_iff_le_mul hinterval).mpr (by rw [Nat.mul_comm]; omega))
      have hstep : (k + 1) * interval = k * interval + interval := Nat.succ_mul k interval
      cases left with
      | zero => rfl
      | succ more =>
        refine Work.timed_sleep_bind.trans (.trans ?_ Work.timed_sleep_bind.symm)
        refine exists_congr fun w₂ => and_congr_right fun hlater => and_congr_right fun hbegan₂ => ?_
        have hlater : w₂.now = w₁.now + min interval (timeout - k * interval) := hlater
        have hbegan₂ : w₂.began = w₁.began := hbegan₂
        exact ih more (Nat.lt_succ_self more) (k := k + 1) (by omega) (by omega)

/-- In whole seconds a poll on the floating clock goes as in exact time. -/
theorem untilDone_timed_iff {timeout interval first : Nat} (hinterval : 0 < interval)
    (htimeout : timeout * 1000 < 2 ^ 53) (hinterval' : interval * 1000 < 2 ^ 53)
    (hfirst : first + timeout < 2 ^ 53)
    (hinstant : ∀ s w r w', (check s).run.Timed w r w' → w'.now = w.now) {s : σ} {w : World}
    (hbegan : w.began ≤ w.now) (hnow : w.now - w.began = first * second) :
    (untilDone check (.int (timeout * 1000 : Nat)) (.int (interval * 1000 : Nat)) s).run.Timed w o w' ↔
      ∃ asked, Polls check (timeout * second) (interval * second) w.now
        (exceeded (.int (timeout * 1000 : Nat))) ⟨s, w⟩ asked o w' := by
  have hpositive : 0 < interval * second := Nat.mul_pos hinterval (by decide)
  have hrounds : timeout * second ≤
      rounds (.int (timeout * 1000 : Nat)) (.int (interval * 1000 : Nat)) * (interval * second) := by
    have hmicros := microsOrZero_seconds hinterval'
    have hrounds := le_rounds_mul (.int (timeout * 1000 : Nat)) (hmicros.symm ▸ hpositive)
    rwa [hmicros, microsOrZero_seconds htimeout] at hrounds
  have helapsed : (w.perform .elapsed).1 = first * second := hnow
  rw [← poll_timed_iff hpositive hrounds hbegan, untilDone]
  refine Work.timed_perform_bind.trans (.trans ?_ Work.timed_perform_bind.symm)
  rw [helapsed]
  have hstart : first * second + min (0 * (interval * second)) (timeout * second) = first * second := by
    rw [Nat.zero_mul, Nat.zero_min, Nat.add_zero]
  exact ask_timed_congr (k := 0) hpositive
    (measuredPace_seconds_grid hinterval htimeout hinterval' hfirst) hinstant hbegan (hnow.trans hstart.symm)

theorem polls_of_run {check : σ → Work (Option Value × σ)} (timeout interval : Nat)
    (hinterval : 0 < interval) (htimeout : timeout * 1000 < 2 ^ 53)
    (hinterval' : interval * 1000 < 2 ^ 53)
    (hinstant : ∀ s w r w', (check s).run.Timed w r w' → w'.now = w.now) {s : σ} {w : World}
    (hbegan : w.began = w.now) {work : Job → Process (Outcome Value)}
    {aside : List (Process (Outcome Value))} {fuel : Nat} {o : Outcome Value}
    (ho : (Scheduler.run work fuel (Scheduler.create w
      (untilDone check (.int (timeout * 1000 : Nat)) (.int (interval * 1000 : Nat)) s).run
      aside)).result = some o) :
    ∃ w₀ asked w', w₀.now = w.now ∧ w₀.began = w.began ∧
      Polls check (timeout * second) (interval * second) w₀.now
        (exceeded (.int (timeout * 1000 : Nat))) ⟨s, w₀⟩ asked o w' := by
  obtain ⟨w₀, hnow, hbegan₀, htimed⟩ := Scheduler.timed_of_run ho
  have hfirst : w₀.now - w₀.began = 0 * second := by omega
  obtain ⟨asked, hpolls⟩ := (untilDone_timed_iff hinterval htimeout hinterval' (by omega) hinstant
    (by omega) hfirst).mp htimed
  exact ⟨w₀, asked, _, hnow, hbegan₀, hpolls⟩

end

def unanswered (_ : Unit) : Work (Option Value × Unit) :=
  pure (none, ())

/-- A poll of 10 seconds that asks every 3 seconds, and is never answered, fails after 10 seconds, and on
the floating clock too. -/
theorem poll_in_time_unanswered :
    0 < 3000000 ∧ 10000000 ≤ rounds (.int 10000) (.int 3000) * 3000000 ∧
      (∃ asked w', Polls unanswered 10000000 3000000 0 (exceeded (.int 10000))
          ⟨(), World.create 0 .empty default⟩ asked (.error (exceeded (.int 10000))) w' ∧
        asked.map Prod.fst = [0, 3000000, 6000000, 9000000, 10000000] ∧ w'.now = 10000000) ∧
      ∀ work fuel o, (Scheduler.run work fuel (Scheduler.create (World.create 0 .empty default)
        (untilDone unanswered (.int 10000) (.int 3000) ()).run [])).result = some o →
        o = .error (exceeded (.int 10000)) := by
  have hrounds : 10000000 ≤ rounds (.int 10000) (.int 3000) * 3000000 := by decide +kernel
  have hchecked s w r w' (h : (unanswered s).run.Timed w r w') : r = .ok (none, ()) ∧ w' = w :=
    Work.timed_pure.mp h
  have hinstant s w r w' (h : (unanswered s).run.Timed w r w') : w'.now = w.now :=
    congrArg World.now (hchecked s w r w' h).2
  have hends {w : World} (hbegan : w.began ≤ w.now) {asked o w'}
      (hpolls : Polls unanswered 10000000 3000000 w.now (exceeded (.int 10000)) ⟨(), w⟩ asked o w') :
      o = .error (exceeded (.int 10000)) ∧ asked.map Prod.fst =
        (List.range 5).map (fun k => w.now + min (k * 3000000) 10000000) ∧
        w'.now = w.now + 10000000 := by
    obtain ⟨-, -, -, hall⟩ :=
      poll_in_time unanswered (exceeded (.int 10000)) () (by decide) hrounds hbegan
    obtain ⟨-, -, -, hgoes⟩ := hall asked o w' hpolls
    obtain ⟨htimes, hresults⟩ := hgoes hinstant
    have hnone : asked.map Prod.snd = (List.range asked.length).map fun _ => .ok none := by
      simp only [List.map_const', List.length_range]
      refine List.eq_replicate_iff.mpr ⟨List.length_map _, fun r hr => ?_⟩
      obtain ⟨x, hx, rfl⟩ := List.mem_map.mp hr
      obtain ⟨s, w, r, w', hdone, heq⟩ := hpolls.of_mem hx
      rw [heq, (hchecked s w r w' hdone).1]
      rfl
    obtain ⟨hlength, ho, hnow⟩ := (hresults _ hnone).2 fun _ _ => rfl
    have hfive : (10000000 ⌈/⌉ 3000000 + 1 : Nat) = 5 := by decide +kernel
    exact ⟨ho, by rw [htimes, hlength, hfive], hnow⟩
  refine ⟨by decide, hrounds, ?_, fun work fuel o ho => ?_⟩
  · obtain ⟨⟨asked, o, w', hpolls⟩, -⟩ := poll_in_time unanswered (exceeded (.int 10000)) ()
      (by decide) hrounds (w := World.create 0 .empty default) le_rfl
    obtain ⟨rfl, htimes, hnow⟩ := hends le_rfl hpolls
    exact ⟨asked, w', hpolls, htimes, hnow⟩
  · obtain ⟨w₀, asked, w', hnow₀, hbegan₀, hpolls⟩ := polls_of_run 10 3
      (by decide) (by decide) (by decide) hinstant rfl ho
    exact (hends (by rw [hnow₀, hbegan₀]; exact le_rfl) hpolls).1

end StatesLanguage.Polling
