import StatesLanguage.Proofs.Functions
import StatesLanguage.Proofs.Milliseconds
import StatesLanguage.Proofs.Questions

/-!
# Attempts to run containers

An attempt launches a container and then asks for its state, always with the same request, until an
answer ends it or it is late. It records once that the container has started, as soon as that is
reported. If the clock shows the times of the questions exactly, their number is known.
-/

namespace StatesLanguage

/-! ## Polls -/

namespace Polling

section

variable {σ α : Type} (check : σ → Work (Option α × σ)) (pace : Pace) (late : Failure) (first : Nat)

/-- How a poll goes that may ask again so many times: the answer ends it, or the time to ask again
cannot be worked out, or it is late, or it asks again. -/
inductive Resumes [Room] (left : Nat) (s : σ) (w : World) : List Act → Outcome α → World → Prop
  | answered {r : Outcome (Option α × σ)} {t : List Act} {o : Outcome α} {w' : World}
      (asked : (check s).run.Served w t r w') (answer : answer? (r.map Prod.fst) = some o) :
      Resumes left s w t o w'
  | unpaced {s₁ : σ} {t : List Act} {e : Failure} {w' : World}
      (asked : (check s).run.Served w t (.ok (none, s₁)) w')
      (paced : pace first (w'.now - w'.began) = .error e) :
      Resumes left s w (t ++ [.did .elapsed]) (.error e) w'
  | late {s₁ : σ} {t : List Act} {w' : World}
      (asked : (check s).run.Served w t (.ok (none, s₁)) w')
      (paced : pace first (w'.now - w'.began) = .ok none ∨ left = 0) :
      Resumes left s w (t ++ [.did .elapsed]) (.error late) w'
  | again {s₁ : σ} {t t' : List Act} {w₁ w₂ w' : World} {pause more : Nat} {o : Outcome α}
      (asked : (check s).run.Served w t (.ok (none, s₁)) w₁)
      (paced : pace first (w₁.now - w₁.began) = .ok (some pause)) (left_eq : left = more + 1)
      (later : w₂.now = w₁.now + pause) (began : w₂.began = w₁.began)
      (rest : (ask check pace late first more s₁).run.Served w₂ t' o w') :
      Resumes left s w (t ++ .did .elapsed :: t') o w'

end

theorem resumes_of_served [Room] {σ α : Type} {check : σ → Work (Option α × σ)} {pace : Pace}
    {late : Failure} {first left : Nat} {s : σ} {w w' : World} {t : List Act} {o : Outcome α}
    (h : (ask check pace late first left s).run.Served w t o w') :
    Resumes check pace late first left s w t o w' := by
  rw [ask.eq_def] at h
  replace h := Work.served_bind.mp h
  rcases h with ⟨t₁, t₂, ⟨found, s₁⟩, w₁, rfl, hasked, h⟩ | ⟨e, rfl, hasked⟩
  · cases found with
    | some output =>
      obtain ⟨rfl, rfl, rfl⟩ := Work.served_pure.mp h
      rw [List.append_nil]
      exact .answered hasked rfl
    | none =>
      obtain ⟨t₃, rfl, hpaced⟩ := Work.served_perform_bind.mp h
      replace hpaced := Work.served_ofOutcome_bind.mp hpaced
      have helapsed : w₁.perform .elapsed = (w₁.now - w₁.began, w₁) := rfl
      rw [helapsed] at hpaced
      cases hpace : pace first (w₁.now - w₁.began) with
      | error e =>
        rw [hpace] at hpaced
        obtain ⟨rfl, rfl, rfl⟩ := hpaced
        exact .unpaced hasked hpace
      | ok pause =>
      rw [hpace] at hpaced
      dsimp only at hpaced
      cases pause with
      | none =>
        obtain ⟨rfl, rfl, rfl⟩ := Work.served_throw.mp hpaced
        exact .late hasked (.inl hpace)
      | some pause =>
        cases left with
        | zero =>
          obtain ⟨rfl, rfl, rfl⟩ := Work.served_throw.mp hpaced
          exact .late hasked (.inr rfl)
        | succ more =>
          obtain ⟨w₂, hlater, hbegan, hrest⟩ := Work.served_sleep_bind.mp hpaced
          exact .again hasked hpace rfl hlater hbegan hrest
  · exact .answered hasked rfl

theorem measuredPace_fault {timeout interval : Value} {first last : Nat} {e : Failure}
    (h : measuredPace timeout interval first last = .error e) : e.isFault = true := by
  rcases measuredPace_cases timeout interval first last with ⟨pause, hpause, -⟩ | ⟨e', he, hfault, -⟩
  · rw [hpause] at h
    cases h
  · rw [he] at h
    cases h
    exact hfault

/-- The times of the questions that a pace leaves room for, as long after the run began, if their
answers take no time: there is one more after each of them but the last. -/
structure Schedule (pace : Pace) (first : Nat) (times : Nat → Nat) (last : Nat) : Prop where
  start : times 0 = first
  next : ∀ k < last, ∃ pause, pace first (times k) = .ok (some pause) ∧ times (k + 1) = times k + pause
  done : pace first (times last) = .ok none

/-- What a pace says at the questions of its schedule. -/
theorem Schedule.pace_cases {pace : Pace} {first last k : Nat} {times : Nat → Nat}
    (h : Schedule pace first times last) (hk : k ≤ last) :
    pace first (times k) = .ok none ∧ k = last ∨
      ∃ pause, pace first (times k) = .ok (some pause) ∧ k < last ∧ times (k + 1) = times k + pause := by
  rcases Nat.eq_or_lt_of_le hk with rfl | hmore
  · exact .inl ⟨h.done, rfl⟩
  · obtain ⟨pause, hpause, hnext⟩ := h.next k hmore
    exact .inr ⟨pause, hpause, hmore, hnext⟩

theorem Schedule.pace_ne_error {pace : Pace} {first last k : Nat} {times : Nat → Nat} {e : Failure}
    (h : Schedule pace first times last) (hk : k ≤ last) : pace first (times k) ≠ .error e := by
  rcases h.pace_cases hk with ⟨hpace, -⟩ | ⟨pause, hpace, -⟩ <;> simp [hpace]

theorem Schedule.eq_of_none {pace : Pace} {first last k : Nat} {times : Nat → Nat}
    (h : Schedule pace first times last) (hk : k ≤ last) (hnone : pace first (times k) = .ok none) :
    k = last := by
  rcases h.pace_cases hk with ⟨-, hlast⟩ | ⟨pause, hpace, -⟩
  · exact hlast
  · rw [hpace] at hnone
    cases hnone

theorem Schedule.of_some {pace : Pace} {first last k pause : Nat} {times : Nat → Nat}
    (h : Schedule pace first times last) (hk : k ≤ last)
    (hsome : pace first (times k) = .ok (some pause)) : k < last ∧ times (k + 1) = times k + pause := by
  rcases h.pace_cases hk with ⟨hpace, -⟩ | ⟨pause', hpace, hnext⟩
  · rw [hpace] at hsome
    cases hsome
  · rw [hpace] at hsome
    cases hsome
    exact hnext

theorem schedule_exactPace (timeout : Nat) {interval : Nat} (hinterval : 0 < interval) (first : Nat) :
    Schedule (exactPace timeout interval) first (fun k => first + min (k * interval) timeout)
      (timeout ⌈/⌉ interval) where
  start := by simp
  next k hk := by
    have hmore : k * interval < timeout := by
      by_contra hno
      exact absurd ((ceilDiv_le_iff_le_mul hinterval).mpr (by rw [Nat.mul_comm]; omega))
        (not_le.mpr hk)
    refine ⟨_, (exactPace_grid hinterval first k).trans (congrArg _ (if_neg (not_le.mpr hk))), ?_⟩
    rw [Nat.succ_mul]
    omega
  done := (exactPace_grid hinterval first _).trans (congrArg _ (if_pos le_rfl))

/-- In whole seconds the measured pace leaves room for just these. -/
theorem schedule_seconds (timeout interval first : Nat) (hinterval : 0 < interval)
    (htimeout : timeout * 1000 < 2 ^ 53) (hinterval' : interval * 1000 < 2 ^ 53)
    (hfirst : first + timeout < 2 ^ 53) :
    Schedule (measuredPace (.int (timeout * 1000 : Nat)) (.int (interval * 1000 : Nat)))
      (first * second)
      (fun k => first * second + min (k * (interval * second)) (timeout * second))
      ((timeout * second) ⌈/⌉ (interval * second)) := by
  have hexact (k : Nat) := measuredPace_seconds_grid hinterval htimeout hinterval' hfirst k
  obtain ⟨start, next, done⟩ := schedule_exactPace (timeout * second)
    (Nat.mul_pos hinterval (show 0 < second by decide)) (first * second)
  exact ⟨start, fun k hk => (hexact k).symm ▸ next k hk, (hexact _).trans done⟩

theorem measuredPace_millis {timeout interval first elapsed : Nat} (hinterval : 0 < interval)
    (hearly : elapsed < timeout * 1000) (hbound : first + timeout * 1000 < 2 ^ 47) :
    measuredPace (.int timeout) (.int interval) first (first + elapsed) =
      exactPace (timeout * 1000) (interval * 1000) first (first + elapsed) := by
  rw [measuredPace_before hinterval hearly hbound.le, exactPace, Nat.add_sub_cancel_left,
    if_neg (by omega)]

/-- In whole milliseconds too, but that one more question may be left when the timeout has passed, if
the clock shows a moment of it left then. -/
theorem exists_schedule_millis {timeout interval first : Nat} (hinterval : 0 < interval)
    (hbound : first + timeout * 1000 < 2 ^ 47) :
    ∃ times latest, Schedule (measuredPace (.int timeout) (.int interval)) first times latest ∧
      (latest = timeout ⌈/⌉ interval ∨ latest = timeout ⌈/⌉ interval + 1 ∧
        measuredPace (.int timeout) (.int interval) first (first + timeout * 1000) =
          .ok (some 1)) := by
  have hscaled : (timeout * 1000) ⌈/⌉ (interval * 1000) = timeout ⌈/⌉ interval := by
    refine eq_of_forall_ge_iff fun k => ?_
    rw [ceilDiv_le_iff_le_mul hinterval, ceilDiv_le_iff_le_mul (Nat.mul_pos hinterval (by decide)),
      Nat.mul_right_comm]
    exact Nat.mul_le_mul_right_iff (by decide)
  have hpos : 0 < interval * 1000 := Nat.mul_pos hinterval (by decide)
  have hexact := schedule_exactPace (timeout * 1000) hpos first
  rw [hscaled] at hexact
  generalize htimes : (fun k => first + min (k * (interval * 1000)) (timeout * 1000)) = times
    at hexact
  have hnext k (hk : k < timeout ⌈/⌉ interval) : ∃ pause,
      measuredPace (.int timeout) (.int interval) first (times k) = .ok (some pause) ∧
        times (k + 1) = times k + pause := by
    have hearly : k * (interval * 1000) < timeout * 1000 := by
      rwa [← hscaled, ← not_le, ceilDiv_le_iff_le_mul hpos, not_le, Nat.mul_comm] at hk
    have htime : times k = first + k * (interval * 1000) := by
      rw [← htimes]
      dsimp only
      rw [Nat.min_eq_left hearly.le]
    obtain ⟨pause, hpause, hlater⟩ := hexact.next k hk
    rw [htime] at hpause hlater ⊢
    exact ⟨pause, (measuredPace_millis hinterval hearly hbound).trans hpause, hlater⟩
  have hlast : times (timeout ⌈/⌉ interval) = first + timeout * 1000 := by
    have hall := le_ceilDiv_mul (timeout * 1000) hpos
    rw [hscaled] at hall
    rw [← htimes]
    dsimp only
    rw [Nat.min_eq_right hall]
  rcases measuredPace_at hinterval hbound.le with hnone | hsome
  · exact ⟨times, _, ⟨hexact.start, hnext, hlast ▸ hnone⟩, .inl rfl⟩
  · refine ⟨fun k => if k ≤ timeout ⌈/⌉ interval then times k else first + (timeout * 1000 + 1), _,
      ⟨by simpa using hexact.start, fun k hk => ?_, ?_⟩, .inr ⟨rfl, hsome⟩⟩
    · rcases Nat.lt_or_eq_of_le (Nat.le_of_lt_succ hk) with hless | rfl
      · rw [if_pos hless.le, if_pos (Nat.succ_le_of_lt hless)]
        exact hnext k hless
      · rw [if_pos le_rfl, if_neg (by omega), hlast]
        exact ⟨1, hsome, Nat.add_assoc first _ 1⟩
    · rw [if_neg (by omega)]
      exact measuredPace_after hbound

end Polling

namespace Task

variable {task : Task} {scope : Scope} {w w' : World} {t : List Act}

/-! ## Reports -/

def statusOf (description : Value) : Outcome Value := do
  (← oneContainer description).memberOr "lastStatus" .null

/-- What an answer tells of a container: its description once it has stopped. -/
def told (answer : Outcome Value) : Outcome (Option Value) := do
  let description ← answer
  return if (← statusOf description).same (.str "STOPPED") then some description else none

/-- What an attempt ends with on an answer, if it does. -/
def ending? (answer : Outcome Value) : Option (Outcome Value) :=
  Polling.answer? (told answer)

def reportsRunning (answer : Outcome Value) : Bool :=
  match answer >>= statusOf with
  | .ok status => status.same (.str "RUNNING")
  | .error _ => false

theorem not_one {tasks container : Value} {f : String → Failure} {rest : Unit → Outcome Value} :
    (Json.encode tasks >>= fun text => (throw (f text) : Outcome Unit) >>= rest) ≠ .ok container := by
  intro h
  obtain ⟨text, -, h⟩ := Outcome.bind_eq_ok.mp h
  cases h

theorem first_of_size_one {tasks : Value} {members : Members} {size : Nat} (hsize : tasks.size = .ok size)
    (hone : (size == 1) = true) (hfirst : tasks.first = .ok (.obj members)) :
    tasks = .arr [.obj members] := by
  cases tasks with
  | arr items =>
    cases items with
    | nil => cases hfirst
    | cons item rest =>
      cases hfirst
      cases hsize
      cases rest with
      | nil => rfl
      | cons => simp at hone
  | str s =>
    simp only [Value.first] at hfirst
    split at hfirst <;> cases hfirst
  | _ => cases hfirst

theorem tasks_of_oneContainer {description : Value} {members : Members}
    (h : oneContainer description = .ok (.obj members)) :
    description.get? "tasks" = some (.arr [.obj members]) := by
  cases description with
  | obj ms =>
    rw [oneContainer, Value.memberOr_eq rfl, Outcome.ok_bind] at h
    dsimp only at h
    generalize htasks : ((Value.obj ms).get? "tasks").getD .null = tasks at h
    have hlist : tasks = .arr [.obj members] := by
      cases htruthy : tasks.truthy with
      | false =>
        rw [htruthy] at h
        exact absurd h not_one
      | true =>
        rw [htruthy, if_pos rfl] at h
        obtain ⟨size, hsize, h⟩ := Outcome.bind_eq_ok.mp h
        rw [pure_bind] at h
        cases hone : size == 1 with
        | false =>
          rw [hone] at h
          exact absurd h not_one
        | true =>
          rw [hone] at h
          exact first_of_size_one hsize hone h
    rw [hlist] at htasks
    cases hget : (Value.obj ms).get? "tasks" with
    | none =>
      rw [hget] at htasks
      cases htasks
    | some found =>
      rw [hget] at htasks
      exact congrArg some htasks
  | _ => cases h

theorem oneContainer_of_tasks {description : Value} {members : Members}
    (h : description.get? "tasks" = some (.arr [.obj members])) :
    oneContainer description = .ok (.obj members) := by
  have hobject : description.isObject = true := by
    cases description <;> first | rfl | cases h
  rw [oneContainer, Value.memberOr_eq hobject, h]
  rfl

theorem statusOf_eq_ok_iff {description status : Value} :
    statusOf description = .ok status ↔ ∃ members,
      description.get? "tasks" = some (.arr [.obj members]) ∧
        status = (Table.get? members "lastStatus").getD .null := by
  constructor
  · intro h
    obtain ⟨container, hcontainer, h⟩ := Outcome.bind_eq_ok.mp h
    cases container with
    | obj members =>
      cases h
      exact ⟨members, tasks_of_oneContainer hcontainer, rfl⟩
    | _ => cases h
  · rintro ⟨members, htasks, rfl⟩
    rw [statusOf, oneContainer_of_tasks htasks]
    rfl

theorem ending?_ok (description : Value) :
    ending? (.ok description) = match statusOf description with
      | .error e => some (.error e)
      | .ok status => if status.same (.str "STOPPED") then some (.ok description) else none := by
  rw [ending?, told, Outcome.ok_bind]
  cases statusOf description with
  | error e => rfl
  | ok status =>
    rw [Outcome.ok_bind]
    dsimp only
    cases status.same (.str "STOPPED") <;> rfl

theorem ending?_eq_none_iff {answer : Outcome Value} :
    ending? answer = none ↔ ∃ description members, answer = .ok description ∧
      description.get? "tasks" = some (.arr [.obj members]) ∧
        ((Table.get? members "lastStatus").getD .null).same (.str "STOPPED") = false := by
  constructor
  · intro h
    cases answer with
    | error e => cases h
    | ok description =>
      rw [ending?_ok] at h
      cases hstatus : statusOf description with
      | error e =>
        rw [hstatus] at h
        cases h
      | ok status =>
        obtain ⟨members, htasks, rfl⟩ := statusOf_eq_ok_iff.mp hstatus
        rw [hstatus] at h
        exact ⟨description, members, rfl, htasks, by simpa using h⟩
  · rintro ⟨description, members, rfl, htasks, hstatus⟩
    rw [ending?_ok, statusOf_eq_ok_iff.mpr ⟨members, htasks, rfl⟩]
    dsimp only
    rw [hstatus, if_neg Bool.false_ne_true]

section

variable [Room]

theorem served_callService {c : Client.Call} {o : Outcome Value} :
    (callService c).run.Served w t o w' ↔
      ∃ answer, t = [.called ⟨c, none, w.now, answer⟩] ∧ w'.now = w.now + answer.delay ∧
        w'.began = w.began ∧ o = answer.outcome := by
  refine Work.served_call_bind.trans (exists_congr fun answer => ?_)
  constructor
  · rintro ⟨w₁, t', rfl, later, began, rest⟩
    obtain ⟨rfl, rfl, rfl⟩ := Work.served_ofOutcome.mp rest
    exact ⟨rfl, later, began, rfl⟩
  · rintro ⟨rfl, later, began, rfl⟩
    exact ⟨w', [], rfl, later, began, Work.served_ofOutcome.mpr ⟨rfl, rfl, rfl⟩⟩

theorem served_containerProgress {describe : Value} {seen : Bool}
    {r : Outcome (Option Value × Bool)}
    (h : (containerProgress task scope describe seen).run.Served w t r w') :
    ∃ answer, Act.calls t = [⟨.describeTasks describe, none, w.now, answer⟩] ∧
      w'.now = w.now + answer.delay ∧ w'.began = w.began ∧
      r = (told answer.outcome).map (·, seen || reportsRunning answer.outcome) ∧
      Act.events t = if reportsRunning answer.outcome && !seen then [task.startedEvent] else [] := by
  replace h := Work.served_bind.mp h
  rcases h with ⟨t₁, t₂, description, w₁, rfl, hcall, h⟩ | ⟨e, rfl, hcall⟩
  · obtain ⟨answer, rfl, hlater, hbegan, houtcome⟩ := served_callService.mp hcall
    have hstatus {f : Value → Work (Option Value × Bool)} :
        (Work.ofOutcome (oneContainer description) >>= fun container =>
          Work.ofOutcome (container.memberOr "lastStatus" .null) >>= f) =
          Work.ofOutcome (statusOf description) >>= f := by
      rw [statusOf]
      cases oneContainer description <;> rfl
    rw [hstatus] at h
    replace h := Work.served_ofOutcome_bind.mp h
    refine ⟨answer, ?_⟩
    rw [told, reportsRunning, ← houtcome, Outcome.ok_bind, Outcome.ok_bind]
    cases hread : statusOf description with
    | error e =>
      rw [hread] at h
      obtain ⟨rfl, rfl, rfl⟩ := h
      exact ⟨rfl, hlater, hbegan, rfl, rfl⟩
    | ok status =>
    rw [hread] at h
    dsimp only at h ⊢
    cases hstarts : status.same (.str "RUNNING") && !seen with
    | false =>
      rw [hstarts] at h
      obtain ⟨rfl, rfl, rfl⟩ := Work.served_pure.mp h
      have hseen : (seen || status.same (.str "RUNNING")) = seen := by
        cases seen <;> simp_all
      rw [hseen, Bool.or_false]
      exact ⟨rfl, hlater, hbegan, rfl, rfl⟩
    | true =>
      rw [hstarts] at h
      obtain ⟨t₃, t₄, w₂, rfl, hnoted, hrest⟩ := Work.served_noted_bind served_started h
      obtain ⟨rfl, rfl, rfl⟩ := Work.served_pure.mp hrest
      have hseen : (seen || status.same (.str "RUNNING")) = true := by
        cases seen <;> simp_all
      rw [hseen, Bool.or_true, List.append_nil]
      exact ⟨by simp [hnoted.calls], hnoted.now.trans hlater, hnoted.began.trans hbegan, rfl,
        by simp [hnoted.events]⟩
  · obtain ⟨answer, rfl, hlater, hbegan, houtcome⟩ := served_callService.mp hcall
    refine ⟨answer, rfl, hlater, hbegan, ?_⟩
    rw [told, reportsRunning, ← houtcome]
    exact ⟨rfl, rfl⟩

def question (describe : Value) (time : Nat) (answer : Client.Answer) : Called :=
  ⟨.describeTasks describe, none, time, answer⟩

omit [Room] in
theorem answer?_of_told {answer : Outcome Value} {r : Outcome (Option Value × Bool)} {seen : Bool}
    (hr : r = (told answer).map (·, seen)) : Polling.answer? (r.map Prod.fst) = ending? answer := by
  rw [hr, ending?]
  cases told answer <;> rfl

theorem served_ended {describe : Value} {seen : Bool} {r : Outcome (Option Value × Bool)}
    {o : Outcome Value} (h : (containerProgress task scope describe seen).run.Served w t r w')
    (hends : Polling.answer? (r.map Prod.fst) = some o) :
    ∃ answer, Act.calls t = [question describe w.now answer] ∧ ending? answer.outcome = some o ∧
      Act.events t = if reportsRunning answer.outcome && !seen then [task.startedEvent] else [] := by
  obtain ⟨answer, hcalls, -, -, hr, hevents⟩ := served_containerProgress h
  exact ⟨answer, hcalls, (answer?_of_told hr).symm.trans hends, hevents⟩

theorem served_undone {describe : Value} {seen seen' : Bool}
    (h : (containerProgress task scope describe seen).run.Served w t (.ok (none, seen')) w') :
    ∃ answer, Act.calls t = [question describe w.now answer] ∧ w'.now = w.now + answer.delay ∧
      w'.began = w.began ∧ ending? answer.outcome = none ∧
      seen' = (seen || reportsRunning answer.outcome) ∧
      Act.events t = if reportsRunning answer.outcome && !seen then [task.startedEvent] else [] := by
  obtain ⟨answer, hcalls, hlater, hbegan, hr, hevents⟩ := served_containerProgress h
  refine ⟨answer, hcalls, hlater, hbegan, (answer?_of_told hr).symm, ?_, hevents⟩
  cases htold : told answer.outcome with
  | error e =>
    rw [htold] at hr
    cases hr
  | ok found =>
    rw [htold] at hr
    exact (Prod.mk.inj (Except.ok.inj hr)).2

/-! ## Questions -/

section

variable {describe : Value} {pace : Polling.Pace} {late : Failure} {first left : Nat} {seen : Bool}
  {o : Outcome Value}

omit [Room] in
theorem started_once (event : String × Members) (now later seen : Bool) :
    (if now && !seen then [event] else []) ++ (if later && !(seen || now) then [event] else []) =
      if (now || later) && !seen then [event] else [] := by
  cases now <;> cases later <;> cases seen <;> rfl

/-- All questions are the same, and only the last answer ends the attempt or is the last in time. That
the container has started is recorded with the first answer that reports it. -/
theorem served_questions
    (h : (Polling.ask (containerProgress task scope describe) pace late first left seen).run.Served
      w t o w') :
    (∃ earlier last, Act.calls t = earlier ++ [last] ∧
      (∀ c ∈ earlier ++ [last], c.call = .describeTasks describe ∧ c.limit = none) ∧
      (∀ c ∈ earlier, ending? c.answer.outcome = none) ∧
      (ending? last.answer.outcome = some o ∨ ending? last.answer.outcome = none ∧
        (o = .error late ∨ ∃ e now, o = .error e ∧ pace first now = .error e))) ∧
    Act.events t =
      if (Act.calls t).any (reportsRunning ·.answer.outcome) && !seen then [task.startedEvent]
      else [] := by
  -- By induction on how often it may still ask, from any world and whatever has been seen before.
  induction left using Nat.strong_induction_on generalizing seen w t with
  | h left ih =>
  cases Polling.resumes_of_served h with
  | answered asked answer =>
    obtain ⟨found, hcalls, hends, hevents⟩ := served_ended asked answer
    refine ⟨⟨[], question describe w.now found, hcalls, ?_, List.forall_mem_nil _, .inl hends⟩, ?_⟩
    · simp [question]
    · simp [hcalls, hevents, question]
  | unpaced asked paced =>
    obtain ⟨found, hcalls, -, -, hundone, -, hevents⟩ := served_undone asked
    refine ⟨⟨[], question describe w.now found, by simp [hcalls], ?_, List.forall_mem_nil _,
      .inr ⟨hundone, .inr ⟨_, _, rfl, paced⟩⟩⟩, ?_⟩
    · simp [question]
    · simp [hcalls, hevents, question, Effect.records]
  | late asked paced =>
    obtain ⟨found, hcalls, -, -, hundone, -, hevents⟩ := served_undone asked
    refine ⟨⟨[], question describe w.now found, by simp [hcalls], ?_, List.forall_mem_nil _,
      .inr ⟨hundone, .inl rfl⟩⟩, ?_⟩
    · simp [question]
    · simp [hcalls, hevents, question, Effect.records]
  | again asked paced left_eq later began rest =>
    obtain ⟨found, hcalls, -, -, hundone, rfl, hevents⟩ := served_undone asked
    obtain ⟨⟨earlier, last, hrest, hsame, hearlier, hlast⟩, hnoted⟩ := ih _ (by omega) rest
    refine ⟨⟨question describe w.now found :: earlier, last, by simp [hcalls, hrest], ?_,
      List.forall_mem_cons.mpr ⟨hundone, hearlier⟩, hlast⟩, ?_⟩
    · exact List.forall_mem_cons.mpr ⟨⟨rfl, rfl⟩, hsame⟩
    · rw [Act.events_append, Act.events_did, Act.calls_append, Act.calls_did, hcalls, hevents, hnoted,
        List.singleton_append, List.any_cons]
      exact started_once _ _ _ _

theorem served_scheduled_questions {answers : Nat → Client.Answer} {d : Nat → Outcome Value}
    {times : Nat → Nat} {latest k : Nat} (hschedule : Polling.Schedule pace first times latest)
    (hd : ∀ n, answers (n + 1) = ⟨0, d n⟩) (hnow : w.now - w.began = times k) (hk : k ≤ latest)
    (hbegan : w.began ≤ w.now) (hleft : latest ≤ k + left)
    (h : (Polling.ask (containerProgress task scope describe) pace late first left seen).run.Served
      w t o w') (hanswered : AnsweredBy answers (k + 1) (Act.calls t)) :
    ∃ n, k ≤ n ∧ n ≤ latest ∧
      Act.calls t = (List.range' k (n + 1 - k)).map (fun j =>
        question describe (w.began + times j) ⟨0, d j⟩) ∧
      (∀ j, k ≤ j → j < n → ending? (d j) = none) ∧
      (ending? (d n) = some o ∨ ending? (d n) = none ∧ n = latest ∧ o = .error late) := by
  -- The invariant is `hnow`: question k is asked at the time of the schedule.
  induction left using Nat.strong_induction_on generalizing k seen w t with
  | h left ih =>
  have hpace {w₁ : World} (hnow₁ : w₁.now = w.now) (hbegan₁ : w₁.began = w.began) :
      pace first (w₁.now - w₁.began) = pace first (times k) := by
    rw [hnow₁, hbegan₁, hnow]
  have hhead {found : Client.Answer} {rest : List Called}
      (h : AnsweredBy answers (k + 1) (question describe w.now found :: rest)) :
      found = ⟨0, d k⟩ := h.1.trans (hd k)
  have htime : w.now = w.began + times k := by omega
  have hsingle : [question describe w.now ⟨0, d k⟩] = (List.range' k (k + 1 - k)).map fun j =>
      question describe (w.began + times j) ⟨0, d j⟩ := by
    rw [Nat.add_sub_cancel_left, htime]
    rfl
  have hnone (j : Nat) (hj : k ≤ j) (hlt : j < k) : ending? (d j) = none :=
    absurd hlt (not_lt.mpr hj)
  cases Polling.resumes_of_served h with
  | answered asked answer =>
    obtain ⟨found, hcalls, hends, -⟩ := served_ended asked answer
    rw [hcalls] at hanswered
    obtain rfl := hhead hanswered
    exact ⟨k, le_rfl, hk, hcalls.trans hsingle, hnone, .inl hends⟩
  | unpaced asked paced =>
    obtain ⟨found, hcalls, hlater, hbegan₁, -⟩ := served_undone asked
    rw [Act.calls_append, hcalls] at hanswered
    obtain rfl := hhead hanswered
    rw [hpace hlater hbegan₁] at paced
    exact absurd paced (hschedule.pace_ne_error hk)
  | late asked paced =>
    obtain ⟨found, hcalls, hlater, hbegan₁, hundone, -⟩ := served_undone asked
    rw [Act.calls_append, hcalls] at hanswered
    obtain rfl := hhead hanswered
    rw [hpace hlater hbegan₁] at paced
    refine ⟨k, le_rfl, hk, ?_, hnone, .inr ⟨hundone, ?_, rfl⟩⟩
    · rw [Act.calls_append, hcalls]
      exact hsingle
    · rcases paced with hlate | rfl
      · exact hschedule.eq_of_none hk hlate
      · exact le_antisymm hk hleft
  | again asked paced left_eq later began rest =>
    obtain ⟨found, hcalls, hlater, hbegan₁, hundone, -⟩ := served_undone asked
    rw [Act.calls_append, hcalls] at hanswered
    obtain rfl := hhead hanswered
    rw [hpace hlater hbegan₁] at paced
    obtain ⟨hmore, hnext⟩ := hschedule.of_some hk paced
    have hnow₁ : _ = w.now := hlater
    have hbegan₂ := began.trans hbegan₁
    obtain ⟨n, hkn, hn, hrest, hundone', hlast⟩ := ih _ (by omega) (k := k + 1) (by omega)
      hmore (by omega) (by omega) rest hanswered.2
    refine ⟨n, Nat.le_of_succ_le hkn, hn, ?_, fun j hj hlt => ?_, hlast⟩
    · have hrange : n + 1 - k = (n + 1 - (k + 1)) + 1 := by omega
      rw [Act.calls_append, Act.calls_did, hcalls, hrest, htime, hbegan₂, hrange, List.range'_succ]
      rfl
    · rcases Nat.eq_or_lt_of_le hj with rfl | hlt'
      · exact hundone
      · exact hundone' j hlt' hlt

end

end

/-! ## Launches -/

def describeOf (request arn : Value) : Value :=
  let cluster := (request.get? "cluster").getD .null
  .obj ([("tasks", .arr [arn])] ++ if cluster.truthy then [("cluster", cluster)] else [])

def failuresOf (reply : Value) : Value := (reply.get? "failures").getD .null

structure Launches (request : Value) (text : String) (reply arn : Value) : Prop where
  hasText : Json.encode request = .ok text
  unfailed : (failuresOf reply).truthy = false
  one : ∃ members, reply.get? "tasks" = some (.arr [.obj members]) ∧
    Table.get? members "taskArn" = some arn

theorem Launches.describe_eq {request reply arn : Value} {text : String}
    (h : Launches request text reply arn) :
    describeRequest request reply = .ok (describeOf request arn) := by
  obtain ⟨members, htasks, harn⟩ := h.one
  have hrequire : (Value.obj members).require "taskArn" = .ok arn := by
    rw [Value.require, harn]
  rw [describeRequest, oneContainer_of_tasks htasks, Outcome.ok_bind, hrequire]
  rfl

/-- The answers to the calls of an attempt: one to the launch, and then some that take no time. -/
def launchThen (launch : Client.Answer) (d : Nat → Outcome Value) : Nat → Client.Answer
  | 0 => launch
  | n + 1 => ⟨0, d n⟩

def afterLaunch [Room] (task : Task) (scope : Scope) (request reply : Value) : Work Value := do
  Work.ofOutcome (task.checkLaunch reply)
  let text ← Work.ofOutcome (Json.encode request)
  task.scheduled scope [("parameters", .str text)]
  let describe ← Work.ofOutcome (describeRequest request reply)
  Polling.untilDone (containerProgress task scope describe) task.timeout task.pollInterval false

section

variable {parameters request reply : Value} {o : Outcome Value}

variable [Room]

theorem served_launch (hsync : task.kind = .runTaskSync)
    (hrequest : launchRequest parameters = .ok request)
    (h : (task.invoke scope parameters).run.Served w t o w') :
    ∃ launch t' w₁, t = .called ⟨.runTask request, none, w.now, launch⟩ :: t' ∧
      w₁.now = w.now + launch.delay ∧ w₁.began = w.began ∧
      (Work.ofOutcome launch.outcome >>= task.afterLaunch scope request).run.Served w₁ t' o w' := by
  have hinvoke : task.invoke scope parameters = task.runContainer scope parameters := by
    rw [invoke, hsync]
  have hkept : ¬task.kind = .runTaskAsync := by
    rw [hsync]
    decide
  rw [hinvoke, runContainer, hrequest] at h
  simp only [if_neg hkept] at h
  replace h := Work.served_ofOutcome_bind.mp h
  dsimp only at h
  replace h := Work.served_bind.mp h
  rcases h with ⟨t₁, t₂, reply, w₁, rfl, hcall, h⟩ | ⟨e, rfl, hcall⟩
  · obtain ⟨launch, rfl, hlater, hbegan, houtcome⟩ := served_callService.mp hcall
    refine ⟨launch, t₂, w₁, rfl, hlater, hbegan, ?_⟩
    rw [← houtcome]
    exact h
  · obtain ⟨launch, rfl, hlater, hbegan, houtcome⟩ := served_callService.mp hcall
    refine ⟨launch, [], w', rfl, hlater, hbegan, ?_⟩
    rw [← houtcome]
    exact Work.served_throw.mpr ⟨rfl, rfl, rfl⟩

omit [Room] in
theorem checkLaunch_eq (hobject : reply.isObject = true) :
    task.checkLaunch reply =
      if (failuresOf reply).truthy then
        Json.encode (failuresOf reply) >>= fun text => .error (launchFailed task.name text)
      else .ok () := by
  rw [checkLaunch, Value.memberOr_eq hobject, Outcome.ok_bind]
  rfl

theorem served_failed (hobject : reply.isObject = true) (hfailed : (failuresOf reply).truthy = true)
    (h : (task.afterLaunch scope request reply).run.Served w t o w') :
    t = [] ∧ ∀ text, Json.encode (failuresOf reply) = .ok text →
      o = .error (launchFailed task.name text) := by
  rw [afterLaunch, checkLaunch_eq hobject, if_pos hfailed] at h
  replace h := Work.served_ofOutcome_bind.mp h
  cases htext : Json.encode (failuresOf reply) with
  | error e =>
    rw [htext] at h
    obtain ⟨rfl, -, -⟩ := h
    exact ⟨rfl, nofun⟩
  | ok text =>
    rw [htext] at h
    obtain ⟨rfl, rfl, -⟩ := h
    refine ⟨rfl, fun _ heq => ?_⟩
    cases heq
    rfl

theorem served_launched {text : String} {arn : Value} (hobject : reply.isObject = true)
    (hlaunched : Launches request text reply arn)
    (h : (task.afterLaunch scope request reply).run.Served w t o w') :
    ∃ t₁ w₁, Act.calls t = Act.calls t₁ ∧
      Act.events t = task.scheduledEvent [("parameters", .str text)] :: Act.events t₁ ∧
      w₁.now = w.now ∧ w₁.began = w.began ∧
      (Polling.ask (containerProgress task scope (describeOf request arn))
        (Polling.measuredPace task.timeout task.pollInterval) (Polling.exceeded task.timeout)
        (w₁.now - w₁.began) (Polling.rounds task.timeout task.pollInterval) false).run.Served
        w₁ t₁ o w' := by
  have hunfailed : ¬(failuresOf reply).truthy = true := by simp [hlaunched.unfailed]
  rw [afterLaunch, checkLaunch_eq hobject, if_neg hunfailed] at h
  replace h := Work.served_ofOutcome_bind.mp h
  dsimp only at h
  rw [hlaunched.hasText] at h
  replace h := Work.served_ofOutcome_bind.mp h
  dsimp only at h
  obtain ⟨t₁, t₂, w₁, rfl, hnoted, h⟩ := Work.served_noted_bind served_scheduled h
  rw [hlaunched.describe_eq] at h
  replace h := Work.served_ofOutcome_bind.mp h
  dsimp only at h
  obtain ⟨t₃, rfl, hask⟩ := Work.served_perform_bind.mp h
  refine ⟨t₃, w₁, ?_, ?_, hnoted.now, hnoted.began, hask⟩
  · rw [Act.calls_append, hnoted.calls, Act.calls_did, List.nil_append]
  · rw [Act.events_append, hnoted.events, Act.events_did]
    rfl

end

/-- An attempt that has room for so many questions ends on the first answer that ends it, if one does
in time, and has not asked after that; or else it is late when it has asked them all. -/
structure EndsIn (d : Nat → Outcome Value) (exceeded : Failure) (room asked : Nat) (o : Outcome Value) :
    Prop where
  answered : ∀ n < room, (∀ k < n, ending? (d k) = none) → ∀ e, ending? (d n) = some e →
    asked = n + 1 ∧ o = e
  late : (∀ n < room, ending? (d n) = none) → asked = room ∧ o = .error exceeded

theorem endsIn_of_first {d : Nat → Outcome Value} {n latest : Nat} {exceeded : Failure}
    {o : Outcome Value} (hn : n ≤ latest) (hbefore : ∀ j < n, ending? (d j) = none)
    (hends : ending? (d n) = some o ∨
      ending? (d n) = none ∧ n = latest ∧ o = .error exceeded) :
    EndsIn d exceeded (latest + 1) (n + 1) o where
  answered m hm hnone e he := by
    rcases lt_trichotomy n m with hlt | rfl | hlt
    · rw [hnone n hlt] at hends
      rcases hends with hends | ⟨-, rfl, -⟩
      · cases hends
      · omega
    · rw [he] at hends
      rcases hends with hends | ⟨hends, -⟩
      · exact ⟨rfl, (Option.some.inj hends).symm⟩
      · cases hends
    · rw [hbefore m hlt] at he
      cases he
  late hnone := by
    rw [hnone n (Nat.lt_succ_of_le hn)] at hends
    rcases hends with hends | ⟨-, rfl, rfl⟩
    · cases hends
    · exact ⟨rfl, rfl⟩

/-- An attempt whose launch has failures ends there. One that has launched a container asks for its
state until the first answer that ends it, or until it is late. The pace of the floating clock has room
for so many questions. In whole milliseconds these are as many as the interval makes room for in the
timeout, or one more if the clock shows a moment of the timeout left when it has passed. -/
theorem sync_attempt [Room] {parameters request reply : Value} (hsync : task.kind = .runTaskSync)
    (hrequest : launchRequest parameters = .ok request) {launch : Client.Answer}
    (hreply : launch.outcome = .ok reply) (hobject : reply.isObject = true)
    (d : Nat → Outcome Value) (scope : Scope) {w : World} (hbegan : w.began ≤ w.now) :
    (∃ t o w', (task.invoke scope parameters).run.Served w t o w' ∧
      AnsweredBy (launchThen launch d) 0 (Act.calls t)) ∧
    ∀ t o w', (task.invoke scope parameters).run.Served w t o w' →
      AnsweredBy (launchThen launch d) 0 (Act.calls t) →
      ((failuresOf reply).truthy = true → Act.calls t = [⟨.runTask request, none, w.now, launch⟩] ∧
        Act.events t = [] ∧ ∀ text, Json.encode (failuresOf reply) = .ok text →
          o = .error (launchFailed task.name text)) ∧
      ∀ text arn, Launches request text reply arn → ∃ earlier last,
        Act.calls t = ⟨.runTask request, none, w.now, launch⟩ :: (earlier ++ [last]) ∧
        (∀ c ∈ earlier ++ [last], c.call = .describeTasks (describeOf request arn) ∧ c.limit = none) ∧
        (∀ c ∈ earlier, ending? c.answer.outcome = none) ∧
        (ending? last.answer.outcome = some o ∨ ending? last.answer.outcome = none ∧
          (o = .error (Polling.exceeded task.timeout) ∨ ∃ e, o = .error e ∧ e.isFault = true)) ∧
        Act.events t = task.scheduledEvent [("parameters", .str text)] ::
          (if (earlier ++ [last]).any (reportsRunning ·.answer.outcome) then [task.startedEvent]
          else []) ∧
        (∀ times latest, Polling.Schedule (Polling.measuredPace task.timeout task.pollInterval)
            (w.now + launch.delay - w.began) times latest →
          latest ≤ Polling.rounds task.timeout task.pollInterval →
          EndsIn d (Polling.exceeded task.timeout) (latest + 1) (earlier.length + 1) o) ∧
        ∀ timeout interval : Nat, task.timeout = .int timeout → task.pollInterval = .int interval →
          0 < interval → w.now + launch.delay - w.began + timeout * 1000 < 2 ^ 47 →
          ∃ room, EndsIn d (Polling.exceeded task.timeout) room (earlier.length + 1) o ∧
            (room = timeout ⌈/⌉ interval + 1 ∨ room = timeout ⌈/⌉ interval + 1 + 1 ∧
              Polling.measuredPace task.timeout task.pollInterval (w.now + launch.delay - w.began)
                (w.now + launch.delay - w.began + timeout * 1000) = .ok (some 1)) := by
  refine ⟨?_, fun t o w' h hanswered => ?_⟩
  · obtain ⟨hserved, hanswered⟩ := Process.served_serve (launchThen launch d) 0
      (task.invoke scope parameters).run w
    exact ⟨_, _, _, hserved, hanswered⟩
  obtain ⟨found, t', w₁, rfl, hlater, hbegan₁, hrest⟩ := served_launch hsync hrequest h
  obtain rfl : found = launch := hanswered.1
  rw [hreply] at hrest
  replace hrest := Work.served_ofOutcome_bind.mp hrest
  dsimp only at hrest
  refine ⟨fun hfailed => ?_, fun text arn hlaunched => ?_⟩
  · obtain ⟨rfl, ho⟩ := served_failed hobject hfailed hrest
    exact ⟨rfl, rfl, ho⟩
  obtain ⟨t₁, w₂, hcalls, hevents, hnow₂, hbegan₂, hask⟩ := served_launched hobject hlaunched hrest
  -- What holds of all questions, whatever the clock shows.
  obtain ⟨⟨earlier, last, hsplit, hsame, hundone, hlast⟩, hstarted⟩ := served_questions hask
  refine ⟨earlier, last, ?_, hsame, hundone, hlast.imp_right fun ⟨hnone, hwhy⟩ =>
    ⟨hnone, hwhy.imp_right fun ⟨e, now, ho, hpace⟩ => ⟨e, ho, Polling.measuredPace_fault hpace⟩⟩,
    ?_, ?_⟩
  · rw [Act.calls_called, hcalls, hsplit]
  · rw [Act.events_called, hevents, hstarted, Bool.not_false, Bool.and_true, hsplit]
  -- Their number depends on the clock.
  have hfirst : w.now + found.delay - w.began = w₂.now - w₂.began := by
    rw [← hlater, ← hbegan₁, ← hnow₂, ← hbegan₂]
  rw [hfirst]
  have hends times latest (hschedule : Polling.Schedule
      (Polling.measuredPace task.timeout task.pollInterval) (w₂.now - w₂.began) times latest)
      (hlatest : latest ≤ Polling.rounds task.timeout task.pollInterval) :
      EndsIn d (Polling.exceeded task.timeout) (latest + 1) (earlier.length + 1) o := by
    obtain ⟨n, -, hn, hasked, hbefore, hends⟩ := served_scheduled_questions hschedule (fun _ => rfl)
      hschedule.start.symm (Nat.zero_le _) (by omega) (hlatest.trans (Nat.le_add_left _ _)) hask
      (hcalls ▸ hanswered.2 : AnsweredBy (launchThen found d) 1 (Act.calls t₁))
    have hcount : earlier.length = n := by
      have hsize := congrArg List.length (hsplit.symm.trans hasked)
      simpa using hsize
    rw [hcount]
    exact endsIn_of_first hn (fun j => hbefore j (Nat.zero_le j)) hends
  refine ⟨hends, fun timeout interval htimeout hinterval hpos hbound => ?_⟩
  rw [htimeout, hinterval] at hends ⊢
  obtain ⟨times, latest, hschedule, hlatest⟩ := Polling.exists_schedule_millis hpos hbound
  have hrounds := Polling.ceilDiv_lt_rounds hpos (show timeout < 2 ^ 53 by omega)
  refine ⟨latest + 1, hends times latest hschedule (by omega), ?_⟩
  rcases hlatest with rfl | ⟨rfl, hmoment⟩
  · exact .inl rfl
  · exact .inr ⟨rfl, hmoment⟩

/-! ## A short job -/

def jobParameters : Value := .obj [("TaskDefinition", .str "job")]

def jobRequest : Value := .obj [("taskDefinition", .str "job")]

def jobReply : Value := .obj [("tasks", .arr [.obj [("taskArn", .str "arn")]])]

def jobStatus (status : String) : Value :=
  .obj [("tasks", .arr [.obj [("lastStatus", .str status)]])]

def shortJob : Task := ⟨"Run", .null, .runTaskSync, "runTask.sync", .int 1000, .int 3000, none⟩

/-- The container has stopped when it is asked for the third time. -/
def slowStop : Nat → Outcome Value
  | 0 | 1 => .ok (jobStatus "PENDING")
  | _ => .ok (jobStatus "STOPPED")

theorem launchRequest_job : launchRequest jobParameters = .ok jobRequest := rfl

theorem ending?_slowStop : ∀ n < 2, ending? (slowStop n) = none
  | 0, _ | 1, _ => ending?_eq_none_iff.mpr ⟨_, _, rfl, rfl, rfl⟩

theorem schedule_shortJob :
    Polling.Schedule (Polling.measuredPace shortJob.timeout shortJob.pollInterval) 0
      (fun k => 0 * second + min (k * (3 * second)) (1 * second)) 1 :=
  Polling.schedule_seconds 1 3 0 (by decide) (by decide) (by decide) (by decide)

theorem launches_job : Launches jobRequest "\x7b\"taskDefinition\":\"job\"\x7d" jobReply (.str "arn") where
  hasText := rfl
  unfailed := rfl
  one := ⟨_, rfl, rfl⟩

theorem sync_attempt_shortJob :
    Launches jobRequest "\x7b\"taskDefinition\":\"job\"\x7d" jobReply (.str "arn") ∧
      ∃ t w', (shortJob.invoke default jobParameters).run.Served (World.create 0 .empty default) t
        (.error (Polling.exceeded (.int 1000))) w' ∧
        AnsweredBy (launchThen ⟨0, .ok jobReply⟩ slowStop) 0 (Act.calls t) ∧
        (Act.calls t).length = 3 := by
  refine ⟨launches_job, ?_⟩
  have hsync : shortJob.kind = .runTaskSync := rfl
  have hreply : (⟨0, .ok jobReply⟩ : Client.Answer).outcome = .ok jobReply := rfl
  have hbegan : (World.create 0 .empty default).began ≤ (World.create 0 .empty default).now := by decide
  obtain ⟨⟨t, o, w', hserved, hanswered⟩, hall⟩ :=
    sync_attempt hsync launchRequest_job hreply rfl slowStop default hbegan
  obtain ⟨earlier, last, hcalls, -, -, -, -, hscheduled, -⟩ :=
    (hall t o w' hserved hanswered).2 _ _ launches_job
  obtain ⟨hlength, rfl⟩ := (hscheduled _ _ schedule_shortJob (by decide +kernel)).late
    ending?_slowStop
  refine ⟨t, w', hserved, hanswered, ?_⟩
  rw [hcalls, List.length_cons, List.length_append, List.length_singleton, hlength]

/-- A launch that takes nine tenths of a second leaves so little of the timeout, as the floating clock
shows it, that a third question is asked after all of it has passed, and its answer ends the attempt. -/
theorem late_stop_succeeds :
    (∀ n < 2, ending? (slowStop n) = none) ∧
      ∃ t o w', (shortJob.invoke default jobParameters).run.Served (World.create 0 .empty default) t o
        w' ∧ AnsweredBy (launchThen ⟨900000, .ok jobReply⟩ slowStop) 0 (Act.calls t) ∧
        (Act.calls t).length = 1 + 3 ∧ o.isOk = true := by
  obtain ⟨hserved, hanswered⟩ := Process.served_serve (launchThen ⟨900000, .ok jobReply⟩ slowStop) 0
    (shortJob.invoke default jobParameters).run (World.create 0 .empty default)
  refine ⟨ending?_slowStop, _, _, _, hserved, hanswered, ?_, ?_⟩
  · decide +kernel
  · decide +kernel

end Task

end StatesLanguage
