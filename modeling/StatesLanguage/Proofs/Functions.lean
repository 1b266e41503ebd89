import StatesLanguage.Proofs.Answers
import StatesLanguage.Proofs.Faults
import StatesLanguage.Proofs.Policy
import StatesLanguage.Proofs.Seconds

/-!
# Attempts to invoke functions

An attempt either fails before the function is called, or makes one call and comes to what the answer
to that call says. A reply that is marked as failed fails the attempt under the name of the mark, unless
its payload cannot be read. An attempt ends early with a timeout only if the client says so.
-/

namespace StatesLanguage

namespace Value

theorem beq_thousand_zero : (Binary.ofInt 1000 == 0.0) = false := by decide +kernel

theorem floorDiv_thousand {v : Value} {n : Number} (hn : v.number? = some n) :
    ∃ q, v.floorDiv (.int 1000) = .ok q := by
  have hthousand : (Value.int 1000).number? = some (.int 1000) := rfl
  unfold floorDiv arith
  rw [hn, hthousand]
  cases n with
  | int m => exact ⟨_, rfl⟩
  | float x =>
    have hx : Number.toFloat (.float x) = .ok x := rfl
    simp only [Number.floorDiv, Number.lift, hx, toFloat_thousand, Outcome.ok_bind,
      Number.unlessZero, beq_thousand_zero, Bool.false_eq_true, if_false]
    exact ⟨_, rfl⟩

theorem div_of_floorDiv_thousand {v : Value} {e : Failure} (h : v.floorDiv (.int 1000) = .error e) :
    v.div (.int 1000) = .error e := by
  cases hn : v.number? with
  | none =>
    rw [floorDiv, arith, hn] at h
    rw [div, arith, hn]
    exact h
  | some n =>
    obtain ⟨q, hq⟩ := floorDiv_thousand hn
    rw [hq] at h
    cases h

end Value

theorem RetryPolicy.isFor_named {handler : Value} {names : List Value} {name : String}
    (hnames : handler.get? "ErrorEquals" = some (.arr names)) (hmem : .str name ∈ names) :
    isFor handler (.str name) = .ok true := by
  have hobject : handler.isObject = true := by
    cases handler <;> first | rfl | cases hnames
  have hholds : (Value.arr names).holds (.str name) = .ok true := by
    have hself : (Value.str name).same (.str name) = true := by simp [Value.same]
    rw [Value.holds, List.any_eq_true.mpr ⟨_, hmem, hself⟩]
  have htruthy : (Value.arr names).truthy = true := by
    cases names with
    | nil => cases hmem
    | cons => rfl
  rw [isFor, Value.memberOr_eq hobject, hnames, Outcome.ok_bind, Option.getD_some, errorMatches,
    htruthy, hholds]
  rfl

namespace Task

/-! ## Replies -/

/-- An error that says that a payload cannot be read: it is not UTF-8, or not JSON. -/
def IsUnreadable (e : Failure) : Prop := e.isFault = true ∨ ∃ text, e = .runtime text

theorem decodeText_error {text : String} {e : Failure} (h : decodeText text = .error e) :
    IsUnreadable e := by
  unfold decodeText at h
  split at h
  · cases h
  · split at h <;> cases h
    exact .inr ⟨_, rfl⟩

theorem decodePayload_error {payload : Value} {e : Failure} (h : decodePayload payload = .error e) :
    IsUnreadable e := by
  unfold decodePayload at h
  split at h
  · rcases Outcome.bind_eq_error.mp h with hbytes | ⟨text, -, htext⟩
    · exact .inl (Text.ofUtf8_fault hbytes)
    · exact decodeText_error htext
  · exact decodeText_error h
  · cases h

section

variable [Room]

omit [Room] in
theorem errorMessage_fault {result : Value} {e : Failure} (h : errorMessage result = .error e) :
    e.isFault = true := by
  unfold errorMessage at h
  split at h
  · cases h
  · cases htext : Json.encode result with
    | error e' =>
      rw [htext] at h
      cases h
      exact Json.write_fault htext
    | ok text =>
      rw [htext] at h
      cases h

omit [Room] in
theorem functionResult_error {reply : Value} {e : Failure} (h : functionResult reply = .error e) :
    e.kind? = none ∨ e.kind? = some .named := by
  have hfault {e : Failure} (h : e.isFault = true) : e.kind? = none := by
    cases e <;> first | rfl | cases h
  unfold functionResult at h
  rcases Outcome.bind_eq_error.mp h with hpayload | ⟨payload, -, h⟩
  · exact .inl (hfault (Value.memberOr_fault hpayload))
  rcases Outcome.bind_eq_error.mp h with hresult | ⟨result, -, h⟩
  · rcases decodePayload_error hresult with he | ⟨text, rfl⟩
    · exact .inl (hfault he)
    · exact .inr rfl
  rcases Outcome.bind_eq_error.mp h with hmark | ⟨mark, -, h⟩
  · exact .inl (hfault (Value.memberOr_fault hmark))
  dsimp only at h
  split at h
  · rcases Outcome.bind_eq_error.mp h with hmessage | ⟨message, -, h⟩
    · exact .inl (hfault (errorMessage_fault hmessage))
    · cases h
      exact .inr rfl
  · cases h

omit [Room] in
theorem functionResult_marked {reply : Value} {mark : String}
    (hmark : reply.get? "FunctionError" = some (.str mark)) (hgiven : mark ≠ "") :
    functionResult reply = (do
      let result ← decodePayload ((reply.get? "Payload").getD .null)
      .error (.states .named (.str mark) (← errorMessage result))) := by
  have hobject : reply.isObject = true := by
    cases reply <;> first | rfl | cases hmark
  have htruthy : (Value.str mark).truthy = true := by simpa [Value.truthy] using hgiven
  rw [functionResult, Value.memberOr_eq hobject, Value.memberOr_eq hobject, hmark]
  simp only [Outcome.ok_bind, Option.getD_some, htruthy, if_true, Failure.withName]
  rfl

end

/-! ## Runs -/

def limit (task : Task) : Outcome Int := do
  (← task.timeout.div (.int 1000)).micros second

def functionRequest (task : Task) (payload : String) : Value :=
  .obj [("FunctionName", .str task.resource), ("Payload", .str payload)]

/-- What comes back of a call that may take so long. -/
def heard (limit : Nat) (answer : Client.Answer) : Outcome Value :=
  if answer.delay < limit then
    match answer.outcome with
    | .error (.client "TimeoutError" _) => .error timedOut
    | outcome => outcome
  else .error timedOut

variable {task : Task} {scope : Scope} {parameters request : Value} {w w' : World} {t : List Act}
  {o : Outcome Value} {micros : Int}

theorem limit_cases (task : Task) :
    (∃ micros, task.limit = .ok micros) ∨ ∃ e, task.limit = .error e ∧ e.isFault = true := by
  unfold limit
  rcases task.timeout.div_cases (.int 1000) with ⟨x, hx⟩ | ⟨e, he, hfault⟩
  · obtain ⟨micros, hmicros⟩ := Value.micros_float second x
    exact .inl ⟨micros, by rw [hx, Outcome.ok_bind, hmicros]⟩
  · exact .inr ⟨e, by rw [he]; rfl, hfault⟩

theorem limit_fault {e : Failure} (h : task.limit = .error e) : e.isFault = true := by
  rcases task.limit_cases with ⟨micros, hmicros⟩ | ⟨e', he, hfault⟩
  · rw [hmicros] at h
    cases h
  · rw [he] at h
    cases h
    exact hfault

theorem limit_of_seconds {seconds : Nat} (hpositive : 0 < seconds) (hbound : seconds < Nat.pow 2 53)
    (h : task.timeout = .int ((seconds * 1000 : Nat) : Int)) :
    task.limit = .ok ((seconds * second : Nat) : Int) := by
  rw [limit, h, Value.div_thousand_of_seconds hpositive hbound, Outcome.ok_bind,
    Value.micros_of_seconds hpositive hbound]

section

variable [Room]

theorem served_call_last {c : Client.Call} {next : Option (Outcome Value) → Work Value}
    {heard : Client.Answer → Outcome Value}
    (hheard : ∀ answer, next (Scheduler.limited answer (some micros.toNat)).2 =
      Work.ofOutcome (heard answer)) :
    (Work.await (.call c (some micros.toNat)) >>= next).run.Served w t o w' ↔
      ∃ answer, t = [.called ⟨c, some micros.toNat, w.now, answer⟩] ∧
        w'.now = w.now + min answer.delay micros.toNat ∧ w'.began = w.began ∧ o = heard answer := by
  refine Work.served_call_bind.trans (exists_congr fun answer => ?_)
  rw [hheard, Scheduler.limited_time]
  constructor
  · rintro ⟨w₁, t', rfl, later, began, rest⟩
    obtain ⟨rfl, rfl, rfl⟩ := Work.served_ofOutcome.mp rest
    exact ⟨rfl, later, began, rfl⟩
  · rintro ⟨rfl, later, began, rfl⟩
    exact ⟨w', [], rfl, later, began, Work.served_ofOutcome.mpr ⟨rfl, rfl, rfl⟩⟩

theorem served_callFunction (hpositive : 0 < micros) :
    (callFunction request micros).run.Served w t o w' ↔
      ∃ answer, t = [.called ⟨.invoke request, some micros.toNat, w.now, answer⟩] ∧
        w'.now = w.now + min answer.delay micros.toNat ∧ w'.began = w.began ∧
        o = heard micros.toNat answer := by
  rw [callFunction, if_neg (not_le.mpr hpositive)]
  refine served_call_last fun answer => ?_
  unfold heard
  rcases lt_or_ge answer.delay micros.toNat with hintime | hlate
  · rw [Scheduler.limited_of_lt hintime, if_pos hintime]
    dsimp only
    split
    · rename_i h
      cases h
    · rename_i h
      rw [Option.some.inj h]
      rfl
    · rename_i o hother h
      cases h
      split
      · rename_i text hclient
        exact absurd hclient (hother text)
      · rfl
  · rw [Scheduler.limited_of_le hlate, if_neg (not_lt.mpr hlate)]
    rfl

theorem served_callFunction_late (hpast : micros ≤ 0)
    (h : (callFunction request micros).run.Served w t o w') :
    t = [] ∧ o = .error timedOut ∧ w'.now = w.now := by
  rw [callFunction, if_pos hpast] at h
  obtain ⟨w₁, hnow, -, h⟩ := Work.served_sleep_bind.mp h
  obtain ⟨rfl, rfl, rfl⟩ := Work.served_throw.mp h
  exact ⟨rfl, rfl, hnow⟩

/-- How an attempt goes: it fails before the function is called, its time is over by then, or it makes
one call and comes to what it hears. -/
inductive Invoked (task : Task) (parameters : Value) (w w' : World) : List Called → Outcome Value → Prop
  | unsent {e : Failure}
      (cause : Json.encode parameters = .error e ∨ (∃ e', task.limit = .error e') ∧ e.isFault = true)
      (now : w'.now = w.now) : Invoked task parameters w w' [] (.error e)
  | overdue {micros : Int} (given : task.limit = .ok micros) (past : micros ≤ 0)
      (now : w'.now = w.now) : Invoked task parameters w w' [] (.error timedOut)
  | sent {payload : String} {micros : Int} (encoded : Json.encode parameters = .ok payload)
      (given : task.limit = .ok micros) (positive : 0 < micros) (answer : Client.Answer)
      (now : w'.now = w.now + min answer.delay micros.toNat) :
      Invoked task parameters w w'
        [⟨.invoke (task.functionRequest payload), some micros.toNat, w.now, answer⟩]
        (heard micros.toNat answer >>= functionResult)

theorem invoked_of_served (hfunction : task.kind = .function)
    (h : (task.invoke scope parameters).run.Served w t o w') :
    task.Invoked parameters w w' (Act.calls t) o := by
  have hinvoke : task.invoke scope parameters = task.runFunction scope parameters := by
    rw [invoke, hfunction]
  rw [hinvoke, runFunction] at h
  replace h := Work.served_ofOutcome_bind.mp h
  cases hpayload : Json.encode parameters with
  | error e =>
    rw [hpayload] at h
    obtain ⟨rfl, rfl, rfl⟩ := h
    exact .unsent (.inl hpayload) rfl
  | ok payload =>
  rw [hpayload] at h
  replace h := Work.served_ofOutcome_bind.mp h
  -- The seconds are worked out twice, rounded for the record and exactly for the call.
  cases hseconds : task.timeout.floorDiv (.int 1000) with
  | error e =>
    rw [hseconds] at h
    obtain ⟨rfl, rfl, rfl⟩ := h
    have hquotient := Value.div_of_floorDiv_thousand hseconds
    have hlimit : task.limit = .error e := by rw [limit, hquotient]; rfl
    exact .unsent (.inr ⟨⟨e, hlimit⟩, limit_fault hlimit⟩) rfl
  | ok seconds =>
  rw [hseconds] at h
  replace h := Work.served_bind.mp h
  rcases h with ⟨t₀, t', ⟨⟩, w₀, rfl, hvalues, h⟩ | ⟨e, rfl, hvalues⟩
  swap
  · -- What cannot be told has no exact seconds either.
    obtain ⟨hnoted, hdisplay⟩ := Work.served_recordValues hvalues
    have huntold := hdisplay e rfl
    have hlimit : ∃ e', task.limit = .error e' := by
      rcases task.limit_cases with ⟨micros, hmicros⟩ | ⟨e', he', -⟩
      · obtain ⟨quotient, hquotient, -⟩ := Outcome.bind_eq_ok.mp hmicros
        obtain ⟨text, htext⟩ := Value.display_floorDiv_thousand hseconds hquotient
        obtain ⟨shown, hdetails⟩ := task.display_scheduled payload hseconds htext
        rw [hdetails] at huntold
        cases huntold
      · exact ⟨e', he'⟩
    rw [hnoted.calls]
    exact .unsent (.inr ⟨hlimit, Value.display_fault huntold⟩) hnoted.now
  obtain ⟨hscheduled, -⟩ := Work.served_recordValues hvalues
  obtain ⟨t₁, t', w₁, rfl, hcounted, h⟩ := Work.served_noted_bind served_count h
  obtain ⟨t₂, t₃, w₂, rfl, hstarted, h⟩ := Work.served_noted_bind served_started h
  have hnow : w₂.now = w.now := hstarted.now.trans (hcounted.now.trans hscheduled.now)
  rw [Act.calls_append, Act.calls_append, Act.calls_append, hscheduled.calls, hcounted.calls,
    hstarted.calls, List.nil_append, List.nil_append, List.nil_append]
  have hlimit {f : Int → Work Value} :
      (Work.ofOutcome (task.timeout.div (.int 1000)) >>= fun quotient =>
        Work.ofOutcome (quotient.micros second) >>= f) = Work.ofOutcome task.limit >>= f := by
    rw [limit]
    cases task.timeout.div (.int 1000) <;> rfl
  rw [hlimit] at h
  replace h := Work.served_ofOutcome_bind.mp h
  cases hmicros : task.limit with
  | error e =>
    rw [hmicros] at h
    obtain ⟨rfl, rfl, rfl⟩ := h
    exact .unsent (.inr ⟨⟨_, hmicros⟩, limit_fault hmicros⟩) hnow
  | ok micros =>
  rw [hmicros] at h
  obtain ⟨told, hcall, rfl⟩ := Work.served_then.mp h
  rcases lt_or_ge 0 micros with hpositive | hpast
  · obtain ⟨answer, rfl, hlater, -, rfl⟩ := (served_callFunction hpositive).mp hcall
    rw [hnow] at hlater
    rw [hnow]
    exact .sent hpayload hmicros hpositive answer hlater
  · obtain ⟨rfl, rfl, hlater⟩ := served_callFunction_late hpast hcall
    exact .overdue hmicros hpast (hlater.trans hnow)

theorem exists_served (task : Task) (scope : Scope) (parameters : Value) (w : World)
    (answer : Client.Answer) :
    ∃ t o w', (task.invoke scope parameters).run.Served w t o w' ∧
      ∀ c ∈ Act.calls t, c.answer = answer := by
  obtain ⟨hserved, hanswered⟩ :=
    Process.served_serve (fun _ => answer) 0 (task.invoke scope parameters).run w
  exact ⟨_, _, _, hserved, hanswered.forall_mem fun _ => rfl⟩

theorem calls_of_sendable (hfunction : task.kind = .function) {payload : String}
    (hpayload : Json.encode parameters = .ok payload) {limit : Nat} (hlimit : task.limit = .ok ↑limit)
    (hpositive : 0 < limit) (h : (task.invoke scope parameters).run.Served w t o w') :
    ∃ answer, Act.calls t = [⟨.invoke (task.functionRequest payload), some limit, w.now, answer⟩] ∧
      w'.now = w.now + min answer.delay limit ∧ o = heard limit answer >>= functionResult := by
  have hinvoked := invoked_of_served hfunction h
  generalize Act.calls t = calls at hinvoked
  cases hinvoked with
  | unsent cause now =>
    rw [hpayload, hlimit] at cause
    rcases cause with hno | ⟨⟨e', hno⟩, -⟩ <;> cases hno
  | overdue given past =>
    rw [hlimit] at given
    cases given
    omega
  | sent encoded given positive answer now =>
    rw [hpayload] at encoded
    rw [hlimit] at given
    cases encoded
    cases given
    exact ⟨answer, rfl, now, rfl⟩

theorem exists_sent (hfunction : task.kind = .function) {payload : String}
    (hpayload : Json.encode parameters = .ok payload) {limit : Nat} (hlimit : task.limit = .ok ↑limit)
    (hpositive : 0 < limit) (scope : Scope) (w : World) (answer : Client.Answer) :
    ∃ t w', (task.invoke scope parameters).run.Served w t (heard limit answer >>= functionResult) w' ∧
      Act.calls t = [⟨.invoke (task.functionRequest payload), some limit, w.now, answer⟩] ∧
      w'.now = w.now + min answer.delay limit := by
  obtain ⟨t, o, w', hserved, hanswered⟩ := task.exists_served scope parameters w answer
  obtain ⟨found, hcalls, hnow, rfl⟩ := calls_of_sendable hfunction hpayload hlimit hpositive hserved
  obtain rfl : found = answer := hanswered _ (by rw [hcalls]; exact List.mem_singleton_self _)
  exact ⟨t, w', hserved, hcalls, hnow⟩

end

/-! ## Timeouts -/

/-- Whether a client's error is of the kind that also the end of a wait has. -/
def RaisesTimeout (answer : Client.Answer) : Prop :=
  ∃ text, answer.outcome = .error (.client "TimeoutError" text)

theorem heard_eq {limit : Nat} {answer : Client.Answer} (hintime : answer.delay < limit)
    (hother : ¬RaisesTimeout answer) : heard limit answer = answer.outcome := by
  unfold heard
  rw [if_pos hintime]
  split
  · exact absurd ⟨_, ‹_›⟩ hother
  · rfl

theorem heard_of_raisesTimeout {limit : Nat} {answer : Client.Answer} (h : RaisesTimeout answer) :
    heard limit answer = .error timedOut := by
  obtain ⟨text, htext⟩ := h
  unfold heard
  rw [htext]
  split <;> rfl

theorem heard_late {limit : Nat} {answer : Client.Answer} (hlate : limit ≤ answer.delay) :
    heard limit answer = .error timedOut :=
  if_neg (not_lt.mpr hlate)

/-- An attempt ends with a timeout only when its time is over, unless the client raises an error of that
kind. An answer in time decides. -/
theorem invoke_in_time [Room] (hfunction : task.kind = .function)
    (hpositive : ∀ micros, task.limit = .ok micros → 0 < micros) (scope : Scope) (parameters : Value)
    (w : World) :
    (∀ seconds : Nat, 0 < seconds → seconds < Nat.pow 2 53 →
      task.timeout = .int ((seconds * 1000 : Nat) : Int) →
      task.limit = .ok ((seconds * second : Nat) : Int)) ∧
    (∀ answer, ∃ t o w', (task.invoke scope parameters).run.Served w t o w' ∧
      ∀ c ∈ Act.calls t, c.answer = answer) ∧
    ∀ t o w', (task.invoke scope parameters).run.Served w t o w' →
      (Act.calls t = [] → ∃ e, o = .error e ∧ e.isFault = true) ∧
      ∀ c ∈ Act.calls t, Act.calls t = [c] ∧ c.time = w.now ∧ ∃ limit : Nat,
        task.limit = .ok (limit : Int) ∧
        (∀ e, o = .error e → e.kind? = some .timeout →
          c.time + limit ≤ w'.now ∨ RaisesTimeout c.answer ∨ c.answer.outcome = .error e) ∧
        (c.answer.delay < limit → w'.now = c.time + c.answer.delay ∧
          (¬RaisesTimeout c.answer → o = c.answer.outcome >>= functionResult) ∧
          (RaisesTimeout c.answer → o = .error timedOut)) ∧
        (limit ≤ c.answer.delay → w'.now = c.time + limit ∧ o = .error timedOut) := by
  refine ⟨fun _ => limit_of_seconds, task.exists_served scope parameters w, fun t o w' h => ?_⟩
  have hinvoked := invoked_of_served hfunction h
  generalize Act.calls t = calls at hinvoked
  cases hinvoked with
  | unsent cause now => exact ⟨fun _ => ⟨_, rfl, cause.elim Json.write_fault And.right⟩, nofun⟩
  | overdue given past => exact absurd (hpositive _ given) (not_lt.mpr past)
  | sent encoded given positive answer now =>
    rename_i payload micros
    refine ⟨nofun, fun c hc => ?_⟩
    obtain rfl := List.mem_singleton.mp hc
    dsimp only
    refine ⟨rfl, rfl, micros.toNat, ?_, fun e he hkind => ?_, fun hintime => ?_, fun hlate => ?_⟩
    · rw [Int.toNat_of_nonneg positive.le]
      exact given
    · rcases lt_or_ge answer.delay micros.toNat with hintime | hlate
      · by_cases hraises : RaisesTimeout answer
        · exact .inr (.inl hraises)
        · rw [heard_eq hintime hraises] at he
          rcases Outcome.bind_eq_error.mp he with houtcome | ⟨reply, -, hreply⟩
          · exact .inr (.inr houtcome)
          · -- No error that is read out of a reply is a timeout.
            rcases functionResult_error hreply with hnone | hnamed
            · rw [hnone] at hkind
              cases hkind
            · rw [hnamed] at hkind
              cases hkind
      · exact .inl (by omega)
    · refine ⟨by omega, fun hraises => ?_, fun hraises => ?_⟩
      · rw [heard_eq hintime hraises]
      · rw [heard_of_raisesTimeout hraises]
        rfl
    · refine ⟨by omega, ?_⟩
      rw [heard_late hlate]
      rfl

def greeting : Task :=
  ⟨"Greet", .null, .function, "greet", .int 5000, .int 3000, none⟩

theorem limit_greeting : greeting.limit = .ok (5000000 : Nat) :=
  limit_of_seconds (show 0 < 5 by decide) (by decide) rfl

theorem encode_null : Json.encode .null = .ok "null" := rfl

def greetingAnswer : Client.Answer :=
  ⟨4000000, .ok (.obj [("Payload", .str "\"hi\"")])⟩

theorem invoke_in_time_greeting :
    (∀ micros, greeting.limit = .ok micros → 0 < micros) ∧
      ∃ t w', (greeting.invoke default .null).run.Served (World.create 0 .empty default) t
        (.ok (.str "hi")) w' ∧ w'.now = 4000000 := by
  have hpositive : ∀ micros, greeting.limit = .ok micros → 0 < micros := by
    intro micros h
    rw [limit_greeting] at h
    cases h
    decide
  obtain ⟨t, w', hserved, hcalls, -⟩ := exists_sent rfl encode_null limit_greeting (by decide)
    default (World.create 0 .empty default) greetingAnswer
  obtain ⟨-, -, hall⟩ :=
    invoke_in_time rfl hpositive default .null (World.create 0 .empty default)
  obtain ⟨-, -, limit, hlimit, -, hintime, -⟩ :=
    (hall t _ w' hserved).2 _ (hcalls ▸ List.mem_singleton_self _)
  rw [limit_greeting] at hlimit
  cases hlimit
  obtain ⟨hnow, hanswer, -⟩ := hintime (by decide)
  have hresult : greetingAnswer.outcome >>= functionResult = .ok (.str "hi") := rfl
  rw [hanswer (by rintro ⟨text, ⟨⟩⟩), hresult] at hserved
  exact ⟨hpositive, t, w', hserved, hnow⟩

/-- A client that fails after one of five seconds, with an error of the kind that also the end of a wait
has, makes the attempt a timeout. -/
theorem early_failure_times_out :
    greeting.limit = .ok (5000000 : Nat) ∧
      ∃ t w', (greeting.invoke default .null).run.Served (World.create 0 .empty default) t
        (.error timedOut) w' ∧
        (∀ c ∈ Act.calls t, c.answer = ⟨1000000, .error (.client "TimeoutError" "connect")⟩) ∧
        w'.now = 1000000 := by
  obtain ⟨t, w', hserved, hcalls, hnow⟩ := exists_sent rfl encode_null limit_greeting (by decide)
    default (World.create 0 .empty default) ⟨1000000, .error (.client "TimeoutError" "connect")⟩
  rw [heard_of_raisesTimeout ⟨"connect", rfl⟩] at hserved
  refine ⟨limit_greeting, t, w', hserved, fun c hc => ?_, ?_⟩
  · rw [hcalls] at hc
    obtain rfl := List.mem_singleton.mp hc
    rfl
  · rw [hnow, min_eq_left (by decide)]
    rfl

/-! ## Marked replies -/

/-- A reply that is marked as failed fails the attempt under the name of the mark, with the message of
the function if it has one, unless its payload cannot be read. -/
theorem marked_reply_fails [Room] (hfunction : task.kind = .function) {payload : String}
    (hpayload : Json.encode parameters = .ok payload) {limit : Nat} (hlimit : task.limit = .ok ↑limit)
    {answer : Client.Answer} (hintime : answer.delay < limit) {reply : Value}
    (hreply : answer.outcome = .ok reply) {mark : String}
    (hmark : reply.get? "FunctionError" = some (.str mark)) (hgiven : mark ≠ "") (scope : Scope)
    (w : World) :
    (∃ t o w', (task.invoke scope parameters).run.Served w t o w' ∧
      ∀ c ∈ Act.calls t, c.answer = answer) ∧
    ∀ t o w', (task.invoke scope parameters).run.Served w t o w' →
      (∀ c ∈ Act.calls t, c.answer = answer) →
      Act.calls t = [⟨.invoke (task.functionRequest payload), some limit, w.now, answer⟩] ∧
      (∀ e, decodePayload ((reply.get? "Payload").getD .null) = .error e →
        o = .error e ∧ IsUnreadable e) ∧
      ∀ result, decodePayload ((reply.get? "Payload").getD .null) = .ok result →
        (∀ e, errorMessage result = .error e → o = .error e ∧ e.isFault = true) ∧
        (∀ message, errorMessage result = .ok message →
          o = .error (.states .named (.str mark) message) ∧
          (mark ≠ "States.Runtime" → (Failure.states .named (.str mark) message).isRuntime = false)) ∧
        (∀ given, result.get? "errorMessage" = some given → errorMessage result = .ok given) ∧
        ∀ handler names, handler.get? "ErrorEquals" = some (.arr names) → .str mark ∈ names →
          RetryPolicy.isFor handler (.str mark) = .ok true := by
  refine ⟨task.exists_served scope parameters w answer, fun t o w' h hanswered => ?_⟩
  obtain ⟨found, hcalls, -, rfl⟩ :=
    calls_of_sendable hfunction hpayload hlimit (Nat.zero_lt_of_lt hintime) h
  obtain rfl : found = answer := hanswered _ (by rw [hcalls]; exact List.mem_singleton_self _)
  have hnoraise : ¬RaisesTimeout found := by
    rintro ⟨text, htext⟩
    rw [hreply] at htext
    cases htext
  rw [heard_eq hintime hnoraise, hreply, Outcome.ok_bind, functionResult_marked hmark hgiven]
  refine ⟨hcalls, fun e he => ?_, fun result hresult => ⟨fun e he => ?_, fun message hmessage => ?_,
    fun given hmember => ?_, fun handler names => RetryPolicy.isFor_named⟩⟩
  · rw [he]
    exact ⟨rfl, decodePayload_error he⟩
  · rw [hresult, Outcome.ok_bind, he]
    exact ⟨rfl, errorMessage_fault he⟩
  · rw [hresult, Outcome.ok_bind, hmessage]
    refine ⟨rfl, fun hne => ?_⟩
    simp [Failure.isRuntime, Failure.name, Failure.kind?, ErrorKind.isConfiguration, hne]
  · rw [errorMessage, hmember]

def unnamedReply : Value :=
  .obj [("Payload", .str "\x7b\"errorMessage\":\"no name\"\x7d"), ("FunctionError", .str "Unhandled")]

theorem marked_reply_fails_unnamed :
    unnamedReply.get? "FunctionError" = some (.str "Unhandled") ∧
      ∃ t w', (greeting.invoke default .null).run.Served (World.create 0 .empty default) t
        (.error (.states .named (.str "Unhandled") (.str "no name"))) w' ∧ (Act.calls t).length = 1 := by
  let answer : Client.Answer := ⟨0, .ok unnamedReply⟩
  have hintime : answer.delay < 5000000 := by decide
  have hfunction : greeting.kind = .function := rfl
  obtain ⟨⟨t, o, w', hserved, hanswered⟩, hall⟩ := marked_reply_fails hfunction encode_null
    limit_greeting hintime rfl rfl (by decide) default (World.create 0 .empty default)
  obtain ⟨hcalls, -, hread⟩ := hall t o w' hserved hanswered
  have hmessage : (decodePayload ((unnamedReply.get? "Payload").getD .null) >>=
      errorMessage).toOption.bind Value.asString? = some "no name" := by decide +kernel
  cases hresult : decodePayload ((unnamedReply.get? "Payload").getD .null) with
  | error e =>
    rw [hresult] at hmessage
    cases hmessage
  | ok result =>
    obtain ⟨-, hnamed, -⟩ := hread result hresult
    rw [hresult, Outcome.ok_bind] at hmessage
    cases hgiven : errorMessage result with
    | error e =>
      rw [hgiven] at hmessage
      cases hmessage
    | ok message =>
      rw [hgiven] at hmessage
      obtain rfl : message = .str "no name" := by
        cases message with
        | str s => exact congrArg Value.str (Option.some.inj hmessage)
        | _ => cases hmessage
      obtain ⟨rfl, -⟩ := hnamed _ hgiven
      exact ⟨rfl, t, w', hserved, by rw [hcalls]; rfl⟩

/-- A reply whose payload is no JSON is not read as far as its mark. -/
def unreadableReply : Value :=
  .obj [("Payload", .str "oops"), ("FunctionError", .str "Unhandled")]

theorem unreadable_reply_loses_mark :
    ∃ t o w', (greeting.invoke default .null).run.Served (World.create 0 .empty default) t o w' ∧
      (∀ c ∈ Act.calls t, c.answer = ⟨0, .ok unreadableReply⟩) ∧
      ∀ e, o = .error e → e.name ≠ .str "Unhandled" := by
  obtain ⟨t, w', hserved, hcalls, -⟩ := exists_sent rfl encode_null limit_greeting (by decide)
    default (World.create 0 .empty default) ⟨0, .ok unreadableReply⟩
  have hresult : functionResult unreadableReply =
      .error (.runtime "Response oops does not contain valid JSON") := rfl
  have hheard : heard 5000000 ⟨0, .ok unreadableReply⟩ = .ok unreadableReply := if_pos (by decide)
  rw [hheard, Outcome.ok_bind, hresult] at hserved
  refine ⟨t, _, w', hserved, fun c hc => ?_, fun e he => ?_⟩
  · rw [hcalls] at hc
    obtain rfl := List.mem_singleton.mp hc
    rfl
  · cases he
    simp [Failure.runtime, Failure.name]

end Task

end StatesLanguage
