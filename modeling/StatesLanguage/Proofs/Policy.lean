import Mathlib.Order.Basic
import Mathlib.Order.Monotone.Basic
import StatesLanguage.Proofs.Texts
import StatesLanguage.RetryPolicy

/-!
# Policies of retriers and catchers

What is done about an error is decided by the first retrier that is for it and, once that allows no
other attempt, by the first catcher that is. How many attempts a retrier allows, and after which
delays, can be read off its numbers.
-/

namespace StatesLanguage

namespace Value

theorem Number.compare_beq_lt (m n : Int) :
    (some (compare m n) == some Ordering.lt) = decide (m < n) := by
  change (some (if m < n then Ordering.lt else if m = n then .eq else .gt) == _) = _
  split
  · simp_all
  · split <;> simp_all

theorem Number.compare_beq_eq (m n : Int) :
    (some (compare m n) == some Ordering.eq) = decide (m = n) := by
  change (some (if m < n then Ordering.lt else if m = n then .eq else .gt) == _) = _
  split
  · rename_i hlt
    simp [Int.ne_of_lt hlt]
  · split <;> simp_all

theorem notAfter_int (m n : Int) : (Value.int m).notAfter (.int n) = .ok (decide (m ≤ n)) := by
  simp only [notAfter, number?, Number.lessEqual, Number.less, Number.equal, Number.order?,
    Number.compare_beq_lt, Number.compare_beq_eq, Int.le_iff_lt_or_eq, Bool.decide_or]

theorem ratio_one : Binary.ratio? 1.0 = some (4503599627370496, 4503599627370496) := by
  decide +kernel

theorem int_before_one (n : Int) : (Value.int n).before (.float 1.0) = .ok (decide (n < 1)) := by
  simp only [before, number?, Number.less, Number.order?, Number.ratio?, ratio_one,
    Number.compare_beq_lt]
  congr 2
  rw [eq_iff_iff]
  omega

theorem int_mul_int (m n : Int) : (Value.int m).mul (.int n) = .ok (.int (m * n)) := rfl

theorem int_pow_int (m : Int) (n : Nat) : (Value.int m).pow (.int n) = .ok (.int (Int.pow m n)) := by
  simp only [pow, arith, number?, Number.pow, Number.intPower_eq]
  rfl

theorem memberOr_eq {v : Value} (h : v.isObject = true) (key : String) (default : Value) :
    v.memberOr key default = .ok ((v.get? key).getD default) := by
  cases v with
  | obj members => rfl
  | _ => cases h

end Value

/-! ## Results that cannot be put in their place -/

namespace Reference

theorem place_error {key : String} {size : Nat} {f : Failure} (h : place key size = .error f) :
    f.kind? = some .resultPathMatch := by
  unfold place at h
  dsimp only at h
  split at h
  · cases h
    rfl
  · split at h
    · cases h
      rfl
    · repeat' split at h
      all_goals cases h
      all_goals rfl

theorem inject_error {room : Nat} {keys : List String} {target value : Value} {f : Failure}
    (h : inject room keys target value = .error f) :
    f.kind? = some .resultPathMatch ∨ f = tooDeep ∧ room < keys.length := by
  fun_induction inject room keys target value with
  | case1 => cases h
  | case2 key rest =>
    cases h
    exact .inr ⟨rfl, by simp⟩
  | case3 room key rest members value child ih =>
    rcases Outcome.bind_eq_error.mp h with h | ⟨_, _, h⟩
    · rcases ih h with hkind | ⟨rfl, hroom⟩
      · exact .inl hkind
      · exact .inr ⟨rfl, Nat.succ_lt_succ hroom⟩
    · cases h
  | case4 room key rest items value ih =>
    rcases Outcome.bind_eq_error.mp h with h | ⟨i, -, h⟩
    · exact .inl (place_error h)
    · rcases Outcome.bind_eq_error.mp h with h | ⟨_, _, h⟩
      · rcases ih i h with hkind | ⟨rfl, hroom⟩
        · exact .inl hkind
        · exact .inr ⟨rfl, Nat.succ_lt_succ hroom⟩
      · cases h
  | case5 =>
    cases h
    exact .inl rfl

/-- Why a result cannot be put at a path, although it may name a place in the input. -/
inductive Refused [Room] (raw path : Value) : Failure → Prop
  | deepInput (h : Room.copies < raw.levels) : Refused raw path tooDeep
  | longPath (text : String) (hpath : path = .str text) (h : Room.levels < (keys text).length) :
      Refused raw path tooDeep
  /-- The path is no text and has none. -/
  | untold (f : Failure) (h : path.display = .error f) : Refused raw path f

theorem combine_error [Room] {raw path result : Value} {f : Failure}
    (h : combine raw path result = .error f) :
    f.kind? = some .resultPathMatch ∨ Refused raw path f := by
  unfold combine at h
  split at h
  · cases h
  · cases h
  · rename_i text hroot
    split at h
    · cases h
      exact .inl rfl
    · split at h
      · exact (inject_error h).imp_right fun ⟨hdeep, hroom⟩ => hdeep ▸ .longPath text rfl hroom
      · rcases Outcome.bind_eq_error.mp h with h | ⟨target, -, h⟩
        · unfold Nesting.copied at h
          split at h
          · cases h
            exact .inr (.deepInput ‹_›)
          · cases h
        · exact (inject_error h).imp_right fun ⟨hdeep, hroom⟩ => hdeep ▸ .longPath text rfl hroom
    · cases h
      exact .inl rfl
  · cases h
    rcases Failure.telling_cases path.display fun path =>
      mismatch ("ResultPath " ++ path ++ " must be a Reference Path") with ⟨t, -, ht⟩ | ⟨f, hf, ht⟩
    · exact .inl (by rw [ht]; rfl)
    · exact .inr (ht ▸ .untold f hf)

end Reference

namespace RetryPolicy

/-! ## Which errors a handler is for -/

def namesOf (handler : Value) : List String :=
  match handler.get? "ErrorEquals" with
  | some (.arr names) => names.filterMap Value.asString?
  | _ => []

/-- Whether a handler names an error: by its name, as one of all errors, or, if it is no timeout, as
one of a failed task. -/
def covers (handler name : Value) : Bool :=
  (namesOf handler).any (fun n => name.same (.str n)) || (namesOf handler).contains "States.ALL" ||
    (namesOf handler).contains "States.TaskFailed" && !name.same (.str "States.Timeout")

/-- A retrier or catcher that lists the names of errors. -/
structure IsHandler (v : Value) : Prop where
  isObject : v.isObject = true
  names : ∃ names : List String, v.get? "ErrorEquals" = some (.arr (names.map .str))

variable {handler name raw : Value} {handlers retriers catchers : List Value} {e : Failure}

theorem IsHandler.isFor_eq (h : IsHandler handler) (name : Value) :
    isFor handler name = .ok (covers handler name) := by
  obtain ⟨names, hnames⟩ := h.names
  have hlist : namesOf handler = names := by
    simp [namesOf, hnames, List.filterMap_map, Function.comp_def, Value.asString?]
  have hown : (Value.arr (names.map .str)).holds name =
      .ok (names.any fun n => name.same (.str n)) := by
    rw [Value.holds, List.any_map]
    rfl
  have hlisted (s : String) : (Value.arr (names.map .str)).holds (.str s) = .ok (names.contains s) := by
    rw [Value.holds, List.any_map, ← List.any_beq]
    rfl
  unfold isFor
  rw [Value.memberOr_eq h.isObject, hnames, Outcome.ok_bind, Option.getD_some, errorMatches, covers,
    hlist, hown, hlisted, hlisted]
  cases names with
  | nil => rfl
  | cons first rest =>
    simp only [Value.truthy, List.map_cons, List.isEmpty_cons, Bool.not_false, Bool.not_true,
      Bool.false_eq_true, if_false, Outcome.ok_bind]
    cases (first :: rest).any fun n => name.same (.str n)
    · cases (first :: rest).contains "States.ALL"
      · cases (first :: rest).contains "States.TaskFailed" <;> rfl
      · rfl
    · rfl

theorem firstFor_eq (h : ∀ x ∈ handlers, IsHandler x) (name : Value) :
    firstFor name handlers = .ok (handlers.find? (covers · name)) := by
  induction handlers with
  | nil => rfl
  | cons handler rest ih =>
    rw [firstFor, (h handler List.mem_cons_self).isFor_eq, Outcome.ok_bind, List.find?_cons,
      ih fun x hx => h x (List.mem_cons_of_mem _ hx)]
    cases covers handler name <;> rfl

/-! ## The numbers of a retrier -/

/-- A whole number that a retrier gives, or else the one that it stands for if it gives none. -/
def wholeOf (retrier : Value) (key : String) (default : Int) : Int :=
  match retrier.get? key with
  | some (.int n) => n
  | _ => default

def mostOf (retrier : Value) : Int :=
  wholeOf retrier "MaxAttempts" 3

def intervalOf (retrier : Value) : Nat :=
  (wholeOf retrier "IntervalSeconds" 1).toNat

/-- A retrier with a whole number of attempts and a whole interval that is not negative. -/
structure IsRetrier (v : Value) : Prop extends IsHandler v where
  most : v.get? "MaxAttempts" = none ∨ ∃ n : Int, v.get? "MaxAttempts" = some (.int n)
  interval : v.get? "IntervalSeconds" = none ∨ ∃ n : Nat, v.get? "IntervalSeconds" = some (.int n)

theorem IsRetrier.get_most (h : IsRetrier handler) :
    (handler.get? "MaxAttempts").getD (.int 3) = .int (mostOf handler) := by
  rcases h.most with hnone | ⟨n, hn⟩
  · simp [mostOf, wholeOf, hnone]
  · simp [mostOf, wholeOf, hn]

theorem IsRetrier.get_interval (h : IsRetrier handler) :
    (handler.get? "IntervalSeconds").getD (.int 1) = .int (intervalOf handler) := by
  rcases h.interval with hnone | ⟨n, hn⟩
  · simp [intervalOf, wholeOf, hnone]
  · simp [intervalOf, wholeOf, hn]

def backoffOf (retrier : Value) : Value :=
  (retrier.get? "BackoffRate").getD (.float 2.0)

theorem IsRetrier.delay_eq (h : IsRetrier handler) (attempts : Nat) :
    delay? handler (.int attempts) = do
      let rate := if ← (backoffOf handler).before (.float 1.0) then .float 1.0 else backoffOf handler
      if (attempts : Int) ≤ mostOf handler then
        return some (← (Value.int (intervalOf handler)).mul (← rate.pow (.int attempts)))
      else return none := by
  unfold delay?
  simp only [Value.memberOr_eq h.isObject, h.get_most, h.get_interval, Outcome.ok_bind, backoffOf,
    Value.notAfter_int, decide_eq_true_iff]

/-! ## Whole backoff rates -/

def rateOf (retrier : Value) : Nat :=
  (wholeOf retrier "BackoffRate" 2).toNat

/-- A retrier whose delays are whole numbers of seconds that never get less. -/
structure IsWhole (v : Value) : Prop extends IsRetrier v where
  rate : ∃ n : Nat, 1 ≤ n ∧ v.get? "BackoffRate" = some (.int n)

theorem IsWhole.backoff_eq (h : IsWhole handler) :
    1 ≤ rateOf handler ∧ backoffOf handler = .int (rateOf handler) := by
  obtain ⟨n, hone, hn⟩ := h.rate
  simp [rateOf, wholeOf, backoffOf, hn, hone]

def delayOf (retrier : Value) (attempts : Nat) : Nat :=
  intervalOf retrier * Nat.pow (rateOf retrier) attempts

theorem IsWhole.delay_eq_delayOf (h : IsWhole handler) (attempts : Nat) :
    delay? handler (.int attempts) =
      .ok (if (attempts : Int) ≤ mostOf handler then some (.int (delayOf handler attempts))
        else none) := by
  obtain ⟨hone, hrate⟩ := h.backoff_eq
  have hnotLess : Decidable.decide ((rateOf handler : Int) < 1) = false :=
    decide_eq_false (by omega)
  rw [h.delay_eq, hrate, Value.int_before_one, hnotLess, Outcome.ok_bind]
  simp only [Bool.false_eq_true, if_false, Value.int_pow_int, Value.int_mul_int, Outcome.ok_bind]
  split
  · simp only [delayOf, Int.natCast_mul]
    rfl
  · rfl

section

variable [Room]

/-! ## Decisions -/

/-- What the catchers make of an error: the first that names it takes over. -/
def catching (e : Failure) (catchers : List Value) (raw : Value) : Outcome Decision :=
  match catchers.find? (covers · e.name) with
  | none => .ok .propagate
  | some catcher => do
    let output ← Reference.combine raw ((catcher.get? "ResultPath").getD Path.root) (← errorOutput e)
    return .caught ((catcher.get? "Next").getD .null) output

theorem catching_ne_retry (e : Failure) (catchers : List Value) (raw delay : Value) :
    catching e catchers raw ≠ .ok (.retry delay) := by
  unfold catching
  split
  · nofun
  · intro h
    obtain ⟨error, -, h⟩ := Outcome.bind_eq_ok.mp h
    obtain ⟨output, -, h⟩ := Outcome.bind_eq_ok.mp h
    cases h

theorem catchDecision_eq (h : ∀ c ∈ catchers, IsHandler c) (e : Failure) (raw : Value) :
    catchDecision e (.arr catchers) raw = catching e catchers raw := by
  have hfirst : catchDecision e (.arr catchers) raw = (do
      match ← firstFor e.name catchers with
      | none => return .propagate
      | some catcher =>
        let error ← errorOutput e
        let path ← catcher.memberOr "ResultPath" Path.root
        let output ← Reference.combine raw path error
        return .caught (← catcher.memberOr "Next" .null) output) := by
    cases catchers <;> rfl
  rw [hfirst, firstFor_eq h, Outcome.ok_bind, catching]
  cases hfound : catchers.find? (covers · e.name) with
  | none => rfl
  | some catcher =>
    have hobject := (h catcher (List.mem_of_find?_eq_some hfound)).isObject
    simp only [Value.memberOr_eq hobject, Outcome.ok_bind]

abbrev decided (e : Failure) (retriers catchers : List Value) (raw : Value) (attempts : Nat) :
    Outcome Decision :=
  decide e (.arr retriers) (.arr catchers) (.int attempts) raw

theorem decided_eq (hretriers : ∀ r ∈ retriers, IsHandler r) (hcatchers : ∀ c ∈ catchers, IsHandler c)
    (hruntime : e.isRuntime = false) (raw : Value) (attempts : Nat) :
    decided e retriers catchers raw attempts = (do
      match retriers.find? (covers · e.name) with
      | some retrier =>
        match ← delay? retrier (.int attempts) with
        | some delay => return .retry delay
        | none => catching e catchers raw
      | none => catching e catchers raw) := by
  have hlist : (RetryPolicy.retriers (.arr retriers)).iterate = .ok retriers := by
    cases retriers <;> rfl
  unfold decided decide
  rw [hruntime, hlist, Outcome.ok_bind, firstFor_eq hretriers, Outcome.ok_bind, catchDecision_eq hcatchers]
  rfl

theorem decided_of_isRuntime (h : e.isRuntime = true) (retriers catchers : List Value) (raw : Value)
    (attempts : Nat) : decided e retriers catchers raw attempts = .ok .propagate := by
  unfold decided decide
  rw [h]
  rfl

theorem decided_whole (hretriers : ∀ r ∈ retriers, IsWhole r) (hcatchers : ∀ c ∈ catchers, IsHandler c)
    (hruntime : e.isRuntime = false) (raw : Value) (attempts : Nat) :
    decided e retriers catchers raw attempts =
      match retriers.find? (covers · e.name) with
      | some retrier =>
        if (attempts : Int) ≤ mostOf retrier then .ok (.retry (.int (delayOf retrier attempts)))
        else catching e catchers raw
      | none => catching e catchers raw := by
  rw [decided_eq (fun r hr => (hretriers r hr).toIsHandler) hcatchers hruntime]
  cases hfound : retriers.find? (covers · e.name) with
  | none => rfl
  | some retrier =>
    dsimp only
    rw [(hretriers retrier (List.mem_of_find?_eq_some hfound)).delay_eq_delayOf]
    split <;> rfl

theorem decided_congr {others : List Value} (hretriers : ∀ r ∈ retriers, IsWhole r)
    (hothers : ∀ r ∈ others, IsWhole r) (hcatchers : ∀ c ∈ catchers, IsHandler c)
    (h : retriers.find? (covers · e.name) = others.find? (covers · e.name)) (raw : Value)
    (attempts : Nat) :
    decided e retriers catchers raw attempts = decided e others catchers raw attempts := by
  cases hruntime : e.isRuntime with
  | true => rw [decided_of_isRuntime hruntime, decided_of_isRuntime hruntime]
  | false =>
    rw [decided_whole hretriers hcatchers hruntime, decided_whole hothers hcatchers hruntime, h]

/-- How many attempts the first retrier for an error allows after the first. -/
def allowance (e : Failure) (retriers : List Value) : Int :=
  if e.isRuntime then 0 else (retriers.find? (covers · e.name)).elim 0 mostOf

theorem decided_of_le (hretriers : ∀ r ∈ retriers, IsWhole r) (hcatchers : ∀ c ∈ catchers, IsHandler c)
    {retrier : Value} (hfirst : retriers.find? (covers · e.name) = some retrier) {attempts : Nat}
    (hone : 1 ≤ attempts) (hle : (attempts : Int) ≤ allowance e retriers) (raw : Value) :
    decided e retriers catchers raw attempts = .ok (.retry (.int (delayOf retrier attempts))) := by
  unfold allowance at hle
  split at hle
  · omega
  · rename_i hruntime
    rw [decided_whole hretriers hcatchers (Bool.not_eq_true _ ▸ hruntime), hfirst]
    rw [hfirst] at hle
    exact if_pos hle

theorem decided_of_lt (hretriers : ∀ r ∈ retriers, IsWhole r) (hcatchers : ∀ c ∈ catchers, IsHandler c)
    (hruntime : e.isRuntime = false) {attempts : Nat} (hlt : allowance e retriers < attempts)
    (raw : Value) : decided e retriers catchers raw attempts = catching e catchers raw := by
  rw [decided_whole hretriers hcatchers hruntime]
  rw [allowance, hruntime, if_neg Bool.false_ne_true] at hlt
  cases hfound : retriers.find? (covers · e.name) with
  | none => rfl
  | some retrier =>
    rw [hfound] at hlt
    exact if_neg (not_le_of_gt hlt)

/-- There is another attempt after as many failed ones as the allowance says, and no more. -/
theorem decided_retry_iff (hretriers : ∀ r ∈ retriers, IsWhole r)
    (hcatchers : ∀ c ∈ catchers, IsHandler c) {attempts : Nat} (hone : 1 ≤ attempts) (raw : Value) :
    (∃ delay, decided e retriers catchers raw attempts = .ok (.retry delay)) ↔
      (attempts : Int) ≤ allowance e retriers := by
  constructor
  · rintro ⟨delay, hdelay⟩
    by_contra hlt
    have hlt : allowance e retriers < attempts := not_le.mp hlt
    cases hruntime : e.isRuntime with
    | true =>
      rw [decided_of_isRuntime hruntime] at hdelay
      cases hdelay
    | false =>
      rw [decided_of_lt hretriers hcatchers hruntime hlt] at hdelay
      exact catching_ne_retry e catchers raw delay hdelay
  · intro hle
    cases hfirst : retriers.find? (covers · e.name) with
    | none =>
      rw [allowance, hfirst] at hle
      split at hle <;> simp at hle <;> omega
    | some retrier => exact ⟨_, decided_of_le hretriers hcatchers hfirst hone hle raw⟩

/-- Why the first catcher for an error cannot take over, although its path may name a place. -/
inductive Refuses (e : Failure) (raw catcher : Value) : Failure → Prop
  | untold (f : Failure) (h : e.text = .error f) : Refuses e raw catcher f
  | unplaced (f : Failure) (h : Reference.Refused raw ((catcher.get? "ResultPath").getD Path.root) f) :
      Refuses e raw catcher f

theorem Refuses.isFault {catcher : Value} {f : Failure} (h : Refuses e raw catcher f) :
    f.isFault = true := by
  cases h with
  | untold h => exact Failure.text_fault h
  | unplaced h =>
    cases h with
    | untold f h => exact Value.display_fault h
    | _ => rfl

theorem catching_error {f : Failure} (h : catching e catchers raw = .error f) :
    f.kind? = some .resultPathMatch ∨
      ∃ c, catchers.find? (covers · e.name) = some c ∧ Refuses e raw c f := by
  unfold catching at h
  split at h
  · cases h
  · rename_i catcher hfound
    rcases Outcome.bind_eq_error.mp h with hcause | ⟨error, -, h⟩
    · exact .inr ⟨catcher, hfound, .untold f (errorOutput_eq_error.mp hcause)⟩
    · rcases Outcome.bind_eq_error.mp h with hcombined | ⟨output, -, hdone⟩
      · exact (Reference.combine_error hcombined).imp_right fun hrefused =>
          ⟨catcher, hfound, .unplaced f hrefused⟩
      · cases hdone

/-! ## The first that matches decides -/

/-- The attempts after which there is another are the first ones, as many as the first retrier for the
error allows, and its delays never get less. Other retriers have no influence. After that the first
catcher for the error takes over, or the error goes on, whatever the attempts and the retriers. The
catcher fails if its path names no place in the input, but also if the error has no text, or the input or
the path is nested too deep. -/
theorem decided_by_first (e : Failure) {retriers catchers : List Value} (raw : Value)
    (hretriers : ∀ r ∈ retriers, IsWhole r) (hcatchers : ∀ c ∈ catchers, IsHandler c) :
    (∀ attempts : Nat, 1 ≤ attempts →
      ((∃ delay, decided e retriers catchers raw attempts = .ok (.retry delay)) ↔
        (attempts : Int) ≤ allowance e retriers)) ∧
    (∀ r, retriers.find? (covers · e.name) = some r → Monotone (delayOf r) ∧
      ∀ attempts : Nat, 1 ≤ attempts → (attempts : Int) ≤ allowance e retriers →
        decided e retriers catchers raw attempts = .ok (.retry (.int (delayOf r attempts)))) ∧
    (∀ before r after, retriers = before ++ r :: after → (∀ x ∈ before, covers x e.name = false) →
      covers r e.name = true → ∀ attempts,
        decided e retriers catchers raw attempts = decided e [r] catchers raw attempts) ∧
    ((∀ x ∈ retriers, covers x e.name = false) → ∀ attempts,
      decided e retriers catchers raw attempts = decided e [] catchers raw attempts) ∧
    (e.isRuntime = true → ∀ attempts,
      decided e retriers catchers raw attempts = .ok .propagate) ∧
    (e.isRuntime = false → ∀ attempts : Nat, allowance e retriers < attempts →
      decided e retriers catchers raw attempts = catching e catchers raw) ∧
    ∀ f, catching e catchers raw = .error f → f.kind? = some .resultPathMatch ∨
      ∃ c, catchers.find? (covers · e.name) = some c ∧ Refuses e raw c f := by
  refine ⟨fun attempts hone => decided_retry_iff hretriers hcatchers hone raw, ?_, ?_, ?_,
    fun hruntime => decided_of_isRuntime hruntime retriers catchers raw,
    fun hruntime attempts hlt => decided_of_lt hretriers hcatchers hruntime hlt raw,
    fun f => catching_error⟩
  · intro r hfirst
    have hwhole := hretriers r (List.mem_of_find?_eq_some hfirst)
    refine ⟨fun a b hle => ?_, fun attempts hone hle =>
      decided_of_le hretriers hcatchers hfirst hone hle raw⟩
    exact Nat.mul_le_mul_left _ (Nat.pow_le_pow_right hwhole.backoff_eq.1 hle)
  · rintro before r after rfl hbefore hr attempts
    have hfirst : (before ++ r :: after).find? (covers · e.name) = some r := by
      rw [List.find?_append, List.find?_eq_none.mpr (by simpa using hbefore), List.find?_cons, hr]
      rfl
    exact decided_congr hretriers (by simpa using hretriers r (by simp)) hcatchers
      (by rw [hfirst, List.find?_cons, hr]) raw attempts
  · intro hnone attempts
    exact decided_congr hretriers (by simp) hcatchers
      (by rw [List.find?_eq_none.mpr (by simpa using hnone)]; rfl) raw attempts

end

def retrierTwice : Value :=
  .obj [("ErrorEquals", .arr [.str "States.TaskFailed"]), ("IntervalSeconds", .int 3),
    ("MaxAttempts", .int 2), ("BackoffRate", .int 2)]

def retrierOfTimeouts : Value :=
  .obj [("ErrorEquals", .arr [.str "States.Timeout"]), ("MaxAttempts", .int 9),
    ("BackoffRate", .int 1)]

def catcherInPlace : Value :=
  .obj [("ErrorEquals", .arr [.str "States.ALL"]), ("ResultPath", .str "$.a"), ("Next", .str "C")]

theorem isWhole_retrierTwice : IsWhole retrierTwice where
  isObject := rfl
  names := ⟨["States.TaskFailed"], rfl⟩
  most := .inr ⟨2, rfl⟩
  interval := .inr ⟨3, rfl⟩
  rate := ⟨2, by decide, rfl⟩

theorem isWhole_retrierOfTimeouts : IsWhole retrierOfTimeouts where
  isObject := rfl
  names := ⟨["States.Timeout"], rfl⟩
  most := .inr ⟨9, rfl⟩
  interval := .inl rfl
  rate := ⟨1, by decide, rfl⟩

theorem isHandler_catcherInPlace : IsHandler catcherInPlace where
  isObject := rfl
  names := ⟨["States.ALL"], rfl⟩

/-- An error that is no timeout passes by the retrier of timeouts; after the second attempt there is a
third after 12 seconds, and then the catcher takes over. -/
theorem decided_by_first_twice :
    (∀ r ∈ [retrierOfTimeouts, retrierTwice], IsWhole r) ∧ (∀ c ∈ [catcherInPlace], IsHandler c) ∧
      decided (.client "E" "x") [retrierOfTimeouts, retrierTwice] [catcherInPlace] .null 2 =
        .ok (.retry (.int 12)) ∧
      decided (.client "E" "x") [retrierOfTimeouts, retrierTwice] [catcherInPlace] .null 3 =
        .ok (.caught (.str "C")
          (.obj [("a", .obj [("Error", .str "E"), ("Cause", .str "x")])])) := by
  have hretriers : ∀ r ∈ [retrierOfTimeouts, retrierTwice], IsWhole r := by
    simp [isWhole_retrierOfTimeouts, isWhole_retrierTwice]
  have hcatchers : ∀ c ∈ [catcherInPlace], IsHandler c := by simp [isHandler_catcherInPlace]
  obtain ⟨-, hagain, -, -, -, hcaught, -⟩ :=
    decided_by_first (.client "E" "x") .null hretriers hcatchers
  exact ⟨hretriers, hcatchers, (hagain retrierTwice rfl).2 2 (by decide) (by decide),
    hcaught rfl 3 (by decide)⟩

def nested : Nat → Value
  | 0 => .null
  | n + 1 => .obj [("a", nested n)]

theorem levels_nested (n : Nat) : (nested n).levels = 2 * n + 1 := by
  induction n with
  | zero => rfl
  | succ n ih =>
    simp only [nested, Value.levels, Value.levelsOfMembers, ih]
    omega

theorem catching_nested [Room] {text : String} (htext : e.text = .ok text) {n : Nat}
    (h : Room.copies < 2 * n + 3) :
    catching e [catcherInPlace] (nested (n + 1)) = .error tooDeep := by
  have hcopied : Nesting.copied id (nested (n + 1)) = .error tooDeep := by
    rw [Nesting.copied, levels_nested, if_pos (by omega)]
  have hcovers : covers catcherInPlace e.name = true := by
    simp [covers, show namesOf catcherInPlace = ["States.ALL"] from rfl]
  have hcombined (error : Value) :
      Reference.combine (nested (n + 1)) (.str "$.a") error = .error tooDeep := by
    change (Nesting.copied id (nested (n + 1)) >>= fun raw =>
      Reference.inject Room.levels (Reference.keys "$.a") raw error) = _
    rw [hcopied]
    rfl
  rw [catching, List.find?_cons, hcovers]
  dsimp only
  rw [errorOutput_eq htext, Outcome.ok_bind]
  exact Outcome.bind_eq_error.mpr (.inl (hcombined _))

theorem decided_nested [Room] {text : String} (htext : e.text = .ok text) {n : Nat}
    (h : Room.copies < 2 * n + 3) (hruntime : e.isRuntime = false) {attempts : Nat} (hone : 1 ≤ attempts) :
    decided e [] [catcherInPlace] (nested (n + 1)) attempts = .error tooDeep := by
  have hcatchers : ∀ c ∈ [catcherInPlace], IsHandler c := by simp [isHandler_catcherInPlace]
  have hnone : allowance e [] < attempts := by
    simp only [allowance, List.find?_nil, Option.elim_none, ite_self]
    omega
  rw [decided_of_lt (by simp) hcatchers hruntime hnone, catching_nested htext h]

/-- An error that is caught when the input is shallow is another error when the input is deep. -/
theorem deep_input_not_caught :
    IsHandler catcherInPlace ∧ covers catcherInPlace (.str "E") = true ∧
      decided (.client "E" "x") [] [catcherInPlace] (nested 600) 1 = .error tooDeep :=
  ⟨isHandler_catcherInPlace, rfl, decided_nested rfl (by decide) rfl (by decide)⟩

end RetryPolicy

end StatesLanguage
