import StatesLanguage.Polling
import StatesLanguage.Proofs.Process

/-!
# The pace of a poll

When the pause before the next question of a poll can be worked out. What keeps it from that is
always a fault of the data.
-/

namespace StatesLanguage

def Failure.isFault : Failure → Bool
  | .fault _ _ => true
  | _ => false

namespace Value

theorem Number.toFloat_cases (n : Number) :
    (∃ x, n.toFloat = .ok x) ∨ ∃ e, n.toFloat = .error e ∧ e.isFault = true := by
  cases n with
  | float x => exact Or.inl ⟨x, rfl⟩
  | int m =>
    simp only [Number.toFloat]
    split
    · exact Or.inl ⟨_, rfl⟩
    · exact Or.inr ⟨_, rfl, rfl⟩

theorem Number.intQuotient_cases (m n : Int) :
    (∃ x, intQuotient m n = .ok (.float x)) ∨
      ∃ e, intQuotient m n = .error e ∧ e.isFault = true := by
  simp only [intQuotient]
  split
  · exact Or.inr ⟨_, rfl, rfl⟩
  · split
    · exact Or.inl ⟨_, rfl⟩
    · exact Or.inr ⟨_, rfl, rfl⟩

theorem Number.unlessZero_cases (op : Float → Float → Float) (x y : Float) :
    (∃ z, unlessZero op x y = .ok z) ∨ ∃ e, unlessZero op x y = .error e ∧ e.isFault = true := by
  unfold unlessZero
  split
  · exact Or.inr ⟨_, rfl, rfl⟩
  · exact Or.inl ⟨_, rfl⟩

theorem Number.div_cases (a b : Number) :
    (∃ x, a.div b = .ok (.float x)) ∨ ∃ e, a.div b = .error e ∧ e.isFault = true := by
  unfold Number.div Number.lift
  split
  · exact intQuotient_cases _ _
  · rcases a.toFloat_cases with ⟨x, hx⟩ | ⟨e, he, hfault⟩
    · rcases b.toFloat_cases with ⟨y, hy⟩ | ⟨e, he, hfault⟩
      · rcases unlessZero_cases (· / ·) x y with ⟨z, hz⟩ | ⟨e, he, hfault⟩
        · exact Or.inl ⟨z, by simp only [hx, hy, Outcome.ok_bind, hz]; rfl⟩
        · exact Or.inr ⟨e, by simp only [hx, hy, Outcome.ok_bind, he]; rfl, hfault⟩
      · exact Or.inr ⟨e, by simp only [hx, Outcome.ok_bind, he]; rfl, hfault⟩
    · exact Or.inr ⟨e, by simp only [he]; rfl, hfault⟩

theorem div_cases (a b : Value) :
    (∃ x, a.div b = .ok (.float x)) ∨ ∃ e, a.div b = .error e ∧ e.isFault = true := by
  unfold div arith
  split
  · rename_i x y _ _
    rcases x.div_cases y with ⟨z, hz⟩ | ⟨e, he, hfault⟩
    · exact Or.inl ⟨z, by rw [hz]; rfl⟩
    · exact Or.inr ⟨e, by rw [he]; rfl, hfault⟩
  · exact Or.inr ⟨_, rfl, rfl⟩

theorem sub_float {timeout : Value} {n : Number} (hn : timeout.number? = some n) (x : Float) :
    timeout.sub (.float x) = n.toFloat.map fun y => .float (y - x) := by
  have hx : (Value.float x).number? = some (.float x) := rfl
  unfold sub arith
  rw [hn, hx]
  cases n with
  | float y => rfl
  | int m =>
    simp only [Number.sub, Number.lift]
    cases Number.toFloat (.int m) <;> rfl

theorem toFloat_thousand : Number.toFloat (.int 1000) = .ok (Binary.ofInt 1000) := by
  have hfinite : Binary.isFinite (Binary.ofInt 1000) = true := by decide +kernel
  simp only [Number.toFloat, hfinite, if_true]

theorem float_div_thousand (x : Float) :
    (Value.float x).div (.int 1000) = .ok (.float (x / Binary.ofInt 1000)) := by
  have hnonzero : ¬(Binary.ofInt 1000 == 0.0) = true := by decide +kernel
  have hquotient : Number.div (.float x) (.int 1000) = .ok (.float (x / Binary.ofInt 1000)) := by
    have hx : Number.toFloat (.float x) = .ok x := rfl
    simp only [Number.div, Number.lift, hx, toFloat_thousand, Outcome.ok_bind, Number.unlessZero,
      if_neg hnonzero]
    rfl
  simp only [div, arith, number?, hquotient]
  rfl

theorem float_before (x : Float) (v : Value) :
    (Value.float x).before v = match v.number? with
      | some n => .ok (Number.less (.float x) n)
      | none => .error (incomparable (.float x) v) := by
  have hx : (Value.float x).number? = some (.float x) := rfl
  rw [before, hx]
  · cases v.number? <;> rfl
  · nofun
  · nofun

theorem micros_float (unit : Nat) (x : Float) : ∃ n, (Value.float x).micros unit = .ok n := by
  simp only [micros, number?, Number.micros]
  split
  · exact ⟨_, rfl⟩
  · exact ⟨_, rfl⟩
  · exact ⟨_, rfl⟩

theorem pause_float (x : Float) : ∃ n, (Value.float x).pause = .ok n := by
  obtain ⟨n, hn⟩ := micros_float second x
  have hsign : (Value.float x).notAfter (.int 0) = .ok (Number.lessEqual (.float x) (.int 0)) := by
    simp only [notAfter, number?]
  rw [pause, hn, Outcome.ok_bind, hsign, Outcome.ok_bind]
  exact ⟨_, rfl⟩

end Value

namespace Polling

/-- Whether a timeout is a number that a floating one can show. -/
def isMeasurable (timeout : Value) : Bool :=
  timeout.number?.any (·.toFloat.isOk)

/-- Whether an interval is a number of milliseconds that floating seconds can show. -/
def isPausable (interval : Value) : Bool :=
  (interval.div (.int 1000)).isOk

theorem pause_of_div {pause : Value} {x : Float} (h : pause.div (.int 1000) = .ok (.float x)) :
    ∃ p : Option Nat, (do return some (← (← pause.div (.int 1000)).pause)) =
      (.ok p : Outcome (Option Nat)) := by
  obtain ⟨n, hn⟩ := Value.pause_float x
  exact ⟨some n, by rw [h, Outcome.ok_bind, hn]; rfl⟩

theorem measuredPace_cases (timeout interval : Value) (first last : Nat) :
    (∃ pause, measuredPace timeout interval first last = .ok pause ∧ isMeasurable timeout = true) ∨
      ∃ e, measuredPace timeout interval first last = .error e ∧ e.isFault = true ∧
        (isMeasurable timeout = true → isPausable interval = false) := by
  unfold measuredPace
  extract_lets elapsed
  -- The timeout comes first; the interval is looked at only while time is left.
  cases hn : timeout.number? with
  | none =>
    refine Or.inr ⟨_, by simp only [Value.sub, Value.arith, hn]; rfl, rfl, ?_⟩
    simp [isMeasurable, hn]
  | some n =>
    rw [Value.sub_float hn]
    rcases n.toFloat_cases with ⟨y, hy⟩ | ⟨e, he, hfault⟩
    · have hmeasurable : isMeasurable timeout = true := by
        simp [isMeasurable, hn, hy, Except.isOk, Except.toBool]
      simp only [hy, Except.map, Outcome.ok_bind]
      generalize y - elapsed = rest
      have hnotAfter : (Value.float rest).notAfter (.int 0) =
          .ok (Value.Number.lessEqual (.float rest) (.int 0)) := by
        simp only [Value.notAfter, Value.number?]
      rw [hnotAfter, Outcome.ok_bind]
      split
      · exact Or.inl ⟨none, rfl, hmeasurable⟩
      · rw [Value.float_before]
        cases hm : interval.number? with
        | none =>
          refine Or.inr ⟨_, rfl, rfl, fun _ => ?_⟩
          simp only [isPausable, Value.div, Value.arith, hm]
          rfl
        | some m =>
          simp only [Outcome.ok_bind]
          cases Value.Number.less (.float rest) m with
          | true =>
            obtain ⟨p, hp⟩ := pause_of_div (Value.float_div_thousand rest)
            exact Or.inl ⟨p, hp, hmeasurable⟩
          | false =>
            rcases interval.div_cases (.int 1000) with ⟨x, hx⟩ | ⟨e, he, hfault⟩
            · obtain ⟨p, hp⟩ := pause_of_div hx
              exact Or.inl ⟨p, hp, hmeasurable⟩
            · refine Or.inr ⟨e, ?_, hfault, fun _ => by rw [isPausable, he]; rfl⟩
              simp only [Bool.false_eq_true, if_false, he]
              rfl
    · refine Or.inr ⟨e, by rw [he]; rfl, hfault, ?_⟩
      simp [isMeasurable, hn, he, Except.isOk, Except.toBool]

end Polling

end StatesLanguage
