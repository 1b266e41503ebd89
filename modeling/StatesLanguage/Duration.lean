import StatesLanguage.Value.Arithmetic

/-!
# Durations

Times and durations are counted in whole microseconds. Definitions and configurations give them in
seconds or milliseconds, as any number.
-/

namespace StatesLanguage

/-- A duration that outlasts every run. -/
def forever : Nat := Nat.pow 10 30

/-- The microseconds of a second. -/
def second : Nat := 1000000

/-- The microseconds of a millisecond. -/
def millisecond : Nat := 1000

/-- The microseconds of a number of units, to the nearest. -/
def Value.Number.micros (unit : Nat) : Value.Number → Outcome Int
  | .int n => do
    let _ ← Value.Number.toFloat (.int n)
    return n * unit
  | .float x =>
    match Binary.ofFloat x with
    | .nan => .ok 0
    | .infinite neg => .ok (if neg then -forever else forever)
    | .finite neg mant exp =>
      let (num, den) := Binary.ratio neg mant exp
      let size := Binary.roundDiv (num.natAbs * unit) den
      .ok (if num < 0 then -size else size)

/-- The microseconds of so many units; only numbers are durations. -/
def Value.micros (unit : Nat) (v : Value) : Outcome Int :=
  match v.number? with
  | some n => n.micros unit
  | none => .error (.wrongType ("'" ++ v.kindName ++ "' object is not a duration"))

/-- The microseconds by which the clock moves on in a pause of so many seconds: a pause that is not empty
takes one at least. -/
def Value.pause (seconds : Value) : Outcome Nat := do
  let micros ← seconds.micros second
  return if ← seconds.notAfter (.int 0) then 0 else max 1 micros.toNat

/-- A time in whole milliseconds, a half to the even one. -/
def wholeMillis (micros : Nat) : Nat :=
  Binary.roundDiv micros millisecond

end StatesLanguage
