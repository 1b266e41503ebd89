import Mathlib.Algebra.BigOperators.Group.List.Basic
import StatesLanguage.Proofs.Interleaving

/-!
# Processes that settle

Processes whose end is settled, whatever world they run in, as long as the history is in its quota:
they give one value after so many turns, and with them all that they start. Along with this goes what
they do with slots: who starts others that need slots has made these slots himself, and who takes a
slot frees it.
-/

namespace StatesLanguage

inductive Stake where
  | none
  /-- It is going to take a slot. -/
  | owed (slots : Nat)
  | held (slots : Nat)
  deriving DecidableEq

def Stake.slots? : Stake → Option Nat
  | .none => .none
  | .owed id | .held id => some id

/-- What a job has to do with slots when it starts. -/
def Job.stake : Job → Stake
  | .branch _ _ _ => .none
  | .iteration _ slots _ => .owed slots

/-- A job, what it gives, and after how many turns. -/
structure Part where
  job : Job
  out : Value
  cost : Nat

variable [Room]

/-- The process, with a stake in slots and the slots that it made last, gives a value after so many
turns: two for a time that it waits, and as many as its jobs take for a join. -/
inductive Settles (work : Job → Process (Outcome Value)) :
    Stake → Option Nat → Process (Outcome Value) → Value → Nat → Prop
  | ret (made : Option Nat) (v : Value) : Settles work .none made (.ret (.ok v)) v 0
  | effect {stake : Stake} {made : Option Nat} {e : Effect}
      {next : e.Reply → Process (Outcome Value)} {v : Value} {cost : Nat}
      (rest : ∀ w : World, w.InQuota → Settles work stake made (next (w.perform e).1) v cost) :
      Settles work stake made (.effect e next) v cost
  | sleep {stake : Stake} {made : Option Nat} {micros : Nat} {next : Unit → Process (Outcome Value)}
      {v : Value} {cost : Nat} (rest : Settles work stake made (next ()) v cost) :
      Settles work stake made (.wait (.sleep micros) next) v (cost + 2)
  | makeSlots {stake : Stake} {made : Option Nat} {capacity : Option Nat}
      {next : Nat → Process (Outcome Value)} {v : Value} {cost : Nat} (usable : capacity ≠ some 0)
      (rest : ∀ id, Settles work stake (some id) (next id) v cost) :
      Settles work stake made (.wait (.makeSlots capacity) next) v (cost + 1)
  | takeSlot {made : Option Nat} {id : Nat} {next : Unit → Process (Outcome Value)} {v : Value}
      {cost : Nat} (rest : Settles work (.held id) made (next ()) v cost) :
      Settles work (.owed id) made (.wait (.takeSlot id) next) v (cost + 1)
  | freeSlot {made : Option Nat} {id : Nat} {next : Unit → Process (Outcome Value)} {v : Value}
      {cost : Nat} (rest : Settles work .none made (next ()) v cost) :
      Settles work (.held id) made (.wait (.freeSlot id) next) v (cost + 1)
  | join {stake : Stake} {made : Option Nat} {next : Outcome (List Value) → Process (Outcome Value)}
      {v : Value} {cost : Nat} (parts : List Part)
      (settle : ∀ part ∈ parts, Settles work part.job.stake .none (work part.job) part.out part.cost)
      (slots : ∀ part ∈ parts, ∀ id, part.job.stake = .owed id → made = some id)
      (rest : Settles work stake .none (next (.ok (parts.map (·.out)))) v cost) :
      Settles work stake made (.wait (.join (parts.map (·.job))) next) v
        ((parts.map (·.cost + 2)).sum + cost + 1)

namespace Settles

variable {work : Job → Process (Outcome Value)} {stake : Stake} {made : Option Nat}
  {p : Process (Outcome Value)} {v : Value} {cost : Nat}

/-- Where a process that settles stops: with its value, or at a wait, which it settles from. -/
def Stops (work : Job → Process (Outcome Value)) (stake : Stake) (made : Option Nat) (v : Value)
    (cost : Nat) : Pause (Outcome Value) → Prop
  | .done o => o = .ok v ∧ stake = .none
  | .waiting w next => Settles work stake made (.wait w next) v cost

theorem advance (h : Settles work stake made p v cost) {w : World}
    (hquota : (p.advance w).2.InQuota) : Stops work stake made v cost (p.advance w).1 := by
  induction p generalizing w with
  | ret o =>
    cases h
    exact ⟨rfl, rfl⟩
  | wait wt next _ => exact h
  | effect e next ih =>
    cases h with
    | effect rest =>
      have hbefore : w.InQuota := by
        have hperform := w.history_perform e
        have hnext := (next (w.perform e).1).history_advance (w.perform e).2
        exact (hperform.trans hnext).trans hquota
      exact ih _ (rest w hbefore) hquota

end Settles

end StatesLanguage
