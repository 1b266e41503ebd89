import Mathlib.Data.Multiset.Count
import Mathlib.Data.Multiset.MapFold
import StatesLanguage.Proofs.Settles

/-!
# What threads wait for

Slots and joins, beside what the threads that have to do with them know: who waits for a slot and who
holds one, which output each thread is to give, and who waits for the outputs.
-/

namespace StatesLanguage

/-! ## Slots -/

/-- Those who wait for one of some slots. -/
def waitingFor (slots : Array Slots) (id : Nat) : List Thread :=
  (slots[id]?.map (·.waiting)).getD []

/-- The slots of a scheduler, given who waits for them, what stakes threads have in them, and which
slots belong to somebody. -/
structure SlotsFit (slots : Array Slots) (queued : Nat → Multiset Thread) (stakes : Multiset Stake)
    (owned : Multiset Nat) : Prop where
  queues : ∀ id, (↑(waitingFor slots id) : Multiset Thread) = queued id
  /-- There is a slot, free or held. -/
  usable : ∀ (id : Nat) (s : Slots) (n : Nat), slots[id]? = some s → s.free = some n →
    0 < n + stakes.count (.held id)
  taken : ∀ (id : Nat) (s : Slots), slots[id]? = some s → s.waiting ≠ [] → s.free = some 0
  once : owned.Nodup
  bound : ∀ id ∈ owned, id < slots.size

namespace SlotsFit

variable {slots : Array Slots} {queued queued' : Nat → Multiset Thread}
  {stakes stakes' : Multiset Stake} {owned owned' : Multiset Nat} {id : Nat}

theorem empty : SlotsFit #[] (fun _ => 0) 0 0 where
  queues id := by simp [waitingFor]
  usable id s n hs := by simp at hs
  taken id s hs := by simp at hs
  once := Multiset.nodup_zero
  bound id hid := by simp at hid

theorem mono (h : SlotsFit slots queued stakes owned)
    (hstakes : ∀ id, stakes.count (.held id) ≤ stakes'.count (.held id)) (howned : owned' ≤ owned) :
    SlotsFit slots queued stakes' owned' where
  queues := h.queues
  usable id s n hs hn := (h.usable id s n hs hn).trans_le (Nat.add_le_add_left (hstakes id) n)
  taken := h.taken
  once := Multiset.nodup_of_le howned h.once
  bound id hid := h.bound id (Multiset.mem_of_le howned hid)

theorem restake (h : SlotsFit slots queued stakes owned) (id : Nat)
    (hstakes : ∀ other ≠ id, stakes.count (.held other) ≤ stakes'.count (.held other))
    (husable : ∀ s n, slots[id]? = some s → s.free = some n → 0 < n + stakes'.count (.held id)) :
    SlotsFit slots queued stakes' owned where
  queues := h.queues
  usable other s n hs hn := by
    by_cases hid : other = id
    · subst hid
      exact husable s n hs hn
    · exact (h.usable other s n hs hn).trans_le (Nat.add_le_add_left (hstakes other hid) n)
  taken := h.taken
  once := h.once
  bound := h.bound

theorem push (h : SlotsFit slots queued stakes owned) {capacity : Option Nat}
    (husable : capacity ≠ some 0) :
    SlotsFit (slots.push ⟨capacity, []⟩) queued stakes (slots.size ::ₘ owned) where
  queues id := by
    rw [← h.queues id, waitingFor, waitingFor, Array.getElem?_push]
    split
    · rw [Array.getElem?_eq_none (by omega)]
      rfl
    · rfl
  usable id s n hs hn := by
    rw [Array.getElem?_push] at hs
    split at hs
    · obtain rfl := Option.some.inj hs
      have hpos : n ≠ 0 := fun hzero => husable (hzero ▸ hn)
      omega
    · exact h.usable id s n hs hn
  taken id s hs hwaiting := by
    rw [Array.getElem?_push] at hs
    split at hs
    · obtain rfl := Option.some.inj hs
      exact absurd rfl hwaiting
    · exact h.taken id s hs hwaiting
  once := Multiset.nodup_cons.mpr ⟨fun hmem => (h.bound _ hmem).false, h.once⟩
  bound id hid := by
    rw [Array.size_push]
    rcases Multiset.mem_cons.mp hid with rfl | hold
    · exact Nat.lt_succ_self _
    · exact (h.bound id hold).trans (Nat.lt_succ_self _)

theorem set (h : SlotsFit slots queued stakes owned) {old new : Slots} (hold : slots[id]? = some old)
    (hqueue : (↑new.waiting : Multiset Thread) = queued' id)
    (hqueues : ∀ other ≠ id, queued' other = queued other)
    (hstakes : ∀ other ≠ id, stakes.count (.held other) ≤ stakes'.count (.held other))
    (husable : ∀ n, new.free = some n → 0 < n + stakes'.count (.held id))
    (htaken : new.waiting ≠ [] → new.free = some 0) :
    SlotsFit (slots.setIfInBounds id new) queued' stakes' owned := by
  have hat : (slots.setIfInBounds id new)[id]? = some new :=
    Array.getElem?_setIfInBounds_self_of_lt (Array.getElem?_eq_some_iff.mp hold).1
  have hother {other : Nat} (hne : other ≠ id) :
      (slots.setIfInBounds id new)[other]? = slots[other]? :=
    Array.getElem?_setIfInBounds_ne (Ne.symm hne)
  refine ⟨fun other => ?_, fun other s n hs hn => ?_, fun other s hs hwaiting => ?_, h.once,
    fun other hmem => (h.bound other hmem).trans_eq Array.size_setIfInBounds.symm⟩
  · by_cases hid : other = id
    · subst hid
      rw [waitingFor, hat, ← hqueue]
      rfl
    · rw [hqueues other hid, ← h.queues other, waitingFor, waitingFor, hother hid]
  · by_cases hid : other = id
    · subst hid
      obtain rfl := Option.some.inj (hat.symm.trans hs)
      exact husable n hn
    · rw [hother hid] at hs
      have hbefore := h.usable other s n hs hn
      have hmore := hstakes other hid
      omega
  · by_cases hid : other = id
    · subst hid
      obtain rfl := Option.some.inj (hat.symm.trans hs)
      exact htaken hwaiting
    · rw [hother hid] at hs
      exact h.taken other s hs hwaiting

theorem exists_held (h : SlotsFit slots queued stakes owned) {t : Thread} (ht : t ∈ queued id) :
    .held id ∈ stakes := by
  have hwaiting : t ∈ waitingFor slots id := by
    rw [← Multiset.mem_coe, h.queues]
    exact ht
  unfold waitingFor at hwaiting
  rcases hs : slots[id]? with _ | s
  · simp [hs] at hwaiting
  · replace hwaiting : t ∈ s.waiting := by simpa [hs] using hwaiting
    have hfree := h.taken id s hs (List.ne_nil_of_mem hwaiting)
    have hcount := h.usable id s 0 hs hfree
    exact Multiset.count_pos.mp (by omega)

end SlotsFit

/-! ## Joins -/

structure Plan where
  outs : List Value
  slots : Option Nat

/-- A thread that waits for a join. -/
structure Waiter where
  join : Nat
  role : Role
  next : Outcome (List Value) → Process (Outcome Value)

/-- A join has, of what it is to give, what it has been given so far. -/
structure Join.Fits (j : Join) (plan : Plan) : Prop where
  sized : j.outputs.length = plan.outs.length
  right : ∀ (place : Nat) (out : Value), j.outputs[place]? = some (some out) →
    plan.outs[place]? = some out
  isOpen : j.isOpen = j.outputs.any (·.isNone)

/-- The joins of a scheduler, given the roles of the threads that they wait for and those who wait
for them. -/
structure JoinsFit (joins : Array Join) (plans : List Plan) (roles : Multiset Role)
    (waiters : Multiset Waiter) : Prop where
  planned : plans.length = joins.size
  fits : ∀ (i : Nat) (j : Join) (plan : Plan), joins[i]? = some j → plans[i]? = some plan →
    j.Fits plan
  once : roles.Nodup
  part_iff : ∀ i place, .part i place ∈ roles ↔
    ∃ j, joins[i]? = some j ∧ j.outputs[place]? = some none
  sole : (waiters.map (·.join)).Nodup
  waiter_iff : ∀ w : Waiter, w ∈ waiters ↔
    ∃ j, joins[w.join]? = some j ∧ j.isOpen = true ∧ j.role = w.role ∧ j.next = w.next

theorem Join.Fits.outputs_eq {j : Join} {plan : Plan} (h : j.Fits plan) (hclosed : j.isOpen = false) :
    j.outputs.filterMap id = plan.outs := by
  have hall : j.outputs = plan.outs.map some := by
    refine List.ext_getElem? fun place => ?_
    rw [List.getElem?_map]
    rcases hplace : j.outputs[place]? with _ | out
    · rw [List.getElem?_eq_none_iff] at hplace
      rw [List.getElem?_eq_none (h.sized ▸ hplace), Option.map_none]
    · cases out with
      | some out => rw [h.right place out hplace, Option.map_some]
      | none =>
        have hmem := List.mem_of_getElem? hplace
        have hopen : j.outputs.any (·.isNone) = true := List.any_eq_true.mpr ⟨_, hmem, rfl⟩
        rw [← h.isOpen, hclosed] at hopen
        cases hopen
  rw [hall, List.filterMap_map]
  simp

def Join.give (j : Join) (place : Nat) (out : Value) : Join :=
  let outputs := j.outputs.set place (some out)
  { j with outputs, isOpen := outputs.any (·.isNone) }

theorem Join.Fits.give {j : Join} {plan : Plan} (h : j.Fits plan) {place : Nat} {out : Value}
    (hout : plan.outs[place]? = some out) : (j.give place out).Fits plan where
  sized := by simp [Join.give, h.sized]
  right other out' hother := by
    simp only [Join.give] at hother
    by_cases hplace : place = other
    · subst hplace
      have hbound := (List.getElem?_eq_some_iff.mp hout).1
      rw [List.getElem?_set_self (by rw [h.sized]; exact hbound)] at hother
      rw [hout, Option.some.inj hother]
    · rw [List.getElem?_set_ne hplace] at hother
      exact h.right other out' hother
  isOpen := rfl

namespace JoinsFit

variable {joins : Array Join} {plans : List Plan} {roles : Multiset Role} {waiters : Multiset Waiter}

theorem empty : JoinsFit #[] [] 0 0 where
  planned := rfl
  fits i j plan hj := by simp at hj
  once := Multiset.nodup_zero
  part_iff i place := by simp
  sole := Multiset.nodup_zero
  waiter_iff w := by simp

theorem exists_part (h : JoinsFit joins plans roles waiters) {i : Nat} {j : Join}
    (hj : joins[i]? = some j) (hopen : j.isOpen = true) : ∃ place, .part i place ∈ roles := by
  have hbound : i < plans.length := by
    rw [h.planned]
    exact (Array.getElem?_eq_some_iff.mp hj).1
  have hfits := h.fits i j _ hj (List.getElem?_eq_getElem hbound)
  rw [hfits.isOpen, List.any_eq_true] at hopen
  obtain ⟨out, hmem, hnone⟩ := hopen
  obtain ⟨place, hplace⟩ := List.getElem?_of_mem hmem
  rw [Option.isNone_iff_eq_none.mp hnone] at hplace
  exact ⟨place, (h.part_iff i place).mpr ⟨j, hj, hplace⟩⟩

theorem start (h : JoinsFit joins plans roles waiters) (plan : Plan) (hsome : plan.outs ≠ [])
    (role : Role) (next : Outcome (List Value) → Process (Outcome Value)) :
    JoinsFit (joins.push ⟨role, next, plan.outs.map fun _ => none, true⟩) (plans ++ [plan])
      (roles + ↑((List.range plan.outs.length).map (Role.part joins.size)))
      (⟨joins.size, role, next⟩ ::ₘ waiters) where
  planned := by simp [h.planned]
  fits i j plan' hj hplan := by
    rw [Array.getElem?_push] at hj
    split at hj
    · rename_i hi
      subst hi
      obtain rfl := Option.some.inj hj
      obtain rfl : plan = plan' := by simpa [← h.planned] using hplan
      refine ⟨by simp, fun place out hplace => ?_, ?_⟩
      · simp [List.getElem?_replicate] at hplace
      · obtain ⟨out, outs, houts⟩ := List.exists_cons_of_ne_nil hsome
        simp [houts]
    · have hbound : i < plans.length := by
        rw [h.planned]
        exact (Array.getElem?_eq_some_iff.mp hj).1
      rw [List.getElem?_append_left hbound] at hplan
      exact h.fits i j plan' hj hplan
  once := by
    refine Multiset.nodup_add.mpr ⟨h.once, ?_, ?_⟩
    · refine Multiset.coe_nodup.mpr (List.nodup_range.map fun a b hab => ?_)
      simpa using hab
    · -- A role of the new join would name a join that was there already.
      refine Multiset.disjoint_left.mpr fun {r} hold hnew => ?_
      obtain ⟨place, -, rfl⟩ := List.mem_map.mp (Multiset.mem_coe.mp hnew)
      obtain ⟨j, hj, -⟩ := (h.part_iff _ _).mp hold
      exact (Array.getElem?_eq_some_iff.mp hj).1.false
  part_iff i place := by
    rw [Multiset.mem_add, h.part_iff, Array.getElem?_push]
    split
    · rename_i hi
      subst hi
      simp [List.getElem?_replicate]
    · rename_i hi
      simp [Ne.symm hi]
  sole := by
    rw [Multiset.map_cons, Multiset.nodup_cons]
    refine ⟨fun hmem => ?_, h.sole⟩
    obtain ⟨w, hw, hjoin⟩ := Multiset.mem_map.mp hmem
    obtain ⟨j, hj, -⟩ := (h.waiter_iff w).mp hw
    rw [hjoin] at hj
    exact (Array.getElem?_eq_some_iff.mp hj).1.false
  waiter_iff w := by
    rw [Multiset.mem_cons, h.waiter_iff, Array.getElem?_push]
    obtain ⟨i, role', next'⟩ := w
    split
    · rename_i hi
      obtain rfl : i = joins.size := hi
      simp [@eq_comm _ role', @eq_comm _ next']
    · rename_i hi
      have hother : (⟨i, role', next'⟩ : Waiter) ≠ ⟨joins.size, role, next⟩ := by
        rintro ⟨⟩
        exact hi rfl
      simp [hother]

/-- A join that is given an output waits for one thread less. If that was the last one, nobody waits
for the join any more. -/
theorem give {i place : Nat} {j : Join} {plan : Plan} {out : Value} {waiters' : Multiset Waiter}
    (h : JoinsFit joins plans (.part i place ::ₘ roles) waiters) (hj : joins[i]? = some j)
    (hplan : plans[i]? = some plan) (hout : plan.outs[place]? = some out) (hless : waiters' ≤ waiters)
    (hwaiters : ∀ w, w ∈ waiters' ↔ w ∈ waiters ∧ (w.join = i → (j.give place out).isOpen = true)) :
    JoinsFit (joins.setIfInBounds i (j.give place out)) plans roles waiters' := by
  have hbound : i < joins.size := (Array.getElem?_eq_some_iff.mp hj).1
  have hat : (joins.setIfInBounds i (j.give place out))[i]? = some (j.give place out) :=
    Array.getElem?_setIfInBounds_self_of_lt hbound
  have hother {k : Nat} (hk : k ≠ i) :
      (joins.setIfInBounds i (j.give place out))[k]? = joins[k]? :=
    Array.getElem?_setIfInBounds_ne (Ne.symm hk)
  have hnew : Role.part i place ∉ roles := (Multiset.nodup_cons.mp h.once).1
  -- Nothing was given for the thread yet, since it still is one of those that are waited for.
  have hold : j.outputs[place]? = some none := by
    obtain ⟨j', hj', hnone⟩ := (h.part_iff i place).mp (Multiset.mem_cons_self _ _)
    rwa [Option.some.inj (hj.symm.trans hj')]
  refine ⟨by rw [h.planned, Array.size_setIfInBounds], fun k j' plan' hj' hplan' => ?_,
    (Multiset.nodup_cons.mp h.once).2, fun k place' => ?_,
    Multiset.nodup_of_le (Multiset.map_le_map hless) h.sole, fun w => ?_⟩
  · by_cases hk : k = i
    · subst hk
      obtain rfl := Option.some.inj (hat.symm.trans hj')
      obtain rfl := Option.some.inj (hplan.symm.trans hplan')
      exact (h.fits k j plan hj hplan).give hout
    · rw [hother hk] at hj'
      exact h.fits k j' plan' hj' hplan'
  · have hbefore := h.part_iff k place'
    rw [Multiset.mem_cons] at hbefore
    by_cases hk : k = i
    · subst hk
      rw [hat]
      by_cases hplace : place' = place
      · subst hplace
        have hset : (j.give place' out).outputs[place']? = some (some out) :=
          List.getElem?_set_self (List.getElem?_eq_some_iff.mp hold).1
        simp [hnew, hset]
      · have hset : (j.give place out).outputs[place']? = j.outputs[place']? :=
          List.getElem?_set_ne (Ne.symm hplace)
        simpa [hplace, hj, hset] using hbefore
    · rw [hother hk]
      simpa [hk] using hbefore
  · rw [hwaiters, h.waiter_iff]
    by_cases hk : w.join = i
    · have hopen : j.isOpen = true := by
        rw [(h.fits i j plan hj hplan).isOpen]
        exact List.any_eq_true.mpr ⟨none, List.mem_of_getElem? hold, rfl⟩
      have hkeeps : (j.give place out).role = j.role ∧ (j.give place out).next = j.next := ⟨rfl, rfl⟩
      simp only [hk, hat, hj, Option.some.injEq, exists_eq_left', hopen, hkeeps]
      tauto
    · simp [hother hk, hk]

theorem close {place : Nat} {j : Join} {plan : Plan} {out : Value} {w : Waiter}
    (h : JoinsFit joins plans (.part w.join place ::ₘ roles) (w ::ₘ waiters))
    (hj : joins[w.join]? = some j) (hplan : plans[w.join]? = some plan)
    (hout : plan.outs[place]? = some out) (hclosed : (j.give place out).isOpen = false) :
    JoinsFit (joins.setIfInBounds w.join (j.give place out)) plans roles waiters := by
  refine h.give hj hplan hout (Multiset.le_cons_self _ _) fun w' => ?_
  have hsole := h.sole
  rw [Multiset.map_cons, Multiset.nodup_cons] at hsole
  rw [hclosed, Multiset.mem_cons]
  constructor
  · intro hw'
    exact ⟨.inr hw', fun hjoin => absurd (hjoin ▸ Multiset.mem_map_of_mem _ hw') hsole.1⟩
  · rintro ⟨rfl | hw', hjoin⟩
    · exact absurd (hjoin rfl) Bool.false_ne_true
    · exact hw'

end JoinsFit

end StatesLanguage
