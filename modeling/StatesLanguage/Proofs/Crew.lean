import Mathlib.Data.Multiset.Bind
import Mathlib.Data.Multiset.Filter
import StatesLanguage.Proofs.Scheduler
import StatesLanguage.Proofs.Waiting

/-!
# Crews

The threads below a join, when all of them settle: each is in one place of the scheduler, knows what
it is to give and how many turns that takes. Whoever waits for a slot waits for another of the same
join, and whoever joins waits for a join that was started later; so there is always something to do,
and each move leaves less of it. In the end the join gets the outputs of its jobs, in their order.
-/

namespace StatesLanguage

inductive Spot where
  /-- It has its turn. -/
  | running
  | ready (p : Process (Outcome Value))
  | timed (p : Process (Outcome Value))
  | queued (slots : Nat) (p : Process (Outcome Value))
  | joining (join : Nat) (next : Outcome (List Value) → Process (Outcome Value))
  | ended

/-- A thread that settles, as part of a join. -/
structure Hand where
  join : Nat
  place : Nat
  stake : Stake
  made : Option Nat
  out : Value
  cost : Nat
  spot : Spot

namespace Hand

def role (c : Hand) : Role := .part c.join c.place

def turns (c : Hand) : Multiset Turn :=
  match c.spot with
  | .ready p => {.resume ⟨c.role, p⟩}
  | .ended => {.ended c.join c.place (.ok c.out)}
  | _ => 0

def timers (c : Hand) : Multiset Turn :=
  match c.spot with
  | .timed p => {.resume ⟨c.role, p⟩}
  | _ => 0

def queue (id : Nat) (c : Hand) : Multiset Thread :=
  match c.spot with
  | .queued slots p => if slots = id then {⟨c.role, p⟩} else 0
  | _ => 0

def waiter (c : Hand) : Multiset Waiter :=
  match c.spot with
  | .joining join next => {⟨join, c.role, next⟩}
  | _ => 0

/-- The moves that the thread still takes, but for those of the jobs that it waits for. -/
def weight (c : Hand) : Nat :=
  match c.spot with
  | .running => 0
  | .ready _ | .queued _ _ | .joining _ _ => c.cost + 2
  | .timed _ => c.cost + 3
  | .ended => 1

section

variable [Room]

/-- The thread settles from where it is. -/
def Settled (work : Job → Process (Outcome Value)) (plans : List Plan) (c : Hand) : Prop :=
  match c.spot with
  | .running => True
  | .ready p | .timed p => Settles work c.stake c.made p c.out c.cost
  | .queued id p => c.stake = .owed id ∧ Settles work (.held id) c.made p c.out c.cost
  | .joining join next => c.join < join ∧ ∃ plan, plans[join]? = some plan ∧
      Settles work c.stake c.made (next (.ok plan.outs)) c.out c.cost
  | .ended => c.stake = .none

/-- The thread is a part of a join and gives what the join is to get of it. -/
structure Fits (work : Job → Process (Outcome Value)) (plans : List Plan) (c : Hand) : Prop where
  plan : ∃ plan, plans[c.join]? = some plan ∧ plan.outs[c.place]? = some c.out ∧
    ∀ id, c.stake.slots? = some id → plan.slots = some id
  settled : c.Settled work plans

variable {work : Job → Process (Outcome Value)} {plans : List Plan} {c : Hand}

theorem Fits.append (h : c.Fits work plans) (more : List Plan) : c.Fits work (plans ++ more) := by
  have hmore {i : Nat} {plan : Plan} (hplan : plans[i]? = some plan) :
      (plans ++ more)[i]? = some plan := by
    rw [List.getElem?_append_left (List.getElem?_eq_some_iff.mp hplan).1, hplan]
  obtain ⟨⟨plan, hplan, hrest⟩, hsettled⟩ := h
  refine ⟨⟨plan, hmore hplan, hrest⟩, ?_⟩
  unfold Settled at hsettled ⊢
  split at hsettled
  case h_5 =>
    obtain ⟨hless, plan', hplan', hsettles⟩ := hsettled
    exact ⟨hless, plan', hmore hplan', hsettles⟩
  all_goals exact hsettled

theorem Fits.change (h : c.Fits work plans) {stake : Stake} {made : Option Nat} {cost : Nat}
    {spot : Spot} (hstake : ∀ id, stake.slots? = some id → c.stake.slots? = some id)
    (hsettled : Settled work plans { c with stake, made, cost, spot }) :
    Fits work plans { c with stake, made, cost, spot } := by
  obtain ⟨plan, hplan, hout, hslots⟩ := h.plan
  exact ⟨⟨plan, hplan, hout, fun id hid => hslots id (hstake id hid)⟩, hsettled⟩

end

variable {c : Hand}

theorem queued_of_mem {id : Nat} {t : Thread} (ht : t ∈ c.queue id) :
    ∃ p, c.spot = .queued id p ∧ t = ⟨c.role, p⟩ := by
  unfold queue at ht
  split at ht
  · rename_i slots p hspot
    split at ht
    · rename_i hid
      exact ⟨p, hid ▸ hspot, Multiset.mem_singleton.mp ht⟩
    · simp at ht
  · simp at ht

theorem joining_of_mem {w : Waiter} (hw : w ∈ c.waiter) :
    c.spot = .joining w.join w.next ∧ w.role = c.role := by
  unfold waiter at hw
  split at hw
  · rename_i hspot
    obtain rfl := Multiset.mem_singleton.mp hw
    exact ⟨hspot, rfl⟩
  · simp at hw

theorem ready_or_ended_of_mem {turn : Turn} (hturn : turn ∈ c.turns) :
    (∃ p, c.spot = .ready p ∧ turn = .resume ⟨c.role, p⟩) ∨
      c.spot = .ended ∧ turn = .ended c.join c.place (.ok c.out) := by
  unfold turns at hturn
  split at hturn
  · rename_i p hspot
    exact .inl ⟨p, hspot, Multiset.mem_singleton.mp hturn⟩
  · rename_i hspot
    exact .inr ⟨hspot, Multiset.mem_singleton.mp hturn⟩
  · simp at hturn

theorem timed_of_mem {turn : Turn} (hturn : turn ∈ c.timers) :
    ∃ p, c.spot = .timed p ∧ turn = .resume ⟨c.role, p⟩ := by
  unfold timers at hturn
  split at hturn
  · rename_i p hspot
    exact ⟨p, hspot, Multiset.mem_singleton.mp hturn⟩
  · simp at hturn

end Hand

/-- The slots that belong to a join, or to a thread that is to start one. -/
def owned (plans : List Plan) (hands : Multiset Hand) : Multiset Nat :=
  ↑(plans.filterMap (·.slots)) + hands.filterMap (·.made)

theorem owned_cons (plans : List Plan) (c : Hand) (rest : Multiset Hand) :
    owned plans (c ::ₘ rest) = ↑c.made.toList + owned plans rest := by
  unfold owned
  rcases hmade : c.made with _ | id
  · rw [Multiset.filterMap_cons_none c rest hmade]
    simp
  · rw [Multiset.filterMap_cons_some _ c rest hmade]
    simp

theorem owned_append (plans : List Plan) (plan : Plan) (hands : Multiset Hand) :
    owned (plans ++ [plan]) hands = ↑plan.slots.toList + owned plans hands := by
  have hlast : [plan].filterMap (·.slots) = plan.slots.toList := rfl
  rw [owned, owned, List.filterMap_append, hlast, ← Multiset.coe_add, add_assoc]
  exact add_left_comm _ _ _

def load (hands : Multiset Hand) : Nat :=
  (hands.map Hand.weight).sum

@[simp]
theorem load_cons (c : Hand) (rest : Multiset Hand) : load (c ::ₘ rest) = c.weight + load rest := by
  simp [load]

theorem load_add (hands more : Multiset Hand) : load (hands + more) = load hands + load more := by
  simp [load]

/-- No thread has its turn. -/
def Rested (hands : Multiset Hand) : Prop :=
  ∀ c ∈ hands, c.spot ≠ .running

@[simp]
theorem rested_cons (c : Hand) (rest : Multiset Hand) :
    Rested (c ::ₘ rest) ↔ c.spot ≠ .running ∧ Rested rest :=
  Multiset.forall_mem_cons

/-- The threads of a scheduler whose main thread waits for its first join, to go on with what that
is to give. -/
structure Crew [Room] (work : Job → Process (Outcome Value))
    (next : Outcome (List Value) → Process (Outcome Value)) (outs : List Value) (s : Scheduler)
    (hands : Multiset Hand) (plans : List Plan) : Prop where
  ready : (↑s.ready : Multiset Turn) = hands.bind Hand.turns
  timers : (↑(s.timers.map (·.turn)) : Multiset Turn) = hands.bind Hand.timers
  slots : SlotsFit s.slots (fun id => hands.bind (Hand.queue id)) (hands.map (·.stake))
    (owned plans hands)
  joins : JoinsFit s.joins plans (hands.map Hand.role)
    (⟨0, .main, next⟩ ::ₘ hands.bind Hand.waiter)
  fits : ∀ c ∈ hands, c.Fits work plans
  first : ∃ plan, plans[0]? = some plan ∧ plan.outs = outs

theorem Scheduler.notify_ok (s : Scheduler) {join : Nat} {j : Join} (hj : s.joins[join]? = some j)
    (hopen : j.isOpen = true) (place : Nat) (out : Value) :
    s.notify join place (.ok out) =
      let s := { s with joins := s.joins.setIfInBounds join (j.give place out) }
      if (j.give place out).isOpen then s
      else s.enqueue [.resume ⟨j.role, j.next (.ok ((j.give place out).outputs.filterMap id))⟩] := by
  simp only [notify, hj, hopen]
  rfl

namespace Crew

variable {work : Job → Process (Outcome Value)}
  {next : Outcome (List Value) → Process (Outcome Value)} {outs : List Value} {s s' : Scheduler}
  {c c' : Hand} {hands rest : Multiset Hand} {plans : List Plan} {role : Role}

section

variable [Room]

theorem world (h : Crew work next outs s hands plans) (w : World) :
    Crew work next outs { s with world := w } hands plans :=
  ⟨h.ready, h.timers, h.slots, h.joins, h.fits, h.first⟩

theorem lift (h : Crew work next outs s (c ::ₘ rest) plans) (hwaiter : c.waiter = 0)
    (hready : (↑s.ready : Multiset Turn) = c.turns + ↑s'.ready)
    (htimers : (↑(s.timers.map (·.turn)) : Multiset Turn) = c.timers + ↑(s'.timers.map (·.turn)))
    (hslots : SlotsFit s'.slots (fun id => rest.bind (Hand.queue id)) ((c ::ₘ rest).map (·.stake))
      (owned plans (c ::ₘ rest)))
    (hjoins : s'.joins = s.joins) :
    Crew work next outs s' ({ c with spot := .running } ::ₘ rest) plans where
  ready := by
    have hbefore := h.ready
    rw [hready, Multiset.cons_bind, add_right_inj] at hbefore
    rw [hbefore, Multiset.cons_bind]
    exact (zero_add _).symm
  timers := by
    have hbefore := h.timers
    rw [htimers, Multiset.cons_bind, add_right_inj] at hbefore
    rw [hbefore, Multiset.cons_bind]
    exact (zero_add _).symm
  slots := by
    simpa [Hand.queue, owned_cons] using hslots
  joins := by
    have hbefore := h.joins
    rw [Multiset.map_cons, Multiset.cons_bind, hwaiter] at hbefore
    rw [hjoins, Multiset.map_cons, Multiset.cons_bind]
    exact hbefore
  fits c' hc' := by
    rcases Multiset.mem_cons.mp hc' with rfl | hrest
    · exact ⟨(h.fits c (Multiset.mem_cons_self _ _)).plan, trivial⟩
    · exact h.fits c' (Multiset.mem_cons_of_mem hrest)
  first := h.first

theorem put (h : Crew work next outs s (c ::ₘ rest) plans) (hc : c.spot = .running)
    (hrole : c'.role = c.role) (hwaiter : c'.waiter = 0) (hfits : c'.Fits work plans)
    (hready : (↑s'.ready : Multiset Turn) = c'.turns + ↑s.ready)
    (htimers : (↑(s'.timers.map (·.turn)) : Multiset Turn) = c'.timers + ↑(s.timers.map (·.turn)))
    (hslots : SlotsFit s'.slots (fun id => c'.queue id + rest.bind (Hand.queue id))
      (c'.stake ::ₘ rest.map (·.stake)) (owned plans (c' ::ₘ rest)))
    (hjoins : s'.joins = s.joins) : Crew work next outs s' (c' ::ₘ rest) plans where
  ready := by
    rw [hready, h.ready, Multiset.cons_bind, Multiset.cons_bind, Hand.turns.eq_def c, hc, zero_add]
  timers := by
    rw [htimers, h.timers, Multiset.cons_bind, Multiset.cons_bind, Hand.timers.eq_def c, hc, zero_add]
  slots := by
    simpa using hslots
  joins := by
    have hbefore := h.joins
    rw [Multiset.map_cons, Multiset.cons_bind, Hand.waiter.eq_def c, hc, ← hrole] at hbefore
    rw [hjoins, Multiset.map_cons, Multiset.cons_bind, hwaiter]
    exact hbefore
  fits c'' hc'' := by
    rcases Multiset.mem_cons.mp hc'' with rfl | hrest
    · exact hfits
    · exact h.fits c'' (Multiset.mem_cons_of_mem hrest)
  first := h.first

theorem put_same (h : Crew work next outs s (c ::ₘ rest) plans) (hc : c.spot = .running)
    {cost : Nat} {spot : Spot} (hsettled : Hand.Settled work plans { c with cost, spot })
    (hwaiter : Hand.waiter { c with cost, spot } = 0)
    (hqueue : ∀ id, Hand.queue id { c with cost, spot } = 0)
    (hready : (↑s'.ready : Multiset Turn) = Hand.turns { c with cost, spot } + ↑s.ready)
    (htimers : (↑(s'.timers.map (·.turn)) : Multiset Turn) =
      Hand.timers { c with cost, spot } + ↑(s.timers.map (·.turn)))
    (hslots : s'.slots = s.slots) (hjoins : s'.joins = s.joins) :
    Crew work next outs s' ({ c with cost, spot } ::ₘ rest) plans := by
  have hfits := (h.fits c (Multiset.mem_cons_self _ _)).change (fun _ hid => hid) hsettled
  refine h.put hc rfl hwaiter hfits hready htimers ?_ hjoins
  have hbefore := h.slots
  rw [hslots, owned_cons]
  simpa [hqueue, Hand.queue.eq_def _ c, hc, owned_cons] using hbefore

theorem done (h : Crew work next outs s (c ::ₘ rest) plans) (hc : c.spot = .running)
    (hstake : c.stake = .none) :
    Crew work next outs (s.finish (.ok c.out) c.role) ({ c with spot := .ended } ::ₘ rest) plans := by
  refine h.put_same hc hstake rfl (fun _ => rfl) ?_ (zero_add _).symm rfl rfl
  exact Multiset.coe_add _ _ ▸ add_comm _ _

theorem goOn (h : Crew work next outs s (c ::ₘ rest) plans) (hc : c.spot = .running)
    {p : Process (Outcome Value)} {cost : Nat} (hsettles : Settles work c.stake c.made p c.out cost) :
    Crew work next outs (s.goOn ⟨c.role, p⟩) ({ c with cost, spot := .ready p } ::ₘ rest) plans :=
  h.put_same hc hsettles rfl (fun _ => rfl) rfl (zero_add _).symm rfl rfl

theorem enqueue (h : Crew work next outs s (c ::ₘ rest) plans) (hc : c.spot = .running)
    {p : Process (Outcome Value)} {cost : Nat} (hsettles : Settles work c.stake c.made p c.out cost) :
    Crew work next outs (s.enqueue [.resume ⟨c.role, p⟩])
      ({ c with cost, spot := .ready p } ::ₘ rest) plans := by
  refine h.put_same hc hsettles rfl (fun _ => rfl) ?_ (zero_add _).symm rfl rfl
  exact Multiset.coe_add _ _ ▸ add_comm _ _

theorem after (h : Crew work next outs s (c ::ₘ rest) plans) (hc : c.spot = .running)
    {p : Process (Outcome Value)} {cost : Nat} (delay : Nat)
    (hsettles : Settles work c.stake c.made p c.out cost) :
    Crew work next outs (s.after delay ⟨c.role, p⟩)
      ({ c with cost, spot := .timed p } ::ₘ rest) plans := by
  refine h.put_same hc hsettles rfl (fun _ => rfl) (zero_add _).symm ?_ rfl rfl
  exact Multiset.coe_eq_coe.mpr ((Scheduler.insertTimer_perm _ _).map (·.turn))

theorem forget (h : Crew work next outs s (c ::ₘ rest) plans) (hc : c.spot = .running) :
    Crew work next outs s ({ c with made := none } ::ₘ rest) plans := by
  have hfits := h.fits c (Multiset.mem_cons_self _ _)
  have hsettled : Hand.Settled work plans { c with made := none } := by simp [Hand.Settled, hc]
  refine h.put hc rfl (by simp [Hand.waiter, hc]) (hfits.change (fun _ hid => hid) hsettled)
    (by simp [Hand.turns, hc]) (by simp [Hand.timers, hc]) ?_ rfl
  have hbefore := h.slots
  rw [owned_cons] at hbefore ⊢
  have hless := hbefore.mono (fun _ => le_rfl) (Multiset.le_add_left _ _)
  simpa [Hand.queue.eq_def _ c, hc, Hand.queue] using hless

theorem makeSlots (h : Crew work next outs s (c ::ₘ rest) plans) (hc : c.spot = .running)
    {capacity : Option Nat} (husable : capacity ≠ some 0) {p : Process (Outcome Value)} {cost : Nat}
    (hsettles : Settles work c.stake (some s.slots.size) p c.out cost) :
    Crew work next outs ({ s with slots := s.slots.push ⟨capacity, []⟩ }.goOn ⟨c.role, p⟩)
      ({ c with made := some s.slots.size, cost, spot := .ready p } ::ₘ rest) plans := by
  have hfits := h.fits c (Multiset.mem_cons_self _ _)
  refine h.put hc rfl rfl (hfits.change (fun _ hid => hid) hsettles) rfl (zero_add _).symm ?_ rfl
  have hbefore := h.slots
  rw [owned_cons] at hbefore ⊢
  have hpushed := (hbefore.mono (fun _ => le_rfl) (Multiset.le_add_left _ _)).push husable
  simpa [Hand.queue.eq_def _ c, hc, Hand.queue, Scheduler.goOn] using hpushed

theorem takeSlot (h : Crew work next outs s (c ::ₘ rest) plans) (hc : c.spot = .running) {id : Nat}
    (hstake : c.stake = .owed id) {p : Process (Outcome Value)} {cost : Nat}
    (hsettles : Settles work (.held id) c.made p c.out cost) :
    ∃ c', Crew work next outs (s.takeSlot id ⟨c.role, p⟩) (c' ::ₘ rest) plans ∧
      c'.weight = cost + 2 ∧ c'.spot ≠ .running := by
  have hfits := h.fits c (Multiset.mem_cons_self _ _)
  have hheld (other : Nat) (hother : (Stake.held id).slots? = some other) :
      c.stake.slots? = some other := by rw [hstake]; exact hother
  have hqueues (other : Nat) : (c ::ₘ rest).bind (Hand.queue other) = rest.bind (Hand.queue other) := by
    simp [Hand.queue.eq_def _ c, hc]
  have hbefore := h.slots
  simp only [hqueues, Multiset.map_cons, hstake, owned_cons] at hbefore
  -- The thread holds a slot and goes on.
  have htake {slots : Array Slots} (hslots : SlotsFit slots (fun id => rest.bind (Hand.queue id))
      (.held id ::ₘ rest.map (·.stake)) (owned plans (c ::ₘ rest))) :
      Crew work next outs ({ s with slots }.goOn ⟨c.role, p⟩)
        ({ c with stake := .held id, cost, spot := .ready p } ::ₘ rest) plans := by
    refine h.put hc rfl rfl (hfits.change hheld hsettles) rfl (zero_add _).symm ?_ rfl
    rw [owned_cons] at hslots ⊢
    simpa [Hand.queue, Scheduler.goOn] using hslots
  have hmore (other : Nat) : (Stake.owed id ::ₘ rest.map (·.stake)).count (.held other) ≤
      (Stake.held id ::ₘ rest.map (·.stake)).count (.held other) := by
    rw [Multiset.count_cons_of_ne (by simp)]
    exact Multiset.count_le_count_cons _ _ _
  unfold Scheduler.takeSlot
  split
  · refine ⟨_, htake ?_, rfl, by simp⟩
    rw [owned_cons]
    exact hbefore.mono hmore le_rfl
  · rename_i slots hslots
    split
    · refine ⟨_, htake ?_, rfl, by simp⟩
      rw [owned_cons]
      exact hbefore.mono hmore le_rfl
    · rename_i n hfree hwaiting
      refine ⟨_, htake ?_, rfl, by simp⟩
      rw [owned_cons]
      refine hbefore.set hslots ?_ (fun _ _ => rfl) (fun other _ => hmore other) ?_ (absurd rfl)
      · rw [← hbefore.queues, waitingFor, hslots, ← hwaiting]
        rfl
      · intro m _
        rw [Multiset.count_cons_self]
        omega
    · -- No slot is free, or others were there before: the thread waits behind them.
      rename_i hnone hfirst
      refine ⟨{ c with cost, spot := .queued id p }, ?_, rfl, by simp⟩
      refine h.put hc rfl rfl (hfits.change (fun _ hid => hid) ⟨hstake, hsettles⟩) (zero_add _).symm
        (zero_add _).symm ?_ rfl
      rw [owned_cons, hstake]
      refine hbefore.set hslots ?_ (fun other hother => ?_) (fun _ _ => le_rfl)
        (fun n hn => hbefore.usable id slots n hslots hn) fun _ => ?_
      · rw [← hbefore.queues, waitingFor, hslots, ← Multiset.coe_add, add_comm]
        simp [Hand.queue, Hand.role]
      · simp [Hand.queue, Ne.symm hother]
      · by_cases hwaiting : slots.waiting = []
        · rcases hfree : slots.free with _ | n
          · exact absurd hfree hnone
          · cases n with
            | zero => rfl
            | succ n => exact absurd hwaiting (hfirst n hfree)
        · exact hbefore.taken id slots hslots hwaiting

theorem giveBack (h : Crew work next outs s (c ::ₘ rest) plans) (hc : c.spot = .running)
    {p : Process (Outcome Value)} {cost : Nat} (hsettles : Settles work .none c.made p c.out cost)
    {slots : Array Slots}
    (hslots : SlotsFit slots (fun id => rest.bind (Hand.queue id)) (rest.map (·.stake))
      (owned plans (c ::ₘ rest))) :
    Crew work next outs ({ s with slots }.goOn ⟨c.role, p⟩)
      ({ c with stake := .none, cost, spot := .ready p } ::ₘ rest) plans := by
  have hfits := h.fits c (Multiset.mem_cons_self _ _)
  refine h.put hc rfl rfl (hfits.change (fun _ hid => by cases hid) hsettles) rfl (zero_add _).symm
    ?_ rfl
  rw [owned_cons] at hslots ⊢
  have hstakes := hslots.mono (fun id => Multiset.count_le_count_cons _ Stake.none _) le_rfl
  simpa [Hand.queue, Scheduler.goOn] using hstakes

theorem handOver (h : Crew work next outs s (c ::ₘ rest) plans) {id : Nat}
    {p : Process (Outcome Value)} (hc : c.spot = .queued id p) {slots : Slots}
    {waiting : List Thread} (hslots : s.slots[id]? = some slots)
    (hwaiting : slots.waiting = ⟨c.role, p⟩ :: waiting) :
    Crew work next outs
      ({ s with slots := s.slots.setIfInBounds id ⟨slots.free, waiting⟩ }.enqueue [.resume ⟨c.role, p⟩])
      ({ c with stake := .held id, spot := .ready p } ::ₘ rest) plans := by
  have hfits := h.fits c (Multiset.mem_cons_self _ _)
  obtain ⟨hstake, hsettles⟩ : c.stake = .owed id ∧ Settles work (.held id) c.made p c.out c.cost := by
    simpa [Hand.Settled, hc] using hfits.settled
  have hbefore := h.slots
  rw [owned_cons] at hbefore
  simp only [Multiset.cons_bind, Multiset.map_cons, hstake] at hbefore
  have hqueue : (↑waiting : Multiset Thread) = rest.bind (Hand.queue id) := by
    have hall := hbefore.queues id
    rw [waitingFor, hslots] at hall
    simpa [Hand.queue.eq_def _ c, hc, hwaiting, ← Multiset.cons_coe] using hall
  have hlifted : Crew work next outs
      { s with slots := s.slots.setIfInBounds id ⟨slots.free, waiting⟩ }
      ({ c with spot := .running } ::ₘ rest) plans := by
    refine h.lift (by simp [Hand.waiter, hc]) (by simp [Hand.turns, hc]) (by simp [Hand.timers, hc])
      ?_ rfl
    rw [owned_cons, Multiset.map_cons, hstake]
    refine hbefore.set hslots hqueue (fun other hother => ?_) (fun _ _ => le_rfl)
      (fun n hn => hbefore.usable id slots n hslots hn)
      fun _ => hbefore.taken id slots hslots (by simp [hwaiting])
    simp [Hand.queue.eq_def _ c, hc, Ne.symm hother]
  refine hlifted.put rfl rfl rfl (hfits.change (fun other hother => ?_) hsettles) ?_ (zero_add _).symm
    ?_ rfl
  · rw [hstake]
    exact hother
  · exact Multiset.coe_add _ _ ▸ add_comm _ _
  · have hafter := hlifted.slots
    rw [owned_cons] at hafter ⊢
    simp only [Multiset.cons_bind, Multiset.map_cons, hstake] at hafter
    refine hafter.mono (fun other => ?_) le_rfl
    rw [Multiset.count_cons_of_ne (by simp)]
    exact Multiset.count_le_count_cons _ _ _

theorem freeSlot (h : Crew work next outs s (c ::ₘ rest) plans) (hc : c.spot = .running) {id : Nat}
    (hstake : c.stake = .held id) {p : Process (Outcome Value)} {cost : Nat}
    (hsettles : Settles work .none c.made p c.out cost) (hrested : Rested rest) :
    ∃ hands, Crew work next outs ((s.freeSlot id).goOn ⟨c.role, p⟩) hands plans ∧
      load hands = cost + 2 + load rest ∧ Rested hands := by
  have hbefore := h.slots
  rw [owned_cons] at hbefore
  simp only [Multiset.cons_bind, Hand.queue.eq_def _ c, hc, zero_add, Multiset.map_cons, hstake]
    at hbefore
  have hothers (other : Nat) (hother : other ≠ id) :
      (Stake.held id ::ₘ rest.map (·.stake)).count (.held other) ≤
        (rest.map (·.stake)).count (.held other) := by
    rw [Multiset.count_cons_of_ne (by simpa using hother)]
  unfold Scheduler.freeSlot
  split
  · rename_i hnone
    refine ⟨_, h.giveBack hc hsettles ?_, by simp [Hand.weight], by simpa using hrested⟩
    rw [owned_cons]
    exact hbefore.restake id hothers fun s n hs => by simp [hnone] at hs
  · rename_i slots hslots
    split
    · -- The slot goes straight to the first that waits, so that it never is free in between.
      rename_i t waiting hwaiting
      have ht : t ∈ rest.bind (Hand.queue id) := by
        rw [← hbefore.queues id, waitingFor, hslots]
        simp [hwaiting]
      obtain ⟨q, hq, htq⟩ := Multiset.mem_bind.mp ht
      obtain ⟨others, rfl⟩ := Multiset.exists_cons_of_mem hq
      obtain ⟨p', hspot, rfl⟩ := Hand.queued_of_mem htq
      rw [Multiset.cons_swap] at h
      rw [rested_cons] at hrested
      have hgiven := h.handOver hspot hslots hwaiting
      rw [Multiset.cons_swap] at hgiven
      refine ⟨_, hgiven.giveBack hc hsettles ?_, by simp [Hand.weight, hspot],
        by simpa using hrested.2⟩
      have hafter := hgiven.slots
      simp only [Multiset.cons_bind, Hand.queue.eq_def _ c, hc, zero_add, Multiset.map_cons, hstake]
        at hafter
      simp only [Multiset.cons_bind, Multiset.map_cons]
      refine hafter.restake id (fun other hother => ?_) fun s n _ _ => ?_
      · rw [Multiset.count_cons_of_ne (by simpa using hother)]
      · rw [Multiset.count_cons_self]
        omega
    · rename_i n hfree hwaiting
      refine ⟨_, h.giveBack hc hsettles ?_, by simp [Hand.weight], by simpa using hrested⟩
      rw [owned_cons]
      refine hbefore.set hslots ?_ (fun _ _ => rfl) hothers (fun m hm => ?_) (absurd rfl)
      · rw [← hbefore.queues id, waitingFor, hslots, ← hwaiting]
        rfl
      · obtain rfl := Option.some.inj hm
        omega
    · rename_i hfree hwaiting
      refine ⟨_, h.giveBack hc hsettles ?_, by simp [Hand.weight], by simpa using hrested⟩
      rw [owned_cons]
      refine hbefore.restake id hothers fun s n hs hn => ?_
      obtain rfl := Option.some.inj (hslots.symm.trans hs)
      rw [hfree] at hn
      cases hn

end

def recruits (work : Job → Process (Outcome Value)) (join : Nat) (parts : List Part) : Multiset Hand :=
  (↑parts.zipIdx : Multiset (Part × Nat)).map fun (part, place) =>
    ⟨join, place, part.job.stake, none, part.out, part.cost, .ready (work part.job)⟩

section

variable {parts : List Part} {made : Option Nat} {join : Nat}

theorem load_recruits : load (recruits work join parts) = (parts.map (·.cost + 2)).sum := by
  have hcosts : parts.map (·.cost + 2) = parts.zipIdx.map fun part => part.1.cost + 2 := by
    rw [← Function.comp_def (fun part : Part => part.cost + 2) Prod.fst, ← List.map_map,
      List.zipIdx_map_fst]
  rw [load, recruits, Multiset.map_map, hcosts, Multiset.map_coe, Multiset.sum_coe]
  rfl

theorem rested_recruits : Rested (recruits work join parts) := by
  intro c hc
  obtain ⟨part, -, rfl⟩ := Multiset.mem_map.mp hc
  exact nofun

theorem turns_recruits : (recruits work join parts).bind Hand.turns =
    ↑((parts.map (·.job)).zipIdx.map fun (job, place) => Turn.resume ⟨.part join place, work job⟩) := by
  rw [List.zipIdx_map, List.map_map, recruits, Multiset.bind_map]
  exact Multiset.bind_singleton _ _

theorem timers_recruits : (recruits work join parts).bind Hand.timers = 0 := by
  rw [recruits, Multiset.bind_map]
  exact Multiset.bind_zero _

theorem queue_recruits (id : Nat) : (recruits work join parts).bind (Hand.queue id) = 0 := by
  rw [recruits, Multiset.bind_map]
  exact Multiset.bind_zero _

theorem waiter_recruits : (recruits work join parts).bind Hand.waiter = 0 := by
  rw [recruits, Multiset.bind_map]
  exact Multiset.bind_zero _

theorem owned_recruits (hands : Multiset Hand) :
    owned plans (recruits work join parts + hands) = owned plans hands := by
  unfold owned
  rw [Multiset.filterMap_add]
  simp [recruits]

theorem role_recruits : (recruits work join parts).map Hand.role =
    ↑((List.range (parts.map (·.out)).length).map (Role.part join)) := by
  have hplaces : List.range (parts.map (·.out)).length = parts.zipIdx.map (·.2) := by
    rw [List.zipIdx_map_snd, List.length_map, List.range_eq_range']
  rw [hplaces, List.map_map, recruits, Multiset.map_map]
  rfl

variable [Room]

theorem fits_recruits (hsettle : ∀ part ∈ parts,
      Settles work part.job.stake .none (work part.job) part.out part.cost)
    (hslots : ∀ part ∈ parts, ∀ id, part.job.stake = .owed id → made = some id)
    (hplan : plans[join]? = some ⟨parts.map (·.out), made⟩)
    (hc : c ∈ recruits work join parts) : c.Fits work plans := by
  obtain ⟨⟨part, place⟩, hpart, rfl⟩ := Multiset.mem_map.mp hc
  have hget := List.mem_zipIdx_iff_getElem?.mp (Multiset.mem_coe.mp hpart)
  have hmem := List.mem_of_getElem? hget
  refine ⟨⟨_, hplan, ?_, fun id hid => hslots part hmem id ?_⟩, hsettle part hmem⟩
  · simp [hget]
  · cases hjob : part.job with
    | branch _ _ _ => simp [hjob, Job.stake, Stake.slots?] at hid
    | iteration _ slots _ => simpa [hjob, Job.stake, Stake.slots?] using hid

theorem of_startJoin (hparts : parts ≠ []) (hsettle : ∀ part ∈ parts,
      Settles work part.job.stake .none (work part.job) part.out part.cost)
    (hslots : ∀ part ∈ parts, ∀ id, part.job.stake = .owed id → made = some id)
    (hready : s.ready = []) (htimers : s.timers = []) (hjoins : s.joins = #[])
    (hfit : SlotsFit s.slots (fun _ => 0) 0 ↑made.toList) :
    Crew work next (parts.map (·.out)) (s.startJoin work .main (parts.map (·.job)) next)
      (recruits work 0 parts) [⟨parts.map (·.out), made⟩] where
  ready := by
    rw [turns_recruits, Scheduler.startJoin, Scheduler.enqueue, hready, hjoins]
    rfl
  timers := by
    rw [timers_recruits, Scheduler.startJoin, Scheduler.enqueue, htimers]
    rfl
  slots := by
    have howned : owned [⟨parts.map (·.out), made⟩] (recruits work 0 parts) = ↑made.toList := by
      rw [← add_zero (recruits work 0 parts), owned_recruits, ← List.nil_append [Plan.mk _ _],
        owned_append]
      exact add_zero _
    simp only [queue_recruits, howned]
    exact hfit.mono (fun _ => Nat.zero_le _) le_rfl
  joins := by
    have hfirst := JoinsFit.empty.start ⟨parts.map (·.out), made⟩ (by simpa using hparts) .main next
    rw [zero_add, List.map_map] at hfirst
    rw [role_recruits, waiter_recruits, Scheduler.startJoin, Scheduler.enqueue, hjoins, List.map_map]
    exact hfirst
  fits c hc := fits_recruits hsettle hslots rfl hc
  first := ⟨_, rfl, rfl⟩

end

variable [Room]

theorem startJoin (h : Crew work next outs s (c ::ₘ rest) plans) (hc : c.spot = .running)
    {parts : List Part} (hparts : parts ≠ [])
    (hsettle : ∀ part ∈ parts, Settles work part.job.stake .none (work part.job) part.out part.cost)
    (hslots : ∀ part ∈ parts, ∀ id, part.job.stake = .owed id → c.made = some id)
    {after : Outcome (List Value) → Process (Outcome Value)} {cost : Nat}
    (hrest : Settles work c.stake .none (after (.ok (parts.map (·.out)))) c.out cost) :
    Crew work next outs (s.startJoin work c.role (parts.map (·.job)) after)
      ({ c with made := none, cost, spot := .joining s.joins.size after } ::ₘ
        (recruits work s.joins.size parts + rest))
      (plans ++ [⟨parts.map (·.out), c.made⟩]) := by
  have hplanned := h.joins.planned
  have hlast : (plans ++ [⟨parts.map (·.out), c.made⟩])[s.joins.size]? =
      some ⟨parts.map (·.out), c.made⟩ := by
    rw [← hplanned]
    simp
  refine ⟨?_, ?_, ?_, ?_, fun c' hc' => ?_, ?_⟩
  · have hbefore := h.ready
    rw [Multiset.cons_bind, Hand.turns.eq_def c, hc, zero_add] at hbefore
    rw [Multiset.cons_bind, Multiset.add_bind, turns_recruits, ← hbefore, Multiset.coe_add]
    exact (Multiset.coe_eq_coe.mpr List.perm_append_comm).trans (zero_add _).symm
  · have hbefore := h.timers
    rw [Multiset.cons_bind, Hand.timers.eq_def c, hc] at hbefore
    rw [Multiset.cons_bind, Multiset.add_bind, timers_recruits, zero_add]
    exact hbefore
  · have hbefore := h.slots
    rw [owned_cons] at hbefore
    simp only [Multiset.cons_bind, Hand.queue.eq_def _ c, hc, zero_add, Multiset.map_cons] at hbefore
    -- What the thread had made for jobs belongs to the new join from here on.
    have howned : owned (plans ++ [⟨parts.map (·.out), c.made⟩])
        ({ c with made := none, cost, spot := .joining s.joins.size after } ::ₘ
          (recruits work s.joins.size parts + rest)) = ↑c.made.toList + owned plans rest := by
      rw [owned_append, owned_cons, owned_recruits]
      simp
    rw [howned]
    simp only [Multiset.cons_bind, Multiset.add_bind, queue_recruits, Hand.queue, zero_add,
      Multiset.map_cons, Multiset.map_add]
    refine hbefore.mono (fun id => ?_) le_rfl
    rw [← Multiset.singleton_add, ← Multiset.singleton_add, Multiset.count_add, Multiset.count_add,
      Multiset.count_add]
    omega
  · have hbefore := h.joins.start ⟨parts.map (·.out), c.made⟩ (by simpa using hparts) c.role after
    rw [Multiset.cons_swap, Multiset.map_cons, Multiset.cons_bind, Hand.waiter.eq_def c,
      hc, zero_add, List.map_map, ← @role_recruits work] at hbefore
    rw [Multiset.map_cons, Multiset.map_add, Multiset.cons_bind, Multiset.add_bind, waiter_recruits,
      zero_add, Scheduler.startJoin, List.map_map, add_comm (Multiset.map _ (recruits _ _ _)),
      ← Multiset.cons_add]
    exact hbefore
  · rcases Multiset.mem_cons.mp hc' with rfl | hother
    · obtain ⟨plan, hplan, hfits⟩ := (h.fits c (Multiset.mem_cons_self _ _)).plan
      have hbound := (List.getElem?_eq_some_iff.mp hplan).1
      refine ⟨⟨plan, ?_, hfits⟩, hplanned ▸ hbound, _, hlast, hrest⟩
      rw [List.getElem?_append_left hbound, hplan]
    · rcases Multiset.mem_add.mp hother with hnew | hold
      · exact fits_recruits hsettle hslots hlast hnew
      · exact (h.fits c' (Multiset.mem_cons_of_mem hold)).append _
  · obtain ⟨plan, hplan, houts⟩ := h.first
    refine ⟨plan, ?_, houts⟩
    rw [List.getElem?_append_left (List.getElem?_eq_some_iff.mp hplan).1, hplan]

theorem resume (h : Crew work next outs s (c ::ₘ rest) plans) (hc : c.spot = .running)
    {p : Process (Outcome Value)} (hsettles : Settles work c.stake c.made p c.out c.cost)
    (hquota : (p.advance s.world).2.InQuota) (hrested : Rested rest) :
    ∃ hands plans', Crew work next outs (s.resume work ⟨c.role, p⟩) hands plans' ∧
      load hands ≤ c.cost + 1 + load rest ∧ Rested hands := by
  have hstops := hsettles.advance hquota
  unfold Scheduler.resume
  generalize p.advance s.world = stop at hstops hquota
  obtain ⟨pause, w⟩ := stop
  replace h := h.world w
  cases pause with
  | done o =>
    obtain ⟨rfl, hstake⟩ := hstops
    exact ⟨_, _, h.done hc hstake, by simp [Hand.weight], by simpa using hrested⟩
  | waiting wt after =>
    simp only [Settles.Stops] at hstops
    generalize hcost : c.cost = cost at hstops ⊢
    generalize hstake : c.stake = stake at hstops
    cases hstops with
    | @sleep _ _ micros _ _ cost hrest =>
      subst hstake
      cases micros with
      | zero => exact ⟨_, _, h.enqueue hc hrest, by simp [Hand.weight], by simpa using hrested⟩
      | succ micros => exact ⟨_, _, h.after hc _ hrest, by simp [Hand.weight], by simpa using hrested⟩
    | makeSlots husable hrest =>
      subst hstake
      exact ⟨_, _, h.makeSlots hc husable (hrest _), by simp [Hand.weight], by simpa using hrested⟩
    | takeSlot hrest =>
      obtain ⟨c', hcrew, hweight, hspot⟩ := h.takeSlot hc hstake hrest
      exact ⟨_, _, hcrew, by simp [hweight], by simpa [hspot] using hrested⟩
    | freeSlot hrest =>
      obtain ⟨hands, hcrew, hload, hafter⟩ := h.freeSlot hc hstake hrest hrested
      exact ⟨_, _, hcrew, by rw [hload], hafter⟩
    | join parts hsettle hslots hrest =>
      subst hstake
      cases parts with
      | nil => exact ⟨_, _, (h.forget hc).goOn hc hrest, by simp [Hand.weight], by simpa using hrested⟩
      | cons part parts =>
        refine ⟨_, _, h.startJoin hc (List.cons_ne_nil _ _) hsettle hslots hrest, ?_, ?_⟩
        · rw [load_cons, load_add, load_recruits]
          simp only [Hand.weight]
          omega
        · refine (rested_cons _ _).mpr ⟨nofun, fun c' hc' => ?_⟩
          rcases Multiset.mem_add.mp hc' with hnew | hold
          · exact rested_recruits c' hnew
          · exact hrested c' hold

theorem leave (h : Crew work next outs s (c ::ₘ rest) plans) (hc : c.spot = .running)
    (hstake : c.stake = .none) {joins : Array Join}
    (hturns : hands.bind Hand.turns = rest.bind Hand.turns)
    (htimers : hands.bind Hand.timers = rest.bind Hand.timers)
    (hqueues : ∀ id, hands.bind (Hand.queue id) = rest.bind (Hand.queue id))
    (hstakes : hands.map (·.stake) = rest.map (·.stake)) (howned : owned plans hands = owned plans rest)
    (hfits : ∀ c ∈ hands, c.Fits work plans)
    (hjoins : JoinsFit joins plans (hands.map Hand.role) (⟨0, .main, next⟩ ::ₘ hands.bind Hand.waiter)) :
    Crew work next outs { s with joins } hands plans where
  ready := by
    rw [hturns, h.ready, Multiset.cons_bind, Hand.turns.eq_def c, hc]
    exact zero_add _
  timers := by
    rw [htimers, h.timers, Multiset.cons_bind, Hand.timers.eq_def c, hc]
    exact zero_add _
  slots := by
    have hbefore := h.slots
    rw [owned_cons] at hbefore
    simp only [Multiset.cons_bind, Hand.queue.eq_def _ c, hc, zero_add, Multiset.map_cons, hstake]
      at hbefore
    simp only [hqueues, hstakes, howned]
    refine hbefore.mono (fun id => ?_) (Multiset.le_add_left _ _)
    rw [Multiset.count_cons_of_ne (by simp)]
  joins := hjoins
  fits := hfits
  first := h.first

theorem notify (h : Crew work next outs s (c ::ₘ rest) plans) (hc : c.spot = .running)
    (hstake : c.stake = .none) (hrested : Rested rest) :
    .resume ⟨.main, next (.ok outs)⟩ ∈ (s.notify c.join c.place (.ok c.out)).ready ∨
    ∃ hands, Crew work next outs (s.notify c.join c.place (.ok c.out)) hands plans ∧
      load hands = load rest ∧ Rested hands := by
  obtain ⟨plan, hplan, hout, -⟩ := (h.fits c (Multiset.mem_cons_self _ _)).plan
  have hjoins := h.joins
  rw [Multiset.map_cons, Multiset.cons_bind, Hand.waiter.eq_def c, hc, zero_add] at hjoins
  obtain ⟨j, hj, hnone⟩ := (hjoins.part_iff c.join c.place).mp (Multiset.mem_cons_self _ _)
  have hjfits := hjoins.fits c.join j plan hj hplan
  have hopen : j.isOpen = true := by
    rw [hjfits.isOpen]
    exact List.any_eq_true.mpr ⟨none, List.mem_of_getElem? hnone, rfl⟩
  have hrest (c' : Hand) (hc' : c' ∈ rest) : c'.Fits work plans :=
    h.fits c' (Multiset.mem_cons_of_mem hc')
  rw [s.notify_ok hj hopen]
  -- Either the join still waits for others, or whoever waits for it goes on.
  by_cases hlast : (j.give c.place c.out).isOpen = true
  · simp only [hlast, if_true]
    refine .inr ⟨rest, h.leave hc hstake rfl rfl (fun _ => rfl) rfl rfl hrest ?_, rfl, hrested⟩
    exact hjoins.give hj hplan hout le_rfl fun w => by simp [hlast]
  · have hclosed : (j.give c.place c.out).isOpen = false := Bool.eq_false_iff.mpr hlast
    have houts := (hjfits.give hout).outputs_eq hclosed
    simp only [hclosed, Bool.false_eq_true, if_false, houts]
    have hwaiter := (hjoins.waiter_iff ⟨c.join, j.role, j.next⟩).mpr ⟨j, hj, hopen, rfl, rfl⟩
    rcases Multiset.mem_cons.mp hwaiter with hroot | hother
    · -- The join is the one that the main thread waits for.
      left
      obtain ⟨hjoin, hrole, hnext⟩ : c.join = 0 ∧ j.role = .main ∧ j.next = next := by
        simpa using hroot
      obtain ⟨first, hfirst, rfl⟩ := h.first
      obtain rfl := Option.some.inj ((hjoin ▸ hplan).symm.trans hfirst)
      simp [Scheduler.enqueue, hrole, hnext]
    · right
      -- Another thread of the crew waits for the join: it takes the place of the one that has ended.
      obtain ⟨q, hq, hqwaiter⟩ := Multiset.mem_bind.mp hother
      obtain ⟨others, rfl⟩ := Multiset.exists_cons_of_mem hq
      obtain ⟨hspot, hrole⟩ := Hand.joining_of_mem hqwaiter
      simp only at hspot hrole
      have hqfits := hrest q hq
      have hlifted : Crew work next outs
          { s with joins := s.joins.setIfInBounds c.join (j.give c.place c.out) }
          ({ q with spot := .running } ::ₘ others) plans := by
        refine h.leave hc hstake ?_ ?_ (fun id => ?_) ?_ ?_ ?_ ?_
        · simp [Hand.turns, hspot]
        · simp [Hand.timers, hspot]
        · simp [Hand.queue, hspot]
        · simp
        · simp [owned_cons]
        · intro c' hc'
          rcases Multiset.mem_cons.mp hc' with rfl | hold
          · exact ⟨hqfits.plan, trivial⟩
          · exact hrest c' (Multiset.mem_cons_of_mem hold)
        · rw [Multiset.cons_bind, Hand.waiter.eq_def q, hspot, Multiset.singleton_add,
            Multiset.cons_swap, Multiset.map_cons] at hjoins
          have hafter := JoinsFit.close (w := ⟨c.join, q.role, j.next⟩) hjoins hj hplan hout hclosed
          simpa [Hand.waiter, Hand.role] using hafter
      have hsettled := hqfits.settled
      simp only [Hand.Settled, hspot, hplan, Option.some.injEq, exists_eq_left'] at hsettled
      rw [hrole]
      rw [rested_cons] at hrested
      exact ⟨_, hlifted.enqueue rfl hsettled.2, by simp [Hand.weight, hspot],
        by simpa using hrested.2⟩

theorem exists_turn (h : Crew work next outs s hands plans) {before after : List Turn} {turn : Turn}
    (hready : s.ready = before ++ turn :: after) (w : World) :
    ∃ c rest, hands = c ::ₘ rest ∧ turn ∈ c.turns ∧
      Crew work next outs { s with world := w, ready := before ++ after }
        ({ c with spot := .running } ::ₘ rest) plans := by
  have hmem : turn ∈ hands.bind Hand.turns := by
    rw [← h.ready, hready]
    simp
  obtain ⟨c, hc, hturn⟩ := Multiset.mem_bind.mp hmem
  obtain ⟨rest, rfl⟩ := Multiset.exists_cons_of_mem hc
  have hslots := h.slots
  simp only [Multiset.cons_bind] at hslots
  have hperm : (↑s.ready : Multiset Turn) = {turn} + ↑(before ++ after) := by
    rw [hready]
    exact Multiset.coe_eq_coe.mpr List.perm_middle
  refine ⟨c, rest, rfl, hturn, ?_⟩
  rcases Hand.ready_or_ended_of_mem hturn with ⟨p, hspot, rfl⟩ | ⟨hspot, rfl⟩
  all_goals
    refine h.lift (by simp [Hand.waiter, hspot]) (by simpa [Hand.turns, hspot] using hperm)
      (by simp [Hand.timers, hspot]) ?_ rfl
    simpa only [Hand.queue.eq_def _ c, hspot, zero_add] using hslots

theorem exists_timer (h : Crew work next outs s hands plans) {before after : List Timer}
    {timer : Timer} (htimers : s.timers = before ++ timer :: after) (w : World) :
    ∃ c rest, hands = c ::ₘ rest ∧ timer.turn ∈ c.timers ∧
      Crew work next outs { s with world := w, timers := before ++ after }
        ({ c with spot := .running } ::ₘ rest) plans := by
  have hmem : timer.turn ∈ hands.bind Hand.timers := by
    rw [← h.timers, htimers]
    simp
  obtain ⟨c, hc, hturn⟩ := Multiset.mem_bind.mp hmem
  obtain ⟨rest, rfl⟩ := Multiset.exists_cons_of_mem hc
  obtain ⟨p, hspot, hone⟩ := Hand.timed_of_mem hturn
  have hslots := h.slots
  simp only [Multiset.cons_bind, Hand.queue.eq_def _ c, hspot, zero_add] at hslots
  refine ⟨c, rest, rfl, hturn, h.lift ?_ ?_ ?_ hslots rfl⟩
  · simp [Hand.waiter, hspot]
  · simp [Hand.turns, hspot]
  · simp only [Hand.timers, hspot, ← hone]
    rw [htimers, List.map_append, List.map_cons, List.map_append]
    exact Multiset.coe_eq_coe.mpr List.perm_middle

/-- A move leaves less to do, unless the history gets too long or the main thread gets what the join
is to give. -/
theorem move (h : Crew work next outs s hands plans) (hrested : Rested hands)
    (hmove : Scheduler.Move work s s') :
    (¬s'.world.InQuota ∨ .resume ⟨.main, next (.ok outs)⟩ ∈ s'.ready) ∨
      ∃ hands' plans', load hands' < load hands ∧ Rested hands' ∧
        Crew work next outs s' hands' plans' := by
  cases hmove with
  | take w before after turn hready =>
    obtain ⟨c, rest, rfl, hturn, hrunning⟩ := h.exists_turn hready w
    have hsettled := (h.fits c (Multiset.mem_cons_self _ _)).settled
    have hothers := ((rested_cons c rest).mp hrested).2
    rcases Hand.ready_or_ended_of_mem hturn with ⟨p, hspot, rfl⟩ | ⟨hspot, rfl⟩
    · simp only [Hand.Settled, hspot] at hsettled
      -- A turn may make the history too long, and then nothing more is claimed.
      by_cases hquota : (p.advance w).2.InQuota
      · obtain ⟨hands, plans', hcrew, hload, hafter⟩ := hrunning.resume rfl hsettled hquota hothers
        refine .inr ⟨hands, plans', ?_, hafter, hcrew⟩
        simp only [load_cons, Hand.weight, hspot] at hload ⊢
        omega
      · refine .inl (.inl fun hafter => hquota ?_)
        rw [World.InQuota, Scheduler.take, Scheduler.execution_resume] at hafter
        exact hafter
    · simp only [Hand.Settled, hspot] at hsettled
      rcases hrunning.notify rfl hsettled hothers with hmain | ⟨hands, hcrew, hload, hafter⟩
      · exact .inl (.inr hmain)
      · refine .inr ⟨hands, plans, ?_, hafter, hcrew⟩
        simp only [load_cons, Hand.weight, hspot, hload]
        omega
  | fire w before after timer htimers =>
    obtain ⟨c, rest, rfl, hturn, hrunning⟩ := h.exists_timer htimers w
    have hsettled := (h.fits c (Multiset.mem_cons_self _ _)).settled
    have hothers := ((rested_cons c rest).mp hrested).2
    obtain ⟨p, hspot, hone⟩ := Hand.timed_of_mem hturn
    simp only [Hand.Settled, hspot] at hsettled
    refine .inr ⟨_, plans, ?_, ?_, hone ▸ hrunning.enqueue rfl hsettled⟩
    · simp only [load_cons, Hand.weight, hspot]
      omega
    · simpa using hothers

theorem plan_unique (h : Crew work next outs s hands plans) {i j : Nat} {first second : Plan}
    (hi : plans[i]? = some first) (hj : plans[j]? = some second) {id : Nat}
    (hfirst : first.slots = some id) (hsecond : second.slots = some id) : i = j := by
  have honce := (Multiset.nodup_add.mp h.slots.once).1
  rw [Multiset.coe_nodup, List.Nodup, List.pairwise_filterMap, List.pairwise_iff_getElem] at honce
  obtain ⟨hbound, rfl⟩ := List.getElem?_eq_some_iff.mp hi
  obtain ⟨hbound', rfl⟩ := List.getElem?_eq_some_iff.mp hj
  rcases Nat.lt_trichotomy i j with hless | heq | hmore
  · exact absurd rfl (honce i j hbound hbound' hless id hfirst id hsecond)
  · exact heq
  · exact absurd rfl (honce j i hbound' hbound hmore id hsecond id hfirst)

theorem exists_active (h : Crew work next outs s hands plans) (hrested : Rested hands) {i : Nat}
    {j : Join} (hj : s.joins[i]? = some j) (hopen : j.isOpen = true) :
    s.ready ≠ [] ∨ s.timers ≠ [] := by
  -- Whoever joins waits for a later join, of which there are so many only.
  induction hleft : s.joins.size - i using Nat.strongRecOn generalizing i j with
  | ind left ih =>
    have hbound := (Array.getElem?_eq_some_iff.mp hj).1
    have hunqueued (c : Hand) (hc : c ∈ hands) (hjoin : c.join = i)
        (hqueued : ∀ id p, c.spot ≠ .queued id p) : s.ready ≠ [] ∨ s.timers ≠ [] := by
      have hsettled := (h.fits c hc).settled
      have hready (turn : Turn) (hturn : turn ∈ c.turns) : s.ready ≠ [] := by
        have hmem : turn ∈ (↑s.ready : Multiset Turn) := h.ready ▸ Multiset.mem_bind.mpr ⟨c, hc, hturn⟩
        exact List.ne_nil_of_mem (Multiset.mem_coe.mp hmem)
      cases hspot : c.spot with
      | running => exact absurd hspot (hrested c hc)
      | ready p => exact .inl (hready (.resume ⟨c.role, p⟩) (by simp [Hand.turns, hspot]))
      | ended => exact .inl (hready (.ended c.join c.place (.ok c.out)) (by simp [Hand.turns, hspot]))
      | queued id p => exact absurd hspot (hqueued id p)
      | timed p =>
        have hmem : Turn.resume ⟨c.role, p⟩ ∈ (↑(s.timers.map (·.turn)) : Multiset Turn) :=
          h.timers ▸ Multiset.mem_bind.mpr ⟨c, hc, by simp [Hand.timers, hspot]⟩
        refine .inr fun hnil => ?_
        simp [hnil] at hmem
      | joining later after =>
        simp only [Hand.Settled, hspot] at hsettled
        have hwaiter : (⟨later, c.role, after⟩ : Waiter) ∈
            (⟨0, .main, next⟩ : Waiter) ::ₘ hands.bind Hand.waiter :=
          Multiset.mem_cons_of_mem (Multiset.mem_bind.mpr ⟨c, hc, by simp [Hand.waiter, hspot]⟩)
        obtain ⟨j', hj', hopen', -⟩ := (h.joins.waiter_iff _).mp hwaiter
        have hlater := (Array.getElem?_eq_some_iff.mp hj').1
        exact ih (s.joins.size - later) (by simp only at hlater; omega) hj' hopen' rfl
    obtain ⟨place, hpart⟩ := h.joins.exists_part hj hopen
    obtain ⟨c, hc, hrole⟩ := Multiset.mem_map.mp hpart
    obtain ⟨hjoin, -⟩ : c.join = i ∧ c.place = place := by simpa [Hand.role] using hrole
    by_cases hqueued : ∃ id p, c.spot = .queued id p
    · -- Another thread of the join holds the slot that this one waits for.
      obtain ⟨id, p, hspot⟩ := hqueued
      have hsettled := (h.fits c hc).settled
      simp only [Hand.Settled, hspot] at hsettled
      have hthread : (⟨c.role, p⟩ : Thread) ∈ hands.bind (Hand.queue id) :=
        Multiset.mem_bind.mpr ⟨c, hc, by simp [Hand.queue, hspot]⟩
      obtain ⟨holder, hholder, hheld⟩ := Multiset.mem_map.mp (h.slots.exists_held hthread)
      obtain ⟨plan, hplan, -, hslots⟩ := (h.fits c hc).plan
      obtain ⟨plan', hplan', -, hslots'⟩ := (h.fits holder hholder).plan
      have hsame := h.plan_unique hplan' hplan (hslots' id (by rw [hheld]; rfl))
        (hslots id (by rw [hsettled.1]; rfl))
      refine hunqueued holder hholder (hsame.trans hjoin) fun id' p' hspot' => ?_
      have hsettled' := (h.fits holder hholder).settled
      simp only [Hand.Settled, hspot', hheld] at hsettled'
      exact absurd hsettled'.1 nofun
    · exact hunqueued c hc hjoin fun id p hspot => hqueued ⟨id, p, hspot⟩

theorem exists_move (h : Crew work next outs s hands plans) (hrested : Rested hands) :
    ∃ s', Scheduler.Move work s s' := by
  obtain ⟨j, hj, hopen, -⟩ := (h.joins.waiter_iff _).mp (Multiset.mem_cons_self _ _)
  rcases h.exists_active hrested hj hopen with hready | htimers
  · obtain ⟨turn, rest, hready⟩ := List.exists_cons_of_ne_nil hready
    exact ⟨_, .take s.world [] rest turn hready⟩
  · obtain ⟨timer, rest, htimers⟩ := List.exists_cons_of_ne_nil htimers
    exact ⟨_, .fire s.world [] rest timer htimers⟩

/-- In the end, the main thread gets what its join is to give, unless the history gets too long. -/
theorem inevitable (h : Crew work next outs s hands plans) (hrested : Rested hands) :
    Inevitable (Scheduler.Move work)
      (fun s => ¬s.world.InQuota ∨ .resume ⟨.main, next (.ok outs)⟩ ∈ s.ready) s := by
  refine Inevitable.of_measure (fun s n => ∃ hands plans, load hands = n ∧ Rested hands ∧
    Crew work next outs s hands plans) ?_ ⟨hands, plans, rfl, hrested, h⟩
  rintro s n ⟨hands, plans, rfl, hrested, h⟩
  refine .inr ⟨h.exists_move hrested, fun s' hmove => ?_⟩
  rcases h.move hrested hmove with hgoal | ⟨hands', plans', hless, hrested', hcrew⟩
  · exact .inl hgoal
  · exact .inr ⟨_, hless, hands', plans', rfl, hrested', hcrew⟩

end Crew

end StatesLanguage
