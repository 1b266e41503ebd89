import Mathlib.Algebra.Order.Group.Multiset
import Mathlib.Data.Multiset.Count
import Mathlib.Tactic.Abel
import StatesLanguage.Proofs.Process

/-!
# Threads of the scheduler

What a step does to the threads: at most one runs, it may start others, and all the rest stay as
they are. Threads have no names of their own; what tells them apart are their roles, so it is
counted how many threads have one. What a whole run keeps of its main thread alone follows from this
(`run_main`).
-/

namespace StatesLanguage

/-- A thread that is to go on: its role and the processes that it may go on with. -/
abbrev Held := Role × Set (Process (Outcome Value))

def Turn.threads : Turn → List Held
  | .resume t => [(t.role, {t.process})]
  | .ended _ _ _ => []

@[simp] theorem Turn.threads_resume (t : Thread) :
    (Turn.resume t).threads = [(t.role, {t.process})] := rfl

@[simp] theorem Turn.threads_ended (join place : Nat) (o : Outcome Value) :
    (Turn.ended join place o).threads = [] := rfl

/-- A join that is open holds its thread, which goes on with the outcome of the join. -/
def Join.threads (j : Join) : List Held :=
  if j.isOpen then [(j.role, Set.range j.next)] else []

def Slots.threads (slots : Slots) : List Held :=
  slots.waiting.map fun t => (t.role, {t.process})

namespace Scheduler

/-- The threads that have not ended. -/
def threads (s : Scheduler) : Multiset Held :=
  ↑(s.ready.flatMap Turn.threads) + ↑(s.timers.flatMap fun timer => timer.turn.threads) +
    ↑(s.joins.toList.flatMap Join.threads) + ↑(s.slots.toList.flatMap Slots.threads)

theorem flatMap_set {α : Type} (f : α → List Held) (l : List α) (i : Nat) (a b : α)
    (h : l[i]? = some a) :
    (((l.set i b).flatMap f : List Held) : Multiset Held) + ↑(f a) = ↑(l.flatMap f) + ↑(f b) := by
  induction l generalizing i with
  | nil => simp at h
  | cons x rest ih =>
    cases i with
    | zero =>
      obtain rfl : x = a := by simpa using h
      simp only [List.set_cons_zero, List.flatMap_cons, ← Multiset.coe_add]
      abel
    | succ i =>
      have := ih i (by simpa using h)
      simp only [List.set_cons_succ, List.flatMap_cons, ← Multiset.coe_add, add_assoc] at this ⊢
      rw [this]

/-! ## Operations -/

theorem threads_enqueue (s : Scheduler) (turns : List Turn) :
    (s.enqueue turns).threads = ↑(turns.flatMap Turn.threads) + s.threads := by
  simp only [threads, enqueue, List.flatMap_append, ← Multiset.coe_add]
  abel

theorem threads_goOn (s : Scheduler) (t : Thread) :
    (s.goOn t).threads = (t.role, {t.process}) ::ₘ s.threads := by
  simp only [threads, goOn, List.flatMap_cons, Turn.threads_resume, List.cons_append,
    List.nil_append, ← Multiset.cons_coe, Multiset.cons_add]

theorem threads_create (world : World) (main : Process (Outcome Value))
    (aside : List (Process (Outcome Value))) :
    (create world main aside).threads =
      (.main, {main}) ::ₘ ↑(aside.map fun p => ((.aside, {p}) : Held)) := by
  have haside : (aside.map fun p => Turn.resume ⟨.aside, p⟩).flatMap Turn.threads =
      aside.map fun p => ((.aside, {p}) : Held) := by
    rw [List.flatMap_map, List.map_eq_flatMap]
    rfl
  simp [threads, create, haside]

theorem insertTimer_perm (timer : Timer) (timers : List Timer) :
    (insertTimer timer timers).Perm (timer :: timers) := by
  induction timers with
  | nil => rfl
  | cons t rest ih =>
    unfold insertTimer
    split
    · exact (ih.cons t).trans (.swap timer t rest)
    · rfl

theorem flatMap_insertTimer (timer : Timer) (timers : List Timer) :
    (((insertTimer timer timers).flatMap fun t => t.turn.threads : List Held) : Multiset Held) =
      ↑timer.turn.threads + ↑(timers.flatMap fun t => t.turn.threads) :=
  Multiset.coe_eq_coe.mpr ((insertTimer_perm timer timers).flatMap_right _)

theorem threads_after (s : Scheduler) (delay : Nat) (t : Thread) :
    (s.after delay t).threads = (t.role, {t.process}) ::ₘ s.threads := by
  simp only [threads, after, flatMap_insertTimer, Turn.threads_resume, ← Multiset.singleton_add,
    Multiset.coe_singleton]
  abel

def spawned (s : Scheduler) (work : Job → Process (Outcome Value)) (jobs : List Job) : List Held :=
  jobs.zipIdx.map fun (job, place) => (.part s.joins.size place, {work job})

theorem threads_startJoin (s : Scheduler) (work : Job → Process (Outcome Value)) (role : Role)
    (jobs : List Job) (next : Outcome (List Value) → Process (Outcome Value)) :
    (s.startJoin work role jobs next).threads =
      (role, Set.range next) ::ₘ (↑(s.spawned work jobs) + s.threads) := by
  have hturns : (jobs.zipIdx.map fun (job, place) =>
      Turn.resume ⟨.part s.joins.size place, work job⟩).flatMap Turn.threads =
        s.spawned work jobs := by
    rw [List.flatMap_map, spawned, List.map_eq_flatMap]
    congr 1
  simp only [startJoin, threads_enqueue, hturns]
  simp only [threads, Array.toList_push, List.flatMap_append, ← Multiset.coe_add,
    List.flatMap_singleton, Join.threads, if_true, Multiset.coe_singleton, ← Multiset.singleton_add]
  abel

theorem threads_setSlots (s : Scheduler) (id : Nat) (old new : Slots) (h : s.slots[id]? = some old) :
    { s with slots := s.slots.setIfInBounds id new }.threads + ↑old.threads =
      s.threads + ↑new.threads := by
  have hset := flatMap_set Slots.threads s.slots.toList id old new (by simpa using h)
  simp only [threads, Array.toList_setIfInBounds, add_assoc, hset]

theorem threads_setJoin (s : Scheduler) (id : Nat) (old new : Join) (h : s.joins[id]? = some old) :
    { s with joins := s.joins.setIfInBounds id new }.threads + ↑old.threads =
      s.threads + ↑new.threads := by
  have hset := flatMap_set Join.threads s.joins.toList id old new (by simpa using h)
  simp only [threads, Array.toList_setIfInBounds]
  rw [add_right_comm, add_assoc _ _ (↑old.threads : Multiset Held), hset]
  abel

theorem threads_takeSlot (s : Scheduler) (id : Nat) (t : Thread) :
    (s.takeSlot id t).threads = (t.role, {t.process}) ::ₘ s.threads := by
  unfold takeSlot
  split
  · exact threads_goOn s t
  · rename_i slots hslots
    split
    · exact threads_goOn s t
    · rename_i n hfree hwaiting
      rw [threads_goOn]
      congr 1
      simpa [Slots.threads, hwaiting] using threads_setSlots s id slots ⟨some n, []⟩ hslots
    · have h := threads_setSlots s id slots ⟨slots.free, slots.waiting ++ [t]⟩ hslots
      simp only [Slots.threads, List.map_append, ← Multiset.coe_add] at h
      rw [← add_assoc, add_right_comm] at h
      rw [add_right_cancel h, List.map_singleton, Multiset.coe_singleton, add_comm,
        Multiset.singleton_add]

theorem threads_freeSlot (s : Scheduler) (id : Nat) : (s.freeSlot id).threads = s.threads := by
  unfold freeSlot
  split
  · rfl
  · rename_i slots hslots
    split
    · rename_i t rest hwaiting
      have h := threads_setSlots s id slots ⟨slots.free, rest⟩ hslots
      rw [threads_enqueue]
      simp only [Slots.threads, hwaiting, List.map_cons, ← Multiset.cons_coe,
        ← Multiset.singleton_add] at h
      rw [← add_assoc] at h
      rw [← add_right_cancel h]
      simp [add_comm]
    · rename_i n hfree hwaiting
      simpa [Slots.threads, hwaiting] using threads_setSlots s id slots ⟨some (n + 1), []⟩ hslots
    · rfl

theorem threads_finish (s : Scheduler) (o : Outcome Value) (role : Role) :
    (s.finish o role).threads = s.threads := by
  cases role with
  | main | aside => rfl
  | part join place => simp [finish, threads_enqueue]

/-- The threads are the same, but for one that now knows what it goes on with. -/
def Narrowed (before after : Multiset Held) : Prop :=
  after = before ∨ ∃ role own p rest, before = (role, own) ::ₘ rest ∧ p ∈ own ∧
    after = (role, {p}) ::ₘ rest

theorem narrowed_close (s : Scheduler) (join : Nat) (old new : Join) (o : Outcome (List Value))
    (h : s.joins[join]? = some old) (hopen : old.isOpen = true) (hclosed : new.isOpen = false) :
    Narrowed s.threads ({ s with joins := s.joins.setIfInBounds join new }.enqueue
      [.resume ⟨old.role, old.next o⟩]).threads := by
  have hset := threads_setJoin s join old new h
  simp only [Join.threads, hopen, hclosed, if_true, Bool.false_eq_true, if_false,
    Multiset.coe_singleton, Multiset.coe_nil, add_zero] at hset
  refine Or.inr ⟨old.role, Set.range old.next, old.next o,
    { s with joins := s.joins.setIfInBounds join new }.threads, ?_, ⟨o, rfl⟩, ?_⟩
  · rw [← hset, add_comm, Multiset.singleton_add]
  · rw [threads_enqueue]
    simp

theorem threads_notify (s : Scheduler) (join place : Nat) (o : Outcome Value) :
    Narrowed s.threads (s.notify join place o).threads := by
  unfold notify
  split
  · exact Or.inl rfl
  · rename_i j hj
    split
    · exact Or.inl rfl
    · rename_i hopen
      have hopen : j.isOpen = true := by simpa using hopen
      cases o with
      | error e => exact narrowed_close s join j _ (.error e) hj hopen rfl
      | ok output =>
        simp only
        split
        · -- Others have not ended, so that the thread of the join waits on.
          rename_i hwaits
          left
          have hset := threads_setJoin s join j
            { j with outputs := j.outputs.set place (some output), isOpen := true } hj
          simp only [Join.threads, hopen, if_true] at hset
          simpa [hwaits] using add_right_cancel hset
        · rename_i hdone
          exact narrowed_close s join j _ _ hj hopen (Bool.eq_false_iff.mpr hdone)

/-! ## Steps -/

/-- What a step can do. -/
inductive Stepped [Room] (work : Job → Process (Outcome Value)) (s s' : Scheduler) : Prop
  /-- The clock moves, or a join is told of an ended thread. -/
  | quiet (now : Nat) (world : s'.world = { s.world with now }) (result : s'.result = s.result)
      (joins : s'.joins.size = s.joins.size) (threads : Narrowed s.threads s'.threads)
  | ended (t : Thread) (rest : Multiset Held) (o : Outcome Value)
      (before : s.threads = (t.role, {t.process}) ::ₘ rest)
      (run : t.process.advance s.world = (.done o, s'.world))
      (result : s'.result = if t.role = .main then some o else s.result)
      (joins : s'.joins.size = s.joins.size) (threads : s'.threads = rest)
  | waits (t : Thread) (rest : Multiset Held) (w : Wait) (next : w.Reply → Process (Outcome Value))
      (world : World) (services : Client.Services) (own : Set (Process (Outcome Value)))
      (before : s.threads = (t.role, {t.process}) ::ₘ rest)
      (run : t.process.advance s.world = (.waiting w next, world))
      (after : s'.world = { world with services }) (result : s'.result = s.result)
      (joins : s'.joins.size = s.joins.size) (own_sub : own ⊆ Set.range next)
      (threads : s'.threads = (t.role, own) ::ₘ rest)
  | forks (t : Thread) (rest : Multiset Held) (jobs : List Job)
      (next : Outcome (List Value) → Process (Outcome Value))
      (before : s.threads = (t.role, {t.process}) ::ₘ rest)
      (run : t.process.advance s.world = (.waiting (.join jobs) next, s'.world))
      (result : s'.result = s.result) (joins : s'.joins.size = s.joins.size + 1)
      (threads : s'.threads = (t.role, Set.range next) ::ₘ (↑(s.spawned work jobs) + rest))

/-- What two schedulers share if they differ in threads that wait, and in services, only. -/
structure SameFrame (s s' : Scheduler) : Prop where
  world : ∃ services, s'.world = { s.world with services }
  joins : s'.joins = s.joins
  result : s'.result = s.result

theorem sameFrame_takeSlot (s : Scheduler) (id : Nat) (t : Thread) :
    SameFrame s (s.takeSlot id t) := by
  unfold takeSlot
  repeat' split
  all_goals exact ⟨⟨s.world.services, rfl⟩, rfl, rfl⟩

theorem sameFrame_freeSlot (s : Scheduler) (id : Nat) (t : Thread) :
    SameFrame s ((s.freeSlot id).goOn t) := by
  unfold freeSlot
  repeat' split
  all_goals exact ⟨⟨s.world.services, rfl⟩, rfl, rfl⟩

theorem await_single [Room] (s : Scheduler) (work : Job → Process (Outcome Value)) (role : Role) (w : Wait)
    (next : w.Reply → Process (Outcome Value)) (hw : ∀ job rest, w ≠ .join (job :: rest)) :
    SameFrame s (s.await work role w next) ∧
      ∃ own ⊆ Set.range next, (s.await work role w next).threads = (role, own) ::ₘ s.threads := by
  have hsingle (r : w.Reply) : {next r} ⊆ Set.range next :=
    Set.singleton_subset_iff.mpr ⟨r, rfl⟩
  cases w with
  | sleep micros =>
    cases micros with
    | zero =>
      refine ⟨⟨⟨s.world.services, rfl⟩, rfl, rfl⟩, _, hsingle (), ?_⟩
      simp [await, threads_enqueue]
    | succ n =>
      exact ⟨⟨⟨s.world.services, rfl⟩, rfl, rfl⟩, _, hsingle (), threads_after s _ _⟩
  | call c limit =>
    -- The call changes the services only, and those hold no threads.
    let answer := s.world.services.call s.world.now c default
    exact ⟨⟨⟨answer.2, rfl⟩, rfl, rfl⟩, _, hsingle (limited answer.1 limit).2,
      threads_after { s with world := { s.world with services := answer.2 } } _ _⟩
  | join jobs =>
    cases jobs with
    | nil => exact ⟨⟨⟨s.world.services, rfl⟩, rfl, rfl⟩, _, hsingle (.ok []), threads_goOn s _⟩
    | cons job rest => exact absurd rfl (hw job rest)
  | makeSlots capacity =>
    refine ⟨⟨⟨s.world.services, rfl⟩, rfl, rfl⟩, _, hsingle s.slots.size, ?_⟩
    simp only [await, threads_goOn]
    simp [threads, Slots.threads]
  | takeSlot id => exact ⟨sameFrame_takeSlot s id _, _, hsingle (), threads_takeSlot s id _⟩
  | freeSlot id =>
    refine ⟨sameFrame_freeSlot s id _, _, hsingle (), ?_⟩
    simp only [await, threads_goOn, threads_freeSlot]

theorem execution_resume [Room] (s : Scheduler) (work : Job → Process (Outcome Value))
    (t : Thread) :
    (s.resume work t).world.execution = (t.process.advance s.world).2.execution := by
  unfold resume
  rcases t.process.advance s.world with ⟨pause, w⟩
  cases pause with
  | done o => cases t.role <;> rfl
  | waiting wt next =>
    by_cases hjoin : ∃ job jobs, wt = .join (job :: jobs)
    · obtain ⟨job, jobs, rfl⟩ := hjoin
      rfl
    · obtain ⟨⟨⟨services, hworld⟩, -, -⟩, -⟩ := await_single { s with world := w } work t.role wt next
        fun job jobs hjobs => hjoin ⟨job, jobs, hjobs⟩
      simp only [hworld]

theorem threads_resume (s : Scheduler) {t : Thread} {rest : List Turn}
    (h : s.ready = .resume t :: rest) :
    s.threads = (t.role, {t.process}) ::ₘ { s with ready := rest }.threads := by
  rw [← threads_goOn]
  simp [threads, goOn, h]

theorem stepped_resume [Room] (s : Scheduler) (work : Job → Process (Outcome Value)) (t : Thread)
    (rest : List Turn) (h : s.ready = .resume t :: rest) :
    Stepped work s ({ s with ready := rest }.resume work t) := by
  have hbefore := s.threads_resume h
  unfold resume
  rcases hrun : t.process.advance s.world with ⟨pause, world⟩
  cases pause with
  | done o =>
    refine .ended t _ o hbefore ?_ ?_ ?_ (threads_finish _ o t.role)
    all_goals cases hrole : t.role <;> simp [finish, enqueue, hrun]
  | waiting w next =>
    by_cases hw : ∃ job jobs, w = .join (job :: jobs)
    · obtain ⟨job, jobs, rfl⟩ := hw
      exact .forks t _ (job :: jobs) next hbefore hrun rfl (by simp [await, startJoin, enqueue])
        (threads_startJoin { s with ready := rest, world } work t.role (job :: jobs) next)
    · obtain ⟨⟨⟨services, hworld⟩, hjoins, hresult⟩, own, hown, hthreads⟩ :=
        await_single { s with ready := rest, world } work t.role w next
          fun job jobs hj => hw ⟨job, jobs, hj⟩
      exact .waits t _ w next world services own hbefore hrun hworld hresult (by rw [hjoins]) hown
        hthreads

theorem notify_frame (s : Scheduler) (join place : Nat) (o : Outcome Value) :
    (s.notify join place o).world = s.world ∧ (s.notify join place o).result = s.result ∧
      (s.notify join place o).joins.size = s.joins.size := by
  unfold notify
  split
  · exact ⟨rfl, rfl, rfl⟩
  · split
    · exact ⟨rfl, rfl, rfl⟩
    · cases o with
      | error e => exact ⟨rfl, rfl, by simp [enqueue]⟩
      | ok output =>
        simp only
        split
        · exact ⟨rfl, rfl, by simp⟩
        · exact ⟨rfl, rfl, by simp [enqueue]⟩

theorem stepped_notify [Room] (s : Scheduler) (work : Job → Process (Outcome Value)) (join place : Nat)
    (o : Outcome Value) (rest : List Turn) (h : s.ready = .ended join place o :: rest) :
    Stepped work s ({ s with ready := rest }.notify join place o) := by
  have hsame : s.threads = { s with ready := rest }.threads := by simp [threads, h]
  have hnarrow := threads_notify { s with ready := rest } join place o
  rw [← hsame] at hnarrow
  obtain ⟨hworld, hresult, hjoins⟩ := notify_frame { s with ready := rest } join place o
  exact .quiet s.world.now hworld hresult hjoins hnarrow

theorem threads_fire (s : Scheduler) (now time : Nat) (hready : s.ready = []) :
    { s with
      world := { s.world with now }
      timers := s.timers.dropWhile (·.time ≤ time)
      ready := (s.timers.takeWhile (·.time ≤ time)).map (·.turn) : Scheduler }.threads =
      s.threads := by
  simp only [threads, hready]
  conv_rhs => rw [← List.takeWhile_append_dropWhile (p := fun t => t.time ≤ time)
    (l := s.timers), List.flatMap_append, ← Multiset.coe_add]
  simp only [List.flatMap_map, List.flatMap_nil, Multiset.coe_nil, zero_add]

theorem step_cases [Room] {work : Job → Process (Outcome Value)} {s s' : Scheduler}
    (h : s.step work = some s') : Stepped work s s' := by
  unfold step at h
  split at h
  · rename_i turn rest hready
    cases turn with
    | resume t => exact Option.some.inj h ▸ stepped_resume s work t rest hready
    | ended join place o => exact Option.some.inj h ▸ stepped_notify s work join place o rest hready
  · rename_i hready
    split at h
    · simp at h
    · rename_i first later htimers
      rw [List.span_eq_takeWhile_dropWhile] at h
      obtain rfl := Option.some.inj h
      exact .quiet first.time rfl rfl rfl (Or.inl (s.threads_fire _ _ hready))

theorem Narrowed.mem {before after : Multiset Held} (h : Narrowed before after) {role : Role}
    {own : Set (Process (Outcome Value))} (hmem : (role, own) ∈ after) :
    ∃ wider, (role, wider) ∈ before ∧ own ⊆ wider := by
  rcases h with rfl | ⟨r, wide, p, rest, rfl, hp, rfl⟩
  · exact ⟨own, hmem, subset_rfl⟩
  · rcases Multiset.mem_cons.mp hmem with heq | hmem
    · obtain ⟨rfl, rfl⟩ := Prod.mk.inj heq
      exact ⟨wide, Multiset.mem_cons_self _ _, Set.singleton_subset_iff.mpr hp⟩
    · exact ⟨own, Multiset.mem_cons_of_mem hmem, subset_rfl⟩

theorem Narrowed.roles {before after : Multiset Held} (h : Narrowed before after) :
    after.map Prod.fst = before.map Prod.fst := by
  rcases h with rfl | ⟨r, wide, p, rest, rfl, hp, rfl⟩
  · rfl
  · simp

/-- What holds of a thread holds of every process that it may go on with. -/
def All (I : Role → Process (Outcome Value) → Prop) (threads : Multiset Held) : Prop :=
  ∀ role own, (role, own) ∈ threads → ∀ p ∈ own, I role p

theorem All.narrowed {I : Role → Process (Outcome Value) → Prop} {before after : Multiset Held}
    (h : All I before) (hn : Narrowed before after) : All I after := by
  intro role own hmem p hp
  obtain ⟨wider, hwider, hsub⟩ := hn.mem hmem
  exact h role wider hwider p (hsub hp)

theorem all_cons {I : Role → Process (Outcome Value) → Prop} {role : Role}
    {own : Set (Process (Outcome Value))} {rest : Multiset Held} :
    All I ((role, own) ::ₘ rest) ↔ (∀ p ∈ own, I role p) ∧ All I rest := by
  simp only [All, Multiset.mem_cons, Prod.mk.injEq]
  constructor
  · intro h
    exact ⟨h role own (Or.inl ⟨rfl, rfl⟩), fun r o hm => h r o (Or.inr hm)⟩
  · rintro ⟨hown, hrest⟩ r o (⟨rfl, rfl⟩ | hm)
    · exact hown
    · exact hrest r o hm

theorem mem_spawned {s : Scheduler} {work : Job → Process (Outcome Value)} {jobs : List Job}
    {role : Role} {own : Set (Process (Outcome Value))} (h : (role, own) ∈ s.spawned work jobs) :
    ∃ place job, jobs[place]? = some job ∧ role = .part s.joins.size place ∧ own = {work job} := by
  simp only [spawned, List.mem_map, Prod.mk.injEq] at h
  obtain ⟨⟨job, place⟩, hmem, rfl, rfl⟩ := h
  exact ⟨place, job, List.mem_zipIdx_iff_getElem?.mp hmem, rfl, rfl⟩

variable [Room]

/-! ## The main thread -/

theorem run_of_result {work : Job → Process (Outcome Value)} {s : Scheduler} {o : Outcome Value}
    (h : s.result = some o) (fuel : Nat) : run work fuel s = s := by
  cases fuel <;> simp [run, h]

theorem run_create_done (work : Job → Process (Outcome Value)) {world world' : World}
    {main : Process (Outcome Value)} {o : Outcome Value}
    (h : main.advance world = (.done o, world')) (aside : List (Process (Outcome Value)))
    (fuel : Nat) :
    (run work (fuel + 1) (create world main aside)).world = world' ∧
      (run work (fuel + 1) (create world main aside)).result = some o := by
  have hstep : (create world main aside).step work =
      some { create world' main aside with
        ready := aside.map fun p => .resume ⟨.aside, p⟩
        result := some o } := by
    simp [step, take, create, resume, h, finish]
  simp only [run, hstep]
  rw [run_of_result (o := o) rfl]
  exact ⟨rfl, rfl⟩

/-- If a property of processes is kept from one wait to the next, then a run ends with the last turn
of a main thread that has the property. -/
theorem run_main {I : Process (Outcome Value) → Prop} (work : Job → Process (Outcome Value))
    (hstep : ∀ p world w next world', I p → p.advance world = (.waiting w next, world') →
      ∀ r, I (next r))
    (fuel : Nat) (s : Scheduler) (hs : All (fun role p => role = .main → I p) s.threads)
    (hnone : s.result = none) (o : Outcome Value) (ho : (run work fuel s).result = some o) :
    ∃ p world, I p ∧ p.advance world = (.done o, (run work fuel s).world) := by
  -- By induction on the steps, each of which leaves a main thread with the property, or ends the run.
  induction fuel generalizing s with
  | zero => simp [run, hnone] at ho
  | succ fuel ih =>
    simp only [run, hnone] at ho ⊢
    cases hnext : s.step work with
    | none => simp [hnext, hnone] at ho
    | some s' =>
      simp only [hnext] at ho ⊢
      cases step_cases hnext with
      | quiet now world result joins threads =>
        exact ih s' (hs.narrowed threads) (result.trans hnone) ho
      | ended t rest o' before run result joins threads =>
        rw [before, all_cons] at hs
        by_cases hmain : t.role = .main
        · -- The run stops here, so the world is as the main thread leaves it.
          have hresult : s'.result = some o' := by rw [result, if_pos hmain]
          rw [run_of_result hresult] at ho ⊢
          obtain rfl := Option.some.inj (hresult.symm.trans ho)
          exact ⟨t.process, s.world, hs.1 _ rfl hmain, run⟩
        · exact ih s' (threads ▸ hs.2) (by rw [result, if_neg hmain, hnone]) ho
      | waits t rest w next world services own before run after result joins own_sub threads =>
        rw [before, all_cons] at hs
        refine ih s' ?_ (result.trans hnone) ho
        rw [threads, all_cons]
        refine ⟨?_, hs.2⟩
        intro p hp hmain
        obtain ⟨r, rfl⟩ := own_sub hp
        exact hstep _ _ _ _ _ (hs.1 _ rfl hmain) run r
      | forks t rest jobs next before run result joins threads =>
        rw [before, all_cons] at hs
        refine ih s' ?_ (result.trans hnone) ho
        rw [threads, all_cons]
        refine ⟨?_, ?_⟩
        · rintro p ⟨r, rfl⟩ hmain
          exact hstep _ _ _ _ _ (hs.1 _ rfl hmain) run r
        · intro role own hmem p hp hmain
          rcases Multiset.mem_add.mp hmem with hmem | hmem
          · obtain ⟨place, job, _, rfl, _⟩ := mem_spawned (Multiset.mem_coe.mp hmem)
            cases hmain
          · exact hs.2 role own hmem p hp hmain

end Scheduler

end StatesLanguage
