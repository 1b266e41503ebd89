import Mathlib.Algebra.Order.BigOperators.Group.Finset
import StatesLanguage.Proofs.Capacity
import StatesLanguage.Proofs.FanOut

/-!
# Attempts of a Map state

Of the iterations of one attempt of a Map state there are never more under way than the state says, since
so many slots at most are taken. That an iteration is over the history says, except of one that has failed
with an error that has no text. The iterations of an attempt that has failed go on, though, and the next
attempt has slots of its own; so the bound holds for all attempts together only where no more than one of
them has iterations under way.
-/

namespace StatesLanguage

namespace Scheduler

variable {s : Scheduler}

/-- The joins of the main thread. -/
def attempts (s : Scheduler) : Finset Nat :=
  (Finset.range s.joins.size).filter fun join => s.owner? join = some .main

def active (s : Scheduler) : Multiset Held :=
  threads { s with slots := #[] }

theorem active_goOn (s : Scheduler) (t : Thread) :
    (s.goOn t).active = (t.role, {t.process}) ::ₘ s.active :=
  threads_goOn { s with slots := #[] } t

theorem active_enqueue (s : Scheduler) (t : Thread) :
    (s.enqueue [.resume t]).active = (t.role, {t.process}) ::ₘ s.active :=
  threads_enqueue { s with slots := #[] } [.resume t]

theorem active_resume {before after : List Turn} {t : Thread}
    (h : s.ready = before ++ .resume t :: after) (world : World) :
    s.active = (t.role, {t.process}) ::ₘ active { s with world, ready := before ++ after } := by
  simp only [active, threads, h, List.flatMap_append, List.flatMap_cons, Turn.threads_resume,
    ← Multiset.coe_add, Multiset.coe_singleton, ← Multiset.singleton_add]
  abel

theorem active_ended {before after : List Turn} {join place : Nat} {o : Outcome Value}
    (h : s.ready = before ++ .ended join place o :: after) (world : World) :
    active { s with world, ready := before ++ after } = s.active := by
  simp [active, threads, h]

theorem active_fire {before after : List Timer} {timer : Timer}
    (h : s.timers = before ++ timer :: after) (world : World) :
    active { s with world, timers := before ++ after, ready := s.ready ++ [timer.turn] } =
      s.active := by
  simp only [active, threads, h, List.flatMap_append, List.flatMap_cons, List.flatMap_nil,
    List.append_nil, ← Multiset.coe_add]
  abel

theorem notify_slots (s : Scheduler) (join place : Nat) (o : Outcome Value) (slots : Array Slots) :
    { s with slots }.notify join place o = { s.notify join place o with slots } := by
  unfold notify
  dsimp only
  rcases s.joins[join]? with _ | ⟨role, next, outputs, isOpen⟩
  · rfl
  · cases isOpen with
    | false => rfl
    | true =>
      cases o with
      | error e => rfl
      | ok output =>
        simp only [Bool.not_true, Bool.false_eq_true, if_false]
        split <;> rfl

theorem active_notify (s : Scheduler) (join place : Nat) (o : Outcome Value) :
    Narrowed s.active (s.notify join place o).active := by
  have hnarrowed := threads_notify { s with slots := #[] } join place o
  rwa [notify_slots] at hnarrowed

theorem slots_notify (s : Scheduler) (join place : Nat) (o : Outcome Value) :
    (s.notify join place o).slots = s.slots := by
  have h := congrArg Scheduler.slots (notify_slots s join place o s.slots)
  exact h

theorem owner?_notify (s : Scheduler) (join place : Nat) (o : Outcome Value) (other : Nat) :
    (s.notify join place o).owner? other = s.owner? other := by
  have hset {j new : Join} (hj : s.joins[join]? = some j) (hrole : new.role = j.role) :
      ((s.joins.setIfInBounds join new)[other]?).map Join.role = s.owner? other := by
    unfold owner?
    by_cases heq : join = other
    · subst heq
      rw [Array.getElem?_setIfInBounds_self_of_lt (Array.getElem?_eq_some_iff.mp hj).1, hj,
        Option.map_some, Option.map_some, hrole]
    · rw [Array.getElem?_setIfInBounds_ne heq]
  unfold notify
  split
  · rfl
  · rename_i j hj
    split
    · rfl
    · cases o with
      | error e => exact hset hj rfl
      | ok output =>
        simp only
        split <;> exact hset hj rfl

end Scheduler

abbrev Hired := Held × Stance

def Hired.member (x : Hired) : Member := (x.1.1, x.2)

/-- The threads of a scheduler, but for those that wait for slots and for some that have their turn,
with all that is known of slots. -/
structure Kept [Room] (m : Nat) (l : Layout) (s : Scheduler) (crew : Multiset Hired)
    (running : Multiset Member) (deeds : List Deed) : Prop where
  threads : crew.map Prod.fst = s.active
  obliged : ∀ x ∈ crew, ∀ p ∈ x.1.2, Obliged p x.2
  stocked : Stocked m l s (running + crew.map Hired.member) deeds

namespace Kept

variable [Room] {m : Nat} {l : Layout} {s s' : Scheduler} {crew : Multiset Hired} {deeds : List Deed}
  {role : Role} {g : Stance} {running : Multiset Member} {work : Job → Process (Outcome Value)}

theorem exists_hired (h : Kept m l s crew running deeds) {held : Held} {rest : Multiset Held}
    (hactive : s.active = held ::ₘ rest) :
    ∃ g crew', crew = (held, g) ::ₘ crew' ∧ crew'.map Prod.fst = rest := by
  classical
  obtain ⟨⟨_, g⟩, hx, rfl, hrest⟩ := (Multiset.map_eq_cons _ _ _ _).mpr (h.threads.trans hactive)
  exact ⟨g, _, (Multiset.cons_erase hx).symm, hrest⟩

theorem of_eq (h : Kept m l s crew running deeds) (hactive : s'.active = s.active)
    (hslots : s'.slots = s.slots) (hjoins : s'.joins = s.joins) : Kept m l s' crew running deeds :=
  ⟨h.threads.trans hactive.symm, h.obliged, h.stocked.of_eq hslots hjoins⟩

theorem lift {own : Set (Process (Outcome Value))} (h : Kept m l s crew 0 deeds)
    (hactive : s.active = (role, own) ::ₘ s'.active) (hslots : s'.slots = s.slots)
    (hjoins : s'.joins = s.joins) :
    ∃ crew' g, (∀ p ∈ own, Obliged p g) ∧ Kept m l s' crew' {(role, g)} deeds := by
  obtain ⟨g, rest, rfl, hrest⟩ := h.exists_hired hactive
  have hstocked := h.stocked
  rw [zero_add, Multiset.map_cons] at hstocked
  exact ⟨rest, g, h.obliged _ (Multiset.mem_cons_self _ _), hrest,
    fun x hx => h.obliged x (Multiset.mem_cons_of_mem hx), hstocked.of_eq hslots hjoins⟩

theorem put {own : Set (Process (Outcome Value))}
    (h : Kept m l s crew ((role, g) ::ₘ running) deeds) (hown : ∀ p ∈ own, Obliged p g)
    (hactive : s'.active = (role, own) ::ₘ s.active) (hslots : s'.slots = s.slots)
    (hjoins : s'.joins = s.joins) : Kept m l s' (((role, own), g) ::ₘ crew) running deeds := by
  have hmembers : running + (((role, own), g) ::ₘ crew).map Hired.member =
      (role, g) ::ₘ running + crew.map Hired.member := by
    rw [Multiset.map_cons, Multiset.add_cons, Multiset.cons_add]
    rfl
  refine ⟨?_, Multiset.forall_mem_cons.mpr ⟨hown, h.obliged⟩, ?_⟩
  · rw [Multiset.map_cons, h.threads, hactive]
  · rw [hmembers]
    exact h.stocked.of_eq hslots hjoins

theorem put_single {p : Process (Outcome Value)}
    (h : Kept m l s crew ((role, g) ::ₘ running) deeds) (hp : Obliged p g)
    (hactive : s'.active = (role, {p}) ::ₘ s.active) (hslots : s'.slots = s.slots)
    (hjoins : s'.joins = s.joins) : Kept m l s' (((role, {p}), g) ::ₘ crew) running deeds :=
  h.put (fun _ hq => hq ▸ hp) hactive hslots hjoins

theorem advance (h : Kept m l s crew {(role, g)} deeds) {p : Process (Outcome Value)}
    (hp : Obliged p g) (w : World) :
    ∃ g', Stops g' (p.advance w).1 ∧ JustTold g' (p.effects w).getLast? ∧
      Kept m l s crew {(role, g')} (deeds ++ (p.effects w).map fun e => (role, .effect e)) := by
  have hlast : JustTold g none := by simp [JustTold, hp.settled]
  obtain ⟨g', hstops, hlast', hallotted, htallied⟩ :=
    h.stocked.allotted.advance hp.honours w hlast h.stocked.tallied
  rw [Option.or_none] at hlast'
  exact ⟨g', hstops, hlast', h.threads, h.obliged, hallotted, htallied, h.stocked.queued,
    h.stocked.attempts⟩

theorem done (h : Kept m l s crew {(role, g)} deeds) {o : Outcome Value} (hends : Ends o g) :
    Kept m l (s.finish o role) crew 0 deeds := by
  have hidle : g.permit ≠ .busy := by rcases hends with hg | ⟨hg, -⟩ <;> simp [hg]
  have hdropped : Kept m l s crew 0 deeds := by
    refine ⟨h.threads, h.obliged, ?_⟩
    rw [zero_add]
    exact Stocked.drop h.stocked hidle
  have hactive := Scheduler.threads_finish { s with slots := #[] } o role
  cases role with
  | main | aside => exact hdropped.of_eq rfl rfl rfl
  | part join place => exact hdropped.of_eq hactive rfl rfl

theorem takeSlot (h : Kept m l s crew {(role, g)} deeds) {id : Nat} (hslots : g.slots = some id)
    (hpermit : g.permit = .none) {p : Process (Outcome Value)} (hp : Obliged p (g.setPermit .held)) :
    ∃ crew', Kept m l (s.takeSlot id ⟨role, p⟩) crew' 0 deeds := by
  have hunbounded (hnone : ∀ slots n, s.slots[id]? = some slots → slots.free ≠ some n) :
      Kept m l s crew {(role, g.setPermit .held)} deeds :=
    ⟨h.threads, h.obliged, Stocked.hold_unbounded h.stocked hslots hpermit hnone⟩
  have hgoOn {s' : Scheduler} (hheld : Kept m l s' crew {(role, g.setPermit .held)} deeds) :
      ∃ crew', Kept m l (s'.goOn ⟨role, p⟩) crew' 0 deeds :=
    ⟨_, hheld.put_single hp (s'.active_goOn ⟨role, p⟩) rfl rfl⟩
  unfold Scheduler.takeSlot
  split
  · rename_i hnone
    exact hgoOn (hunbounded fun slots n hat => by simp [hnone] at hat)
  · rename_i slots hat
    split
    · rename_i hunlimited
      refine hgoOn (hunbounded fun slots' n hat' => ?_)
      obtain rfl := Option.some.inj (hat.symm.trans hat')
      simp [hunlimited]
    · rename_i n hfree _
      exact hgoOn ⟨h.threads, h.obliged, Stocked.hold h.stocked hslots hpermit hat hfree⟩
    · refine ⟨crew, h.threads, h.obliged, ?_⟩
      rw [zero_add]
      exact Stocked.queue h.stocked hslots hpermit hat hp

theorem freeSlot (h : Kept m l s crew {(role, g)} deeds) {id : Nat} (hslots : g.slots = some id)
    (htaken : g.permit.taken) {permit : Permit} (hback : permit.taken = false) {deeds' : List Deed}
    (htallied : Tallied l ((role, g.setPermit permit) ::ₘ crew.map Hired.member) deeds') :
    ∃ crew', Kept m l (s.freeSlot id) crew' {(role, g.setPermit permit)} deeds' := by
  have hreleased : Kept m l s crew {(role, g.setPermit permit)} deeds' :=
    ⟨h.threads, h.obliged, Stocked.release h.stocked hslots hback htallied⟩
  unfold Scheduler.freeSlot
  split
  · exact ⟨crew, hreleased⟩
  · rename_i slots hat
    split
    · rename_i t waiting hwaiting
      obtain ⟨g', hp, hpassed⟩ :=
        Stocked.pass h.stocked hslots htaken hback htallied hat hwaiting
      have hkept : Kept m l { s with slots := s.slots.setIfInBounds id ⟨slots.free, waiting⟩ } crew
          ((t.role, g') ::ₘ {(role, g.setPermit permit)}) deeds' := by
        refine ⟨h.threads, h.obliged, ?_⟩
        rw [Multiset.cons_add]
        exact hpassed
      exact ⟨_, hkept.put_single hp (Scheduler.active_enqueue _ t) rfl rfl⟩
    · rename_i n hfree _
      have hcounted := Stocked.release_counted h.stocked hslots htaken hback htallied hat hfree
      exact ⟨crew, h.threads, h.obliged, hcounted⟩
    · exact ⟨crew, hreleased⟩

theorem leave (h : Kept m l s crew {(role, g)} deeds) {id : Nat} {last : Option Effect}
    (hlast : JustTold g last) {next : Unit → Process (Outcome Value)}
    (hstops : Stops g (.waiting (.freeSlot id) next)) :
    ∃ crew', Kept m l ((s.freeSlot id).goOn ⟨role, next ()⟩) crew' 0
      (deeds ++ [(role, .leave last (next ()))]) := by
  obtain ⟨⟨hslots, hpermit⟩, hnext⟩ := hstops
  have hwordless (hbusy : g.permit = .busy) : (Doing.leave last (next ())).Wordless :=
    eq_ret_of_lost (hnext ()).honours (by simp [permits, Stance.setPermit, hbusy])
  obtain ⟨permit, hafter, hback, hcases⟩ : ∃ permit,
      permits.after g (.freeSlot id) () = g.setPermit permit ∧ permit.taken = false ∧
        (g.permit = .told ∧ permit = .none ∨
          g.permit = .busy ∧ permit = .lost ∧ (Doing.leave last (next ())).Wordless) := by
    rcases hpermit with htold | hbusy
    · exact ⟨.none, by simp [permits, htold], rfl, Or.inl ⟨htold, rfl⟩⟩
    · exact ⟨.lost, by simp [permits, hbusy], rfl, Or.inr ⟨hbusy, rfl, hwordless hbusy⟩⟩
  have htaken : g.permit.taken := by rcases hpermit with hg | hg <;> simp [hg, Permit.taken]
  have htallied := Tallied.leave h.stocked.tallied h.stocked.allotted hlast hcases
  obtain ⟨crew', hkept⟩ := h.freeSlot hslots htaken hback htallied
  exact ⟨_, hkept.put_single (hafter ▸ hnext ()) (Scheduler.active_goOn _ _) rfl rfl⟩

/-! ### Joins -/

def hired (s : Scheduler) (work : Job → Process (Outcome Value)) (jobs : List Job) : Multiset Hired :=
  ↑(jobs.zipIdx.map fun (job, place) =>
    (((.part s.joins.size place, {work job}), job.stance) : Hired))

omit [Room] in
theorem map_fst_hired (s : Scheduler) (work : Job → Process (Outcome Value)) (jobs : List Job) :
    (hired s work jobs).map Prod.fst = ↑(s.spawned work jobs) := by
  rw [hired, Multiset.map_coe, List.map_map]
  rfl

omit [Room] in
theorem exists_of_mem_hired {jobs : List Job} {x : Hired} (hx : x ∈ hired s work jobs) :
    ∃ job ∈ jobs, ∃ place, x = ((.part s.joins.size place, {work job}), job.stance) := by
  obtain ⟨⟨job, place⟩, hmem, rfl⟩ := List.mem_map.mp (Multiset.mem_coe.mp hx)
  exact ⟨job, List.fst_mem_of_mem_zipIdx hmem, place, rfl⟩

omit [Room] in
theorem suits_hired (work : Job → Process (Outcome Value)) {jobs : List Job} {slots : Option Nat}
    (hjobs : ∀ job ∈ jobs, job.stake.slots? = slots) (hsize : l.plans.length = s.joins.size)
    (hplan : ∀ id, slots = some id → id < l.sizes.length) :
    ∀ x ∈ (hired s work jobs).map Hired.member,
      (l.pushPlan slots hplan).Suits m x ∧ x.2.permit = .none := by
  intro x hx
  obtain ⟨y, hy, rfl⟩ := Multiset.mem_map.mp hx
  obtain ⟨job, hjob, place, rfl⟩ := exists_of_mem_hired hy
  have hneeds : job.stance.slots = slots := hjobs job hjob
  have hlast : (l.plans ++ [slots])[s.joins.size]? = some slots :=
    hsize ▸ List.getElem?_concat_length
  refine ⟨⟨?_, fun id hid => hplan id (hneeds.symm.trans hid), fun hpermit => absurd rfl hpermit,
    nofun, nofun⟩, rfl⟩
  rintro _ ⟨⟩
  exact hlast.trans (congrArg some hneeds.symm)

theorem startJoin (h : Kept m l s crew {(role, g)} deeds) {jobs : List Job} {slots : Option Nat}
    (hjobs : ∀ job ∈ jobs, job.stake.slots? = slots) (hmade : ∀ id, slots = some id → g.made = some id)
    {next : Outcome (List Value) → Process (Outcome Value)}
    (hnext : ∀ r, Obliged (next r) (g.setMade none)) (hwork : ∀ job, Obliged (work job) job.stance) :
    ∃ l' crew', Kept m l' (s.startJoin work role jobs next) crew' 0 deeds := by
  have hstocked : Stocked m l s ((role, g) ::ₘ crew.map Hired.member) deeds := h.stocked
  have hplan (id : Nat) (hid : slots = some id) : id < l.sizes.length :=
    hstocked.suits.lt_of_made (hmade id hid)
  have hpushed : Stocked m (l.pushPlan slots hplan) (s.startJoin work role jobs next)
      ((role, g) ::ₘ crew.map Hired.member) deeds := hstocked.pushJoin hmade hplan rfl rfl rfl
  have hadded := hpushed.forget.add (suits_hired work hjobs hstocked.allotted.plans hplan)
  have hmembers : 0 + (((role, Set.range next), g.setMade none) ::ₘ (hired s work jobs + crew)).map
      Hired.member = (hired s work jobs).map Hired.member +
        (role, g.setMade none) ::ₘ crew.map Hired.member := by
    rw [zero_add, Multiset.map_cons, Multiset.map_add, Multiset.add_cons]
    rfl
  refine ⟨l.pushPlan slots hplan, ((role, Set.range next), g.setMade none) ::ₘ (hired s work jobs + crew),
    ?_, Multiset.forall_mem_cons.mpr ⟨?_, fun x hx => ?_⟩, hmembers ▸ hadded⟩
  · rw [Multiset.map_cons, Multiset.map_add, map_fst_hired, h.threads]
    exact (Scheduler.threads_startJoin { s with slots := #[] } work role jobs next).symm
  · rintro p ⟨r, rfl⟩
    exact hnext r
  · rcases Multiset.mem_add.mp hx with hnew | hold
    · obtain ⟨job, -, place, rfl⟩ := exists_of_mem_hired hnew
      rintro p rfl
      exact hwork job
    · exact h.obliged x hold

theorem notify (h : Kept m l s crew 0 deeds) (join place : Nat) (o : Outcome Value) :
    ∃ crew', Kept m l (s.notify join place o) crew' 0 deeds := by
  obtain ⟨-, -, hjoins⟩ := s.notify_frame join place o
  have hstocked := h.stocked.congr (s.slots_notify join place o) hjoins (s.owner?_notify join place o)
  rcases s.active_notify join place o with hsame | ⟨role, own, p, rest, hbefore, hp, hafter⟩
  · exact ⟨crew, h.threads.trans hsame.symm, h.obliged, hstocked⟩
  · obtain ⟨g, crew', rfl, hrest⟩ := h.exists_hired hbefore
    obtain ⟨hown, hobliged⟩ := Multiset.forall_mem_cons.mp h.obliged
    rw [Multiset.map_cons] at hstocked
    refine ⟨((role, {p}), g) ::ₘ crew', ?_, Multiset.forall_mem_cons.mpr ⟨?_, hobliged⟩, ?_⟩
    · rw [Multiset.map_cons, hrest, hafter]
    · rintro q rfl
      exact hown q hp
    · rw [Multiset.map_cons]
      exact hstocked

/-! ### Moves -/

section Work

variable (hwork : ∀ job, Obliged (work job) job.stance)

include hwork

theorem await (h : Kept m l s crew {(role, g)} deeds) {last : Option Effect} (hlast : JustTold g last)
    {wt : Wait} {next : wt.Reply → Process (Outcome Value)} (hstops : Stops g (.waiting wt next)) :
    ∃ l' crew', Kept m l' (s.await work role wt next) crew' 0
      (deeds ++ ((Pause.waiting wt next).doings last).map (role, ·)) := by
  obtain ⟨hmay, hnext⟩ := hstops
  -- Of all waits only giving a slot back is an act.
  by_cases hfree : ∃ id, wt = .freeSlot id
  · obtain ⟨id, rfl⟩ := hfree
    obtain ⟨crew', hkept⟩ := h.leave hlast ⟨hmay, hnext⟩
    exact ⟨l, crew', hkept⟩
  have hacts : (Pause.waiting wt next).doings last = [] := by
    cases wt with
    | freeSlot id => exact absurd ⟨id, rfl⟩ hfree
    | _ => rfl
  rw [hacts, List.map_nil, List.append_nil]
  cases wt with
  | sleep micros =>
    cases micros with
    | zero => exact ⟨l, _, h.put_single (hnext ()) (s.active_enqueue _) rfl rfl⟩
    | succ n =>
      have hactive := Scheduler.threads_after { s with slots := #[] } (n + 1) ⟨role, next ()⟩
      exact ⟨l, _, h.put_single (hnext ()) hactive rfl rfl⟩
  | call c limit =>
    let answer := s.world.services.call s.world.now c default
    let sent := { s with world := { s.world with services := answer.2 }, slots := #[] }
    have hactive := Scheduler.threads_after sent (Scheduler.limited answer.1 limit).1
      ⟨role, next (Scheduler.limited answer.1 limit).2⟩
    exact ⟨l, _, h.put_single (hnext (Scheduler.limited answer.1 limit).2) hactive rfl rfl⟩
  | join jobs =>
    obtain ⟨-, slots, hjobs, hmade⟩ := hmay
    cases jobs with
    | nil =>
      have hforgot : Kept m l s crew {(role, g.setMade none)} deeds :=
        ⟨h.threads, h.obliged, Stocked.forget h.stocked⟩
      exact ⟨l, _, hforgot.put_single (hnext (.ok [])) (s.active_goOn _) rfl rfl⟩
    | cons job jobs => exact h.startJoin hjobs hmade hnext hwork
  | makeSlots capacity =>
    have hmade : Kept m (l.pushSize capacity) { s with slots := s.slots.push ⟨capacity, []⟩ } crew
        {(role, g.setMade (some s.slots.size))} deeds :=
      ⟨h.threads, h.obliged, Stocked.makeSlots h.stocked hmay.2⟩
    exact ⟨_, _, hmade.put_single (hnext s.slots.size) (Scheduler.active_goOn _ _) rfl rfl⟩
  | takeSlot id =>
    obtain ⟨crew', hkept⟩ := h.takeSlot hmay.1 hmay.2 (hnext ())
    exact ⟨l, crew', hkept⟩
  | freeSlot id => exact absurd ⟨id, rfl⟩ hfree

theorem resume (h : Kept m l s crew {(role, g)} deeds) {p : Process (Outcome Value)}
    (hp : Obliged p g) : ∃ l' crew', Kept m l' (s.resume work ⟨role, p⟩) crew' 0
      (deeds ++ (p.doings s.world).map (role, ·)) := by
  obtain ⟨g', hstops, hlast, hkept⟩ := h.advance hp s.world
  unfold Scheduler.resume Process.doings
  rw [List.map_append, List.map_map, ← List.append_assoc]
  dsimp only
  rcases hrun : p.advance s.world with ⟨pause, w⟩
  rw [hrun] at hstops
  have hworld : Kept m l { s with world := w } crew {(role, g')} _ := hkept.of_eq rfl rfl rfl
  cases pause with
  | done o =>
    have hacts : (Pause.done o).doings (p.effects s.world).getLast? = [] := rfl
    refine ⟨l, crew, ?_⟩
    rw [hacts, List.map_nil, List.append_nil]
    exact hworld.done hstops
  | waiting wt next => exact hworld.await hwork hlast hstops

theorem of_chronicle (h : Kept m l s crew 0 []) (hchronicle : s.Chronicle work s' deeds) :
    ∃ l' crew', Kept m l' s' crew' 0 deeds := by
  induction hchronicle with
  | start => exact ⟨l, crew, h⟩
  | @take s' deeds _ world before after turn ready ih =>
    obtain ⟨l, crew, ih⟩ := ih
    cases turn with
    | resume t =>
      obtain ⟨crew', g, hp, hlifted⟩ := ih.lift (Scheduler.active_resume ready world) rfl rfl
      exact hlifted.resume hwork (hp _ rfl)
    | ended join place o =>
      have hready : Kept m l { s' with world, ready := before ++ after } crew 0 deeds :=
        ih.of_eq (Scheduler.active_ended ready world) rfl rfl
      obtain ⟨crew', hkept⟩ := hready.notify join place o
      refine ⟨l, crew', ?_⟩
      rwa [Turn.deeds, List.append_nil]
  | @fire s' deeds _ world before after timer timers ih =>
    obtain ⟨l, crew, ih⟩ := ih
    exact ⟨l, crew, ih.of_eq (Scheduler.active_fire timers world) rfl rfl⟩

end Work

end Kept

namespace State

open Work

section

variable [Room]

def executed (s : State) (site : Site) (input : Value) : Work Value := do
  return (← s.execute site input).output

theorem kept_create {s : State} {processor : Value} {m : Nat} (hkind : s.kind = .map processor)
    (hmost : s.field "MaxConcurrency" (.int 0) = .int m) (hm : 0 < m) (site : Site) (input : Value)
    (world : World) :
    ∃ l crew, Kept m l (Scheduler.create world (s.executed site input).run []) crew 0 [] := by
  let g : Stance := ⟨none, .none, none, fun capacity => capacity = some m⟩
  have hfree : g.Free := Or.inl rfl
  have hmain : Obliged (s.executed site input).run g := by
    have hreturns : (s.executed site input).Returns g :=
      (closed_returns hfree).bind (returns_execute hkind hmost hm hfree rfl rfl site input) fun _ =>
        (closed_returns hfree).still (still_pure _)
    refine ⟨hfree.ne_told, Process.Honours.mono hreturns.run ?_⟩
    rintro _ _ rfl
    exact Or.inl rfl
  have hsuits : Layout.Suits ⟨[], [], nofun⟩ m (.main, g) :=
    ⟨nofun, nofun, fun hpermit => absurd rfl hpermit, nofun, fun _ _ hsized => hsized⟩
  refine ⟨⟨[], [], nofun⟩, {((.main, {(s.executed site input).run}), g)}, rfl, ?_, ?_⟩
  · rintro x hx p hp
    obtain rfl := Multiset.mem_singleton.mp hx
    exact hp ▸ hmain
  · refine ⟨⟨rfl, rfl, by simpa [Hired.member] using hsuits, nofun⟩,
      ⟨?_, fun join => ?_, fun pre hpre join slots c hplan => ?_, ?_⟩, nofun, nofun⟩
    · exact fun d hd => absurd hd List.not_mem_nil
    · have hnone : Multiset.countP (Member.UnderWay join) {(.main, g)} = 0 :=
        Multiset.countP_eq_zero.mpr fun x hx hunder => by
          obtain rfl := Multiset.mem_singleton.mp hx
          cases hunder.1
      simp [tally, unsaid, Hired.member, hnone]
    · cases hplan
    · exact fun d hd => absurd hd List.not_mem_nil

theorem obliged_work (site : Site) (job : Job) : Obliged (site.work job) job.stance := by
  refine ⟨nofun, Process.Honours.mono (job.honours_work site.identity site.config) fun o g ho => ?_⟩
  cases o with
  | ok v => exact Or.inl ho
  | error e => exact ho.imp_right (And.imp_right fun he => ⟨e, rfl, he⟩)

/-- Whatever a Map state runs, whichever iteration moves when and however it ends, at no time are more
iterations of one attempt under way than the state says, and so many times as many of all attempts as
there are attempts that have iterations under way. Only an iteration whose error has no text is over
without saying so. -/
theorem executed_bounded {s : State} {processor : Value} {m : Nat} (hkind : s.kind = .map processor)
    (hmost : s.field "MaxConcurrency" (.int 0) = .int m) (hm : 0 < m) {site : Site} {input : Value}
    {world : World} {t : Scheduler} {deeds pre : List Deed}
    (hchronicle : (Scheduler.create world (s.executed site input).run []).Chronicle site.work t deeds)
    (hpre : pre <+: deeds) :
    (∀ join ∈ t.attempts,
        tally .begun join pre ≤ tally .over join pre + unsaid join pre + m) ∧
      ∑ join ∈ t.attempts, tally .begun join pre ≤
        ∑ join ∈ t.attempts, (tally .over join pre + unsaid join pre) +
          (t.attempts.filter fun join =>
            tally .begun join pre ≠ tally .over join pre + unsaid join pre).card * m ∧
      ∀ d ∈ pre, d.2.Unsaid → d.2.Wordless := by
  obtain ⟨l, crew, hcreate⟩ := kept_create hkind hmost hm site input world
  obtain ⟨l', crew', hkept⟩ := hcreate.of_chronicle (obliged_work site) hchronicle
  have hbounded : ∀ join ∈ t.attempts,
      tally .begun join pre ≤ tally .over join pre + unsaid join pre + m := by
    intro join hjoin
    obtain ⟨hsize, howner⟩ := Finset.mem_filter.mp hjoin
    have hplan : join < l'.plans.length := by
      rw [hkept.stocked.allotted.plans]
      exact Finset.mem_range.mp hsize
    have hat := List.getElem?_eq_getElem hplan
    exact hkept.stocked.tallied.bounded pre hpre join _ m hat (hkept.stocked.attempts join _ howner hat)
  refine ⟨hbounded, ?_, fun d hd => hkept.stocked.tallied.wordless d (hpre.subset hd)⟩
  rw [← Finset.sum_const_nat fun _ _ => rfl, Finset.sum_filter, ← Finset.sum_add_distrib]
  refine Finset.sum_le_sum fun join hjoin => ?_
  split
  · exact hbounded join hjoin
  · rename_i hsettled
    exact (not_not.mp hsettled).le

end

/-- A machine that ends at once for some items and takes its time for others. -/
def fickle : Value :=
  .obj [("StartAt", .str "Choice"), ("States", .obj [
    ("Choice", .obj [("Type", .str "Choice"), ("Choices", .arr [
      .obj [("Variable", .str "$"), ("IsNumeric", .bool true), ("Next", .str "Wait")]])]),
    ("Wait", .obj [("Type", .str "Wait"), ("Seconds", .int 10), ("End", .bool true)])])]

/-- A state that runs such a machine for one item at a time, and tries again if one fails. -/
def again : State :=
  ⟨"Again", .map fickle, .obj [("Type", .str "Map"), ("MaxConcurrency", .int 1),
    ("ItemProcessor", fickle), ("Retry", .arr [.obj [("ErrorEquals", .arr [.str "States.ALL"]),
      ("IntervalSeconds", .int 1), ("MaxAttempts", .int 1), ("BackoffRate", .int 1)]]),
    ("End", .bool true)]⟩

theorem executed_bounded_again :
    let start := Scheduler.create default (again.executed default (.arr [.null, .null])).run []
    let t := Scheduler.run (default : Site).work 30 start
    let deeds := Scheduler.runDeeds (default : Site).work 30 start
    let pre := deeds.take 22
    t.world.contents = deeds.filterMap (fun d => d.2.content?) ∧
      (∀ join ∈ t.attempts,
        tally .begun join pre ≤ tally .over join pre + unsaid join pre + 1) ∧
      ∑ join ∈ t.attempts, tally .begun join pre ≤
        ∑ join ∈ t.attempts, (tally .over join pre + unsaid join pre) + 1 ∧
      t.attempts = {0, 1} ∧ (∀ d ∈ pre, ¬d.2.Unsaid) ∧ tally .begun 0 pre = 2 ∧
      tally .begun 1 pre = 1 := by
  intro start t deeds pre
  have hrun := Scheduler.contents_run (default : Site).work 30 start
  obtain ⟨heach, hall, -⟩ := executed_bounded (s := again) rfl rfl Nat.one_pos
    (Scheduler.chronicle_run (default : Site).work 30 start) (List.take_prefix 22 deeds)
  have hone : (t.attempts.filter fun join =>
      tally .begun join pre ≠ tally .over join pre + unsaid join pre).card = 1 := by
    decide +kernel
  rw [hone] at hall
  exact ⟨hrun, heach, hall, by decide +kernel⟩

end State

namespace Interpreter

def againMachine : Value :=
  .obj [("StartAt", .str "Again"), ("States", .obj [("Again", State.again.definition)])]

/-- When the second attempt begins with its first iteration, one of the first attempt is under way. -/
theorem start_exceeds_bound :
    let history := (bare.start ⟨againMachine, .arr [.null, .int 1], .str "one", .null⟩
      []).world.execution.history.toList
    let before := (history.take 11).map (·.type)
    before.count "MapIterationSucceeded" + before.count "MapIterationFailed" + 1 <
      before.count "MapIterationStarted" := by
  decide +kernel

end Interpreter

end StatesLanguage
