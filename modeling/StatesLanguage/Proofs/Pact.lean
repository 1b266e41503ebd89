import StatesLanguage.Proofs.Asks
import StatesLanguage.Proofs.Scheduler

/-!
# Pacts

A pact is a protocol whose steps a process may choose among, knowing the answers, and that says which
answers there are. A relation between its state and the world that holds where threads take turns, and
that no step breaks, holds throughout a run.
-/

namespace StatesLanguage

structure Pact (γ : Type) where
  /-- What an effect with an answer may be for. -/
  does : γ → (e : Effect) → e.Reply → γ → Prop
  mayWait : γ → Wait → Prop
  /-- The state after a wait that was answered. -/
  after : γ → (wt : Wait) → wt.Reply → γ
  told : (e : Effect) → e.Reply → Prop
  /-- The answers that waits may get. -/
  answered : (wt : Wait) → wt.Reply → Prop

namespace Process

variable {α β γ : Type} {P : Pact γ}

/-- The process does only what the pact allows it from a state on, as long as it gets the answers that
the pact says, and satisfies `post` when it returns. -/
def Honours (P : Pact γ) (post : α → γ → Prop) : Process α → γ → Prop
  | .ret a, g => post a g
  | .effect e next, g => ∀ r, P.told e r → ∃ g', P.does g e r g' ∧ Honours P post (next r) g'
  | .wait wt next, g =>
    P.mayWait g wt ∧ ∀ r, P.answered wt r → Honours P post (next r) (P.after g wt r)

theorem Honours.mono {post post' : α → γ → Prop} {p : Process α} {g : γ} (h : p.Honours P post g)
    (himp : ∀ a g, post a g → post' a g) : p.Honours P post' g := by
  induction p generalizing g with
  | ret a => exact himp a g h
  | effect e next ih =>
    intro r hr
    obtain ⟨g', hdoes, hrest⟩ := h r hr
    exact ⟨g', hdoes, ih r hrest⟩
  | wait wt next ih => exact ⟨h.1, fun r hr => ih r (h.2 r hr)⟩

theorem Honours.bind {mid : α → γ → Prop} {post : β → γ → Prop} {p : Process α}
    {f : α → Process β} {g : γ} (hp : p.Honours P mid g)
    (hf : ∀ a g, mid a g → (f a).Honours P post g) : (p.bind f).Honours P post g := by
  induction p generalizing g with
  | ret a => exact hf a g hp
  | effect e next ih =>
    intro r hr
    obtain ⟨g', hdoes, hrest⟩ := hp r hr
    exact ⟨g', hdoes, ih r hrest⟩
  | wait wt next ih => exact ⟨hp.1, fun r hr => ih r (hp.2 r hr)⟩

theorem Honours.of_only {effects : Effect → Prop} {waits : Wait → Prop} {post : α → Unit → Prop}
    {p : Process α} {g : γ} (h : p.Keeps (.only effects waits) post ())
    (heffect : ∀ e r, effects e → P.does g e r g)
    (hwait : ∀ wt, waits wt → P.mayWait g wt ∧ ∀ r, P.after g wt r = g) :
    p.Honours P (fun a g' => g' = g ∧ post a ()) g := by
  induction p with
  | ret a => exact ⟨rfl, h⟩
  | effect e next ih => exact fun r _ => ⟨g, heffect e r h.1, ih r (h.2 r)⟩
  | wait wt next ih =>
    obtain ⟨hmay, hafter⟩ := hwait wt h.1
    refine ⟨hmay, fun r _ => ?_⟩
    rw [hafter]
    exact ih r (h.2 r)

end Process

namespace Work

variable {α β γ : Type} {P : Pact γ}

/-- `Process.Honours` for work, with a condition for each way that it can end. -/
def Honours (P : Pact γ) (ok : α → γ → Prop) (err : Failure → γ → Prop) (work : Work α) (g : γ) :
    Prop :=
  work.run.Honours P (fun o g => match o with | .ok a => ok a g | .error e => err e g) g

variable {ok ok' : α → γ → Prop} {err err' : Failure → γ → Prop} {g : γ}

theorem Honours.mono {work : Work α} (h : work.Honours P ok err g) (hok : ∀ a g, ok a g → ok' a g)
    (herr : ∀ e g, err e g → err' e g) : work.Honours P ok' err' g := by
  apply Process.Honours.mono h
  intro o g ho
  cases o with
  | ok a => exact hok a g ho
  | error e => exact herr e g ho

theorem honours_ofOutcome {o : Outcome α} (hok : ∀ a, o = .ok a → ok a g)
    (herr : ∀ e, o = .error e → err e g) : (ofOutcome o).Honours P ok err g := by
  cases o with
  | ok a => exact hok a rfl
  | error e => exact herr e rfl

theorem honours_perform {e : Effect} {ok : e.Reply → γ → Prop}
    (h : ∀ r, P.told e r → ∃ g', P.does g e r g' ∧ ok r g') : (perform e).Honours P ok err g := h

theorem honours_await {wt : Wait} {ok : wt.Reply → γ → Prop} (hwait : P.mayWait g wt)
    (h : ∀ r, P.answered wt r → ok r (P.after g wt r)) : (await wt).Honours P ok err g := ⟨hwait, h⟩

theorem Honours.bind {mid : α → γ → Prop} {ok : β → γ → Prop} {x : Work α} {f : α → Work β}
    (hx : x.Honours P mid err g) (hf : ∀ a g, mid a g → (f a).Honours P ok err g) :
    (x >>= f).Honours P ok err g := by
  refine Process.Honours.bind hx fun o g ho => ?_
  cases o with
  | ok a => exact hf a g ho
  | error e => exact ho

theorem Honours.outcome {ok : Outcome α → γ → Prop} {x : Work α}
    (hx : x.Honours P (fun a => ok (.ok a)) (fun e => ok (.error e)) g) :
    x.outcome.Honours P ok err g := by
  refine Process.Honours.bind hx fun o g ho => ?_
  cases o with
  | ok a => exact ho
  | error e => exact ho

theorem Honours.of_only {effects : Effect → Prop} {waits : Wait → Prop} {post : α → Prop}
    {work : Work α} (h : work.Keeps (.only effects waits) (fun a _ => post a) (fun _ _ => True) ())
    (heffect : ∀ e r, effects e → P.does g e r g)
    (hwait : ∀ wt, waits wt → P.mayWait g wt ∧ ∀ r, P.after g wt r = g) :
    work.Honours P (fun a g' => g' = g ∧ post a) (fun _ g' => g' = g) g := by
  apply (Process.Honours.of_only h heffect hwait).mono
  rintro o g' ⟨hg, ho⟩
  cases o with
  | ok a => exact ⟨hg, ho⟩
  | error e => exact hg

/-- However the work ends, it ends in the state from which it started, and what it gives is good. -/
def Stays (P : Pact γ) (idle : γ) (good : α → Prop) (work : Work α) : Prop :=
  work.Honours P (fun a g => g = idle ∧ good a) (fun _ g => g = idle) idle

variable {idle : γ} {good : α → Prop}

theorem Stays.mono {good' : α → Prop} {work : Work α} (h : work.Stays P idle good)
    (himp : ∀ a, good a → good' a) : work.Stays P idle good' :=
  Honours.mono h (fun a _ ⟨hg, ha⟩ => ⟨hg, himp a ha⟩) fun _ _ hg => hg

theorem stays_pure {a : α} (h : good a) : (pure a : Work α).Stays P idle good := ⟨rfl, h⟩

theorem stays_throw (e : Failure) : (throw e : Work α).Stays P idle good := rfl

theorem stays_ofOutcome {o : Outcome α} (h : ∀ a, o = .ok a → good a) :
    (ofOutcome o).Stays P idle good :=
  honours_ofOutcome (fun a ha => ⟨rfl, h a ha⟩) fun _ _ => rfl

theorem Stays.bind {good : β → Prop} {mid : α → Prop} {x : Work α} {f : α → Work β}
    (hx : x.Stays P idle mid) (hf : ∀ a, mid a → (f a).Stays P idle good) :
    (x >>= f).Stays P idle good := by
  refine Honours.bind hx ?_
  rintro a _ ⟨rfl, ha⟩
  exact hf a ha

theorem Stays.honours_outcome {err : Failure → γ → Prop} {x : Work α} (hx : x.Stays P idle good) :
    x.outcome.Honours P (fun o g => g = idle ∧ ∀ a, o = .ok a → good a) err idle := by
  refine Honours.outcome (Honours.mono hx ?_ ?_)
  · rintro a _ ⟨rfl, ha⟩
    refine ⟨rfl, ?_⟩
    rintro _ ⟨⟩
    exact ha
  · rintro e _ rfl
    exact ⟨rfl, nofun⟩

theorem Stays.outcome {x : Work α} (hx : x.Stays P idle good) :
    x.outcome.Stays P idle fun o => ∀ a, o = .ok a → good a :=
  hx.honours_outcome

theorem stays_await (wt : Wait) {good : wt.Reply → Prop} (hwait : P.mayWait idle wt)
    (hafter : ∀ r, P.after idle wt r = idle) (h : ∀ r, P.answered wt r → good r) :
    (await wt).Stays P idle good :=
  honours_await hwait fun r hr => ⟨hafter r, h r hr⟩

theorem stays_perform {e : Effect} {good : e.Reply → Prop} (hdoes : ∀ r, P.does idle e r idle)
    (h : ∀ r, P.told e r → good r) : (perform e).Stays P idle good :=
  honours_perform fun r hr => ⟨idle, hdoes r, rfl, h r hr⟩

theorem Stays.run {good : Value → Prop} {work : Work Value} (h : work.Stays P idle good) :
    work.run.Honours P (fun _ g => g = idle) idle := by
  refine Process.Honours.mono h fun o g ho => ?_
  cases o with
  | ok a => exact ho.1
  | error e => exact ho

end Work

variable [Room]

/-! ## Turns -/

def World.servicesAfter (w : World) : Wait → Client.Services
  | .call c _ => (w.services.call w.now c default).2
  | _ => w.services

/-- The answers that a thread may get that waits: to a call, that of the services. -/
def World.MayAnswer (w : World) : (wt : Wait) → wt.Reply → Prop
  | .call c limit, r => r = (Scheduler.limited (w.services.call w.now c default).1 limit).2
  | _, _ => True

namespace Scheduler

variable {work : Job → Process (Outcome Value)}

theorem world_await (s : Scheduler) (work : Job → Process (Outcome Value)) (role : Role) (wt : Wait)
    (next : wt.Reply → Process (Outcome Value)) :
    (s.await work role wt next).world = { s.world with services := s.world.servicesAfter wt } := by
  cases wt with
  | sleep micros => cases micros <;> rfl
  | join jobs => cases jobs <;> rfl
  | takeSlot id =>
    simp only [await, takeSlot]
    repeat' split
    all_goals rfl
  | freeSlot id =>
    simp only [await, freeSlot]
    repeat' split
    all_goals rfl
  | _ => rfl

theorem threads_await (s : Scheduler) (work : Job → Process (Outcome Value)) (role : Role) (wt : Wait)
    (next : wt.Reply → Process (Outcome Value)) :
    ∃ own jobs, (s.await work role wt next).threads = (role, own) ::ₘ (jobs + s.threads) ∧
      (∀ p ∈ own, ∃ r, s.world.MayAnswer wt r ∧ p = next r) ∧
      ∀ held ∈ jobs, ∃ job, held.2 = {work job} := by
  by_cases hjoin : ∃ job rest, wt = .join (job :: rest)
  · obtain ⟨job, rest, rfl⟩ := hjoin
    refine ⟨_, _, threads_startJoin s work role (job :: rest) next, ?_, fun held hheld => ?_⟩
    · rintro p ⟨r, rfl⟩
      exact ⟨r, trivial, rfl⟩
    · obtain ⟨place, job, -, -, hown⟩ := mem_spawned (Multiset.mem_coe.mp hheld)
      exact ⟨job, hown⟩
  · by_cases hcall : ∃ c limit, wt = .call c limit
    · obtain ⟨c, limit, rfl⟩ := hcall
      let answer := s.world.services.call s.world.now c default
      refine ⟨{next (limited answer.1 limit).2}, 0, ?_, ?_, by simp⟩
      · rw [zero_add]
        exact threads_after { s with world := { s.world with services := answer.2 } } _ _
      · rintro p rfl
        exact ⟨_, rfl, rfl⟩
    · obtain ⟨-, own, hown, hthreads⟩ := await_single s work role wt next
        fun job rest hwt => hjoin ⟨job, rest, hwt⟩
      refine ⟨own, 0, by rw [zero_add, hthreads], fun p hp => ?_, by simp⟩
      obtain ⟨r, rfl⟩ := hown hp
      refine ⟨r, ?_, rfl⟩
      cases wt with
      | call c limit => exact absurd ⟨c, limit, rfl⟩ hcall
      | _ => trivial

end Scheduler

/-! ## Runs -/

/-- What relates the state of a pact to the world around it. It holds between turns, when the state is
`idle`, and nothing breaks it. -/
structure Pact.Governs {γ : Type} (P : Pact γ) (idle : γ) (Inv : γ → World → Prop) : Prop where
  told : ∀ g w e, Inv g w → P.told e (w.perform e).1
  effect : ∀ g w e g', Inv g w → P.does g e (w.perform e).1 g' → Inv g' (w.perform e).2
  rests : ∀ g wt, P.mayWait g wt → g = idle ∧ ∀ r, P.after g wt r = idle
  answered : ∀ w wt r, Inv idle w → w.MayAnswer wt r → P.answered wt r
  services : ∀ w wt, Inv idle w → Inv idle { w with services := w.servicesAfter wt }
  clock : ∀ w now, Inv idle w → Inv idle { w with now }

namespace Pact

variable {γ : Type} {P : Pact γ} {idle : γ} {Inv : γ → World → Prop}
  {work : Job → Process (Outcome Value)}

/-- The process honours the pact from rest to rest. -/
abbrev Binds (P : Pact γ) (idle : γ) (p : Process (Outcome Value)) : Prop :=
  p.Honours P (fun _ g => g = idle) idle

def Leaves (P : Pact γ) (idle : γ) (Inv : γ → World → Prop) : Pause (Outcome Value) × World → Prop
  | (.done _, w) => Inv idle w
  | (.waiting wt next, w) => Inv idle w ∧ ∀ r, P.answered wt r → P.Binds idle (next r)

theorem Governs.advance (h : P.Governs idle Inv) {p : Process (Outcome Value)} {g : γ} {w : World}
    (hp : p.Honours P (fun _ g => g = idle) g) (hinv : Inv g w) :
    P.Leaves idle Inv (p.advance w) := by
  induction p generalizing g w with
  | ret o =>
    obtain rfl : g = idle := hp
    exact hinv
  | wait wt next _ =>
    obtain ⟨rfl, hafter⟩ := h.rests g wt hp.1
    refine ⟨hinv, fun r hr => ?_⟩
    have hnext := hp.2 r hr
    rwa [hafter r] at hnext
  | effect e next ih =>
    obtain ⟨g', hdoes, hrest⟩ := hp _ (h.told g w e hinv)
    exact ih _ hrest (h.effect g w e g' hinv hdoes)

theorem Governs.resume (h : P.Governs idle Inv) (hjobs : ∀ job, P.Binds idle (work job))
    {s : Scheduler} {t : Thread} (ht : P.Binds idle t.process)
    (hthreads : Scheduler.All (fun _ p => P.Binds idle p) s.threads) (hworld : Inv idle s.world) :
    Scheduler.All (fun _ p => P.Binds idle p) (s.resume work t).threads ∧
      Inv idle (s.resume work t).world := by
  have hleaves := h.advance ht hworld
  unfold Scheduler.resume
  rcases hrun : t.process.advance s.world with ⟨pause, w⟩
  rw [hrun] at hleaves
  cases pause with
  | done o =>
    refine ⟨?_, ?_⟩
    · rw [Scheduler.threads_finish]
      exact hthreads
    · cases hrole : t.role <;> exact hleaves
  | waiting wt next =>
    obtain ⟨hinv, hnext⟩ := hleaves
    obtain ⟨own, jobs, hafter, hown, hstarted⟩ :=
      Scheduler.threads_await { s with world := w } work t.role wt next
    refine ⟨?_, ?_⟩
    · rw [hafter, Scheduler.all_cons]
      refine ⟨fun p hp => ?_, fun role own' hmem p hp => ?_⟩
      · obtain ⟨r, hanswer, rfl⟩ := hown p hp
        exact hnext r (h.answered w wt r hinv hanswer)
      · rcases Multiset.mem_add.mp hmem with hmem | hmem
        · obtain ⟨job, hjob⟩ := hstarted _ hmem
          rw [show own' = {work job} from hjob] at hp
          exact hp ▸ hjobs job
        · exact hthreads role own' hmem p hp
    · rw [Scheduler.world_await]
      exact h.services w wt hinv

theorem Governs.step (h : P.Governs idle Inv) (hjobs : ∀ job, P.Binds idle (work job))
    {s s' : Scheduler} (hthreads : Scheduler.All (fun _ p => P.Binds idle p) s.threads)
    (hworld : Inv idle s.world) (hstep : s.step work = some s') :
    Scheduler.All (fun _ p => P.Binds idle p) s'.threads ∧ Inv idle s'.world := by
  unfold Scheduler.step at hstep
  split at hstep
  · rename_i turn rest hready
    obtain rfl := Option.some.inj hstep
    cases turn with
    | resume t =>
      rw [s.threads_resume hready, Scheduler.all_cons] at hthreads
      exact h.resume hjobs (hthreads.1 _ rfl) hthreads.2 hworld
    | ended join place o =>
      have hsame : s.threads = { s with ready := rest }.threads := by
        simp [Scheduler.threads, hready]
      rw [hsame] at hthreads
      refine ⟨hthreads.narrowed (Scheduler.threads_notify _ join place o), ?_⟩
      rw [Scheduler.take, (Scheduler.notify_frame _ join place o).1]
      exact hworld
  · rename_i hready
    split at hstep
    · cases hstep
    · rename_i first later htimers
      rw [List.span_eq_takeWhile_dropWhile] at hstep
      obtain rfl := Option.some.inj hstep
      refine ⟨?_, h.clock _ _ hworld⟩
      rw [s.threads_fire first.time first.time hready]
      exact hthreads

theorem Governs.run (h : P.Governs idle Inv) (hjobs : ∀ job, P.Binds idle (work job)) (fuel : Nat)
    {s : Scheduler} (hthreads : Scheduler.All (fun _ p => P.Binds idle p) s.threads)
    (hworld : Inv idle s.world) : Inv idle (Scheduler.run work fuel s).world := by
  induction fuel generalizing s with
  | zero => exact hworld
  | succ fuel ih =>
    unfold Scheduler.run
    split
    · exact hworld
    · split
      · exact hworld
      · rename_i s' hstep
        obtain ⟨hthreads', hworld'⟩ := h.step hjobs hthreads hworld hstep
        exact ih hthreads' hworld'

/-- A run of threads that honour the pact leaves the world in the relation in which it was. -/
theorem Governs.run_create (h : P.Governs idle Inv) (hjobs : ∀ job, P.Binds idle (work job))
    (fuel : Nat) {world : World} {main : Process (Outcome Value)}
    {aside : List (Process (Outcome Value))} (hmain : P.Binds idle main)
    (haside : ∀ p ∈ aside, P.Binds idle p) (hworld : Inv idle world) :
    Inv idle (Scheduler.run work fuel (Scheduler.create world main aside)).world := by
  refine h.run hjobs fuel ?_ hworld
  rw [Scheduler.threads_create, Scheduler.all_cons]
  refine ⟨fun p hp => hp ▸ hmain, fun role own hmem p hp => ?_⟩
  obtain ⟨q, hq, heq⟩ := List.mem_map.mp (Multiset.mem_coe.mp hmem)
  cases heq
  exact hp ▸ haside q hq

end Pact

end StatesLanguage
