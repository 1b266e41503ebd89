import StatesLanguage.Proofs.Scheduler

/-!
# Teams of threads

All threads of a scheduler keep one protocol, each from a state of its own, in the world that they
share. A relation between the states of all of them and the world, if every allowed effect and every
allowed start of threads keeps it, holds at the end of every run.
-/

namespace StatesLanguage

/-- A protocol for threads that start others. -/
structure Team (γ : Type) extends Protocol γ where
  /-- The state of roles that no thread has had yet. -/
  idle : γ
  /-- The state that a job is started in. -/
  hired : Job → γ

namespace Team

variable {γ : Type} (T : Team γ)

/-- The states after a join has started its jobs. -/
def hire (g : Role → γ) (join : Nat) (jobs : List Job) : Role → γ
  | .part j place =>
    if j = join then (jobs[place]?.map T.hired).getD T.idle else g (.part j place)
  | role => g role

/-- What keeps a relation between the states of all roles and the world. -/
structure Shares [Room] (R : (Role → γ) → World → Prop) : Prop where
  effect : ∀ g w role e, R g w → T.allows (g role) e →
    R (Function.update g role (T.next (g role) e (w.perform e).1)) (w.perform e).2
  join : ∀ g w role jobs join, R g w → T.mayWait (g role) (.join jobs) →
    (∀ place, g (.part join place) = T.idle) → R (T.hire g join jobs) w
  outside : ∀ g w now services, R g w → R g { w with now, services }
  /-- Threads that nobody waits for have no role of their own, and so no state of their own. -/
  idle : ∀ e r, T.allows T.idle e → T.next T.idle e r = T.idle

/-- The process keeps the protocol to its end. -/
abbrev Obeys (p : Process (Outcome Value)) (state : γ) : Prop :=
  p.Keeps T.toProtocol (fun _ _ => True) state

/-- All threads keep the protocol, and no two have the same role, but for those aside. -/
structure Follows (R : (Role → γ) → World → Prop) (s : Scheduler) (g : Role → γ) : Prop where
  obeys : Scheduler.All (fun role p => T.Obeys p (g role)) s.threads
  once : ∀ role, role ≠ .aside → (s.threads.map Prod.fst).count role ≤ 1
  fresh : ∀ join place, s.joins.size ≤ join →
    Role.part join place ∉ s.threads.map Prod.fst ∧ g (.part join place) = T.idle
  aside : g .aside = T.idle
  shared : R g s.world

variable {T} {R : (Role → γ) → World → Prop}

theorem obeys_of_keeps {ok : Value → γ → Prop} {err : Failure → γ → Prop} {work : Work Value}
    {state : γ} (h : work.Keeps T.toProtocol ok err state) : T.Obeys work.run state :=
  Process.Keeps.mono h fun _ _ _ => trivial

/-! ## One thread -/

/-- What holds around a thread while it runs and the others stay as they are. -/
def Around (T : Team γ) (R : (Role → γ) → World → Prop) (g : Role → γ) (role : Role) (state : γ)
    (w : World) : Prop :=
  (role = .aside → state = T.idle) ∧ R (Function.update g role state) w

theorem stopped_advance [Room] (hR : T.Shares R) {g : Role → γ} {w : World} {role : Role}
    {p : Process (Outcome Value)} (haside : g .aside = T.idle) (hp : T.Obeys p (g role))
    (hshared : R g w) :
    Process.Stopped T.toProtocol (Around T R g role) (fun _ _ => True) (p.advance w) := by
  apply hp.advance
  · refine ⟨?_, ?_⟩
    · rintro rfl
      exact haside
    · simpa using hshared
  · rintro state w e ⟨hidle, hshared⟩ hallows
    refine ⟨?_, ?_⟩
    · intro hrole
      obtain rfl := hidle hrole
      exact hR.idle e _ hallows
    · have h := hR.effect _ w role e hshared (by simpa using hallows)
      simpa using h

namespace Follows

variable {s : Scheduler} {g : Role → γ} {role : Role} {own : Set (Process (Outcome Value))}
  {rest : Multiset Held} {state : γ}

theorem update_eq (hf : T.Follows R s g) (hbefore : s.threads = (role, own) ::ₘ rest)
    (hidle : role = .aside → state = T.idle) {other : Role} (hother : other ∈ rest.map Prod.fst) :
    Function.update g role state other = g other := by
  by_cases heq : other = role
  · subst heq
    by_cases haside : other = .aside
    · rw [Function.update_self, hidle haside, haside, hf.aside]
    · have honce := hf.once other haside
      rw [hbefore, Multiset.map_cons, Multiset.count_cons_self] at honce
      have := Multiset.count_pos.mpr hother
      omega
  · exact Function.update_of_ne heq state g

theorem obeys_rest (hf : T.Follows R s g) (hbefore : s.threads = (role, own) ::ₘ rest)
    (hidle : role = .aside → state = T.idle) :
    Scheduler.All (fun r p => T.Obeys p (Function.update g role state r)) rest := by
  intro other own' hmem p hp
  rw [hf.update_eq hbefore hidle (Multiset.mem_map_of_mem _ hmem)]
  exact hf.obeys other own' (hbefore ▸ Multiset.mem_cons_of_mem hmem) p hp

theorem update_aside (hf : T.Follows R s g) (hidle : role = .aside → state = T.idle) :
    Function.update g role state .aside = T.idle := by
  by_cases heq : role = .aside
  · rw [heq, Function.update_self, hidle heq]
  · rw [Function.update_of_ne (Ne.symm heq), hf.aside]

theorem update_fresh (hf : T.Follows R s g) (hbefore : s.threads = (role, own) ::ₘ rest) (state : γ)
    {join : Nat} (place : Nat) (hjoin : s.joins.size ≤ join) :
    Role.part join place ≠ role ∧ Role.part join place ∉ rest.map Prod.fst ∧
      Function.update g role state (.part join place) = T.idle := by
  obtain ⟨hmem, hstate⟩ := hf.fresh join place hjoin
  rw [hbefore, Multiset.map_cons, Multiset.mem_cons, not_or] at hmem
  refine ⟨hmem.1, hmem.2, ?_⟩
  rw [Function.update_of_ne hmem.1, hstate]

theorem stopped [Room] (hR : T.Shares R) (hf : T.Follows R s g) {t : Thread}
    (hbefore : s.threads = (t.role, {t.process}) ::ₘ rest) :
    Process.Stopped T.toProtocol (Around T R g t.role) (fun _ _ => True)
      (t.process.advance s.world) := by
  have hobeys := hf.obeys
  rw [hbefore, Scheduler.all_cons] at hobeys
  exact stopped_advance hR hf.aside (hobeys.1 _ rfl) hf.shared

theorem count_rest_le (hf : T.Follows R s g) (hbefore : s.threads = (role, own) ::ₘ rest)
    {other : Role} (haside : other ≠ .aside) :
    (role ::ₘ rest.map Prod.fst).count other ≤ 1 := by
  have h := hf.once other haside
  rwa [hbefore, Multiset.map_cons] at h

end Follows

/-! ## Steps and runs -/

theorem count_spawned (s : Scheduler) (work : Job → Process (Outcome Value)) (jobs : List Job)
    (role : Role) : ((s.spawned work jobs).map Prod.fst).count role ≤ 1 ∧
      (role ∈ (s.spawned work jobs).map Prod.fst → ∃ place, role = .part s.joins.size place) := by
  have hroles : (s.spawned work jobs).map Prod.fst =
      (List.range jobs.length).map (Role.part s.joins.size) := by
    rw [Scheduler.spawned, List.map_map, List.range_eq_range', ← List.zipIdx_map_snd 0 jobs,
      List.map_map]
    rfl
  rw [hroles]
  refine ⟨List.nodup_iff_count_le_one.mp ?_ role, ?_⟩
  · exact List.nodup_range.map fun a b h => (Role.part.inj h).2
  · intro hmem
    obtain ⟨place, -, rfl⟩ := List.mem_map.mp hmem
    exact ⟨place, rfl⟩

theorem hire_fresh (g : Role → γ) {join : Nat} (jobs : List Job) {role : Role}
    (h : ∀ place, role ≠ .part join place) : T.hire g join jobs role = g role := by
  cases role with
  | main | aside => rfl
  | part j place =>
    have hne : j ≠ join := by
      rintro rfl
      exact h place rfl
    simp only [hire, if_neg hne]

theorem hire_part (g : Role → γ) (join place : Nat) (jobs : List Job) :
    T.hire g join jobs (.part join place) = (jobs[place]?.map T.hired).getD T.idle := by
  simp only [hire, if_true]

variable {work : Job → Process (Outcome Value)} {s s' : Scheduler} {g : Role → γ}

variable [Room]

theorem follows_forks (hR : T.Shares R) (hjobs : ∀ job, T.Obeys (work job) (T.hired job))
    (hf : T.Follows R s g) {t : Thread} {rest : Multiset Held} {jobs : List Job}
    {next : Outcome (List Value) → Process (Outcome Value)}
    (before : s.threads = (t.role, {t.process}) ::ₘ rest)
    (run : t.process.advance s.world = (.waiting (.join jobs) next, s'.world))
    (joins : s'.joins.size = s.joins.size + 1)
    (threads : s'.threads = (t.role, Set.range next) ::ₘ (↑(s.spawned work jobs) + rest)) :
    ∃ g', T.Follows R s' g' := by
  have hstop := hf.stopped hR before
  rw [run] at hstop
  obtain ⟨state, hwait, hnext, hidle, hshared⟩ := hstop
  -- The new join is numbered behind all others, so no thread has had one of its roles.
  have hfresh := fun place => hf.update_fresh before state place (le_refl s.joins.size)
  have hold : ∀ role ∈ t.role ::ₘ rest.map Prod.fst, ∀ place, role ≠ .part s.joins.size place := by
    rintro role hmem place rfl
    rcases Multiset.mem_cons.mp hmem with h | h
    · exact (hfresh place).1 h
    · exact (hfresh place).2.1 h
  have hcount (role : Role) := count_spawned s work jobs role
  have hroles : s'.threads.map Prod.fst =
      (t.role ::ₘ rest.map Prod.fst) + ↑((s.spawned work jobs).map Prod.fst) := by
    rw [threads, Multiset.map_cons, Multiset.map_add, Multiset.map_coe, Multiset.cons_add, add_comm]
  -- First the state of the thread that forks is brought up to date, then its jobs get theirs.
  refine ⟨T.hire (Function.update g t.role state) s.joins.size jobs, ?_, ?_, ?_, ?_, ?_⟩
  · rw [threads, Scheduler.all_cons]
    refine ⟨?_, ?_⟩
    · rintro p ⟨r, rfl⟩
      rw [hire_fresh _ _ (hold _ (Multiset.mem_cons_self _ _)), Function.update_self]
      exact hnext r
    · intro role own hmem p hp
      rcases Multiset.mem_add.mp hmem with hmem | hmem
      · obtain ⟨place, job, hjob, rfl, rfl⟩ := Scheduler.mem_spawned (Multiset.mem_coe.mp hmem)
        obtain rfl := Set.mem_singleton_iff.mp hp
        rw [hire_part, hjob]
        exact hjobs job
      · have hrole := Multiset.mem_map_of_mem Prod.fst hmem
        rw [hire_fresh _ _ (hold role (Multiset.mem_cons_of_mem hrole))]
        exact hf.obeys_rest before hidle role own hmem p hp
  · intro role haside
    have hrest := hf.count_rest_le before haside
    rw [hroles, Multiset.count_add, Multiset.coe_count]
    by_cases hmem : role ∈ (s.spawned work jobs).map Prod.fst
    · have hzero : (t.role ::ₘ rest.map Prod.fst).count role = 0 := by
        rw [Multiset.count_eq_zero]
        intro h
        obtain ⟨place, hplace⟩ := (hcount role).2 hmem
        exact hold role h place hplace
      have := (hcount role).1
      omega
    · rw [List.count_eq_zero_of_not_mem hmem]
      exact hrest
  · intro join place hjoin
    rw [joins] at hjoin
    obtain ⟨hrole, hrest, hstate⟩ := hf.update_fresh before state place (by omega : s.joins.size ≤ join)
    have hne : ∀ p, Role.part join place ≠ .part s.joins.size p := by
      intro p h
      have := (Role.part.inj h).1
      omega
    refine ⟨?_, ?_⟩
    · rw [hroles, Multiset.mem_add, Multiset.mem_cons, Multiset.mem_coe]
      rintro ((h | h) | h)
      · exact hrole h
      · exact hrest h
      · obtain ⟨p, hp⟩ := (hcount _).2 h
        exact hne p hp
    · rw [hire_fresh _ _ hne, hstate]
  · exact hf.update_aside hidle
  · refine hR.join _ _ t.role jobs _ hshared ?_ ?_
    · rwa [Function.update_self]
    · exact fun place => (hfresh place).2.2

theorem Follows.step (hR : T.Shares R) (hjobs : ∀ job, T.Obeys (work job) (T.hired job))
    (hf : T.Follows R s g) (h : s.step work = some s') : ∃ g', T.Follows R s' g' := by
  cases Scheduler.step_cases h with
  | quiet now world result joins threads =>
    refine ⟨g, hf.obeys.narrowed threads, ?_, ?_, hf.aside, ?_⟩
    · rw [threads.roles]
      exact hf.once
    · rw [threads.roles, joins]
      exact hf.fresh
    · rw [world]
      exact hR.outside g s.world now s.world.services hf.shared
  | ended t rest o before run result joins threads =>
    have hstop := hf.stopped hR before
    rw [run] at hstop
    obtain ⟨state, -, hidle, hshared⟩ := hstop
    refine ⟨Function.update g t.role state, threads ▸ hf.obeys_rest before hidle, ?_, ?_,
      hf.update_aside hidle, hshared⟩
    · intro role haside
      rw [threads]
      exact (Multiset.count_le_count_cons role t.role _).trans (hf.count_rest_le before haside)
    · intro join place hjoin
      rw [threads]
      exact (hf.update_fresh before state place (joins ▸ hjoin)).2
  | waits t rest w next world services own before run after result joins own_sub threads =>
    have hstop := hf.stopped hR before
    rw [run] at hstop
    obtain ⟨state, hwait, hnext, hidle, hshared⟩ := hstop
    refine ⟨Function.update g t.role state, ?_, ?_, ?_, hf.update_aside hidle, ?_⟩
    · rw [threads, Scheduler.all_cons]
      refine ⟨?_, hf.obeys_rest before hidle⟩
      intro p hp
      obtain ⟨r, rfl⟩ := own_sub hp
      rw [Function.update_self]
      exact hnext r
    · intro role haside
      rw [threads, Multiset.map_cons]
      exact hf.count_rest_le before haside
    · intro join place hjoin
      obtain ⟨hrole, hrest, hstate⟩ := hf.update_fresh before state place (joins ▸ hjoin)
      rw [threads, Multiset.map_cons, Multiset.mem_cons, not_or]
      exact ⟨⟨hrole, hrest⟩, hstate⟩
    · rw [after]
      exact hR.outside _ world world.now services hshared
  | forks t rest jobs next before run result joins threads =>
    exact follows_forks hR hjobs hf before run joins threads

/-- What a team shares holds at the end of every run. -/
theorem Follows.run (hR : T.Shares R) (hjobs : ∀ job, T.Obeys (work job) (T.hired job))
    (fuel : Nat) (hf : T.Follows R s g) : ∃ g', T.Follows R (Scheduler.run work fuel s) g' := by
  induction fuel generalizing s g with
  | zero => exact ⟨g, hf⟩
  | succ fuel ih =>
    unfold Scheduler.run
    split
    · exact ⟨g, hf⟩
    · split
      · exact ⟨g, hf⟩
      · rename_i hnext
        obtain ⟨g', hf'⟩ := hf.step hR hjobs hnext
        exact ih hf'

def initial (T : Team γ) (main : γ) : Role → γ :=
  Function.update (fun _ => T.idle) .main main

omit [Room] in
theorem follows_create {world : World} {main : Process (Outcome Value)}
    {aside : List (Process (Outcome Value))} {state : γ} (hmain : T.Obeys main state)
    (haside : ∀ p ∈ aside, T.Obeys p T.idle) (hshared : R (T.initial state) world) :
    T.Follows R (Scheduler.create world main aside) (T.initial state) := by
  have hthreads := Scheduler.threads_create world main aside
  have hroles : (Scheduler.create world main aside).threads.map Prod.fst =
      .main ::ₘ Multiset.replicate aside.length .aside := by
    rw [hthreads, Multiset.map_cons, Multiset.map_coe, List.map_map]
    simp only [Function.comp_def, List.map_const', Multiset.coe_replicate]
  refine ⟨?_, ?_, ?_, rfl, hshared⟩
  · rw [hthreads, Scheduler.all_cons]
    refine ⟨?_, ?_⟩
    · rintro p rfl
      exact hmain
    · intro role own hmem p hp
      obtain ⟨q, hq, heq⟩ := List.mem_map.mp (Multiset.mem_coe.mp hmem)
      cases heq
      obtain rfl := Set.mem_singleton_iff.mp hp
      exact haside p hq
  · intro role hrole
    rw [hroles, Multiset.count_cons, Multiset.count_replicate, if_neg (Ne.symm hrole)]
    split <;> simp
  · intro join place _
    rw [hroles]
    simp [initial, Multiset.mem_replicate]

theorem run_create (hR : T.Shares R) (hjobs : ∀ job, T.Obeys (work job) (T.hired job))
    {world : World} {main : Process (Outcome Value)} {aside : List (Process (Outcome Value))}
    {state : γ} (hmain : T.Obeys main state) (haside : ∀ p ∈ aside, T.Obeys p T.idle)
    (hshared : R (T.initial state) world) (fuel : Nat) :
    ∃ g, R g (Scheduler.run work fuel (Scheduler.create world main aside)).world := by
  obtain ⟨g, hg⟩ := (follows_create hmain haside hshared).run hR hjobs fuel
  exact ⟨g, hg.shared⟩

end Team

end StatesLanguage
