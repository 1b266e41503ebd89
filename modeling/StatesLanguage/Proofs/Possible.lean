import StatesLanguage.Proofs.Scheduler

/-!
# Possible outcomes

What a process may come to in some worlds, if the scheduler may answer its waits in any way, but for
joins: a join gives an error, or what its jobs may come to. What a run comes to is possible
(`may_of_run`).
-/

namespace StatesLanguage

section

variable [Room]

/-- The process may come to an outcome. -/
inductive May (work : Job → Process (Outcome Value)) : Process (Outcome Value) → Outcome Value → Prop
  | ret (o : Outcome Value) : May work (.ret o) o
  | effect {e : Effect} {next : e.Reply → Process (Outcome Value)} {o : Outcome Value} (w : World)
      (rest : May work (next (w.perform e).1) o) : May work (.effect e next) o
  | joined {jobs : List Job} {next : Outcome (List Value) → Process (Outcome Value)}
      {o : Outcome Value} (outs : List Value) (sized : outs.length = jobs.length)
      (each : ∀ (place : Nat) (job : Job) (out : Value), jobs[place]? = some job →
        outs[place]? = some out → May work (work job) (.ok out))
      (rest : May work (next (.ok outs)) o) : May work (.wait (.join jobs) next) o
  | failed {jobs : List Job} {next : Outcome (List Value) → Process (Outcome Value)}
      {o : Outcome Value} (e : Failure) (rest : May work (next (.error e)) o) :
      May work (.wait (.join jobs) next) o
  | waited {w : Wait} {next : w.Reply → Process (Outcome Value)} {o : Outcome Value}
      (alone : ∀ jobs, w ≠ .join jobs) (r : w.Reply) (rest : May work (next r) o) :
      May work (.wait w next) o

namespace May

variable {work : Job → Process (Outcome Value)} {p : Process (Outcome Value)} {w w' : World}

theorem of_done {o : Outcome Value} (h : p.advance w = (.done o, w')) : May work p o := by
  induction p generalizing w with
  | ret a =>
    cases h
    exact .ret o
  | wait wt next _ => cases h
  | effect e next ih => exact .effect w (ih _ h)

theorem of_waiting {wt : Wait} {next : wt.Reply → Process (Outcome Value)} {o : Outcome Value}
    (h : p.advance w = (.waiting wt next, w')) (ho : May work (.wait wt next) o) : May work p o := by
  induction p generalizing w with
  | ret a => cases h
  | wait wt' next' _ =>
    cases h
    exact ho
  | effect e next ih => exact .effect w (ih _ h)

end May

/-! ## Runs -/

/-- An outcome that a thread of a role may have, given the jobs of all joins. -/
def MayAs (work : Job → Process (Outcome Value)) (main : Process (Outcome Value))
    (jobs : List (List Job)) : Role → Outcome Value → Prop
  | .main, o => May work main o
  | .aside, _ => True
  | .part join place, o => ∃ own job, jobs[join]? = some own ∧ own[place]? = some job ∧
      May work (work job) o

/-- What the process may come to, a thread of the role may. -/
def Leads (work : Job → Process (Outcome Value)) (main : Process (Outcome Value))
    (jobs : List (List Job)) (role : Role) (p : Process (Outcome Value)) : Prop :=
  ∀ o, May work p o → MayAs work main jobs role o

section

variable {work : Job → Process (Outcome Value)} {main : Process (Outcome Value)}
  {jobs : List (List Job)} {role : Role}

theorem MayAs.append {o : Outcome Value} (h : MayAs work main jobs role o) (more : List (List Job)) :
    MayAs work main (jobs ++ more) role o := by
  cases role with
  | main => exact h
  | aside => exact h
  | part join place =>
    obtain ⟨own, job, hown, hjob, hmay⟩ := h
    refine ⟨own, job, ?_, hjob, hmay⟩
    rw [List.getElem?_append_left (List.getElem?_eq_some_iff.mp hown).1, hown]

theorem Leads.append {p : Process (Outcome Value)} (h : Leads work main jobs role p)
    (more : List (List Job)) : Leads work main (jobs ++ more) role p :=
  fun o ho => (h o ho).append more

theorem Leads.of_waiting {p : Process (Outcome Value)} (h : Leads work main jobs role p)
    {w w' : World} {wt : Wait} {next : wt.Reply → Process (Outcome Value)}
    (hstop : p.advance w = (.waiting wt next, w')) : Leads work main jobs role (.wait wt next) :=
  fun o ho => h o (.of_waiting hstop ho)

end

end

namespace Scheduler

/-- Something holds of all threads that can go on or wait for a time or a slot, and of all outcomes
that joins are to be told of. -/
structure Each (P : Role → Process (Outcome Value) → Prop) (Q : Nat → Nat → Outcome Value → Prop)
    (s : Scheduler) : Prop where
  resumes : ∀ t, .resume t ∈ s.ready → P t.role t.process
  ends : ∀ join place o, .ended join place o ∈ s.ready → Q join place o
  timers : ∀ timer ∈ s.timers, ∃ t, timer.turn = .resume t ∧ P t.role t.process
  queues : ∀ slots ∈ s.slots, ∀ t ∈ slots.waiting, P t.role t.process

namespace Each

variable {P : Role → Process (Outcome Value) → Prop} {Q : Nat → Nat → Outcome Value → Prop}
  {s : Scheduler}

theorem mono (h : s.Each P Q) {P' : Role → Process (Outcome Value) → Prop}
    {Q' : Nat → Nat → Outcome Value → Prop} (hP : ∀ role p, P role p → P' role p)
    (hQ : ∀ join place o, Q join place o → Q' join place o) : s.Each P' Q' where
  resumes t ht := hP _ _ (h.resumes t ht)
  ends join place o ho := hQ join place o (h.ends join place o ho)
  timers timer htimer := by
    obtain ⟨t, hturn, ht⟩ := h.timers timer htimer
    exact ⟨t, hturn, hP _ _ ht⟩
  queues slots hslots t ht := hP _ _ (h.queues slots hslots t ht)

theorem goOn (h : s.Each P Q) {t : Thread} (ht : P t.role t.process) : (s.goOn t).Each P Q where
  resumes t' ht' := by
    rcases List.mem_cons.mp ht' with heq | hold
    · cases heq
      exact ht
    · exact h.resumes t' hold
  ends join place o ho := by
    rcases List.mem_cons.mp ho with heq | hold
    · cases heq
    · exact h.ends join place o hold
  timers := h.timers
  queues := h.queues

theorem enqueue (h : s.Each P Q) {turns : List Turn}
    (hresumes : ∀ t, .resume t ∈ turns → P t.role t.process)
    (hends : ∀ join place o, .ended join place o ∈ turns → Q join place o) :
    (s.enqueue turns).Each P Q where
  resumes t ht := (List.mem_append.mp ht).elim (h.resumes t) (hresumes t)
  ends join place o ho := (List.mem_append.mp ho).elim (h.ends join place o) (hends join place o)
  timers := h.timers
  queues := h.queues

theorem enqueue_resume (h : s.Each P Q) {t : Thread} (ht : P t.role t.process) :
    (s.enqueue [.resume t]).Each P Q :=
  h.enqueue (fun t' ht' => by cases List.mem_singleton.mp ht'; exact ht)
    fun join place o ho => by cases List.mem_singleton.mp ho

theorem after (h : s.Each P Q) (delay : Nat) {t : Thread} (ht : P t.role t.process) :
    (s.after delay t).Each P Q where
  resumes := h.resumes
  ends := h.ends
  timers timer htimer := by
    rcases List.mem_cons.mp ((insertTimer_perm _ _).mem_iff.mp htimer) with rfl | hold
    · exact ⟨t, rfl, ht⟩
    · exact h.timers timer hold
  queues := h.queues

theorem slots (h : s.Each P Q) {slots : Array Slots}
    (hslots : ∀ group ∈ slots, ∀ t ∈ group.waiting, P t.role t.process) :
    { s with slots }.Each P Q :=
  ⟨h.resumes, h.ends, h.timers, hslots⟩

theorem joins (h : s.Each P Q) (joins : Array Join) : { s with joins }.Each P Q :=
  ⟨h.resumes, h.ends, h.timers, h.queues⟩

theorem setSlots (h : s.Each P Q) (id : Nat) {new : Slots}
    (hnew : ∀ t ∈ new.waiting, P t.role t.process) :
    { s with slots := s.slots.setIfInBounds id new }.Each P Q := by
  refine h.slots fun group hgroup t ht => ?_
  rcases Array.mem_or_eq_of_mem_setIfInBounds hgroup with hold | rfl
  · exact h.queues group hold t ht
  · exact hnew t ht

theorem takeSlot (h : s.Each P Q) (id : Nat) {t : Thread} (ht : P t.role t.process) :
    (s.takeSlot id t).Each P Q := by
  unfold Scheduler.takeSlot
  split
  · exact h.goOn ht
  · rename_i slots hslots
    have hwaiting := h.queues slots (Array.mem_of_getElem? hslots)
    split
    · exact h.goOn ht
    · exact (h.setSlots id fun t' ht' => by cases ht').goOn ht
    · refine h.setSlots id fun t' ht' => ?_
      rcases List.mem_append.mp ht' with hold | hnew
      · exact hwaiting t' hold
      · cases List.mem_singleton.mp hnew
        exact ht

theorem freeSlot (h : s.Each P Q) (id : Nat) : (s.freeSlot id).Each P Q := by
  unfold Scheduler.freeSlot
  split
  · exact h
  · rename_i slots hslots
    have hwaiting := h.queues slots (Array.mem_of_getElem? hslots)
    split
    · rename_i t rest hqueue
      rw [hqueue] at hwaiting
      exact (h.setSlots id fun t' ht' => hwaiting t' (List.mem_cons_of_mem _ ht')).enqueue_resume
        (hwaiting t List.mem_cons_self)
    · exact h.setSlots id fun t' ht' => by cases ht'
    · exact h

theorem await [Room] (h : s.Each P Q) (work : Job → Process (Outcome Value)) {role : Role} {w : Wait}
    {next : w.Reply → Process (Outcome Value)} (hw : ∀ jobs, w ≠ .join jobs)
    (hnext : ∀ r, P role (next r)) : (s.await work role w next).Each P Q := by
  cases w with
  | sleep micros =>
    cases micros with
    | zero => exact h.enqueue_resume (hnext ())
    | succ micros => exact h.after _ (hnext ())
  | call c limit =>
    have hserved (world : World) : { s with world }.Each P Q :=
      ⟨h.resumes, h.ends, h.timers, h.queues⟩
    exact (hserved _).after (t := ⟨role, next _⟩) _ (hnext _)
  | join jobs => exact absurd rfl (hw jobs)
  | makeSlots capacity =>
    refine (h.slots fun group hgroup t ht => ?_).goOn (hnext _)
    rcases Array.mem_push.mp hgroup with hold | rfl
    · exact h.queues group hold t ht
    · cases ht
  | takeSlot id => exact h.takeSlot id (hnext ())
  | freeSlot id => exact (h.freeSlot id).goOn (hnext ())

end Each

variable {work : Job → Process (Outcome Value)} {main : Process (Outcome Value)}
  {jobs : List (List Job)} {role : Role}

theorem eq_map_some_of_any_isNone {l : List (Option Value)} (h : l.any (·.isNone) = false) :
    l = (l.filterMap id).map some := by
  induction l with
  | nil => rfl
  | cons a l ih =>
    simp only [List.any_cons, Bool.or_eq_false_iff] at h
    cases a with
    | none => cases h.1
    | some out => exact congrArg (some out :: ·) (ih h.2)

variable [Room]

/-- A join whose thread leads to what its role may come to, and whose outputs its jobs may give. -/
structure JoinLeads (work : Job → Process (Outcome Value)) (main : Process (Outcome Value))
    (jobs : List (List Job)) (own : List Job) (j : Join) : Prop where
  sized : j.outputs.length = own.length
  outputs : ∀ (place : Nat) (job : Job) (out : Value), own[place]? = some job →
    j.outputs[place]? = some (some out) → May work (work job) (.ok out)
  isOpen : j.isOpen = true → Leads work main jobs j.role (.wait (.join own) j.next)

/-- All that a scheduler holds leads to what is possible. -/
structure Possible (work : Job → Process (Outcome Value)) (main : Process (Outcome Value))
    (s : Scheduler) (jobs : List (List Job)) : Prop where
  each : s.Each (Leads work main jobs) fun join place => MayAs work main jobs (.part join place)
  sized : jobs.length = s.joins.size
  joins : ∀ (i : Nat) (j : Join), s.joins[i]? = some j →
    ∃ own, jobs[i]? = some own ∧ JoinLeads work main jobs own j
  result : ∀ o, s.result = some o → May work main o

namespace Possible

variable {s : Scheduler}

theorem world (h : Possible work main s jobs) (w : World) :
    Possible work main { s with world := w } jobs :=
  ⟨⟨h.each.resumes, h.each.ends, h.each.timers, h.each.queues⟩, h.sized, h.joins, h.result⟩

theorem finish (h : Possible work main s jobs) {o : Outcome Value} (ho : MayAs work main jobs role o) :
    Possible work main (s.finish o role) jobs := by
  cases role with
  | main =>
    refine ⟨⟨h.each.resumes, h.each.ends, h.each.timers, h.each.queues⟩, h.sized, h.joins,
      fun o' ho' => ?_⟩
    cases ho'
    exact ho
  | aside => exact h
  | part join place =>
    refine ⟨h.each.enqueue (fun t ht => by cases List.mem_singleton.mp ht)
      (fun join' place' o' ho' => ?_), h.sized, h.joins, h.result⟩
    cases List.mem_singleton.mp ho'
    exact ho

theorem goOn (h : Possible work main s jobs) {t : Thread} (ht : Leads work main jobs t.role t.process) :
    Possible work main (s.goOn t) jobs :=
  ⟨h.each.goOn ht, h.sized, h.joins, h.result⟩

theorem startJoin (h : Possible work main s jobs) {own : List Job}
    {next : Outcome (List Value) → Process (Outcome Value)}
    (hlead : Leads work main jobs role (.wait (.join own) next)) :
    Possible work main (s.startJoin work role own next) (jobs ++ [own]) := by
  have hlast : (jobs ++ [own])[s.joins.size]? = some own := by
    rw [← h.sized]
    simp
  refine ⟨?_, by simp [Scheduler.startJoin, Scheduler.enqueue, h.sized], fun i j hj => ?_, h.result⟩
  · have hbefore : s.Each (Leads work main (jobs ++ [own]))
        fun join place => MayAs work main (jobs ++ [own]) (.part join place) :=
      h.each.mono (fun _ _ hleads => hleads.append _) fun _ _ _ hmay => hmay.append _
    refine (hbefore.joins _).enqueue (fun t ht => ?_) fun join place o ho => ?_
    · obtain ⟨⟨job, place⟩, hmem, hturn⟩ := List.mem_map.mp ht
      cases hturn
      exact fun o ho => ⟨own, job, hlast, List.mem_zipIdx_iff_getElem?.mp hmem, ho⟩
    · obtain ⟨_, _, hturn⟩ := List.mem_map.mp ho
      cases hturn
  · simp only [Scheduler.startJoin, Scheduler.enqueue, Array.getElem?_push] at hj
    split at hj
    · rename_i hi
      cases hj
      refine ⟨own, hi ▸ hlast, by simp, fun place job out _ hout => ?_, fun _ => hlead.append _⟩
      simp [List.getElem?_replicate] at hout
    · obtain ⟨own', hown, hleads⟩ := h.joins i j hj
      refine ⟨own', ?_, hleads.sized, hleads.outputs, fun hopen => (hleads.isOpen hopen).append _⟩
      rw [List.getElem?_append_left (List.getElem?_eq_some_iff.mp hown).1, hown]

theorem resume (h : Possible work main s jobs) {t : Thread}
    (ht : Leads work main jobs t.role t.process) :
    ∃ jobs', Possible work main (s.resume work t) jobs' := by
  unfold Scheduler.resume
  rcases hstop : t.process.advance s.world with ⟨pause, w⟩
  replace h := h.world w
  cases pause with
  | done o => exact ⟨jobs, h.finish (ht o (.of_done hstop))⟩
  | waiting wt next =>
    have hlead := ht.of_waiting hstop
    by_cases hjoin : ∃ own, wt = .join own
    · obtain ⟨own, rfl⟩ := hjoin
      cases own with
      | nil =>
        exact ⟨jobs, h.goOn fun o ho => hlead o (.joined [] rfl (fun _ _ _ hjob => by cases hjob) ho)⟩
      | cons job own => exact ⟨_, h.startJoin hlead⟩
    · have halone (own : List Job) : wt ≠ .join own := fun hown => hjoin ⟨own, hown⟩
      obtain ⟨⟨-, hjoins, hresult⟩, -⟩ := await_single { s with world := w } work t.role wt next
        fun job own => halone (job :: own)
      refine ⟨jobs, h.each.await work halone fun r o ho => hlead o (.waited halone r ho), ?_, ?_, ?_⟩
      · rw [hjoins]
        exact h.sized
      · rw [hjoins]
        exact h.joins
      · rw [hresult]
        exact h.result

theorem setJoin (h : Possible work main s jobs) {i : Nat} {own : List Job} {new : Join}
    (hown : jobs[i]? = some own) (hnew : JoinLeads work main jobs own new) :
    Possible work main { s with joins := s.joins.setIfInBounds i new } jobs := by
  refine ⟨h.each.joins _, by rw [Array.size_setIfInBounds]; exact h.sized, fun k j hj => ?_, h.result⟩
  simp only [Array.getElem?_setIfInBounds] at hj
  split at hj
  · rename_i hk
    subst hk
    split at hj
    · cases hj
      exact ⟨own, hown, hnew⟩
    · cases hj
  · exact h.joins k j hj

theorem enqueue (h : Possible work main s jobs) {t : Thread}
    (ht : Leads work main jobs t.role t.process) :
    Possible work main (s.enqueue [.resume t]) jobs :=
  ⟨h.each.enqueue_resume ht, h.sized, h.joins, h.result⟩

theorem notify (h : Possible work main s jobs) {join place : Nat} {o : Outcome Value}
    (ho : MayAs work main jobs (.part join place) o) :
    Possible work main (s.notify join place o) jobs := by
  obtain ⟨own, job, hown, hjob, hmay⟩ := ho
  unfold Scheduler.notify
  split
  · exact h
  · rename_i j hj
    obtain ⟨own', hown', hleads⟩ := h.joins join j hj
    obtain rfl := Option.some.inj (hown.symm.trans hown')
    split
    · exact h
    · rename_i hopen
      have hlead := hleads.isOpen (by simpa using hopen)
      -- An error closes the join at once, an output only if it is the last.
      cases o with
      | error e =>
        have hclosed : JoinLeads work main jobs own { j with isOpen := false } :=
          ⟨hleads.sized, hleads.outputs, fun hopen => by cases hopen⟩
        exact (h.setJoin hown hclosed).enqueue (t := ⟨j.role, j.next (.error e)⟩)
          fun o ho => hlead o (.failed e ho)
      | ok out =>
        have hgiven (isOpen : Bool) : JoinLeads work main jobs own
            { j with outputs := j.outputs.set place (some out), isOpen } := by
          refine ⟨by simp [hleads.sized], fun place' job' out' hjob' hout' => ?_, fun _ => hlead⟩
          simp only [List.getElem?_set] at hout'
          split at hout'
          · rename_i hplace
            subst hplace
            obtain rfl := Option.some.inj (hjob.symm.trans hjob')
            split at hout'
            · cases hout'
              exact hmay
            · cases hout'
          · exact hleads.outputs place' job' out' hjob' hout'
        have hset := h.setJoin hown (hgiven ((j.outputs.set place (some out)).any (·.isNone)))
        simp only
        split
        · exact hset
        · rename_i hclosed
          have hall := eq_map_some_of_any_isNone (Bool.eq_false_iff.mpr hclosed)
          refine hset.enqueue fun o ho => hlead o (.joined _ ?_ (fun place' job' out' hjob' hout' => ?_) ho)
          · have hlength := congrArg List.length hall
            rw [List.length_set, List.length_map, hleads.sized] at hlength
            exact hlength.symm
          · refine (hgiven true).outputs place' job' out' hjob' ?_
            simp only
            rw [hall, List.getElem?_map, hout', Option.map_some]

theorem step (h : Possible work main s jobs) {s' : Scheduler} (hstep : s.step work = some s') :
    ∃ jobs', Possible work main s' jobs' := by
  unfold Scheduler.step at hstep
  split at hstep
  · rename_i turn rest hready
    obtain rfl := Option.some.inj hstep
    have hrest : Possible work main { s with ready := rest } jobs := by
      refine ⟨⟨fun t ht => h.each.resumes t ?_, fun join place o ho => h.each.ends join place o ?_,
        h.each.timers, h.each.queues⟩, h.sized, h.joins, h.result⟩
      · exact hready ▸ List.mem_cons_of_mem _ ht
      · exact hready ▸ List.mem_cons_of_mem _ ho
    cases turn with
    | resume t => exact hrest.resume (h.each.resumes t (hready ▸ List.mem_cons_self))
    | ended join place o =>
      exact ⟨jobs, hrest.notify (h.each.ends join place o (hready ▸ List.mem_cons_self))⟩
  · split at hstep
    · cases hstep
    · rename_i first later htimers
      rw [List.span_eq_takeWhile_dropWhile] at hstep
      obtain rfl := Option.some.inj hstep
      -- Timers hold threads and never the end of one.
      have hdue {turn : Turn}
          (hturn : turn ∈ (s.timers.takeWhile (·.time ≤ first.time)).map (·.turn)) :
          ∃ t, turn = .resume t ∧ Leads work main jobs t.role t.process := by
        obtain ⟨timer, htimer, rfl⟩ := List.mem_map.mp hturn
        exact h.each.timers timer ((List.takeWhile_prefix _).mem htimer)
      refine ⟨jobs, ⟨fun t ht => ?_, fun join place o ho => ?_,
        fun timer htimer => h.each.timers timer ((List.dropWhile_suffix _).mem htimer),
        h.each.queues⟩, h.sized, h.joins, h.result⟩
      · obtain ⟨t', hturn, hleads⟩ := hdue ht
        cases hturn
        exact hleads
      · obtain ⟨t', hturn, -⟩ := hdue ho
        cases hturn

theorem run (h : Possible work main s jobs) (fuel : Nat) :
    ∃ jobs', Possible work main (Scheduler.run work fuel s) jobs' := by
  induction fuel generalizing s jobs with
  | zero => exact ⟨jobs, h⟩
  | succ fuel ih =>
    unfold Scheduler.run
    split
    · exact ⟨jobs, h⟩
    · split
      · exact ⟨jobs, h⟩
      · rename_i s' hstep
        obtain ⟨jobs', hnext⟩ := h.step hstep
        exact ih hnext

end Possible

theorem may_of_run {w : World} {fuel : Nat} {o : Outcome Value}
    (h : (run work fuel (create w main [])).result = some o) : May work main o := by
  have hstart : Possible work main (create w main []) [] := by
    refine ⟨⟨fun t ht => ?_, fun join place o ho => ?_, nofun, nofun⟩, rfl, nofun, nofun⟩
    · cases List.mem_singleton.mp ht
      exact fun o ho => ho
    · cases List.mem_singleton.mp ho
  obtain ⟨jobs, hend⟩ := hstart.run fuel
  exact hend.result o h

end Scheduler

end StatesLanguage
