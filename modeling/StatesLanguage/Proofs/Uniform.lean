import StatesLanguage.Proofs.Possible
import StatesLanguage.Proofs.Settles
import StatesLanguage.Proofs.Steady
import StatesLanguage.State.FanOut

/-!
# Work that gives one value

Work of which one run settles all: if it can give a value at all, it gives no other, and it does give
it, in every world, after the same number of turns. Families of such work come to the same, whichever
member runs.
-/

namespace StatesLanguage

variable [Room]

namespace Work

variable {α β ι : Type} {work : Job → Process (Outcome Value)}

/-- What may come of work, may come of an error of it. -/
def Fails (work : Job → Process (Outcome Value)) (x : Work α) : Prop :=
  ∀ (f : Outcome α → Process (Outcome Value)) (v : Value), May work (x.run.bind f) (.ok v) →
    ∃ e, May work (f (.error e)) (.ok v)

/-- What may come of work, may come of an error of it or of a value that it is known to give. -/
def MayGive (work : Job → Process (Outcome Value)) (x : Work α) (value : Option α) : Prop :=
  ∀ (f : Outcome α → Process (Outcome Value)) (v : Value), May work (x.run.bind f) (.ok v) →
    (∃ e, May work (f (.error e)) (.ok v)) ∨ ∃ a, value = some a ∧ May work (f (.ok a)) (.ok v)

/-- Work that may give one value only, if any, and then gives it after so many turns. What goes on
from there is left open, as is what the thread has to do with slots. -/
structure Gives (work : Job → Process (Outcome Value)) (x : Work α) (value : Option α) (cost : Nat) :
    Prop where
  may : MayGive work x value
  must : ∀ a, value = some a → ∀ (stake : Stake) (made : Option Nat)
    (f : Outcome α → Process (Outcome Value)) (v : Value) (more : Nat),
    (∀ made, Settles work stake made (f (.ok a)) v more) →
      Settles work stake made (x.run.bind f) v (cost + more)

theorem Fails.gives {x : Work α} (h : Fails work x) (cost : Nat) : Gives work x none cost where
  may f v hv := .inl (h f v hv)
  must a ha := by cases ha

theorem Gives.fails {x : Work α} {cost : Nat} (h : Gives work x none cost) : Fails work x := by
  intro f v hv
  rcases h.may f v hv with herror | ⟨a, ha, -⟩
  · exact herror
  · cases ha

theorem gives_pure (a : α) : Gives work (pure a) (some a) 0 where
  may f v hv := .inr ⟨a, rfl, hv⟩
  must b hb stake made f v more h := by
    cases hb
    rw [Nat.zero_add]
    exact h made

theorem fails_throw (e : Failure) : Fails work (throw e : Work α) :=
  fun _ _ hv => ⟨e, hv⟩

theorem gives_ofOutcome (o : Outcome α) : Gives work (ofOutcome o) o.toOption 0 := by
  cases o with
  | ok a => exact gives_pure a
  | error e => exact (fails_throw e).gives 0

omit [Room] in
theorem ofOutcome_ok_bind (a : α) (f : α → Work β) : ofOutcome (.ok a) >>= f = f a := rfl

omit [Room] in
theorem run_bind_bind (x : Work α) (y : α → Work β) (f : Outcome β → Process (Outcome Value)) :
    (x >>= y).run.bind f = x.run.bind fun
      | .ok a => (y a).run.bind f
      | .error e => f (.error e) := by
  refine (Process.bind_assoc x.run _ f).trans ?_
  congr 1
  funext o
  cases o <;> rfl

theorem Fails.bind {x : Work α} (h : Fails work x) (y : α → Work β) : Fails work (x >>= y) := by
  intro f v hv
  rw [run_bind_bind] at hv
  exact h _ v hv

theorem Gives.bind {x : Work α} {y : α → Work β} {a : α} {value : Option β} {cost more : Nat}
    (hx : Gives work x (some a) cost) (hy : Gives work (y a) value more) :
    Gives work (x >>= y) value (cost + more) where
  may f v hv := by
    rw [run_bind_bind] at hv
    rcases hx.may _ v hv with herror | ⟨a', ha, hrest⟩
    · exact .inl herror
    · cases ha
      exact hy.may f v hrest
  must b hb stake made f v rest h := by
    rw [run_bind_bind, Nat.add_assoc]
    exact hx.must a rfl stake made _ v _ fun made => hy.must b hb stake made f v rest h

theorem gives_perform {e : Effect} {y : e.Reply → Work β} {value : Option β} {cost : Nat}
    (hin : ∀ w : World, w.InQuota → Gives work (y (w.perform e).1) value cost)
    (hout : ∀ w : World, ¬w.InQuota → MayGive work (y (w.perform e).1) value) :
    Gives work (perform e >>= y) value cost where
  may f v hv := by
    rw [run_bind_bind] at hv
    cases hv with
    | effect w rest =>
      by_cases hquota : w.InQuota
      · exact (hin w hquota).may f v rest
      · exact hout w hquota f v rest
  must b hb stake made f v more h := by
    rw [run_bind_bind]
    exact .effect fun w hquota => (hin w hquota).must b hb stake made f v more h

theorem gives_record (scope : Scope) (type : String) (details : Members) :
    Gives work (record scope type details) (some ()) 0 where
  may f v hv := by
    cases hv with
    | effect w rest => exact .inr ⟨(), rfl, rest⟩
  must a ha stake made f v more h := by
    rw [Nat.zero_add]
    exact .effect fun w _ => h made

theorem Gives.fails_bind {x : Work α} {y : α → Work β} {value : Option α} {cost : Nat}
    (hx : Gives work x value cost) (hy : ∀ a, Fails work (y a)) : Fails work (x >>= y) := by
  cases value with
  | none => exact hx.fails.bind y
  | some a => exact (hx.bind ((hy a).gives 0)).fails

theorem gives_shown (details : Members) : ∃ value, Gives work (shown details) value 0 := by
  unfold shown
  rcases (Value.obj details).display with e | text
  · exact ⟨none, ((fails_throw e).bind _).gives 0⟩
  · exact ⟨some (), gives_pure ()⟩

theorem gives_recordFailure (scope : Scope) (type : String) (details : Members) (e : Failure) :
    ∃ value, Gives work (recordFailure scope type details e) value 0 := by
  unfold recordFailure
  rcases e.text with e | text
  · exact ⟨none, ((fails_throw e).bind _).gives 0⟩
  · obtain ⟨value, hshown⟩ : ∃ value,
        Gives work (shown (Event.fullDetails [] e.name (.str text))) value 0 := gives_shown _
    have hboth : Gives work (do
        record scope type (Event.fullDetails details e.name (.str text))
        shown (Event.fullDetails [] e.name (.str text))) value (0 + 0) :=
      (gives_record scope type _).bind hshown
    exact ⟨value, hboth⟩

theorem gives_expand {input context template : Value} {value : Option Value}
    (h : ∀ drawn, ((Template.apply input context template).runFrom drawn).1.toOption = value) :
    Gives work (expand input context template) value 0 := by
  have hreply (w : World) : Gives work
      (ofOutcome (w.perform (.expand input context template)).1) value 0 :=
    h w.drawn ▸ gives_ofOutcome _
  exact gives_perform (fun w _ => hreply w) fun w _ => (hreply w).may

theorem gives_sleep (micros : Nat) : Gives work (sleep micros) (some ()) 2 where
  may f v hv := by
    cases hv with
    | waited alone r rest => exact .inr ⟨(), rfl, rest⟩
  must a ha stake made f v more h := by
    rw [Nat.add_comm]
    exact .sleep (h made)

theorem Gives.outcome_bind {x : Work α} {y : Outcome α → Work β} {first : Option α}
    {value : Option β} {cost more : Nat} (hx : Gives work x first cost)
    (hok : ∀ a, first = some a → Gives work (y (.ok a)) value more)
    (hnone : first = none → value = none) (herror : ∀ e, Fails work (y (.error e))) :
    Gives work (x.outcome >>= y) value (cost + more) where
  may f v hv := by
    have hrun : (x.outcome >>= y).run.bind f = x.run.bind fun o => (y o).run.bind f := by
      rw [run_outcome_bind, Process.bind_assoc]
    rw [hrun] at hv
    rcases hx.may _ v hv with ⟨e, herr⟩ | ⟨a, ha, hrest⟩
    · exact .inl (herror e f v herr)
    · exact (hok a ha).may f v hrest
  must b hb stake made f v rest h := by
    have hrun : (x.outcome >>= y).run.bind f = x.run.bind fun o => (y o).run.bind f := by
      rw [run_outcome_bind, Process.bind_assoc]
    cases first with
    | none => rw [hnone rfl] at hb; cases hb
    | some a =>
      rw [hrun, Nat.add_assoc]
      exact hx.must a rfl stake made _ v _ fun made =>
        (hok a rfl).must b hb stake made f v rest h

/-! ## Jobs -/

end Work

/-- A job that may give one value only, if any, and then gives it after so many turns. -/
structure Job.Gives (work : Job → Process (Outcome Value)) (job : Job) (value : Option Value)
    (cost : Nat) : Prop where
  may : ∀ v, May work (work job) (.ok v) → value = some v
  must : ∀ v, value = some v → Settles work job.stake none (work job) v cost

namespace State

open Work

variable {work : Job → Process (Outcome Value)}

theorem may_joined {jobs : List Job} {f : Outcome Value → Process (Outcome Value)} {v : Value}
    (h : May work ((joined jobs).run.bind f) (.ok v)) :
    (∃ e, May work (f (.error e)) (.ok v)) ∨
    ∃ outs : List Value, outs.length = jobs.length ∧
      (∀ (place : Nat) (job : Job) (out : Value), jobs[place]? = some job →
        outs[place]? = some out → May work (work job) (.ok out)) ∧
      May work (f (.ok (.arr outs))) (.ok v) := by
  cases h with
  | joined outs sized each rest => exact .inr ⟨outs, sized, each, rest⟩
  | failed e rest => exact .inl ⟨e, rest⟩
  | waited alone r rest => exact absurd rfl (alone jobs)

theorem fails_joined {jobs : List Job} {job : Job} {cost : Nat} (hjob : job ∈ jobs)
    (h : job.Gives work none cost) : Fails work (joined jobs) := by
  intro f v hv
  rcases may_joined hv with herror | ⟨outs, hsized, heach, -⟩
  · exact herror
  · obtain ⟨place, hplace⟩ := List.getElem?_of_mem hjob
    have hbound := (List.getElem?_eq_some_iff.mp hplace).1
    have hmay := heach place job _ hplace (List.getElem?_eq_getElem (hsized ▸ hbound))
    cases h.may _ hmay

section

variable {parts : List Part} (hparts : ∀ part ∈ parts, part.job.Gives work (some part.out) part.cost)

include hparts

theorem may_joined_parts {f : Outcome Value → Process (Outcome Value)} {v : Value}
    (h : May work ((joined (parts.map (·.job))).run.bind f) (.ok v)) :
    (∃ e, May work (f (.error e)) (.ok v)) ∨ May work (f (.ok (.arr (parts.map (·.out))))) (.ok v) := by
  rcases may_joined h with herror | ⟨outs, hsized, heach, hrest⟩
  · exact .inl herror
  · have houts : outs = parts.map (·.out) := by
      refine List.ext_getElem (by simpa using hsized) fun place hplace hplace' => ?_
      have hbound : place < parts.length := by simpa using hplace'
      have hmay := heach place parts[place].job outs[place] (by simp [hbound]) (by simp)
      have hgives := (hparts parts[place] (List.getElem_mem hbound)).may _ hmay
      simpa using (Option.some.inj hgives).symm
    exact .inr (houts ▸ hrest)

theorem settles_joined {stake : Stake} {made : Option Nat}
    (hslots : ∀ part ∈ parts, ∀ id, part.job.stake = .owed id → made = some id)
    {f : Outcome Value → Process (Outcome Value)} {v : Value} {more : Nat}
    (h : Settles work stake none (f (.ok (.arr (parts.map (·.out))))) v more) :
    Settles work stake made ((joined (parts.map (·.job))).run.bind f) v
      ((parts.map (·.cost + 2)).sum + more + 1) :=
  .join parts (fun part hpart => (hparts part hpart).must _ rfl) hslots h

theorem gives_joined (hstake : ∀ part ∈ parts, part.job.stake = .none) :
    Gives work (joined (parts.map (·.job))) (some (.arr (parts.map (·.out))))
      ((parts.map (·.cost + 2)).sum + 1) where
  may f v hv := by
    rcases may_joined_parts hparts hv with herror | hrest
    · exact .inl herror
    · exact .inr ⟨_, rfl, hrest⟩
  must a ha stake made f v more h := by
    cases ha
    rw [Nat.add_right_comm]
    refine settles_joined hparts (fun part hpart id hid => ?_) (h none)
    rw [hstake part hpart] at hid
    cases hid

end

/-- A join whose jobs need slots that are made for it. -/
theorem gives_slotted (parts : Nat → List Part) {capacity : Option Nat} (husable : capacity ≠ some 0)
    (hparts : ∀ id, ∀ part ∈ parts id, part.job.Gives work (some part.out) part.cost)
    (hstake : ∀ id, ∀ part ∈ parts id, part.job.stake = .owed id) {outs : List Value} {cost : Nat}
    (houts : ∀ id, (parts id).map (·.out) = outs)
    (hcost : ∀ id, ((parts id).map (·.cost + 2)).sum = cost) :
    Gives work (await (.makeSlots capacity) >>= fun id => joined ((parts id).map (·.job)))
      (some (.arr outs)) (cost + 2) where
  may f v hv := by
    rw [run_bind_bind] at hv
    cases hv with
    | waited alone id rest =>
      rcases may_joined_parts (hparts id) rest with herror | hrest
      · exact .inl herror
      · exact .inr ⟨_, rfl, houts id ▸ hrest⟩
  must a ha stake made f v more h := by
    cases ha
    rw [run_bind_bind, show cost + 2 + more = cost + more + 1 + 1 by omega]
    refine .makeSlots husable fun id => ?_
    rw [← hcost id]
    refine settles_joined (hparts id) (fun part hpart id' hid => ?_) (houts id ▸ h none)
    rw [hstake id part hpart] at hid
    cases hid
    rfl

end State

namespace Work

variable {α β ι κ : Type} {work : Job → Process (Outcome Value)}

/-! ## Families -/

/-- Whichever of a family of work runs, it gives the same. -/
def Uniform (work : Job → Process (Outcome Value)) (x : ι → Work α) : Prop :=
  ∃ value cost, ∀ i, Gives work (x i) value cost

theorem uniform_pure (a : α) : Uniform work fun _ : ι => (pure a : Work α) :=
  ⟨some a, 0, fun _ => gives_pure a⟩

theorem uniform_of_fails {x : ι → Work α} (h : ∀ i, Fails work (x i)) : Uniform work x :=
  ⟨none, 0, fun i => (h i).gives 0⟩

theorem uniform_throw (e : ι → Failure) : Uniform work fun i => (throw (e i) : Work α) :=
  uniform_of_fails fun i => fails_throw (e i)

theorem uniform_ofOutcome {o : ι → Outcome α} (h : Agreed o) :
    Uniform work fun i => ofOutcome (o i) := by
  obtain ⟨value, hvalue⟩ := h
  exact ⟨value, 0, fun i => hvalue i ▸ gives_ofOutcome (o i)⟩

theorem Uniform.bind {x : ι → Work α} {y : ι → α → Work β} (hx : Uniform work x)
    (hy : ∀ a, Uniform work fun i => y i a) : Uniform work fun i => x i >>= y i := by
  obtain ⟨value, cost, hx⟩ := hx
  cases value with
  | none => exact uniform_of_fails fun i => (hx i).fails.bind (y i)
  | some a =>
    obtain ⟨value, more, hy⟩ := hy a
    exact ⟨value, cost + more, fun i => (hx i).bind (hy i)⟩

theorem uniform_ofOutcome_bind {o : Outcome α} {y : ι → α → Work β}
    (h : ∀ a, o = .ok a → Uniform work fun i => y i a) :
    Uniform work fun i => ofOutcome o >>= y i := by
  cases o with
  | ok a => exact h a rfl
  | error e => exact uniform_of_fails fun i => (fails_throw e).bind (y i)

theorem Uniform.comp {x : ι → Work α} (h : Uniform work x) (f : κ → ι) :
    Uniform work fun k => x (f k) := by
  obtain ⟨value, cost, h⟩ := h
  exact ⟨value, cost, fun k => h (f k)⟩

theorem uniform_perform {e : ι → Effect} {y : (i : ι) → (e i).Reply → Work β}
    (h : Uniform work fun p : (i : ι) × (e i).Reply => y p.1 p.2) :
    Uniform work fun i => perform (e i) >>= y i := by
  obtain ⟨value, cost, h⟩ := h
  exact ⟨value, cost, fun i => gives_perform (fun w _ => h ⟨i, _⟩) fun w _ => (h ⟨i, _⟩).may⟩

theorem uniform_record (scope : ι → Scope) (type : String) (details : ι → Members) :
    Uniform work fun i => record (scope i) type (details i) :=
  ⟨some (), 0, fun i => gives_record (scope i) type (details i)⟩

theorem uniform_sleep (micros : Nat) : Uniform work fun _ : ι => sleep micros :=
  ⟨some (), 2, fun _ => gives_sleep micros⟩

theorem uniform_expand {input template : Value} {context : ι → Value}
    (h : Draw.Agreed fun i => Template.apply input (context i) template) :
    Uniform work fun i => expand input (context i) template := by
  obtain ⟨value, h⟩ := h
  exact ⟨value, 0, fun i => gives_expand fun drawn => h ⟨i, drawn⟩⟩

theorem Uniform.outcome_bind {x : ι → Work α} {y : ι → Outcome α → Work β} (hx : Uniform work x)
    (hok : ∀ a, Uniform work fun i => y i (.ok a)) (herror : ∀ i e, Fails work (y i (.error e))) :
    Uniform work fun i => (x i).outcome >>= y i := by
  obtain ⟨first, cost, hx⟩ := hx
  cases first with
  | none =>
    exact ⟨none, cost + 0, fun i => (hx i).outcome_bind nofun (fun _ => rfl) (herror i)⟩
  | some a =>
    obtain ⟨value, more, hok⟩ := hok a
    refine ⟨value, cost + more, fun i => (hx i).outcome_bind (fun b hb => ?_) nofun (herror i)⟩
    cases hb
    exact hok i

/-- Whichever of a family of jobs runs, it gives the same. -/
def UniformJob (work : Job → Process (Outcome Value)) (job : ι → Job) : Prop :=
  ∃ value cost, ∀ i, (job i).Gives work value cost

theorem parts_or_fails {l : List κ} {job : κ → ι → Job} (h : ∀ x ∈ l, UniformJob work (job x)) :
    (∃ (out : κ → Value) (cost : κ → Nat), ∀ i,
      ∀ part ∈ l.map fun x => Part.mk (job x i) (out x) (cost x),
        part.job.Gives work (some part.out) part.cost) ∨
    ∀ i, Fails work (State.joined (l.map (job · i))) := by
  by_cases hall : ∀ x ∈ l, ∃ (out : Value) (cost : Nat), ∀ i, (job x i).Gives work (some out) cost
  · choose! out cost hgives using hall
    refine .inl ⟨out, cost, fun i part hpart => ?_⟩
    obtain ⟨x, hx, rfl⟩ := List.mem_map.mp hpart
    exact hgives x hx i
  · push Not at hall
    obtain ⟨x, hx, hnot⟩ := hall
    obtain ⟨value, cost, hgives⟩ := h x hx
    cases value with
    | none => exact .inr fun i => State.fails_joined (List.mem_map_of_mem hx) (hgives i)
    | some out =>
      obtain ⟨i, hi⟩ := hnot out cost
      exact absurd (hgives i) hi

theorem uniform_joined {l : List κ} {job : κ → ι → Job} (h : ∀ x ∈ l, UniformJob work (job x))
    (hstake : ∀ x ∈ l, ∀ i, (job x i).stake = .none) :
    Uniform work fun i => State.joined (l.map (job · i)) := by
  rcases parts_or_fails h with ⟨out, cost, hparts⟩ | hfails
  · refine ⟨some (.arr (l.map out)), (l.map (cost · + 2)).sum + 1, fun i => ?_⟩
    have hgives := State.gives_joined (hparts i) fun part hpart => ?_
    · simpa only [List.map_map, Function.comp_def] using hgives
    · obtain ⟨x, hx, rfl⟩ := List.mem_map.mp hpart
      exact hstake x hx i
  · exact uniform_of_fails hfails

theorem uniform_slotted {l : List κ} {job : κ → ι → Nat → Job} {capacity : Option Nat}
    (husable : capacity ≠ some 0) (h : ∀ x ∈ l, UniformJob work fun i : ι × Nat => job x i.1 i.2)
    (hstake : ∀ x ∈ l, ∀ i id, (job x i id).stake = .owed id) :
    Uniform work fun i =>
      await (.makeSlots capacity) >>= fun id => State.joined (l.map (job · i id)) := by
  rcases parts_or_fails h with ⟨out, cost, hparts⟩ | hfails
  · refine ⟨some (.arr (l.map out)), (l.map (cost · + 2)).sum + 2, fun i => ?_⟩
    let parts (id : Nat) := l.map fun x => Part.mk (job x i id) (out x) (cost x)
    have houts (id : Nat) : (parts id).map (·.out) = l.map out := List.map_map
    have hcosts (id : Nat) : ((parts id).map (·.cost + 2)).sum = (l.map (cost · + 2)).sum :=
      congrArg List.sum List.map_map
    have hgives := State.gives_slotted parts husable (fun id => hparts (i, id))
      (fun id part hpart => ?_) houts hcosts
    · simpa only [parts, List.map_map, Function.comp_def] using hgives
    · obtain ⟨x, hx, rfl⟩ := List.mem_map.mp hpart
      exact hstake x hx i id
  · refine uniform_of_fails fun i => fun f v hv => ?_
    rw [run_bind_bind] at hv
    cases hv with
    | waited alone id rest => exact hfails (i, id) f v rest

end Work

end StatesLanguage
