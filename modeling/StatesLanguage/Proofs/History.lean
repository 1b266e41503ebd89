import StatesLanguage.Proofs.Settlement
import StatesLanguage.Proofs.Tracing

/-!
# Histories are traces

The history of an execution, taken apart by the machines that ran in it, is a trace of each of them.
-/

namespace StatesLanguage

/-- Whether an event is one of the states of a machine. -/
def Event.ofMachine (scope : List Nat) (e : Event) : Bool :=
  e.scope.machine = scope && ofStates e.scope e.type

def Execution.recordsAt (x : Execution) (scope : List Nat) : Records :=
  (x.history.toList.filter (Event.ofMachine scope)).map fun e => (e.type, e.details)

/-- The machines that a history tells of, each inside a state of the one around it. -/
structure Execution.IsTrace [Room] (x : Execution) (config : Value) (root : Machine) : Prop where
  numbered : ∀ i e, x.history[i]? = some e → e.id = i + 1 ∧ e.previousId = i
  traced : ∃ machineAt : List Nat → Option Machine, machineAt [] = some root ∧
    (∀ scope n m, machineAt (scope ++ [n]) = some m → ∃ around definition,
      machineAt scope = some around ∧ around.Contains definition ∧
      Machine.ofDefinition definition = .ok m) ∧
    ∀ scope, match machineAt scope with
      | some m => m.Traces ⟨x.identity, config, scope⟩ (x.recordsAt scope)
      | none => x.recordsAt scope = []
  succeeded : x.status = .succeeded → root.Ends ⟨x.identity, config, []⟩ (x.recordsAt []) x.output

/-! ## Where machines run -/

/-- The machine that a thread runs, or has run. -/
def Stage.place? (g : Stage) : Option (List Nat × Machine) :=
  g.activation?.map fun a => (a.scope, a.machine)

theorem Stage.place?_of_activation? {g : Stage} {a : Activation} (h : g.activation? = some a) :
    g.place? = some (a.scope, a.machine) := by
  rw [Stage.place?, h, Option.map_some]

/-- Every machine has a scope of its own, inside that of the machine around it. -/
structure Placed (root : Machine) (g : Role → Stage) (w : World) : Prop where
  top : (g .main).place? = some ([], root)
  distinct : ∀ role role' scope m m', (g role).place? = some (scope, m) →
    (g role').place? = some (scope, m') → role = role'
  counted : ∀ role scope n m, (g role).place? = some (scope ++ [n], m) → n < w.machinesIn scope
  nested : ∀ role scope n m, (g role).place? = some (scope ++ [n], m) →
    ∃ role' around definition, (g role').place? = some (scope, around) ∧
      around.Contains definition ∧ Machine.ofDefinition definition = .ok m
  called : ∀ role scope definition, g role = .called scope definition →
    ∃ role' around, (g role').place? = some (scope, around) ∧ around.Contains definition

namespace Placed

variable {root : Machine} {g g' : Role → Stage} {w w' : World}

theorem congr (h : Placed root g w) (hplace : ∀ role, (g' role).place? = (g role).place?)
    (hcalled : ∀ role scope definition, g' role = .called scope definition →
      ∃ role' around, (g role').place? = some (scope, around) ∧ around.Contains definition)
    (hmachines : ∀ scope, w.machinesIn scope ≤ w'.machinesIn scope) : Placed root g' w' := by
  refine ⟨?_, ?_, ?_, ?_, ?_⟩
  · rw [hplace]
    exact h.top
  · simp only [hplace]
    exact h.distinct
  · intro role scope n m hrole
    rw [hplace] at hrole
    exact (h.counted role scope n m hrole).trans_le (hmachines scope)
  · simp only [hplace]
    exact h.nested
  · simp only [hplace]
    exact hcalled

theorem called_update (h : Placed root g w) (role : Role) {stage : Stage}
    (hstage : ∀ scope definition, stage ≠ .called scope definition) (r : Role) (scope : List Nat)
    (definition : Value) (hr : Function.update g role stage r = .called scope definition) :
    ∃ role' around, (g role').place? = some (scope, around) ∧ around.Contains definition := by
  by_cases heq : r = role
  · subst heq
    rw [Function.update_self] at hr
    exact absurd hr (hstage scope definition)
  · rw [Function.update_of_ne heq] at hr
    exact h.called r scope definition hr

open Classical in
/-- The machine that some thread runs, or has run, in a scope. -/
noncomputable def machineAt? (g : Role → Stage) (scope : List Nat) : Option Machine :=
  if h : ∃ m role, (g role).place? = some (scope, m) then some h.choose else none

theorem machineAt?_eq_some_iff (h : Placed root g w) (scope : List Nat) (m : Machine) :
    machineAt? g scope = some m ↔ ∃ role, (g role).place? = some (scope, m) := by
  unfold machineAt?
  split
  · rename_i hscope
    obtain ⟨role', hrole'⟩ := hscope.choose_spec
    constructor
    · intro hm
      exact ⟨role', Option.some.inj hm ▸ hrole'⟩
    · rintro ⟨role, hrole⟩
      -- Whichever thread was chosen, it is the one in this scope.
      obtain rfl := h.distinct role' role scope _ m hrole' hrole
      rw [hrole] at hrole'
      exact congrArg some (Prod.mk.inj (Option.some.inj hrole')).2.symm
  · rename_i hscope
    exact ⟨nofun, fun hm => absurd ⟨m, hm⟩ hscope⟩

end Placed

theorem lookup_filter_ne {α : Type} (l : List (List Nat × α)) {parent scope : List Nat}
    (h : scope ≠ parent) : (l.filter (·.1 != parent)).lookup scope = l.lookup scope := by
  induction l with
  | nil => rfl
  | cons entry rest ih =>
    obtain ⟨key, n⟩ := entry
    by_cases hkey : key = parent
    · subst hkey
      simp [List.lookup_cons, beq_false_of_ne h, ih]
    · rw [List.filter_cons_of_pos (by simpa using hkey), List.lookup_cons, List.lookup_cons, ih]

theorem machinesIn_numberMachine (w : World) (parent scope : List Nat) :
    (w.numberMachine parent).machinesIn scope =
      if scope = parent then w.machinesIn parent + 1 else w.machinesIn scope := by
  by_cases h : scope = parent
  · subst h
    simp [World.machinesIn, World.numberMachine]
  · rw [if_neg h]
    simp only [World.machinesIn, World.numberMachine, List.lookup_cons, beq_false_of_ne h]
    rw [lookup_filter_ne _ h]

theorem machinesIn_le_numberMachine (w : World) (parent scope : List Nat) :
    w.machinesIn scope ≤ (w.numberMachine parent).machinesIn scope := by
  rw [machinesIn_numberMachine]
  split
  · rename_i h
    rw [h]
    exact Nat.le_succ _
  · exact Nat.le_refl _

theorem Placed.start {root m : Machine} {g : Role → Stage} {w : World} {role : Role}
    {scope : List Nat} {definition : Value} (h : Placed root g w)
    (hrole : g role = .called scope definition) (hm : Machine.ofDefinition definition = .ok m) :
    Placed root (Function.update g role (.running ⟨scope ++ [w.machinesIn scope], m, []⟩))
      (w.numberMachine scope) := by
  have hkeep {r : Role} {p : List Nat × Machine} (hr : (g r).place? = some p) :
      (Function.update g role (.running ⟨scope ++ [w.machinesIn scope], m, []⟩) r).place? =
        some p := by
    rw [Function.update_of_ne, hr]
    rintro rfl
    rw [hrole] at hr
    cases hr
  have hcases {r : Role} {p : List Nat × Machine}
      (hr : (Function.update g role (.running ⟨scope ++ [w.machinesIn scope], m, []⟩) r).place? =
        some p) : r = role ∧ p = (scope ++ [w.machinesIn scope], m) ∨ (g r).place? = some p := by
    by_cases heq : r = role
    · subst heq
      rw [Function.update_self] at hr
      exact Or.inl ⟨rfl, (Option.some.inj hr).symm⟩
    · rw [Function.update_of_ne heq] at hr
      exact Or.inr hr
  -- The machines in a scope are counted, and the new one takes the next number.
  have hnew (r : Role) (m' : Machine) :
      (g r).place? ≠ some (scope ++ [w.machinesIn scope], m') := by
    intro hr
    exact Nat.lt_irrefl _ (h.counted r scope _ m' hr)
  have haround := h.called role scope definition hrole
  refine ⟨hkeep h.top, ?_, ?_, ?_, ?_⟩
  · intro r r' scope' m₁ m₂ hr hr'
    rcases hcases hr with ⟨hrole₁, hp⟩ | hold <;> rcases hcases hr' with ⟨hrole₂, hp'⟩ | hold'
    · rw [hrole₁, hrole₂]
    · cases hp
      exact absurd hold' (hnew _ _)
    · cases hp'
      exact absurd hold (hnew _ _)
    · exact h.distinct r r' scope' m₁ m₂ hold hold'
  · intro r scope' n m' hr
    rcases hcases hr with ⟨rfl, hp⟩ | hr
    · obtain ⟨hscope, hn⟩ := List.append_inj' (Prod.mk.inj hp).1 rfl
      cases hn
      rw [hscope, machinesIn_numberMachine, if_pos rfl]
      exact Nat.lt_succ_self _
    · exact (h.counted r scope' n m' hr).trans_le (machinesIn_le_numberMachine w scope scope')
  · intro r scope' n m' hr
    rcases hcases hr with ⟨rfl, hp⟩ | hr
    · obtain ⟨hscope, rfl⟩ := Prod.mk.inj hp
      obtain ⟨rfl, -⟩ := List.append_inj' hscope rfl
      obtain ⟨role', around, hplace, hcontains⟩ := haround
      exact ⟨role', around, definition, hkeep hplace, hcontains, hm⟩
    · obtain ⟨role', around, definition', hplace, hcontains⟩ := h.nested r scope' n m' hr
      exact ⟨role', around, definition', hkeep hplace, hcontains⟩
  · intro r scope' definition' hr
    by_cases heq : r = role
    · subst heq
      rw [Function.update_self] at hr
      cases hr
    · rw [Function.update_of_ne heq] at hr
      obtain ⟨role', around, hplace, hcontains⟩ := h.called r scope' definition' hr
      exact ⟨role', around, hkeep hplace, hcontains⟩

@[simp] theorem World.machines_record [Room] (w : World) (scope : Scope) (type : String)
    (details : Members) : (w.record scope type details).machines = w.machines := by
  unfold World.record
  dsimp only
  split <;> rfl

def Effect.Unrecorded : Effect → Prop
  | .record _ _ _ | .numberMachine _ | .conclude _ => False
  | _ => True

theorem World.perform_unrecorded [Room] (w : World) {e : Effect} (h : e.Unrecorded) :
    (w.perform e).2.execution = w.execution ∧ (w.perform e).2.machines = w.machines := by
  cases e with
  | record | numberMachine | conclude => exact h.elim
  | scheduleTask arn input =>
    simp only [perform, scheduleTask]
    split <;> exact ⟨rfl, rfl⟩
  | takeReport token =>
    simp only [perform, takeReport]
    split <;> exact ⟨rfl, rfl⟩
  | getActivityTask arn worker =>
    simp only [perform, getActivityTask]
    split
    · exact ⟨rfl, rfl⟩
    · split
      · split <;> exact ⟨rfl, rfl⟩
      · exact ⟨rfl, rfl⟩
  | enqueueResult token output error cause =>
    simp only [perform, enqueueResult]
    split <;> exact ⟨rfl, rfl⟩
  | _ => exact ⟨rfl, rfl⟩

/-! ## What is recorded -/

/-- The histories that threads at these stages leave. -/
structure Recorded [Room] (base : Site) (root : Machine) (g : Role → Stage) (w : World) : Prop where
  placed : Placed root g w
  /-- All answers are those of a world. -/
  present : ∀ role, g role ≠ .lost
  identity : w.execution.identity = base.identity
  numbered : ∀ i e, w.execution.history[i]? = some e → e.id = i + 1
  traced : ∀ role a, (g role).activation? = some a →
    a.machine.Traces (base.within a.scope) a.records ∧ w.execution.recordsAt a.scope = a.records
  owned : ∀ scope, w.execution.recordsAt scope ≠ [] → ∃ role m, (g role).place? = some (scope, m)
  succeeded : w.execution.status = .succeeded → ∃ role a, g role = .over a ∧ a.scope = [] ∧
    a.machine.Ends (base.within []) a.records w.execution.output

theorem recordsAt_addEvent (x : Execution) (scope : Scope) (time : Nat) (type : String)
    (details : Members) (machine : List Nat) :
    (x.addEvent scope time type details).recordsAt machine =
      if scope.machine = machine ∧ Event.ofStates scope type = true then
        x.recordsAt machine ++ [(type, details)]
      else x.recordsAt machine := by
  rw [Execution.recordsAt, Execution.history_addEvent, List.filter_append, List.map_append,
    ← Execution.recordsAt]
  by_cases h : scope.machine = machine ∧ Event.ofStates scope type = true
  · simp [h, Event.ofMachine]
  · rw [if_neg h]
    have hnot : Event.ofMachine machine ⟨x.history.size + 1, time, type, details, scope⟩ = false := by
      simpa [Event.ofMachine] using h
    simp [hnot]

theorem present_update {g : Role → Stage} (h : ∀ role, g role ≠ .lost) (role : Role) {stage : Stage}
    (hstage : stage ≠ .lost) (r : Role) : Function.update g role stage r ≠ .lost := by
  by_cases heq : r = role
  · subst heq
    rwa [Function.update_self]
  · rw [Function.update_of_ne heq]
    exact h r

theorem numbered_addEvent {x : Execution} (h : ∀ i e, x.history[i]? = some e → e.id = i + 1)
    (scope : Scope) (time : Nat) (type : String) (details : Members) (i : Nat) (e : Event)
    (he : (x.addEvent scope time type details).history[i]? = some e) : e.id = i + 1 := by
  rw [Execution.addEvent, Array.getElem?_push] at he
  split at he
  · rename_i hi
    obtain rfl := Option.some.inj he
    rw [hi]
  · exact h i e he

namespace Recorded

variable [Room] {base : Site} {root : Machine} {g : Role → Stage} {w w' : World}

theorem congr (h : Recorded base root g w) (hexecution : w'.execution = w.execution)
    (hmachines : w'.machines = w.machines) : Recorded base root g w' := by
  have hcount (scope : List Nat) : w.machinesIn scope ≤ w'.machinesIn scope := by
    rw [World.machinesIn, World.machinesIn, hmachines]
  refine ⟨h.placed.congr (fun _ => rfl) h.placed.called hcount, h.present, ?_, ?_, ?_, ?_, ?_⟩
  all_goals rw [hexecution]
  · exact h.identity
  · exact h.numbered
  · exact h.traced
  · exact h.owned
  · exact h.succeeded

theorem record_plain (h : Recorded base root g w) {scope : Scope} {type : String} (details : Members)
    (hstates : Event.ofStates scope type = false) :
    Recorded base root g (w.record scope type details) := by
  have hrecords (machine : List Nat) :
      (w.record scope type details).execution.recordsAt machine = w.execution.recordsAt machine := by
    rw [World.execution_record, recordsAt_addEvent, if_neg]
    simp [hstates]
  refine ⟨h.placed.congr (fun _ => rfl) h.placed.called ?_, h.present, ?_, ?_, ?_, ?_, ?_⟩
  · simp [World.machinesIn]
  · rw [World.execution_record]
    exact h.identity
  · rw [World.execution_record]
    exact numbered_addEvent h.numbered _ _ _ _
  · simp only [hrecords]
    exact h.traced
  · simp only [hrecords]
    exact h.owned
  · rw [World.execution_record]
    exact h.succeeded

theorem record_own (h : Recorded base root g w) {role : Role} {a : Activation} {type : String}
    {details : Members} (hrole : g role = .running a)
    (hstates : Event.ofStates ⟨a.scope, none⟩ type = true)
    (htrace : a.machine.Traces (base.within a.scope) (a.records ++ [(type, details)])) :
    Recorded base root
      (Function.update g role (.running { a with records := a.records ++ [(type, details)] }))
      (w.record ⟨a.scope, none⟩ type details) := by
  have hactive : (g role).activation? = some a := by rw [hrole, Stage.activation?]
  have hplace (r : Role) : (Function.update g role
      (.running { a with records := a.records ++ [(type, details)] }) r).place? = (g r).place? := by
    by_cases hr : r = role
    · subst hr
      rw [Function.update_self, Stage.place?_of_activation? hactive]
      rfl
    · rw [Function.update_of_ne hr]
  have hrecords (machine : List Nat) :
      (w.record ⟨a.scope, none⟩ type details).execution.recordsAt machine =
        if machine = a.scope then a.records ++ [(type, details)]
        else w.execution.recordsAt machine := by
    rw [World.execution_record, recordsAt_addEvent]
    by_cases hm : machine = a.scope
    · subst hm
      simp [hstates, (h.traced role a hactive).2]
    · simp [hm, Ne.symm hm]
  refine ⟨h.placed.congr hplace (h.placed.called_update role nofun) ?_,
    present_update h.present role nofun, ?_, ?_, ?_, ?_, ?_⟩
  · simp [World.machinesIn]
  · rw [World.execution_record]
    exact h.identity
  · rw [World.execution_record]
    exact numbered_addEvent h.numbered _ _ _ _
  · intro r b hr
    by_cases heq : r = role
    · subst heq
      rw [Function.update_self] at hr
      obtain rfl := Option.some.inj hr
      exact ⟨htrace, by rw [hrecords, if_pos rfl]⟩
    · rw [Function.update_of_ne heq] at hr
      -- Another thread has another scope, so the event is none of its machine.
      have hscope : b.scope ≠ a.scope := by
        intro hscope
        have hb := Stage.place?_of_activation? hr
        rw [hscope] at hb
        exact heq (h.placed.distinct _ _ _ _ _ hb (Stage.place?_of_activation? hactive))
      rw [hrecords, if_neg hscope]
      exact h.traced r b hr
  · intro scope hne
    simp only [hplace]
    rw [hrecords] at hne
    split at hne
    · rename_i hscope
      exact ⟨role, a.machine, hscope ▸ Stage.place?_of_activation? hactive⟩
    · exact h.owned scope hne
  · rw [World.execution_record]
    intro hstatus
    obtain ⟨r, b, hr, hends⟩ := h.succeeded hstatus
    refine ⟨r, b, ?_, hends⟩
    rw [Function.update_of_ne, hr]
    rintro rfl
    rw [hr] at hrole
    cases hrole

theorem fresh_scope (h : Recorded base root g w) (scope : List Nat) :
    (∀ role m, (g role).place? ≠ some (scope ++ [w.machinesIn scope], m)) ∧
      w.execution.recordsAt (scope ++ [w.machinesIn scope]) = [] := by
  have hplace (role : Role) (m : Machine) :
      (g role).place? ≠ some (scope ++ [w.machinesIn scope], m) := by
    intro hrole
    exact Nat.lt_irrefl _ (h.placed.counted role scope _ m hrole)
  refine ⟨hplace, ?_⟩
  by_contra hne
  obtain ⟨role, m, hrole⟩ := h.owned _ hne
  exact hplace role m hrole

theorem numberMachine (h : Recorded base root g w) {role : Role} {scope : List Nat} {definition : Value}
    (hrole : g role = .called scope definition) :
    Recorded base root (Function.update g role (.start (scope ++ [w.machinesIn scope]) definition))
      (w.numberMachine scope) := by
  obtain ⟨hnew, hempty⟩ := h.fresh_scope scope
  have hover (stage : Stage) (hstatus : w.execution.status = .succeeded) : ∃ r a,
      Function.update g role stage r = .over a ∧ a.scope = [] ∧
        a.machine.Ends (base.within []) a.records w.execution.output := by
    obtain ⟨r, a, hr, hends⟩ := h.succeeded hstatus
    refine ⟨r, a, ?_, hends⟩
    rw [Function.update_of_ne, hr]
    rintro rfl
    rw [hr] at hrole
    cases hrole
  have howned (stage : Stage) (s : List Nat) (hs : w.execution.recordsAt s ≠ []) :
      ∃ r m, (Function.update g role stage r).place? = some (s, m) := by
    obtain ⟨r, m, hr⟩ := h.owned s hs
    refine ⟨r, m, ?_⟩
    rw [Function.update_of_ne, hr]
    rintro rfl
    rw [hrole] at hr
    cases hr
  unfold Stage.start
  -- The number is spent also on a definition of no machine, which then has no events.
  cases hm : Machine.ofDefinition definition with
  | error e =>
    refine ⟨h.placed.congr ?_ (h.placed.called_update role nofun)
      (machinesIn_le_numberMachine w scope), present_update h.present role nofun, h.identity,
      h.numbered, ?_, howned _, hover _⟩
    · intro r
      by_cases heq : r = role
      · subst heq
        rw [Function.update_self, hrole]
        rfl
      · rw [Function.update_of_ne heq]
    · intro r a hr
      by_cases heq : r = role
      · subst heq
        rw [Function.update_self] at hr
        cases hr
      · rw [Function.update_of_ne heq] at hr
        exact h.traced r a hr
  | ok m =>
    refine ⟨h.placed.start hrole hm, present_update h.present role nofun, h.identity, h.numbered, ?_,
      howned _, hover _⟩
    intro r a hr
    by_cases heq : r = role
    · subst heq
      rw [Function.update_self] at hr
      obtain rfl := Option.some.inj hr
      exact ⟨⟨[], Machine.isPath_nil, rfl⟩, hempty⟩
    · rw [Function.update_of_ne heq] at hr
      exact h.traced r a hr

theorem concluded (h : Recorded base root g w) {role : Role} {a : Activation} {output : Value}
    (hrole : g role = .running a) (hscope : a.scope = [])
    (hends : a.machine.Ends (base.within []) a.records output) :
    Recorded base root (Function.update g role (.over a)) (w.conclude (.ok output)) := by
  have hactive (r : Role) : (Function.update g role (.over a) r).activation? = (g r).activation? := by
    by_cases heq : r = role
    · subst heq
      rw [Function.update_self, hrole]
      rfl
    · rw [Function.update_of_ne heq]
  have hplace (r : Role) : (Function.update g role (.over a) r).place? = (g r).place? := by
    rw [Stage.place?, hactive, Stage.place?]
  refine ⟨h.placed.congr hplace (h.placed.called_update role nofun) fun _ => Nat.le_refl _,
    present_update h.present role nofun, h.identity, h.numbered, ?_, ?_, ?_⟩
  · simp only [hactive]
    exact h.traced
  · simp only [hplace]
    exact h.owned
  · exact fun _ => ⟨role, a, Function.update_self .., hscope, hends⟩

theorem failed (h : Recorded base root g w) (e : Failure) :
    Recorded base root g (w.conclude (.error e)) := by
  have hrecords (scope : List Nat) :
      (w.conclude (.error e)).execution.recordsAt scope = w.execution.recordsAt scope := by
    simp [World.conclude, Execution.recordsAt]
  refine ⟨h.placed.congr (fun _ => rfl) h.placed.called fun _ => Nat.le_refl _, h.present, ?_, ?_, ?_,
    ?_, ?_⟩
  · simpa [World.conclude] using h.identity
  · simpa [World.conclude] using h.numbered
  · simpa only [hrecords] using h.traced
  · simpa only [hrecords] using h.owned
  · simp [World.conclude]

/-- Effects that record nothing of states and start no machine leave all threads where they are. -/
theorem quiet (role : Role) {e : Effect} (he : e.Quiet)
    (hw : Recorded base root g (w.perform e).2) :
    Recorded base root (Function.update g role ((g role).next e (w.perform e).1))
      (w.perform e).2 := by
  rwa [(g role).next_perform_quiet he, Function.update_eq_self]

theorem unrecorded (h : Recorded base root g w) {e : Effect} (he : e.Unrecorded) :
    Recorded base root g (w.perform e).2 := by
  obtain ⟨hexecution, hmachines⟩ := w.perform_unrecorded he
  exact h.congr hexecution hmachines

theorem effect (h : Recorded base root g w) (role : Role) (e : Effect)
    (hallows : (g role).Allows base e) :
    Recorded base root (Function.update g role ((g role).next e (w.perform e).1))
      (w.perform e).2 := by
  cases e with
  | record scope type details =>
    cases hstates : Event.ofStates scope type with
    | true =>
      obtain ⟨a, hrole, rfl, htrace⟩ := (hallows hstates).resolve_left (h.present role)
      rw [hrole, Stage.next_running]
      simp only [Activation.after, hstates]
      exact h.record_own hrole hstates htrace
    | false => exact quiet role hstates (h.record_plain details hstates)
  | numberMachine scope =>
    obtain ⟨definition, hrole⟩ := hallows.resolve_left (h.present role)
    rw [hrole]
    exact h.numberMachine hrole
  | conclude o =>
    cases o with
    | ok output =>
      obtain ⟨a, hrole, hscope, hends⟩ := hallows.resolve_left (h.present role)
      rw [hrole, Stage.next_running]
      exact h.concluded hrole hscope hends
    | error e => exact quiet role trivial (h.failed e)
  | _ => exact quiet role trivial (h.unrecorded trivial)

theorem join (h : Recorded base root g w) {role : Role} {jobs : List Job} {join : Nat}
    (hwait : (tracing base).mayWait (g role) (.join jobs))
    (hidle : ∀ place, g (.part join place) = .idle) :
    Recorded base root ((tracing base).hire g join jobs) w := by
  obtain ⟨a, hrole, hjobs⟩ := hwait.resolve_left (h.present role)
  -- The threads that are started run no machine yet, and neither did their roles.
  have hcases (r : Role) : (tracing base).hire g join jobs r = g r ∨
      g r = .idle ∧ ((tracing base).hire g join jobs r = .idle ∨
        ∃ job ∈ jobs, (tracing base).hire g join jobs r = .called job.parent job.definition) := by
    by_cases hr : ∃ place, r = .part join place
    · obtain ⟨place, rfl⟩ := hr
      rw [Team.hire_part]
      refine Or.inr ⟨hidle place, ?_⟩
      cases hjob : jobs[place]? with
      | none => exact Or.inl rfl
      | some job => exact Or.inr ⟨job, List.mem_of_getElem? hjob, rfl⟩
    · exact Or.inl (Team.hire_fresh g jobs fun place hplace => hr ⟨place, hplace⟩)
  have hactive (r : Role) : ((tracing base).hire g join jobs r).activation? = (g r).activation? := by
    rcases hcases r with hr | ⟨hr, hr' | ⟨job, -, hr'⟩⟩
    · rw [hr]
    · rw [hr, hr']
    · rw [hr, hr']
      rfl
  have hplace (r : Role) : ((tracing base).hire g join jobs r).place? = (g r).place? := by
    rw [Stage.place?, hactive, Stage.place?]
  refine ⟨h.placed.congr hplace ?_ fun _ => Nat.le_refl _, ?_, h.identity, h.numbered, ?_, ?_, ?_⟩
  · intro r scope definition hcalled
    rcases hcases r with hr | ⟨-, hr | ⟨job, hmem, hr⟩⟩
    · exact h.placed.called r scope definition (hr ▸ hcalled)
    · rw [hr] at hcalled
      cases hcalled
    · rw [hr] at hcalled
      cases hcalled
      obtain ⟨hparent, hcontains⟩ := hjobs job hmem
      refine ⟨role, a.machine, ?_, hcontains⟩
      rw [hrole, hparent]
      rfl
  · intro r hlost
    rcases hcases r with hr | ⟨-, hr | ⟨job, -, hr⟩⟩
    · exact h.present r (hr ▸ hlost)
    · rw [hr] at hlost
      cases hlost
    · rw [hr] at hlost
      cases hlost
  · simp only [hactive]
    exact h.traced
  · simp only [hplace]
    exact h.owned
  · intro hstatus
    obtain ⟨r, b, hr, hends⟩ := h.succeeded hstatus
    refine ⟨r, b, ?_, hends⟩
    rcases hcases r with hsame | ⟨hidle, -⟩
    · rw [hsame, hr]
    · rw [hr] at hidle
      cases hidle

theorem shares (base : Site) (root : Machine) : (tracing base).Shares (Recorded base root) where
  effect g w role e h hallows := h.effect role e hallows
  join g w role jobs join h hwait hidle := h.join hwait hidle
  outside g w now services h := h.congr rfl rfl
  idle e r hallows := by
    cases e with
    | record scope type details => rfl
    | numberMachine scope => rfl
    | conclude o => cases o <;> rfl
    | _ => rfl

theorem isTrace {identity : Identity} {config : Value}
    (h : Recorded ⟨identity, config, []⟩ root g w) : w.execution.IsTrace config root := by
  have hat := h.placed.machineAt?_eq_some_iff
  have hidentity : w.execution.identity = identity := h.identity
  refine ⟨?_, ⟨Placed.machineAt? g, (hat _ _).mpr ⟨.main, h.placed.top⟩, ?_, ?_⟩, ?_⟩
  · intro i e he
    have hid := h.numbered i e he
    exact ⟨hid, by rw [Event.previousId, hid, Nat.add_sub_cancel]⟩
  · intro scope n m hm
    obtain ⟨role, hrole⟩ := (hat _ m).mp hm
    obtain ⟨role', around, definition, hplace, hcontains⟩ := h.placed.nested role scope n m hrole
    exact ⟨around, definition, (hat scope around).mpr ⟨role', hplace⟩, hcontains⟩
  · intro scope
    cases hm : Placed.machineAt? g scope with
    | some m =>
      obtain ⟨role, hrole⟩ := (hat scope m).mp hm
      obtain ⟨a, ha, hplace⟩ := Option.map_eq_some_iff.mp hrole
      obtain ⟨rfl, rfl⟩ := Prod.mk.inj hplace
      obtain ⟨htrace, hrecords⟩ := h.traced role a ha
      rw [hrecords, hidentity]
      exact htrace
    | none =>
      by_contra hne
      obtain ⟨role, m, hrole⟩ := h.owned scope hne
      rw [(hat scope m).mpr ⟨role, hrole⟩] at hm
      cases hm
  · intro hstatus
    obtain ⟨role, a, hrole, hscope, hends⟩ := h.succeeded hstatus
    have hactive : (g role).activation? = some a := by rw [hrole, Stage.activation?]
    have hplace := Stage.place?_of_activation? hactive
    rw [hscope] at hplace
    obtain rfl := h.placed.distinct _ _ _ _ _ hplace h.placed.top
    have hroot : a.machine = root := (Prod.mk.inj (Option.some.inj (hplace.symm.trans h.placed.top))).2
    have hrecords := (h.traced _ a hactive).2
    rw [hscope] at hrecords
    rw [hrecords, ← hroot, hidentity]
    exact hends

theorem initial (root : Machine) (identity : Identity) (config : Value) (w : World) :
    Recorded ⟨identity, config, []⟩ root
      ((tracing ⟨identity, config, []⟩).initial (.running ⟨[], root, []⟩))
      { w with execution := Execution.create identity } := by
  have hplace {role : Role} {p : List Nat × Machine}
      (h : ((tracing ⟨identity, config, []⟩).initial (.running ⟨[], root, []⟩) role).place? = some p) :
      role = .main ∧ p = ([], root) := by
    by_cases hrole : role = .main
    · subst hrole
      exact ⟨rfl, (Option.some.inj h).symm⟩
    · rw [Team.initial, Function.update_of_ne hrole] at h
      cases h
  refine ⟨⟨rfl, ?_, ?_, ?_, ?_⟩, ?_, rfl, ?_, ?_, ?_, ?_⟩
  · intro role role' scope m m' h h'
    rw [(hplace h).1, (hplace h').1]
  · intro role scope n m h
    simpa using (hplace h).2
  · intro role scope n m h
    simpa using (hplace h).2
  · intro role scope definition h
    by_cases hrole : role = .main
    · subst hrole
      cases h
    · rw [Team.initial, Function.update_of_ne hrole] at h
      cases h
  · refine present_update (g := fun _ => .idle) (fun _ h => ?_) .main fun h => ?_
    · cases h
    · cases h
  · simp [Execution.create]
  · intro role a h
    obtain ⟨rfl, hp⟩ := hplace (Stage.place?_of_activation? h)
    obtain rfl := Option.some.inj h
    exact ⟨⟨[], Machine.isPath_nil, rfl⟩, rfl⟩
  · intro scope h
    exact absurd rfl h
  · intro h
    cases h

end Recorded

/-! ## Whole runs -/

def Machine.ofMembers (members : Members) : Machine :=
  ⟨(Table.get? members "States").getD (.obj []), (Table.get? members "StartAt").getD .null⟩

namespace Interpreter

theorem runExecution_recorded [Room] (i : Interpreter) (identity : Identity) (members : Members)
    (workers : List Worker) :
    (i.runExecution identity (.obj members) workers).world.execution.IsTrace i.config
      (Machine.ofMembers members) := by
  have haside : ∀ p ∈ workers.map fun w => w.work.run,
      (tracing ⟨identity, i.config, []⟩).Obeys p .idle := by
    intro p hp
    obtain ⟨w, -, rfl⟩ := List.mem_map.mp hp
    exact w.work_obeys
  obtain ⟨g, hg⟩ := Team.run_create (Recorded.shares ⟨identity, i.config, []⟩ (Machine.ofMembers members))
    (Job.work_obeys identity i.config)
    (executionWork_obeys identity i.config (.obj members)) haside
    (Recorded.initial (Machine.ofMembers members) identity i.config i.world) Scheduler.manyTurns
  exact hg.isTrace

/-- The history of a run is a trace of its machine and of the machines inside it, whatever is run
and whatever the resources and workers answer. -/
theorem start_isTrace [Room] (i : Interpreter) (request : StartRequest) (workers : List Worker)
    {members : Members} (hread : readDefinition request.definition = .ok (.obj members))
    (hstarted : (i.start request workers).started = true) :
    (i.start request workers).world.execution.IsTrace i.config (Machine.ofMembers members) := by
  unfold start at hstarted ⊢
  rw [hread] at hstarted ⊢
  dsimp only at hstarted ⊢
  split at hstarted
  · cases hstarted
  · rename_i identity drawn hidentity
    exact runExecution_recorded (i.withDrawn drawn) identity members workers

/-- A machine that runs a branch, which fails, and goes on by the second of two catchers. -/
def salvage : Members :=
  [("StartAt", .str "Risk"), ("States", .obj [
    ("Risk", .obj [("Type", .str "Parallel"), ("Branches", .arr [.obj [("StartAt", .str "Break"),
        ("States", .obj [("Break", .obj [("Type", .str "Fail"), ("Error", .str "Broken")])])]]),
      ("Catch", .arr [
        .obj [("ErrorEquals", .arr [.str "Lost"]), ("Next", .str "Give up")],
        .obj [("ErrorEquals", .arr [.str "Broken"]), ("Next", .str "Mend")]]),
      ("Next", .str "Give up")]),
    ("Mend", .obj [("Type", .str "Pass"), ("ResultPath", .str "$.part"), ("Next", .str "Check")]),
    ("Check", .obj [("Type", .str "Choice"), ("Choices", .arr [.obj [("Variable", .str "$.part"),
      ("IsPresent", .bool true), ("Next", .str "Done")]]), ("Default", .str "Give up")]),
    ("Give up", .obj [("Type", .str "Fail")]),
    ("Done", .obj [("Type", .str "Succeed")])])]

def salvaged : Execution :=
  (bare.start (requestOf (.obj salvage)) []).world.execution

theorem start_isTrace_salvage :
    salvaged.IsTrace bare.config (Machine.ofMembers salvage) ∧
      (salvaged.recordsAt []).map Prod.fst =
        ["ParallelStateEntered", "ParallelStateStarted", "ParallelStateFailed", "ParallelStateExited",
          "PassStateEntered", "PassStateExited", "ChoiceStateEntered", "ChoiceStateExited",
          "SucceedStateEntered", "SucceedStateExited"] ∧
      (salvaged.recordsAt [0]).map Prod.fst = ["FailStateEntered"] ∧ salvaged.status = .succeeded := by
  refine ⟨start_isTrace bare (requestOf (.obj salvage)) [] rfl rfl, ?_⟩
  decide +kernel

end Interpreter

end StatesLanguage
