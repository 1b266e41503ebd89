import StatesLanguage.Proofs.TaskEvents
import StatesLanguage.Proofs.Timing

/-!
# Runs with the answers of services

What a process does and calls, in order, in a run against the clock. A call is answered when the service
has taken its delay, or without an answer at its limit if that comes first. Otherwise a process may be
answered anything where it waits, and others may have changed the world.
-/

namespace StatesLanguage

structure Called where
  call : Client.Call
  limit : Option Nat
  time : Nat
  answer : Client.Answer

inductive Act where
  | did (e : Effect)
  | called (c : Called)

namespace Act

def records : Act → Records
  | did e => e.records
  | called _ => []

def call? : Act → Option Called
  | did _ => none
  | called c => some c

def events (t : List Act) : Records := t.flatMap records

def calls (t : List Act) : List Called := t.filterMap call?

variable (t t' : List Act)

@[simp] theorem events_nil : events [] = [] := rfl

@[simp] theorem events_did (e : Effect) : events (.did e :: t) = e.records ++ events t := rfl

@[simp] theorem events_called (c : Called) : events (.called c :: t) = events t := rfl

@[simp] theorem events_append : events (t ++ t') = events t ++ events t' := List.flatMap_append

@[simp] theorem calls_nil : calls [] = [] := rfl

@[simp] theorem calls_did (e : Effect) : calls (.did e :: t) = calls t := rfl

@[simp] theorem calls_called (c : Called) : calls (.called c :: t) = c :: calls t := rfl

@[simp] theorem calls_append : calls (t ++ t') = calls t ++ calls t' := List.filterMap_append

end Act

namespace Scheduler

variable {answer : Client.Answer} {limit : Nat}

theorem limited_of_lt (h : answer.delay < limit) :
    limited answer (some limit) = (answer.delay, some answer.outcome) := if_pos h

theorem limited_of_le (h : limit ≤ answer.delay) : limited answer (some limit) = (limit, none) :=
  if_neg (not_lt.mpr h)

theorem limited_time (answer : Client.Answer) (limit : Nat) :
    (limited answer (some limit)).1 = min answer.delay limit := by
  rcases lt_or_ge answer.delay limit with h | h
  · rw [limited_of_lt h, min_eq_left h.le]
  · rw [limited_of_le h, min_eq_right h]

end Scheduler

/-- The calls get the answers of a sequence, from one of them on. -/
def AnsweredBy (answers : Nat → Client.Answer) : Nat → List Called → Prop
  | _, [] => True
  | n, c :: rest => c.answer = answers n ∧ AnsweredBy answers (n + 1) rest

theorem AnsweredBy.forall_mem {answers : Nat → Client.Answer} {n : Nat} {cs : List Called}
    (h : AnsweredBy answers n cs) {answer : Client.Answer} (hall : ∀ n, answers n = answer) :
    ∀ c ∈ cs, c.answer = answer := by
  induction cs generalizing n with
  | nil => exact nofun
  | cons c rest ih => exact List.forall_mem_cons.mpr ⟨h.1.trans (hall n), ih h.2⟩

def Wait.isCall : Wait → Bool
  | .call _ _ => true
  | _ => false

variable [Room]

namespace Process

variable {α β : Type} {w w₁ w' : World} {t : List Act} {a : α}

inductive Served : Process α → World → List Act → α → World → Prop
  | ret (a : α) (w : World) : Served (.ret a) w [] a w
  | effect {e : Effect} {next : e.Reply → Process α} {w w' : World} {t : List Act} {a : α}
      (rest : Served (next (w.perform e).1) (w.perform e).2 t a w') :
      Served (.effect e next) w (.did e :: t) a w'
  | call {c : Client.Call} {limit : Option Nat} {next : Option (Outcome Value) → Process α}
      {w w₁ w' : World} {t : List Act} {a : α} (answer : Client.Answer)
      (later : w₁.now = w.now + (Scheduler.limited answer limit).1) (began : w₁.began = w.began)
      (rest : Served (next (Scheduler.limited answer limit).2) w₁ t a w') :
      Served (.wait (.call c limit) next) w (.called ⟨c, limit, w.now, answer⟩ :: t) a w'
  | wait {wt : Wait} {next : wt.Reply → Process α} {w w₁ w' : World} {t : List Act} {a : α}
      (r : wt.Reply) (other : wt.isCall = false) (lasts : wt.Lasts w.now w₁.now)
      (began : w₁.began = w.began) (rest : Served (next r) w₁ t a w') :
      Served (.wait wt next) w t a w'

theorem served_bind {p : Process α} {f : α → Process β} {b : β} :
    (p.bind f).Served w t b w' ↔
      ∃ t₁ t₂ a w₁, t = t₁ ++ t₂ ∧ p.Served w t₁ a w₁ ∧ (f a).Served w₁ t₂ b w' := by
  constructor
  · intro h
    induction p generalizing w t with
    | ret a => exact ⟨[], t, a, w, rfl, .ret a w, h⟩
    | effect e next ih =>
      cases h with
      | effect rest =>
        obtain ⟨t₁, t₂, a, w₁, rfl, hp, hf⟩ := ih _ rest
        exact ⟨.did e :: t₁, t₂, a, w₁, rfl, .effect hp, hf⟩
    | wait wt next ih =>
      cases h with
      | call answer later began rest =>
        obtain ⟨t₁, t₂, a, w₁, rfl, hp, hf⟩ := ih _ rest
        exact ⟨_ :: t₁, t₂, a, w₁, rfl, .call answer later began hp, hf⟩
      | wait r other lasts began rest =>
        obtain ⟨t₁, t₂, a, w₁, rfl, hp, hf⟩ := ih _ rest
        exact ⟨t₁, t₂, a, w₁, rfl, .wait r other lasts began hp, hf⟩
  · rintro ⟨t₁, t₂, a, w₁, rfl, hp, hf⟩
    induction hp with
    | ret a w => exact hf
    | effect rest ih => exact .effect (ih hf)
    | call answer later began rest ih => exact .call answer later began (ih hf)
    | wait r other lasts began rest ih => exact .wait r other lasts began (ih hf)

theorem Served.timed {p : Process α} (h : p.Served w t a w') : p.Timed w a w' := by
  induction h with
  | ret a w => exact .ret a w
  | effect rest ih => exact .effect ih
  | call answer later began rest ih =>
    exact .wait _ (later ▸ Nat.le_add_right _ _) began ih
  | wait r other lasts began rest ih => exact .wait r lasts began ih

/-- The run of a process by itself, with the answers of a sequence from one of them on. -/
def serve (answers : Nat → Client.Answer) : Nat → Process α → World → List Act × α × World
  | _, .ret a, w => ([], a, w)
  | n, .effect e next, w =>
    let (t, last) := serve answers n (next (w.perform e).1) (w.perform e).2
    (.did e :: t, last)
  | n, .wait (.call c limit) next, w =>
    let (delay, reply) := Scheduler.limited (answers n) limit
    let (t, last) := serve answers (n + 1) (next reply) { w with now := w.now + delay }
    (.called ⟨c, limit, w.now, answers n⟩ :: t, last)
  | n, .wait (.sleep micros) next, w => serve answers n (next ()) { w with now := w.now + micros }
  | n, .wait (.join _) next, w => serve answers n (next (.ok [])) w
  | n, .wait (.makeSlots _) next, w => serve answers n (next 0) w
  | n, .wait (.takeSlot _) next, w => serve answers n (next ()) w
  | n, .wait (.freeSlot _) next, w => serve answers n (next ()) w

theorem served_serve (answers : Nat → Client.Answer) (n : Nat) (p : Process α) (w : World) :
    p.Served w (serve answers n p w).1 (serve answers n p w).2.1 (serve answers n p w).2.2 ∧
      AnsweredBy answers n (Act.calls (serve answers n p w).1) := by
  induction p generalizing n w with
  | ret a => exact ⟨.ret a w, trivial⟩
  | effect e next ih =>
    obtain ⟨hserved, hanswered⟩ := ih (w.perform e).1 n (w.perform e).2
    exact ⟨.effect hserved, hanswered⟩
  | wait wt next ih =>
    cases wt with
    | call c limit =>
      obtain ⟨hserved, hanswered⟩ := ih (Scheduler.limited (answers n) limit).2 (n + 1)
        { w with now := w.now + (Scheduler.limited (answers n) limit).1 }
      refine ⟨.call (answers n) ?_ ?_ hserved, rfl, hanswered⟩ <;> rfl
    | sleep micros =>
      obtain ⟨hserved, hanswered⟩ := ih () n { w with now := w.now + micros }
      refine ⟨.wait () rfl ?_ ?_ hserved, hanswered⟩ <;> rfl
    | join jobs =>
      obtain ⟨hserved, hanswered⟩ := ih (.ok []) n w
      exact ⟨.wait (.ok []) rfl (le_refl w.now) rfl hserved, hanswered⟩
    | makeSlots capacity =>
      obtain ⟨hserved, hanswered⟩ := ih 0 n w
      exact ⟨.wait 0 rfl (le_refl w.now) rfl hserved, hanswered⟩
    | takeSlot id =>
      obtain ⟨hserved, hanswered⟩ := ih () n w
      exact ⟨.wait () rfl (le_refl w.now) rfl hserved, hanswered⟩
    | freeSlot id =>
      obtain ⟨hserved, hanswered⟩ := ih () n w
      exact ⟨.wait () rfl (le_refl w.now) rfl hserved, hanswered⟩

end Process

namespace Work

variable {α β : Type} {w w' : World} {t : List Act}

theorem served_bind {x : Work α} {f : α → Work β} {o : Outcome β} :
    (x >>= f).run.Served w t o w' ↔
      (∃ t₁ t₂ a w₁, t = t₁ ++ t₂ ∧ x.run.Served w t₁ (.ok a) w₁ ∧ (f a).run.Served w₁ t₂ o w') ∨
        ∃ e, o = .error e ∧ x.run.Served w t (.error e) w' := by
  refine Process.served_bind.trans ⟨?_, ?_⟩
  · rintro ⟨t₁, t₂, a | e, w₁, rfl, hx, hf⟩
    · cases hf
      exact .inr ⟨_, rfl, by rwa [List.append_nil]⟩
    · exact .inl ⟨t₁, t₂, _, w₁, rfl, hx, hf⟩
  · rintro (⟨t₁, t₂, a, w₁, rfl, hx, hf⟩ | ⟨e, rfl, hx⟩)
    · exact ⟨t₁, t₂, .ok a, w₁, rfl, hx, hf⟩
    · exact ⟨t, [], .error e, w', (List.append_nil t).symm, hx, .ret _ _⟩

theorem served_ofOutcome {x o : Outcome α} :
    (ofOutcome x).run.Served w t o w' ↔ t = [] ∧ o = x ∧ w' = w := by
  constructor
  · intro h
    cases h
    exact ⟨rfl, rfl, rfl⟩
  · rintro ⟨rfl, rfl, rfl⟩
    exact .ret _ _

theorem served_pure {a : α} {o : Outcome α} :
    (pure a : Work α).run.Served w t o w' ↔ t = [] ∧ o = .ok a ∧ w' = w :=
  served_ofOutcome

theorem served_throw {e : Failure} {o : Outcome α} :
    (throw e : Work α).run.Served w t o w' ↔ t = [] ∧ o = .error e ∧ w' = w :=
  served_ofOutcome

theorem served_ofOutcome_bind {x : Outcome α} {f : α → Work β} {o : Outcome β} :
    (ofOutcome x >>= f).run.Served w t o w' ↔
      match x with
      | .ok a => (f a).run.Served w t o w'
      | .error e => t = [] ∧ o = .error e ∧ w' = w := by
  cases x with
  | ok a => rfl
  | error e => exact served_throw

theorem served_perform_bind {e : Effect} {f : e.Reply → Work β} {o : Outcome β} :
    (perform e >>= f).run.Served w t o w' ↔
      ∃ t', t = .did e :: t' ∧ (f (w.perform e).1).run.Served (w.perform e).2 t' o w' := by
  constructor
  · intro h
    cases h with
    | effect rest => exact ⟨_, rfl, rest⟩
  · rintro ⟨t', rfl, rest⟩
    exact .effect rest

theorem served_sleep_bind {micros : Nat} {f : Unit → Work β} {o : Outcome β} :
    (sleep micros >>= f).run.Served w t o w' ↔
      ∃ w₁, w₁.now = w.now + micros ∧ w₁.began = w.began ∧ (f ()).run.Served w₁ t o w' := by
  constructor
  · intro h
    cases h with
    | wait r other lasts began rest => exact ⟨_, lasts, began, rest⟩
  · rintro ⟨w₁, lasts, began, rest⟩
    exact .wait () rfl lasts began rest

theorem served_call_bind {c : Client.Call} {limit : Option Nat}
    {f : Option (Outcome Value) → Work β} {o : Outcome β} :
    (await (.call c limit) >>= f).run.Served w t o w' ↔
      ∃ answer w₁ t', t = .called ⟨c, limit, w.now, answer⟩ :: t' ∧
        w₁.now = w.now + (Scheduler.limited answer limit).1 ∧ w₁.began = w.began ∧
        (f (Scheduler.limited answer limit).2).run.Served w₁ t' o w' := by
  constructor
  · intro h
    cases h with
    | call answer later began rest => exact ⟨answer, _, _, rfl, later, began, rest⟩
    | wait r other => cases other
  · rintro ⟨answer, w₁, t', rfl, later, began, rest⟩
    exact .call answer later began rest

theorem served_then {x : Work α} {y : α → Outcome β} {o : Outcome β} :
    (x >>= fun a => ofOutcome (y a)).run.Served w t o w' ↔
      ∃ told, x.run.Served w t told w' ∧ o = told >>= y := by
  rw [served_bind]
  constructor
  · rintro (⟨t₁, t₂, a, w₁, rfl, hx, hy⟩ | ⟨e, rfl, hx⟩)
    · obtain ⟨rfl, rfl, rfl⟩ := served_ofOutcome.mp hy
      exact ⟨.ok a, by rwa [List.append_nil], rfl⟩
    · exact ⟨.error e, hx, rfl⟩
  · rintro ⟨e | a, hx, rfl⟩
    · exact .inr ⟨e, rfl, hx⟩
    · exact .inl ⟨t, [], a, w', (List.append_nil t).symm, hx, served_ofOutcome.mpr ⟨rfl, rfl, rfl⟩⟩

theorem served_perform {e : Effect} {o : Outcome e.Reply} :
    (perform e).run.Served w t o w' ↔
      t = [.did e] ∧ o = .ok (w.perform e).1 ∧ w' = (w.perform e).2 := by
  constructor
  · intro h
    cases h with
    | effect rest =>
      cases rest
      exact ⟨rfl, rfl, rfl⟩
  · rintro ⟨rfl, rfl, rfl⟩
    exact .effect (.ret _ _)

end Work

/-- A run that records some events, and in which nothing is called and no time passes. -/
structure Noted (rs : Records) (w : World) (t : List Act) (w' : World) : Prop where
  calls : Act.calls t = []
  events : Act.events t = rs
  now : w'.now = w.now
  began : w'.began = w.began

namespace Noted

variable {rs rs' : Records} {w w₁ w' : World} {t t' : List Act}

omit [Room] in
theorem nil (w : World) : Noted [] w [] w := ⟨rfl, rfl, rfl, rfl⟩

theorem perform (w : World) (e : Effect) : Noted e.records w [.did e] (w.perform e).2 :=
  ⟨rfl, List.append_nil _, (w.clock_perform e).1, (w.clock_perform e).2⟩

omit [Room] in
theorem append (h : Noted rs w t w₁) (h' : Noted rs' w₁ t' w') : Noted (rs ++ rs') w (t ++ t') w' where
  calls := by rw [Act.calls_append, h.calls, h'.calls, List.append_nil]
  events := by rw [Act.events_append, h.events, h'.events]
  now := h'.now.trans h.now
  began := h'.began.trans h.began

end Noted

theorem Work.served_noted_bind {β : Type} {x : Work Unit} {f : Unit → Work β} {o : Outcome β}
    {rs : Records} {w w' : World} {t : List Act}
    (hx : ∀ {t o w'}, x.run.Served w t o w' → o = .ok () ∧ Noted rs w t w')
    (h : (x >>= f).run.Served w t o w') :
    ∃ t₁ t₂ w₁, t = t₁ ++ t₂ ∧ Noted rs w t₁ w₁ ∧ (f ()).run.Served w₁ t₂ o w' := by
  rcases Work.served_bind.mp h with ⟨t₁, t₂, ⟨⟩, w₁, rfl, hfirst, hrest⟩ | ⟨e, -, hfirst⟩
  · exact ⟨t₁, t₂, w₁, rfl, (hx hfirst).2, hrest⟩
  · cases (hx hfirst).1

theorem Work.served_recordValues {scope : Scope} {type : String} {details : Members} {w w' : World}
    {t : List Act} {o : Outcome Unit} (h : (recordValues scope type details).run.Served w t o w') :
    Noted [(type, details)] w t w' ∧
      ∀ e, o = .error e → (Value.obj details).display = .error e := by
  obtain ⟨t', rfl, hshown⟩ := served_perform_bind.mp h
  have hnoted : Noted [(type, details)] w [.did (.record scope type details)]
      (w.perform (.record scope type details)).2 :=
    .perform w (.record scope type details)
  replace hshown := served_ofOutcome_bind.mp hshown
  cases hdisplay : (Value.obj details).display with
  | error e =>
    rw [hdisplay] at hshown
    obtain ⟨rfl, rfl, rfl⟩ := hshown
    exact ⟨hnoted, fun e' he => congrArg Except.error (Except.error.inj he)⟩
  | ok text =>
    rw [hdisplay] at hshown
    obtain ⟨rfl, rfl, rfl⟩ := served_pure.mp hshown
    exact ⟨hnoted, nofun⟩

namespace Task

variable {task : Task} {scope : Scope} {w w' : World} {t : List Act} {o : Outcome Unit}

theorem served_count {event : Metrics.Event} (h : (task.count event).run.Served w t o w') :
    o = .ok () ∧ Noted [] w t w' := by
  unfold count at h
  split at h
  · rename_i space _
    obtain ⟨rfl, rfl, rfl⟩ := Work.served_perform.mp h
    exact ⟨rfl, .perform w (.count space (.of task.kind) event task.resource)⟩
  · obtain ⟨rfl, rfl, rfl⟩ := Work.served_pure.mp h
    exact ⟨rfl, .nil _⟩

theorem served_started (h : (task.started scope).run.Served w t o w') :
    o = .ok () ∧ Noted [task.startedEvent] w t w' := by
  obtain ⟨rfl, rfl, rfl⟩ := Work.served_perform.mp h
  exact ⟨rfl, .perform w (.record scope "TaskStarted" (task.details []))⟩

theorem served_scheduled {more : Members} (h : (task.scheduled scope more).run.Served w t o w') :
    o = .ok () ∧ Noted [task.scheduledEvent more] w t w' := by
  obtain ⟨t', rfl, hcount⟩ := Work.served_perform_bind.mp h
  obtain ⟨rfl, hnoted⟩ := served_count hcount
  exact ⟨rfl, (Noted.perform w (.record scope "TaskScheduled" (task.details more))).append hnoted⟩

end Task

end StatesLanguage
