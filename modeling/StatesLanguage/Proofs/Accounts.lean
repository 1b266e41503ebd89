import StatesLanguage.Proofs.ActivityQueue
import StatesLanguage.Proofs.Books
import StatesLanguage.Proofs.Pact
import StatesLanguage.Proofs.TaskEvents

/-!
# Accounts of tasks

Tasks make the entries of their calls transaction by transaction and wait only in between, so that
after each turn of a run the counters agree with the history, whatever else runs at the same time.
-/

namespace StatesLanguage

def Report.ofValue (report : Value) : Report :=
  .ofParts ((report.get? "output").getD .null) ((report.get? "error").getD .null)
    ((report.get? "cause").getD .null)

/-- What services may answer and workers may report. -/
structure Offers where
  answers : String → List Client.Answer
  reports : Report → Prop

namespace Offers

variable (o : Offers)

def Replies (line : String) (kept : Value → Outcome Value) (reply : Value) : Prop :=
  ∃ answer ∈ o.answers line, answer.outcome.bind kept = .ok reply

variable [Room]

/-- The results that calls of a resource may come to: what a function answers, the reply to a launch
or the description of a container that has stopped, and what workers report. -/
def Result (resource : String) : ResourceKind → Value → Prop
  | .function, v =>
    ∃ reply, o.Replies resource Client.plainInvocation reply ∧ Task.functionResult reply = .ok v
  | .runTaskAsync, v => o.Replies "run_task" Client.plainReply v
  | .runTaskSync, v => o.Replies "describe_tasks" Client.plainReply v ∧
    ∃ container status, Task.oneContainer v = .ok container ∧
      container.memberOr "lastStatus" .null = .ok status ∧ status.same (.str "STOPPED")
  | .activity, v => ∃ report, o.reports report ∧ Task.reportResult report = .ok v

/-- Every result of a resource has a JSON text. -/
def Lossless (a : Account) : Prop :=
  ∀ v, o.Result a.resource a.kind v → ∃ text, Json.encode v = .ok text

/-- A report has to be one that was offered. -/
def Permits : Effect → Prop
  | .enqueueResult _ output error cause => o.reports (.ofParts output error cause)
  | _ => True

def Told : (e : Effect) → e.Reply → Prop
  | .takeReport _, r => ∀ report, r = some report → o.reports report
  | _, _ => True

def Answered : (wt : Wait) → wt.Reply → Prop
  | .call c _, r => ∀ v, r = some (.ok v) → o.Replies c.line c.plainReply v
  | _, _ => True

end Offers

namespace Account

variable (a : Account) (o : Offers)

section

variable [Room]

/-- Entries are made in transactions, none of which waits. The state has the entries still to be made. -/
def pact : Pact (List Entry) where
  does g e _ g' := a.Fits e ∧ o.Permits e ∧
    match a.entryBy? e with
    | none => g' = g
    | some x => g = x :: g' ∨ g = [] ∧ a.Transaction (o.Lossless a) (x :: g')
  mayWait g _ := g = []
  after g _ _ := g
  told := o.Told
  answered := o.Answered

/-- The books balance once the entries still to be made are made, and what is at hand was offered. -/
structure Governed (g : List Entry) (w : World) : Prop where
  balanced : a.Balanced (o.Lossless a) (g.foldl Books.enter (a.books w))
  before : a.before ≤ w.spans.size
  answers : ∀ line, ∀ answer ∈ (Table.get? w.services.script line).getD [], answer ∈ o.answers line
  reports : ∀ token report, Table.get? w.queue.reports token = some report → o.reports report

variable {a o} {g : List Entry} {w : World}

theorem world_perform (w : World) {e : Effect} (he : o.Permits e) :
    (w.perform e).2.services = w.services ∧ ∀ token report,
      Table.get? (w.perform e).2.queue.reports token = some report →
        Table.get? w.queue.reports token = some report ∨ o.reports report := by
  cases e with
  | record scope type details =>
    simp only [World.perform, World.record]
    split <;> exact ⟨rfl, fun _ _ h => .inl h⟩
  | conclude o => cases o <;> exact ⟨rfl, fun _ _ h => .inl h⟩
  | scheduleTask arn input =>
    simp only [World.perform, World.scheduleTask]
    split
    · rename_i queue hqueue
      obtain ⟨rfl, -⟩ := ActivityQueue.schedule?_eq_some hqueue
      exact ⟨rfl, fun _ _ h => .inl h⟩
    · exact ⟨rfl, fun _ _ h => .inl h⟩
  | takeReport token =>
    simp only [World.perform, World.takeReport]
    split
    · rename_i report queue htaken
      obtain ⟨-, rfl⟩ := ActivityQueue.takeReport?_eq_some htaken
      refine ⟨rfl, fun other report h => .inl ?_⟩
      rw [Table.get?_erase] at h
      split at h
      · cases h
      · exact h
    · exact ⟨rfl, fun _ _ h => .inl h⟩
  | cancelTask token =>
    refine ⟨rfl, fun other report h => .inl ?_⟩
    simp only [World.perform, ActivityQueue.cancel, Table.get?_erase] at h
    split at h
    · cases h
    · exact h
  | getActivityTask arn worker =>
    simp only [World.perform, World.getActivityTask]
    split
    · exact ⟨rfl, fun _ _ h => .inl h⟩
    · rename_i task queue hqueue
      have hreports : queue.reports = w.queue.reports := by
        -- `Did` is indexed by the operation, which has to be a variable for the case split.
        generalize hop : ActivityQueue.Operation.getActivityTask arn worker = op at hqueue
        cases ActivityQueue.did_of_perform hqueue with
        | claim _ arn worker task _ _ hclaimed =>
          obtain ⟨rest, -, rfl⟩ := ActivityQueue.claim?_eq_some hclaimed
          rfl
        | noWork => rfl
        | look => rfl
        | _ => cases hop
      repeat' split
      all_goals exact ⟨rfl, fun _ _ h => .inl (hreports ▸ h)⟩
  | enqueueResult token output error cause =>
    simp only [World.perform, World.enqueueResult]
    split
    · exact ⟨rfl, fun _ _ h => .inl h⟩
    · rename_i v queue hqueue
      refine ⟨rfl, fun other report h => ?_⟩
      generalize hop : ActivityQueue.Operation.enqueueResult token output error cause = op at hqueue
      cases ActivityQueue.did_of_perform hqueue with
      | report token output error cause _ haccepted =>
        obtain ⟨rfl, -⟩ := ActivityQueue.report?_eq_some haccepted
        cases hop
        rw [Table.get?_put] at h
        split at h
        · exact .inr (Option.some.inj h ▸ he)
        · exact .inl h
      | look => exact .inl h
      | noWork _ _ _ hclaims => subst hop; simp at hclaims
      | claim _ _ _ _ _ hclaims => subst hop; simp at hclaims
      | _ => cases hop
  | _ => exact ⟨rfl, fun _ _ h => .inl h⟩

omit [Room] in
theorem mem_of_nextEntry {entries rest : List Client.Answer} {answer : Client.Answer}
    (h : Client.nextEntry entries = some (answer, rest)) :
    answer ∈ entries ∧ ∀ other ∈ rest, other ∈ entries := by
  unfold Client.nextEntry at h
  split at h
  · cases h
  · cases h
    exact ⟨List.mem_cons_self, fun _ h => h⟩
  · cases h
    exact ⟨List.mem_cons_self, fun _ h => List.mem_cons_of_mem _ h⟩

omit [Room] in
theorem connect_script {s s' : Client.Services} {c : Client.Call}
    (h : s.connect c default = .ok s') : s'.script = s.script := by
  obtain ⟨-, -, h⟩ := Outcome.bind_eq_ok.mp h
  cases h
  cases c <;> rfl

theorem call_script (s : Client.Services) (now : Nat) (c : Client.Call) :
    (∀ line, ∀ answer ∈ (Table.get? (s.call now c default).2.script line).getD [],
      answer ∈ (Table.get? s.script line).getD []) ∧
    ∀ v, (s.call now c default).1.outcome = .ok v →
      ∃ answer ∈ (Table.get? s.script c.line).getD [], answer.outcome.bind c.plainReply = .ok v := by
  unfold Client.Services.call
  split
  · exact ⟨fun _ _ h => h, fun _ h => nomatch h⟩
  · rename_i s' hconnect
    rw [← connect_script hconnect]
    split
    · unfold Client.Services.serve
      dsimp only
      split
      · exact ⟨fun _ _ h => h, fun _ h => nomatch h⟩
      · rename_i answer rest hnext
        obtain ⟨hanswer, hrest⟩ := mem_of_nextEntry hnext
        refine ⟨fun line other hother => ?_, fun v hv => ⟨answer, hanswer, hv⟩⟩
        dsimp only at hother
        rw [Table.get?_put] at hother
        split at hother
        · rename_i hline
          exact hline ▸ hrest other hother
        · exact hother
    · exact ⟨fun _ _ h => h, fun _ h => nomatch h⟩

theorem governs : (a.pact o).Governs [] (a.Governed o) where
  told g w e hinv := by
    cases e with
    | takeReport token =>
      intro report hreport
      simp only [World.perform, World.takeReport, ActivityQueue.takeReport?] at hreport
      cases hget : Table.get? w.queue.reports token with
      | none => simp [hget] at hreport
      | some report' =>
        obtain rfl : report' = report := by simpa [hget] using hreport
        exact hinv.reports token report' hget
    | _ => trivial
  effect g w e g' hinv hdoes := by
    obtain ⟨hfits, hpermits, hentry⟩ := hdoes
    obtain ⟨hbooks, hbefore⟩ := books_perform w hfits hinv.before
    obtain ⟨hservices, hreports⟩ := world_perform w hpermits
    refine ⟨?_, hbefore, ?_, fun token report h =>
      (hreports token report h).elim (hinv.reports token report) id⟩
    · rw [hbooks]
      cases hx : a.entryBy? e with
      | none =>
        rw [hx] at hentry
        obtain rfl : g' = g := hentry
        exact hinv.balanced
      | some x =>
        rw [hx] at hentry
        -- The entry was still to be made, or it is the first of a new transaction.
        obtain rfl | ⟨rfl, ht⟩ := hentry
        · exact hinv.balanced
        · exact hinv.balanced.transaction ht
    · rw [hservices]
      exact hinv.answers
  rests _ _ h := ⟨h, fun _ => h⟩
  answered w wt r hinv hmay := by
    cases wt with
    | call c limit =>
      intro v hv
      have hr : r = (Scheduler.limited (w.services.call w.now c default).1 limit).2 := hmay
      obtain ⟨answer, hanswer, hkept⟩ := (call_script w.services w.now c).2 v (by
        rw [hr] at hv
        cases limit with
        | none => exact Option.some.inj hv
        | some limit =>
          simp only [Scheduler.limited] at hv
          split at hv
          · exact Option.some.inj hv
          · cases hv)
      exact ⟨answer, hinv.answers _ _ hanswer, hkept⟩
    | _ => trivial
  services w wt hinv := by
    refine ⟨hinv.balanced, hinv.before, fun line answer hanswer => ?_, hinv.reports⟩
    cases wt with
    | call c limit =>
      exact hinv.answers line answer ((call_script w.services w.now c).1 line answer hanswer)
    | _ => exact hinv.answers line answer hanswer
  clock w now hinv := ⟨hinv.balanced, hinv.before, hinv.answers, hinv.reports⟩

/-! ## Calls -/

abbrev Settled {α : Type} (a : Account) (o : Offers) (good : α → Prop) (work : Work α) : Prop :=
  work.Stays (a.pact o) [] good

theorem does_idle {e : Effect} (hfits : a.Fits e) (hpermits : o.Permits e) (hentry : a.entryBy? e = none)
    (r : e.Reply) : (a.pact o).does [] e r [] := by
  refine ⟨hfits, hpermits, ?_⟩
  rw [hentry]

omit [Room] in
theorem entryOf?_of_not_isAccount {type : String} (h : Event.isAccount type = false)
    (details : Members) : a.entryOf? type details = none := by
  simp only [Event.isAccount, Bool.or_eq_false_iff, beq_eq_false_iff_ne] at h
  simp only [entryOf?, if_neg h.1.1, if_neg h.1.2, if_neg h.2, ite_self]

theorem does_routine {e : Effect} (he : e.Routine) (r : e.Reply) : (a.pact o).does [] e r [] := by
  have hnothing : a.Fits e ∧ o.Permits e ∧ a.entryBy? e = none := by
    cases e with
    | record scope type details => exact ⟨trivial, trivial, entryOf?_of_not_isAccount he.1 details⟩
    | count => exact he.elim
    | observe => exact he.elim
    | span => exact he.elim
    | enqueueResult => exact he.elim
    | _ => exact ⟨trivial, trivial, rfl⟩
  exact does_idle hnothing.1 hnothing.2.1 hnothing.2.2 r

theorem settled_of_quiet {α : Type} {made : α → Prop} {work : Work α} (h : work.Quiet made) :
    Settled a o made work :=
  Work.Honours.of_only h (fun _ r he => does_routine he r) fun _ _ => ⟨rfl, fun _ => rfl⟩

theorem settled_await (wt : Wait) : Settled a o (fun _ => True) (Work.await wt) :=
  Work.stays_await wt rfl (fun _ => rfl) fun _ _ => trivial

theorem settled_still {α : Type} {work : Work α} (h : work.Still) :
    Settled a o (fun _ => True) work :=
  settled_of_quiet h

theorem settled_joined (jobs : List Job) : Settled a o (fun _ => True) (State.joined jobs) := by
  refine (settled_await (.join jobs)).bind fun outcome _ => ?_
  exact settled_still ((Work.still_ofOutcome outcome).bind fun outs => Work.still_pure _)

theorem iterates : Work.Iterates fun {α} (work : Work α) => Settled a o (fun _ => True) work where
  quiet h := (settled_of_quiet h).mono fun _ _ => trivial
  bind hx hf := hx.bind fun x _ => hf x
  outcome hx := hx.outcome.mono fun _ _ => trivial
  known hx hf := (settled_of_quiet hx).bind hf
  branches jobs _ := settled_joined jobs
  slotted _ _ _ _ hf :=
    (settled_await _).bind fun _ _ => (settled_joined _).bind fun v _ => hf v
  record scope type details h :=
    Work.stays_perform (e := .record scope type details)
      (fun r => does_idle (e := .record scope type details) trivial trivial
        (entryOf?_of_not_isAccount h details) r) fun _ _ => trivial
  takeSlot slots := settled_await (.takeSlot slots)
  freeSlot slots := settled_await (.freeSlot slots)

/-- The metrics of the task are those of the account. -/
structure Suits (a : Account) (task : Task) : Prop where
  metrics : task.metrics = some a.space
  kind : task.resource = a.resource → task.kind = a.kind

/-- The entries of a task that the account has. -/
def owed (a : Account) (task : Task) (entries : List Entry) : List Entry :=
  if task.resource = a.resource then entries else []

structure Makes (a : Account) (task : Task) (x : Entry) (e : Effect) : Prop where
  fits : a.Fits e
  entry : a.entryBy? e = if task.resource = a.resource then some x else none

section Entries

variable {task : Task} {x : Entry} {rest : List Entry} {e : Effect} {err : Failure → List Entry → Prop}

theorem Makes.opens (hmakes : a.Makes task x e) (hpermits : o.Permits e)
    (ht : task.resource = a.resource → a.Transaction (o.Lossless a) (x :: rest)) :
    (Work.perform e).Honours (a.pact o) (fun _ g => g = a.owed task rest) err [] := by
  refine Work.honours_perform fun r _ => ⟨_, ⟨hmakes.fits, hpermits, ?_⟩, rfl⟩
  rw [hmakes.entry]
  by_cases hself : task.resource = a.resource
  · simp only [owed, if_pos hself]
    exact .inr ⟨trivial, ht hself⟩
  · simp only [owed, if_neg hself]

theorem Makes.goesOn (hmakes : a.Makes task x e) (hpermits : o.Permits e) :
    (Work.perform e).Honours (a.pact o) (fun _ g => g = a.owed task rest) err
      (a.owed task (x :: rest)) := by
  refine Work.honours_perform fun r _ => ⟨_, ⟨hmakes.fits, hpermits, ?_⟩, rfl⟩
  rw [hmakes.entry]
  by_cases hself : task.resource = a.resource
  · simp only [owed, if_pos hself]
    exact .inl trivial
  · simp only [owed, if_neg hself]

end Entries

end

section Task

variable {a o} {task : Task} {scope : Scope} {rest : List Entry} {err : Failure → List Entry → Prop}

theorem makes_event {type : String} {details : Members} {x : Entry}
    (habout : Table.get? details "resource" = some (.str task.resource))
    (hx : task.resource = a.resource → a.entryOf? type details = some x) :
    a.Makes task x (.record scope type details) := by
  refine ⟨trivial, ?_⟩
  simp only [entryBy?]
  by_cases hself : task.resource = a.resource
  · rw [if_pos hself, hx hself]
  · have hother : Event.isAbout a.resource details = false := by
      simp [Event.isAbout, habout, hself]
    rw [if_neg hself, entryOf?, hother]
    rfl

theorem isAbout_of_get? {details : Members}
    (habout : Table.get? details "resource" = some (.str a.resource)) :
    Event.isAbout a.resource details = true := by
  simp [Event.isAbout, habout]

theorem Suits.makes_count (h : a.Suits task) (event : Metrics.Event) :
    a.Makes task (.counted event) (.count a.space (.of task.kind) event task.resource) :=
  ⟨⟨rfl, task.kind, rfl, h.kind⟩, rfl⟩

theorem Suits.makes_observe (h : a.Suits task) (micros : Nat) :
    a.Makes task .timed (.observe a.space (.of task.kind) task.resource micros) :=
  ⟨⟨rfl, task.kind, rfl, h.kind⟩, rfl⟩

theorem makes_span (execution : String) (told raised : Option Failure) :
    a.Makes task (.span told raised) (.span ⟨task.resource, execution, told, raised⟩) :=
  ⟨trivial, rfl⟩

variable [Room]

theorem Suits.goesOn_count (h : a.Suits task) (event : Metrics.Event) :
    (task.count event).Honours (a.pact o) (fun _ g => g = a.owed task rest) err
      (a.owed task (.counted event :: rest)) := by
  unfold Task.count
  rw [h.metrics]
  exact (h.makes_count event).goesOn trivial

theorem Suits.goesOn_observe (h : a.Suits task) (micros : Nat) :
    (task.observe micros).Honours (a.pact o) (fun _ g => g = a.owed task rest) err
      (a.owed task (.timed :: rest)) := by
  unfold Task.observe
  rw [h.metrics]
  exact (h.makes_observe micros).goesOn trivial

theorem Suits.opens_observe (h : a.Suits task) (micros : Nat)
    (ht : task.resource = a.resource → a.Transaction (o.Lossless a) (.timed :: rest)) :
    (task.observe micros).Honours (a.pact o) (fun _ g => g = a.owed task rest) err [] := by
  unfold Task.observe
  rw [h.metrics]
  exact (h.makes_observe micros).opens trivial ht

omit [Room] in
theorem owed_nil : a.owed task [] = [] :=
  ite_self _

omit [Room] in
theorem makes_scheduled (more : Members) : a.Makes task (.scheduled (task.details more))
    (.record scope "TaskScheduled" (task.details more)) :=
  makes_event rfl fun hself => by
    rw [entryOf?, isAbout_of_get? (hself ▸ rfl)]
    rfl

theorem Suits.settled_count (h : a.Suits task) (event : Metrics.Event) :
    (task.count event).Honours (a.pact o) (fun _ g => g = [] ∧ True) (fun _ g => g = [])
      (a.owed task [.counted event]) :=
  (h.goesOn_count event).mono (fun _ g hg => ⟨by rw [hg, owed_nil], trivial⟩) fun _ _ hg => hg

theorem isShown_parameters (text : String) :
    Event.isShown (task.details [("parameters", .str text)]) = true := by
  have hroom := Value.texts_sub_one_ne_zero
  refine Event.isShown_iff.mpr ?_
  simp only [Task.details, List.cons_append, List.nil_append, List.forall_mem_cons]
  exact ⟨⟨_, Value.inner_str hroom _⟩, ⟨_, Value.inner_str hroom _⟩, ⟨_, Value.inner_str hroom _⟩,
    List.forall_mem_nil _⟩

theorem Suits.settled_scheduled (h : a.Suits task) (text : String) :
    Settled a o (fun _ => True) (task.scheduled scope [("parameters", .str text)]) := by
  refine Work.Honours.bind ((makes_scheduled _).opens trivial fun _ =>
    .schedule _ (isShown_parameters text)) ?_
  rintro _ _ rfl
  exact h.settled_count .scheduled

theorem Suits.settled_recordScheduled (h : a.Suits task) (more : Members) {α : Type} {good : α → Prop}
    {rest : Work α} (hrest : Settled a o good rest) :
    Settled a o good (do
      Work.recordValues scope "TaskScheduled" (task.details more)
      task.count .scheduled
      rest) := by
  cases hshown : (Value.obj (task.details more)).display with
  | error e =>
    have hnot : ¬Event.isShown (task.details more) := by
      rw [Event.isShown, hshown]
      exact Bool.false_ne_true
    have hrecord : (Work.recordValues scope "TaskScheduled" (task.details more)).Honours (a.pact o)
        (fun _ _ => False) (fun _ g => g = []) [] := by
      refine Work.Honours.bind ((makes_scheduled more).opens trivial fun _ => .scheduleUnshown _ hnot) ?_
      rintro _ _ rfl
      rw [Work.shown, hshown]
      exact owed_nil
    exact hrecord.bind fun _ _ h => h.elim
  | ok text =>
    have hyes : Event.isShown (task.details more) := by
      rw [Event.isShown, hshown]
      rfl
    have hrecord : (Work.recordValues scope "TaskScheduled" (task.details more)).Honours (a.pact o)
        (fun _ g => g = a.owed task [.counted .scheduled]) (fun _ g => g = []) [] := by
      refine Work.Honours.bind ((makes_scheduled more).opens trivial fun _ => .schedule _ hyes) ?_
      rintro _ _ rfl
      rw [Work.shown, hshown]
      rfl
    refine hrecord.bind ?_
    rintro _ _ rfl
    refine Work.Honours.bind (h.settled_count .scheduled) ?_
    rintro _ _ ⟨rfl, -⟩
    exact hrest

theorem settled_ask {σ α : Type} {good : α → Prop} {check : σ → Work (Option α × σ)}
    (hcheck : ∀ s, Settled a o (fun found => ∀ output, found.1 = some output → good output) (check s))
    (pace : Polling.Pace) (late : Failure) (first left : Nat) (s : σ) :
    Settled a o good (Polling.ask check pace late first left s) := by
  induction left generalizing s with
  | zero =>
    unfold Polling.ask
    refine (hcheck s).bind ?_
    rintro ⟨_ | output, s⟩ hfound
    · refine (settled_still (Work.still_perform (e := .elapsed) trivial)).bind fun last _ => ?_
      refine (settled_still (Work.still_ofOutcome _)).bind fun pause _ => ?_
      cases pause <;> exact Work.stays_throw late
    · exact Work.stays_pure (hfound output rfl)
  | succ left ih =>
    unfold Polling.ask
    refine (hcheck s).bind ?_
    rintro ⟨_ | output, s⟩ hfound
    · refine (settled_still (Work.still_perform (e := .elapsed) trivial)).bind fun last _ => ?_
      refine (settled_still (Work.still_ofOutcome _)).bind fun pause _ => ?_
      cases pause with
      | none => exact Work.stays_throw late
      | some pause => exact (settled_await (.sleep pause)).bind fun _ _ => ih s
    · exact Work.stays_pure (hfound output rfl)

theorem settled_untilDone {σ α : Type} {good : α → Prop} {check : σ → Work (Option α × σ)}
    (hcheck : ∀ s, Settled a o (fun found => ∀ output, found.1 = some output → good output) (check s))
    (timeout interval : Value) (s : σ) :
    Settled a o good (Polling.untilDone check timeout interval s) :=
  (settled_still (Work.still_perform (e := .elapsed) trivial)).bind fun _ _ =>
    settled_ask hcheck _ _ _ _ s

theorem settled_started : Settled a o (fun _ => True) (task.started scope) :=
  iterates.record _ _ _ (by decide)

theorem settled_callService (c : Client.Call) :
    Settled a o (o.Replies c.line c.plainReply) (Task.callService c) := by
  refine (Work.stays_await (.call c none) rfl (fun _ => rfl) fun r hr => hr).bind ?_
  rintro (_ | outcome) hreply
  · exact Work.stays_throw _
  · exact Work.stays_ofOutcome fun v hv => hreply v (congrArg some hv)

theorem settled_callFunction (payload : Value) (limit : Int) :
    Settled a o (o.Replies task.resource Client.plainInvocation)
      (Task.callFunction (.obj [("FunctionName", .str task.resource), ("Payload", payload)]) limit) := by
  unfold Task.callFunction
  split
  · exact (settled_await (.sleep 0)).bind fun _ _ => rfl
  · refine (Work.stays_await (.call _ _) rfl (fun _ => rfl) fun r hr => hr).bind fun answer hreply => ?_
    split
    · exact Work.stays_throw _
    · exact Work.stays_throw _
    · exact Work.stays_ofOutcome fun v hv => hreply v (congrArg some hv)

theorem Suits.settled_runFunction (h : a.Suits task) (parameters : Value) :
    Settled a o (o.Result task.resource .function) (task.runFunction scope parameters) := by
  unfold Task.runFunction
  refine (settled_still (Work.still_ofOutcome _)).bind fun payload _ => ?_
  refine (settled_still (Work.still_ofOutcome _)).bind fun seconds _ => ?_
  refine h.settled_recordScheduled _ ?_
  refine settled_started.bind fun _ _ => ?_
  refine (settled_still (Work.still_ofOutcome _)).bind fun limit _ => ?_
  refine (settled_still (Work.still_ofOutcome _)).bind fun limit _ => ?_
  refine (settled_callFunction _ limit).bind fun reply hreply => ?_
  exact Work.stays_ofOutcome fun v hv => ⟨reply, hreply, hv⟩

theorem settled_containerProgress (request : Value) (seen : Bool) :
    Settled a o (fun found => ∀ output, found.1 = some output →
      o.Result task.resource .runTaskSync output)
      (task.containerProgress scope request seen) := by
  unfold Task.containerProgress
  refine (settled_callService _).bind fun description hreply => ?_
  refine (Work.stays_ofOutcome fun _ h => h).bind fun container hcontainer => ?_
  refine (Work.stays_ofOutcome fun _ h => h).bind fun status hstatus => ?_
  have hfound (again : Bool) : Settled a o (fun found : Option Value × Bool =>
      ∀ output, found.1 = some output → o.Result task.resource .runTaskSync output)
      (pure (if status.same (.str "STOPPED") then some description else none, again)) := by
    refine Work.stays_pure fun output houtput => ?_
    dsimp only at houtput
    split at houtput
    · rename_i hstopped
      obtain rfl := Option.some.inj houtput
      exact ⟨hreply, container, status, hcontainer, hstatus, hstopped⟩
    · cases houtput
  dsimp only
  split
  · exact settled_started.bind fun _ _ => hfound _
  · exact hfound _

theorem Suits.settled_runContainer (h : a.Suits task)
    (hkind : task.kind = .runTaskSync ∨ task.kind = .runTaskAsync) (parameters : Value) :
    Settled a o (o.Result task.resource task.kind) (task.runContainer scope parameters) := by
  unfold Task.runContainer
  refine (settled_still (Work.still_ofOutcome _)).bind fun request _ => ?_
  refine (settled_callService _).bind fun reply hreply => ?_
  refine (settled_still (Work.still_ofOutcome _)).bind fun _ _ => ?_
  refine (settled_still (Work.still_ofOutcome _)).bind fun text _ => ?_
  refine (h.settled_scheduled _).bind fun _ _ => ?_
  split
  · rename_i hasync
    rw [hasync]
    exact Work.stays_pure hreply
  · rename_i hsync
    rw [hkind.resolve_right hsync]
    refine (settled_still (Work.still_ofOutcome _)).bind fun describe _ => ?_
    exact settled_untilDone (settled_containerProgress describe) _ _ false

theorem settled_activityProgress (token : String) (seen : Bool) :
    Settled a o (fun found => ∀ report, found.1 = some report → o.reports report)
      (task.activityProgress scope token seen) := by
  have htake (starts : Bool) :
      Settled a o (fun found => ∀ report, found.1 = some report → o.reports report) (do
        if starts then task.started scope
        return (← Work.perform (.takeReport token), seen || starts)) := by
    have hreport : Settled a o (fun found => ∀ report, found.1 = some report → o.reports report) (do
        return (← Work.perform (.takeReport token), seen || starts)) :=
      (Work.stays_perform (e := .takeReport token) (does_routine trivial) fun r hr => hr).bind
        fun _ hr => Work.stays_pure hr
    split
    · exact settled_started.bind fun _ _ => hreport
    · exact hreport
  unfold Task.activityProgress
  split
  · exact (settled_still (Work.still_pure _)).bind fun starts _ => htake starts
  · exact (settled_still (Work.still_perform (e := .isClaimed token) trivial)).bind
      fun starts _ => htake starts

theorem settled_awaitReport (token : String) :
    Settled a o o.reports (task.awaitReport scope token) := by
  unfold Task.awaitReport
  refine (settled_untilDone (settled_activityProgress token) _ _ false).outcome.bind ?_
  rintro (e | report) hreport
  · dsimp only
    split
    · exact (settled_still (Work.still_perform (e := .cancelTask token) trivial)).bind fun _ _ =>
        Work.stays_throw e
    · exact Work.stays_throw e
  · exact Work.stays_pure (hreport report rfl)

theorem Suits.settled_runActivity (h : a.Suits task) (parameters : Value) :
    Settled a o (o.Result task.resource .activity) (task.runActivity scope parameters) := by
  unfold Task.runActivity
  refine (settled_still (Work.still_ofOutcome _)).bind fun input _ => ?_
  refine (settled_still (Work.still_perform (e := .scheduleTask task.resource input) trivial)).bind
    fun answer _ => ?_
  refine (settled_still (Work.still_ofOutcome answer)).bind fun token _ => ?_
  refine (h.settled_scheduled _).bind fun _ _ => ?_
  refine (settled_awaitReport token).bind fun report hreport => ?_
  exact Work.stays_ofOutcome fun v hv => ⟨report, hreport, hv⟩

theorem Suits.settled_invoke (h : a.Suits task) (parameters : Value) :
    Settled a o (o.Result task.resource task.kind) (task.invoke scope parameters) := by
  unfold Task.invoke
  split
  · rename_i hkind
    rw [hkind]
    exact h.settled_runFunction parameters
  · rename_i hkind
    exact h.settled_runContainer (.inl hkind) parameters
  · rename_i hkind
    exact h.settled_runContainer (.inr hkind) parameters
  · rename_i hkind
    rw [hkind]
    exact h.settled_runActivity parameters

/-- What is still owed of a call that has failed: its time and its span, which are owed nowhere yet if
the error could not be told. -/
def Owing (a : Account) (task : Task) (told : Option Failure) (raised : Failure) (g : List Entry) : Prop :=
  g = a.owed task [.timed, .span told (some raised)] ∨ g = [] ∧ told = none

omit [Room] in
theorem makes_failed (e : Failure) (text : String) :
    a.Makes task (.failed (task.failedEvent e text).2)
      (.record scope "TaskFailed" (task.failedEvent e text).2) :=
  makes_event (by unfold Task.failedEvent; cases e.name <;> rfl) fun hself => by
    rw [entryOf?, isAbout_of_get? (hself ▸ by unfold Task.failedEvent; cases e.name <;> rfl)]
    rfl

/-- Beside its error, what the event of a failed call says always has a text. -/
theorem isShown_failedEvent (task : Task) (e : Failure) (text : String) :
    Event.isShown (task.failedEvent e text).2 = Event.isShown (Event.fullDetails [] e.name (.str text)) := by
  have hdetails : (task.failedEvent e text).2 =
      task.details [] ++ Event.fullDetails [] e.name (.str text) := by
    unfold Task.failedEvent
    cases e.name <;> rfl
  rw [Bool.eq_iff_iff, Event.isShown_iff, Event.isShown_iff, hdetails, List.forall_mem_append]
  refine and_iff_right ?_
  simp only [Task.details, List.append_nil, List.forall_mem_cons]
  exact ⟨⟨_, Value.inner_str Value.texts_sub_one_ne_zero _⟩,
    ⟨_, Value.inner_str Value.texts_sub_one_ne_zero _⟩, List.forall_mem_nil _⟩

theorem Suits.failedDetails_eq (h : a.Suits task) (hself : task.resource = a.resource) {e : Failure}
    {text : String} (htext : e.text = .ok text) :
    Task.failedDetails a.resource a.kind e = .ok (task.failedEvent e text).2 := by
  rw [Task.failedDetails, htext, ← hself, ← h.kind hself]
  rfl

theorem Suits.honours_callFailed (h : a.Suits task) (e : Failure) :
    (task.callFailed scope e).Honours (a.pact o)
      (fun _ => Owing a task (e.text.toOption.map fun _ => e) e)
      (Owing a task (e.text.toOption.map fun _ => e)) [] := by
  have hrecord : (Work.recordFailure scope "TaskFailed" (task.details []) e).Honours (a.pact o)
      (fun _ g => e.text.toOption.isSome ∧
        g = a.owed task [.counted (Task.failureEvent e), .timed, .span (some e) (some e)])
      (Owing a task (e.text.toOption.map fun _ => e)) [] := by
    unfold Work.recordFailure
    cases htext : e.text with
    | error problem => exact .inr ⟨rfl, rfl⟩
    | ok text =>
      have hshows := isShown_failedEvent task e text
      change (do
        Work.record scope "TaskFailed" (task.failedEvent e text).2
        Work.shown (Event.fullDetails [] e.name (.str text))).Honours _ _ _ _
      unfold Work.shown
      unfold Event.isShown at hshows
      cases hshown : (Value.obj (Event.fullDetails [] e.name (.str text))).display with
      | error problem =>
        have hnot : ¬Event.isShown (task.failedEvent e text).2 := by
          rw [Event.isShown, hshows, hshown]
          exact Bool.false_ne_true
        refine Work.Honours.bind ((makes_failed e text).opens trivial fun hself =>
          .failUnshown e problem _ (h.failedDetails_eq hself htext) hnot) ?_
        rintro _ _ rfl
        exact .inl rfl
      | ok shown =>
        have hyes : Event.isShown (task.failedEvent e text).2 := by
          rw [Event.isShown, hshows, hshown]
          rfl
        refine Work.Honours.bind ((makes_failed e text).opens trivial fun hself =>
          .fail e _ (h.failedDetails_eq hself htext) hyes) ?_
        rintro _ _ rfl
        exact ⟨rfl, rfl⟩
  unfold Task.callFailed
  refine hrecord.bind ?_
  rintro _ _ ⟨htold, rfl⟩
  obtain ⟨text, htext⟩ := Option.isSome_iff_exists.mp htold
  rw [htext]
  exact (h.goesOn_count _).mono (fun _ _ hg => .inl hg) fun _ _ hg => hg

theorem honours_now (entries : List Entry) : (Work.perform .now).Honours (a.pact o)
    (fun _ g => g = a.owed task entries) (fun _ g => g = []) (a.owed task entries) :=
  Work.honours_perform fun _ _ => ⟨_, ⟨trivial, trivial, rfl⟩, rfl⟩

/-- What is raised where a call fails, once its failure has been told or could not be. -/
def raisedBy (e : Failure) : Outcome Unit → Failure
  | .ok () => e
  | .error problem => problem

theorem Suits.settled_closing_error (h : a.Suits task) (execution : String) (start : Nat) (e : Failure) :
    Settled a o (fun _ => True) (task.closing scope execution start (.error e)) := by
  have hraise {raised : Failure} {g : List Entry}
      (hg : Owing a task (e.text.toOption.map fun _ => e) raised g) : Work.Honours (a.pact o)
        (fun _ g => g = [] ∧ True) (fun _ g => g = []) (do
          task.observe ((← Work.now) - start)
          Work.perform (.span ⟨task.resource, execution, e.text.toOption.map fun _ => e, some raised⟩)
          throw raised : Work Value) g := by
    have hspan : Work.Honours (a.pact o) (fun _ g => g = [] ∧ True) (fun _ g => g = []) (do
          Work.perform (.span ⟨task.resource, execution, e.text.toOption.map fun _ => e, some raised⟩)
          throw raised : Work Value)
        (a.owed task [.span (e.text.toOption.map fun _ => e) (some raised)]) := by
      refine Work.Honours.bind ((makes_span execution _ (some raised)).goesOn trivial) ?_
      rintro _ _ rfl
      exact owed_nil
    rcases hg with rfl | ⟨rfl, huntold⟩
    · refine Work.Honours.bind (honours_now _) ?_
      rintro stop _ rfl
      refine Work.Honours.bind (h.goesOn_observe _) ?_
      rintro _ _ rfl
      exact hspan
    · refine (settled_still (Work.still_perform (e := .now) trivial)).bind fun stop _ => ?_
      have hopens : (task.observe (stop - start)).Honours (a.pact o)
          (fun _ g => g = a.owed task [.span (e.text.toOption.map fun _ => e) (some raised)])
          (fun _ g => g = []) [] :=
        h.opens_observe _ fun _ => huntold ▸ .failUntold raised
      refine hopens.bind ?_
      rintro _ _ rfl
      exact hspan
  have hfailed : (task.callFailed scope e).outcome.Honours (a.pact o)
      (fun told => Owing a task (e.text.toOption.map fun _ => e) (raisedBy e told))
      (fun _ g => g = []) [] :=
    Work.Honours.outcome (h.honours_callFailed e)
  refine hfailed.bind ?_
  rintro (problem | _) g hg
  · exact hraise hg
  · exact hraise hg

theorem Suits.settled_invokeResource (h : a.Suits task) (execution : String) (parameters : Value) :
    Settled a o (fun _ => True) (task.invokeResource execution scope parameters) := by
  unfold Task.invokeResource
  refine (settled_still (Work.still_perform (e := .now) trivial)).bind fun start _ => ?_
  refine (h.settled_invoke parameters).outcome.bind ?_
  rintro (e | v) hresult
  · exact h.settled_closing_error execution start e
  · dsimp only
    refine (settled_still (Work.still_perform (e := .now) trivial)).bind fun stop _ => ?_
    cases htext : Json.encode v with
    | error e =>
      -- The time is taken before the text is made; a result without text gets no further.
      have hloses (hself : task.resource = a.resource) :
          a.Transaction (o.Lossless a) [.timed, .span none none] := by
        refine .lose fun hlossless => ?_
        rw [hself, h.kind hself] at hresult
        obtain ⟨text, htext'⟩ := hlossless v (hresult v rfl)
        rw [htext] at htext'
        cases htext'
      refine Work.Honours.bind (h.opens_observe _ hloses) ?_
      rintro _ _ rfl
      refine Work.Honours.bind ((makes_span execution none none).goesOn trivial) ?_
      rintro _ _ rfl
      exact owed_nil
    | ok text =>
      refine Work.Honours.bind (h.opens_observe _ fun _ => .succeed) ?_
      rintro _ _ rfl
      refine Work.Honours.bind ((makes_span execution none none).goesOn trivial) ?_
      rintro _ _ rfl
      have hevent : a.Makes task .succeeded
          (.record scope "TaskSucceeded" (task.details [("output", .str text)])) :=
        makes_event rfl fun hself => by
          rw [entryOf?, isAbout_of_get? (hself ▸ rfl)]
          rfl
      have hencoded : (Work.ofOutcome (.ok text : Outcome String)).Honours (a.pact o)
          (fun t g => t = text ∧ g = a.owed task [.succeeded, .counted .succeeded]) (fun _ g => g = [])
          (a.owed task [.succeeded, .counted .succeeded]) := ⟨rfl, rfl⟩
      refine Work.Honours.bind hencoded ?_
      rintro _ _ ⟨rfl, rfl⟩
      refine Work.Honours.bind (hevent.goesOn trivial) ?_
      rintro _ _ rfl
      refine Work.Honours.bind (h.goesOn_count .succeeded) ?_
      rintro _ _ rfl
      exact ⟨owed_nil, trivial⟩

end Task

variable [Room]

/-! ## Runs -/

theorem exists_str_of_classify {resource : Value} {kind : ResourceKind}
    (h : ResourceKind.classify resource = .ok kind) : ∃ text, resource = .str text := by
  cases resource with
  | str text => exact ⟨text, rfl⟩
  | _ => cases h

omit [Room] in
theorem namespace?_orElse (config : Value) :
    Metrics.namespace? (config.orElse (.obj [])) = Metrics.namespace? config := by
  unfold Value.orElse
  split
  · rfl
  · rename_i hfalsy
    have hempty : ¬(Value.obj []).truthy = true := Bool.false_ne_true
    unfold Metrics.namespace?
    rw [if_neg hempty, if_neg hfalsy]

/-- Tasks that are made under a configuration with metrics suit the account. -/
theorem suits_of_isMade {config : Value} {task : Task} (hmade : task.IsMade config)
    (hspace : Metrics.namespace? config = .ok (some a.space))
    (hkind : ResourceKind.classify (.str a.resource) = .ok a.kind) : a.Suits task := by
  obtain ⟨name, definition, exists?, hcreate⟩ := hmade
  unfold Task.create at hcreate
  obtain ⟨resource, -, hcreate⟩ := Outcome.bind_eq_ok.mp hcreate
  obtain ⟨kind, hclassify, hcreate⟩ := Outcome.bind_eq_ok.mp hcreate
  obtain ⟨seconds, -, hcreate⟩ := Outcome.bind_eq_ok.mp hcreate
  obtain ⟨timeout, -, hcreate⟩ := Outcome.bind_eq_ok.mp hcreate
  obtain ⟨metrics, hmetrics, hcreate⟩ := Outcome.bind_eq_ok.mp hcreate
  obtain ⟨-, -, hcreate⟩ := Outcome.bind_eq_ok.mp hcreate
  obtain ⟨-, -, hcreate⟩ := Outcome.bind_eq_ok.mp hcreate
  obtain ⟨interval, -, hcreate⟩ := Outcome.bind_eq_ok.mp hcreate
  cases hcreate
  obtain ⟨text, rfl⟩ := exists_str_of_classify hclassify
  rw [namespace?_orElse, hspace] at hmetrics
  refine ⟨(Except.ok.inj hmetrics).symm, fun hself => ?_⟩
  have htext : text = a.resource := hself
  rw [htext, hkind] at hclassify
  exact (Except.ok.inj hclassify).symm

variable {a o} in
theorem settled_work {w : Worker}
    (hreport : ∀ report, w.report = some report → o.reports (.ofValue report)) :
    Settled a o (fun _ => True) w.work := by
  have hnote (n : Note) : (Work.perform (.note n)).Still := Work.still_perform trivial
  have hpause (seconds : Value) : (Worker.pause seconds).Still :=
    (Work.still_ofOutcome _).bind fun micros => Work.still_sleep micros.toNat
  have hsend (task report : Value) (h : o.reports (.ofValue report)) :
      Settled a o (fun _ => True) (Worker.sendReport task report) := by
    unfold Worker.sendReport
    refine (settled_still (Work.still_ofOutcome _)).bind fun _ _ => ?_
    have hdoes (r : Outcome Unit) : (a.pact o).does [] (.enqueueResult ((task.get? "taskToken").getD .null)
        ((report.get? "output").getD .null) ((report.get? "error").getD .null)
        ((report.get? "cause").getD .null)) r [] := ⟨trivial, h, rfl⟩
    refine (Work.stays_perform hdoes fun _ _ => trivial).bind fun answer _ => ?_
    exact settled_still ((Work.still_ofOutcome answer).bind fun _ => hnote .reported)
  have hserve : Settled a o (fun _ => True) w.serve := by
    unfold Worker.serve
    refine (settled_still (Work.still_perform (e := .getActivityTask _ _) trivial)).bind
      fun answer _ => ?_
    refine (settled_still (Work.still_ofOutcome answer)).bind fun task _ => ?_
    refine (settled_still (hnote (.claimed task))).bind fun _ _ => ?_
    split
    · rename_i report hsome
      split
      · exact (settled_still (hpause w.effort)).bind fun _ _ => hsend task report (hreport report hsome)
      · exact settled_still (Work.still_pure ())
    · exact settled_still (Work.still_pure ())
  unfold Worker.work
  refine (settled_still (hpause w.start)).bind fun _ _ => ?_
  refine hserve.outcome.bind fun outcome _ => settled_still ?_
  unfold Worker.noteError
  cases outcome with
  | ok => exact (Work.still_pure ()).bind fun _ => Work.still_pure Value.null
  | error e => exact (hnote (.failed e)).bind fun _ => Work.still_pure Value.null

end Account

/-- The counters of a resource agree with its events. There are as many of the one as there are of the
other that are logged, the event of each failed call is that of the error which the call raised, and of
these errors the timeouts are counted as such. Each span has its time. -/
structure World.Agrees [Room] (w : World) (space : String) (kind : ResourceKind) (resource : String)
    (before : Nat) : Prop where
  scheduled : w.metrics.counted space kind .scheduled resource =
    (w.taskEvents "TaskScheduled" resource).countP fun event => Event.isShown event.details
  succeeded : w.metrics.counted space kind .succeeded resource =
    (w.taskEvents "TaskSucceeded" resource).length
  failed : w.metrics.counted space kind .failed resource +
    w.metrics.counted space kind .timedOut resource =
      (w.taskEvents "TaskFailed" resource).countP fun event => Event.isShown event.details
  errors : (w.taskEvents "TaskFailed" resource).map (fun event => .ok event.details) =
    (w.failures before resource).map (Task.failedDetails resource kind)
  timedOut : w.metrics.counted space kind .timedOut resource =
    (w.failures before resource).countP fun e =>
      e.kind? = some .timeout && Task.isLogged resource kind e
  timed : w.metrics.timed space kind resource = (w.spansOf before resource).length

theorem Account.length_spansOf (w : World) (before : Nat) (resource : String) :
    (w.spansOf before resource).length = w.completed before resource + w.untold before resource +
      (w.failures before resource).length := by
  unfold World.completed World.untold World.failures
  induction w.spansOf before resource with
  | nil => rfl
  | cons s rest ih =>
    cases htold : s.told with
    | none =>
      cases hraised : s.raised <;> simp [htold, hraised, ih] <;> omega
    | some e =>
      simp [htold, ih]
      omega

theorem Account.Balanced.agrees [Room] {a : Account} {lossless : Prop} {w : World}
    (h : a.Balanced lossless (a.books w)) :
    w.Agrees a.space a.kind a.resource a.before ∧
      (lossless → w.metrics.timed a.space a.kind a.resource =
        w.metrics.counted a.space a.kind .succeeded a.resource +
          (w.taskEvents "TaskFailed" a.resource).length + w.untold a.before a.resource) := by
  have hevents := congrArg List.length h.events
  have hscheduled := h.scheduled
  have hfailed := h.failed
  have herrors := h.events
  simp only [books, List.length_map, List.countP_map, List.map_map] at hevents hscheduled hfailed herrors
  refine ⟨⟨hscheduled, h.succeeded, hfailed, herrors, h.timedOut, ?_⟩, fun hlossless => ?_⟩
  · exact h.timed.trans (length_spansOf w a.before a.resource).symm
  · have hsucceeded := h.succeeded.trans (h.lossless hlossless)
    have htimed := h.timed
    simp only [books] at hsucceeded htimed
    omega

namespace Interpreter

/-- What the services of an interpreter may answer, and what reports there are or may come. -/
def offers (i : Interpreter) (workers : List Worker) : Offers where
  answers line := (Table.get? i.world.services.script line).getD []
  reports report := (∃ token, Table.get? i.world.queue.reports token = some report) ∨
    ∃ w ∈ workers, ∃ value, w.report = some value ∧ report = .ofValue value

section Run

variable (i : Interpreter) (workers : List Worker) {space resource : String} {kind : ResourceKind}

/-- The account of a resource in a run. -/
def account (space resource : String) (kind : ResourceKind) : Account :=
  ⟨resource, kind, space, i.world.spans.size⟩

variable [Room]

theorem governed_beginning (identity : Identity) (hcounters : i.world.metrics.counters = [])
    (htimers : i.world.metrics.timers = []) :
    (i.account space resource kind).Governed (i.offers workers) []
      { i.world with execution := Execution.create identity } := by
  refine ⟨?_, Nat.le_refl _, fun _ _ h => h, fun token report h => .inl ⟨token, h⟩⟩
  have hspans : World.spansOf { i.world with execution := Execution.create identity }
      i.world.spans.size resource = [] := by
    have hdrop : i.world.spans.toList.drop i.world.spans.size = [] := List.drop_length
    rw [World.spansOf, hdrop, List.filter_nil]
  have hcounted (event : Metrics.Event) :
      i.world.metrics.counted space kind event resource = 0 := by
    simp only [Metrics.Registry.counted, hcounters]
    rfl
  have htimed : i.world.metrics.timed space kind resource = 0 := by
    simp only [Metrics.Registry.timed, htimers]
    rfl
  have hbooks : (i.account space resource kind).books
      { i.world with execution := Execution.create identity } = ⟨[], 0, [], fun _ => 0, 0, 0, 0, []⟩ := by
    simp only [Account.books, account, World.completed, World.untold, World.failures, hspans, hcounted,
      htimed]
    rfl
  rw [List.foldl_nil, hbooks]
  exact ⟨rfl, rfl, rfl, rfl, rfl, rfl, Nat.le_refl 0, fun _ => rfl⟩

theorem governed_runExecution (identity : Identity) (definition : Value)
    (hspace : Metrics.namespace? i.config = .ok (some space))
    (hkind : ResourceKind.classify (.str resource) = .ok kind)
    (hcounters : i.world.metrics.counters = []) (htimers : i.world.metrics.timers = []) :
    (i.account space resource kind).Governed (i.offers workers) []
      (i.runExecution identity definition workers).world := by
  have hcalls : Work.CallsHave (fun {α} (work : Work α) =>
      (i.account space resource kind).Settled (i.offers workers) (fun _ => True) work) i.config :=
    fun task hmade execution scope _ parameters =>
      (Account.suits_of_isMade (a := i.account space resource kind) hmade hspace
        hkind).settled_invokeResource execution parameters
  have haside : ∀ p ∈ workers.map (fun w => w.work.run),
      ((i.account space resource kind).pact (i.offers workers)).Binds [] p := by
    intro p hp
    obtain ⟨w, hw, rfl⟩ := List.mem_map.mp hp
    have hreport (value : Value) (hvalue : w.report = some value) :
        (i.offers workers).reports (.ofValue value) := Or.inr ⟨w, hw, value, hvalue, rfl⟩
    exact (Account.settled_work hreport).run
  have hjobs (job : Job) : (i.account space resource kind).Settled (i.offers workers)
      (fun _ => True) (job.work identity i.config) :=
    Account.iterates.work hcalls job
  have hmain : (i.account space resource kind).Settled (i.offers workers) (fun _ => True)
      (executionWork identity i.config definition) :=
    Account.iterates.executionWork hcalls definition
  exact Account.governs.run_create (fun job => (hjobs job).run) Scheduler.manyTurns hmain.run haside
    (governed_beginning i workers identity hcounters htimers)

end Run

def launchResource : String := "arn:aws:states:::ecs:runTask"

def launchMachine : Value :=
  .obj [("StartAt", .str "A"), ("States", .obj [("A", .obj [("Type", .str "Task"),
    ("Resource", .str launchResource), ("Parameters", .obj [("TaskDefinition", .str "t")]),
    ("End", .bool true)])])]

def measured : Interpreter :=
  ⟨.obj [("metrics", .obj [("implementation", .str "Prometheus")])],
    World.create 0 .empty ⟨default, default, [("run_task", [⟨0, .ok (.obj [])⟩])], [], []⟩⟩

def activityResource : String := "arn:aws:states:local:0123456789:activity:a"

def activityMachine : Value :=
  .obj [("StartAt", .str "A"), ("States", .obj [("A", .obj [("Type", .str "Task"),
    ("Resource", .str activityResource), ("End", .bool true)])])]

/-- As `measured`, with an activity. -/
def staffed : Interpreter :=
  ⟨measured.config, World.create 0
    (ActivityQueue.empty.answer (.createActivity "" (.str activityResource))).2 default⟩

/-- A worker that reports a failure whose cause is nested too deep to be told. -/
def unworded : Worker :=
  ⟨.int 0, .str activityResource, .str "w",
    some (.obj [("error", .str "E"), ("cause", Task.deepList 1000)]), .int 0⟩

end Interpreter

end StatesLanguage
