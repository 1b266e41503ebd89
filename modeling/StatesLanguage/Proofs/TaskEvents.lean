import StatesLanguage.Proofs.Asks
import StatesLanguage.Proofs.Awaiting
import StatesLanguage.Proofs.Course

/-!
# The events of a call

Whatever resource a task calls and however the call goes, the events it records are those of being
scheduled and started, as far as it came, and then the one event that says how it ended.
-/

namespace StatesLanguage

open Work

/-! ## Scheduled and started -/

namespace Task

variable (task : Task) (scope : Scope)

section

variable [Room]

def scheduledEvent (more : Members) : String × Members :=
  ("TaskScheduled", task.details more)

def startedEvent : String × Members :=
  ("TaskStarted", task.details [])

/-- What is recorded before a call has ended. -/
inductive Opening : Records → Prop
  | nothing : Opening []
  | scheduled (more : Members) : Opening [task.scheduledEvent more]
  | started (more : Members) : Opening [task.scheduledEvent more, task.startedEvent]

/-- What is recorded of a poll that has or has not seen the start. -/
def opened (more : Members) (seen : Bool) : Records :=
  task.scheduledEvent more :: if seen then [task.startedEvent] else []

omit [Room] in
theorem opening_opened (more : Members) (seen : Bool) : task.Opening (task.opened more seen) := by
  cases seen
  · exact .scheduled more
  · exact .started more

variable {ok : Unit → Records → Prop} {err : Failure → Records → Prop} {g : Records}

end

theorem keeps_count (event : Metrics.Event) (h : ok () g) :
    (task.count event).Keeps .recording ok err g := by
  unfold count
  split
  · exact keeps_perform_recording.mpr fun _ => (List.append_nil g).symm ▸ h
  · exact h

theorem keeps_observe (micros : Nat) (h : ok () g) :
    (task.observe micros).Keeps .recording ok err g := by
  unfold observe
  split
  · exact keeps_perform_recording.mpr fun _ => (List.append_nil g).symm ▸ h
  · exact h

theorem silent_callService (c : Client.Call) : (callService c).Silent := by
  refine (silent_await _).bind fun answer => ?_
  cases answer with
  | none => exact silent_throw _
  | some outcome => exact silent_ofOutcome outcome

theorem silent_callFunction (request : Value) (limit : Int) :
    (callFunction request limit).Silent := by
  unfold callFunction
  split
  · exact (silent_await _).bind fun _ => silent_throw timedOut
  · refine (silent_await _).bind fun answer => ?_
    split
    · exact silent_throw _
    · exact silent_throw _
    · exact silent_ofOutcome _

variable [Room]

omit [Room] in
theorem keeps_scheduled (more : Members) (h : ok () (g ++ [task.scheduledEvent more])) :
    (task.scheduled scope more).Keeps .recording ok err g :=
  (keeps_bind _ _).mpr (keeps_perform_recording.mpr fun _ => task.keeps_count _ h)

omit [Room] in
theorem keeps_started (h : ok () (g ++ [task.startedEvent])) :
    (task.started scope).Keeps .recording ok err g :=
  keeps_perform_recording.mpr fun _ => h

/-- The timeout has no text in whole seconds. -/
def Unshown : Prop :=
  ∃ seconds e, task.timeout.floorDiv (.int 1000) = .ok seconds ∧ seconds.display = .error e

omit [Room] in
theorem number?_floorDiv {v w seconds : Value} (h : v.floorDiv w = .ok seconds) :
    ∃ n, seconds.number? = some n := by
  unfold Value.floorDiv Value.arith at h
  split at h
  · rename_i m n _ _
    cases hq : m.floorDiv n with
    | error e =>
      rw [hq] at h
      cases h
    | ok q =>
      rw [hq] at h
      cases h
      cases q <;> exact ⟨_, rfl⟩
  · cases h

theorem display_scheduled (payload : String) {text : String} {seconds : Value}
    (hseconds : task.timeout.floorDiv (.int 1000) = .ok seconds) (hshown : seconds.display = .ok text) :
    ∃ shown, (Value.obj (task.details
      [("parameters", .str payload), ("timeoutInSeconds", seconds)])).display = .ok shown := by
  have hroom := Value.texts_sub_one_ne_zero
  obtain ⟨n, hn⟩ := number?_floorDiv hseconds
  have hinner : Value.inner (Room.texts - 1) seconds = .ok text := by
    rw [Value.inner_number hn hroom Value.texts_ne_zero, ← hshown]
    cases seconds <;> first | rfl | cases hn
  refine Value.display_obj_isOk.mpr ?_
  simp only [details, List.cons_append, List.nil_append, List.forall_mem_cons]
  exact ⟨⟨_, Value.inner_str hroom _⟩, ⟨_, Value.inner_str hroom _⟩, ⟨_, Value.inner_str hroom _⟩,
    ⟨_, hinner⟩, List.forall_mem_nil _⟩

theorem keeps_runFunction (parameters : Value) :
    (task.runFunction scope parameters).Keeps .recording
      (fun _ g => ∃ more, g = task.opened more true)
      (fun _ g => g = [] ∨ ∃ more, g = task.opened more true ∨
        g = task.opened more false ∧ task.Unshown) [] := by
  unfold runFunction
  refine (keeps_bind _ _).mpr (keeps_ofOutcome_of (fun payload _ => ?_) fun _ _ => Or.inl rfl)
  refine (keeps_bind _ _).mpr (keeps_ofOutcome_of (fun seconds hseconds => ?_) fun _ _ => Or.inl rfl)
  refine (keeps_bind _ _).mpr (keeps_recordValues (fun text _ => ?_) fun e he => ?_)
  · refine (keeps_bind _ _).mpr (task.keeps_count _ ?_)
    refine (keeps_bind _ _).mpr (task.keeps_started scope ?_)
    refine Silent.keeps ?_ (fun _ => ⟨_, rfl⟩) fun _ => Or.inr ⟨_, Or.inl rfl⟩
    refine (silent_ofOutcome _).bind fun limit => (silent_ofOutcome _).bind fun limit => ?_
    exact (silent_callFunction _ limit).bind fun _ => silent_ofOutcome _
  · refine Or.inr ⟨_, Or.inr ⟨rfl, ?_⟩⟩
    cases hshown : seconds.display with
    | error e => exact ⟨seconds, e, hseconds, hshown⟩
    | ok text =>
      obtain ⟨shown, hdetails⟩ := task.display_scheduled payload hseconds hshown
      rw [hdetails] at he
      cases he

end Task

theorem Polling.keeps_ask {σ α : Type} {check : σ → Work (Option α × σ)}
    {inv : σ → Records → Prop} {post : Records → Prop} (hpost : ∀ s g, inv s g → post g)
    (hcheck : ∀ s g, inv s g →
      (check s).Keeps .recording (fun found g => inv found.2 g) (fun _ g => post g) g)
    (pace : Pace) (late : Failure) (first left : Nat) {s : σ} {g : Records} (h : inv s g) :
    (ask check pace late first left s).Keeps .recording (fun _ g => post g) (fun _ g => post g) g := by
  induction left generalizing s g with
  | zero =>
    unfold ask
    refine (hcheck s g h).bind ?_
    rintro ⟨_ | output, s⟩ g h
    · refine Silent.keeps ?_ (fun _ => hpost s g h) fun _ => hpost s g h
      refine (silent_perform (e := .elapsed) rfl).bind fun last => ?_
      refine (silent_ofOutcome _).bind fun pause => ?_
      cases pause <;> exact silent_throw late
    · exact hpost s g h
  | succ left ih =>
    unfold ask
    refine (hcheck s g h).bind ?_
    rintro ⟨_ | output, s⟩ g h
    · refine (keeps_bind _ _).mpr ?_
      refine (silent_perform (e := .elapsed) rfl).keeps (fun last => ?_) fun _ => hpost s g h
      refine (keeps_bind _ _).mpr ?_
      refine (silent_ofOutcome _).keeps (fun pause => ?_) fun _ => hpost s g h
      cases pause with
      | none => exact hpost s g h
      | some pause =>
        exact (keeps_bind _ _).mpr ((silent_await _).keeps (fun _ => ih h) fun _ => hpost s g h)
    · exact hpost s g h

namespace Task

variable (task : Task) (scope : Scope)

variable [Room]

theorem keeps_untilDone {α : Type} {check : Bool → Work (Option α × Bool)} {more : Members}
    (hcheck : ∀ seen, (check seen).Keeps .recording
      (fun found g => g = task.opened more found.2) (fun _ g => task.Opening g)
      (task.opened more seen)) (timeout interval : Value) :
    (Polling.untilDone check timeout interval false).Keeps .recording
      (fun _ g => task.Opening g) (fun _ g => task.Opening g) (task.opened more false) := by
  unfold Polling.untilDone
  refine (keeps_bind _ _).mpr ((silent_perform rfl).keeps (fun first => ?_) fun _ => ?_)
  · have hopening (seen : Bool) (g : Records) (hg : g = task.opened more seen) : task.Opening g :=
      hg ▸ task.opening_opened more seen
    refine Polling.keeps_ask hopening ?_ _ _ _ _ rfl
    rintro seen _ rfl
    exact hcheck seen
  · exact task.opening_opened more false

omit [Room] in
theorem keeps_containerProgress (request : Value) (more : Members) (seen : Bool) :
    (task.containerProgress scope request seen).Keeps .recording
      (fun found g => g = task.opened more found.2) (fun _ g => task.Opening g)
      (task.opened more seen) := by
  have hopening := task.opening_opened more seen
  unfold containerProgress
  refine (keeps_bind _ _).mpr ((silent_callService _).keeps (fun description => ?_) fun _ => hopening)
  refine (keeps_bind _ _).mpr ((silent_ofOutcome _).keeps (fun container => ?_) fun _ => hopening)
  refine (keeps_bind _ _).mpr ((silent_ofOutcome _).keeps (fun status => ?_) fun _ => hopening)
  cases seen with
  | true =>
    simp only [Bool.not_true, Bool.and_false]
    exact rfl
  | false =>
    refine keeps_ite (fun hstarts => ?_) fun hnot => ?_
    · simp only [hstarts, Bool.false_or]
      exact (keeps_bind _ _).mpr (task.keeps_started scope rfl)
    · simp only [Bool.not_eq_true] at hnot
      simp only [hnot, Bool.false_or]
      exact rfl

theorem keeps_runContainer (parameters : Value) :
    (task.runContainer scope parameters).Keeps .recording (fun _ g => task.Opening g)
      (fun _ g => task.Opening g) [] := by
  unfold runContainer
  refine (keeps_bind _ _).mpr ((silent_ofOutcome _).keeps (fun request => ?_) fun _ => .nothing)
  refine (keeps_bind _ _).mpr ((silent_callService _).keeps (fun reply => ?_) fun _ => .nothing)
  refine (keeps_bind _ _).mpr ((silent_ofOutcome _).keeps (fun _ => ?_) fun _ => .nothing)
  refine (keeps_bind _ _).mpr ((silent_ofOutcome _).keeps (fun text => ?_) fun _ => .nothing)
  refine (keeps_bind _ _).mpr (task.keeps_scheduled scope _ ?_)
  refine keeps_ite (fun _ => .scheduled _) fun _ => ?_
  refine (keeps_bind _ _).mpr
    ((silent_ofOutcome _).keeps (fun describe => ?_) fun _ => .scheduled _)
  exact task.keeps_untilDone (task.keeps_containerProgress scope describe _) _ _

omit [Room] in
theorem keeps_activityProgress (token : String) (more : Members) (seen : Bool) :
    (task.activityProgress scope token seen).Keeps .recording
      (fun found g => g = task.opened more found.2) (fun _ g => task.Opening g)
      (task.opened more seen) := by
  have htake (now : Bool) : Work.Keeps .recording
      (fun found g => g = task.opened more found.2) (fun _ g => task.Opening g)
      (perform (.takeReport token) >>= fun report => pure (report, now)) (task.opened more now) :=
    (keeps_bind _ _).mpr ((silent_perform rfl).keeps (fun _ => rfl) fun _ =>
      task.opening_opened more now)
  unfold activityProgress
  cases seen with
  | true => exact htake true
  | false =>
    refine (keeps_bind _ _).mpr ((silent_perform rfl).keeps (fun claimed => ?_) fun _ =>
      task.opening_opened more false)
    cases claimed with
    | true => exact (keeps_bind _ _).mpr (task.keeps_started scope (htake true))
    | false => exact htake false

theorem keeps_runActivity (parameters : Value) :
    (task.runActivity scope parameters).Keeps .recording (fun _ g => task.Opening g)
      (fun _ g => task.Opening g) [] := by
  unfold runActivity
  refine (keeps_bind _ _).mpr ((silent_ofOutcome _).keeps (fun input => ?_) fun _ => .nothing)
  refine (keeps_bind _ _).mpr ((silent_perform rfl).keeps (fun reply => ?_) fun _ => .nothing)
  refine (keeps_bind _ _).mpr ((silent_ofOutcome _).keeps (fun token => ?_) fun _ => .nothing)
  refine (keeps_bind _ _).mpr (task.keeps_scheduled scope _ ?_)
  unfold awaitReport
  refine (keeps_bind _ _).mpr ((keeps_bind _ _).mpr ((keeps_outcome _).mpr ?_))
  refine (task.keeps_untilDone (task.keeps_activityProgress scope token _) _ _).mono ?_ ?_
  · intro report g hg
    exact (silent_ofOutcome (reportResult report)).keeps (fun _ => hg) fun _ => hg
  · intro e g hg
    refine keeps_ite (fun _ => ?_) fun _ => hg
    exact (keeps_bind _ _).mpr ((silent_perform rfl).keeps (fun _ => hg) fun _ => hg)

theorem keeps_invoke (parameters : Value) :
    (task.invoke scope parameters).Keeps .recording (fun _ g => task.Opening g)
      (fun _ g => task.Opening g) [] := by
  unfold invoke
  split
  · refine (task.keeps_runFunction scope parameters).mono ?_ ?_
    · rintro _ _ ⟨more, rfl⟩
      exact .started more
    · rintro _ _ (rfl | ⟨more, rfl | ⟨rfl, -⟩⟩)
      · exact .nothing
      · exact .started more
      · exact .scheduled more
  · exact task.keeps_runContainer scope parameters
  · exact task.keeps_runContainer scope parameters
  · exact task.keeps_runActivity scope parameters

end Task

/-! ## Claims of workers -/

/-- A worker was handed the work of a token before the report on it was asked for. -/
def claimedInTime (token : String) : List Happening → Prop
  | [] => False
  | .did _ :: t => claimedInTime token t
  | .asked x :: t =>
    x.op.given? x.reply = some token ∧ .did (.takeReport token) ∈ t ∨ claimedInTime token t

theorem not_claimedInTime {token : String} {t : List Happening}
    (h : .did (.takeReport token) ∉ t) : ¬claimedInTime token t := by
  induction t with
  | nil => exact id
  | cons x t ih =>
    rw [List.mem_cons, not_or] at h
    cases x with
    | did e => exact ih h.2
    | asked x =>
      rintro (⟨-, hmem⟩ | hlater)
      · exact h.2 hmem
      · exact ih h.2 hlater

theorem claimedInTime_append {token : String} {t : List Happening} (t' : List Happening)
    (h : ∀ x, .asked x ∉ t) : claimedInTime token (t ++ t') ↔ claimedInTime token t' := by
  induction t with
  | nil => rfl
  | cons x t ih =>
    cases x with
    | did e => exact ih fun x hmem => h x (List.mem_cons_of_mem _ hmem)
    | asked x => exact absurd List.mem_cons_self (h x)

theorem claimedInTime_append_right {token : String} (t : List Happening) {t' : List Happening}
    (h : .did (.takeReport token) ∉ t') :
    claimedInTime token (t ++ t') ↔ claimedInTime token t := by
  induction t with
  | nil => exact iff_of_false (not_claimedInTime h) id
  | cons x t ih =>
    cases x with
    | did e => exact ih
    | asked x => simp only [List.cons_append, claimedInTime, ih, List.mem_append, h, or_false]

theorem claimedInTime_asked {token : String} (xs : List ActivityQueue.Exchange)
    {t : List Happening} (h : .did (.takeReport token) ∈ t) :
    claimedInTime token (xs.map .asked ++ t) ↔
      (∃ x ∈ xs, x.op.given? x.reply = some token) ∨ claimedInTime token t := by
  induction xs with
  | nil => simp
  | cons x xs ih =>
    simp only [List.map_cons, List.cons_append, claimedInTime, ih, List.mem_append, h, or_true,
      and_true, List.mem_cons, or_and_right, exists_or, exists_eq_left, or_assoc]

namespace ActivityQueue

variable {q q' : ActivityQueue} {op : Operation} {token : String}

/-- The operation neither takes the report on a token nor cancels it. -/
def Operation.Spares (op : Operation) (token : String) : Prop :=
  op ≠ .getResult (.str token) ∧ op ≠ .cancelTask (.str token)

variable [Room]

theorem isClaimed_answer (h : op.Spares token) :
    (q.answer op).2.isClaimed token = true ↔
      q.isClaimed token = true ∨ op.given? (q.answer op).1 = some token := by
  unfold answer
  cases hperform : q.perform op with
  | error e =>
    have hgiven : op.given? (.error e) = none := by cases op <;> rfl
    simp [hgiven]
  | ok result =>
    obtain ⟨v, q'⟩ := result
    -- A claim comes with work that is handed out, and goes only as `Spares` excludes.
    cases did_of_perform hperform with
    | create date name activity v arn =>
      obtain ⟨-, hsame, -⟩ := same_addActivity q activity
      simp [ActivityQueue.isClaimed, hsame, Operation.given?]
    | look op v lookup =>
      rcases lookup with ⟨arn, rfl⟩ | ⟨other, rfl⟩ <;> simp [Operation.given?]
    | schedule other arn input q' queued =>
      obtain ⟨rfl, -⟩ := schedule?_eq_some queued
      simp [ActivityQueue.isClaimed, Operation.given?]
    | claim op arn worker task q' claims claimed =>
      have hgiven : op.given? (.ok task.toValue) = some task.token := by
        rcases claims with rfl | rfl <;> rfl
      obtain ⟨rest, -, rfl⟩ := claim?_eq_some claimed
      simp only [ActivityQueue.isClaimed, Table.has_put, Bool.or_eq_true, decide_eq_true_eq, hgiven,
        Option.some.injEq]
      rw [or_comm, eq_comm (a := token)]
    | noWork op arn worker claims idle =>
      have hgiven : op.given? (.ok .null) = none := by
        rcases claims with rfl | rfl <;> rfl
      simp [hgiven]
    | report other output error cause q' accepted =>
      obtain ⟨rfl, -⟩ := report?_eq_some accepted
      simp [ActivityQueue.isClaimed, Operation.given?]
    | take other report q' taken =>
      have hother : token ≠ other := fun heq => h.1 (heq ▸ rfl)
      obtain ⟨-, rfl⟩ := takeReport?_eq_some taken
      simp [ActivityQueue.isClaimed, Table.has_erase, hother, Operation.given?]
    | cancel other =>
      have hother : token ≠ other := fun heq => h.2 (heq ▸ rfl)
      simp [ActivityQueue.isClaimed, ActivityQueue.cancel, Table.has_erase, hother, Operation.given?]
    | noReport | noToken => simp [Operation.given?]

theorem Asked.isClaimed {xs : List Exchange} (h : q.Asked xs q')
    (hspares : ∀ x ∈ xs, x.op.Spares token) :
    q'.isClaimed token = true ↔
      q.isClaimed token = true ∨ ∃ x ∈ xs, x.op.given? x.reply = some token := by
  induction h with
  | nil q => simp
  | cons op rest ih =>
    rw [ih fun x hx => hspares x (List.mem_cons_of_mem _ hx),
      isClaimed_answer (hspares _ List.mem_cons_self), or_assoc]
    simp only [List.mem_cons, or_and_right, exists_or, exists_eq_left]

end ActivityQueue

/-- The course of a poll: it is a check that fails, or a check after which the poll ends or pauses
and asks again. -/
theorem Polling.course_ask_inv [Room] {σ α : Type} {check : σ → Work (Option α × σ)} {pace : Pace}
    {late : Failure} {first left : Nat} {s : σ} {w w' : World} {t : List Happening} {o : Outcome α}
    (h : (ask check pace late first left s).run.Course w t o w') :
    (∃ e, (check s).run.Course w t (.error e) w') ∨
      ∃ t₁ t₂ found s' w₁, t = t₁ ++ t₂ ∧ (check s).run.Course w t₁ (.ok (found, s')) w₁ ∧
        ((t₂ = [] ∨ t₂ = [.did .elapsed]) ∨
          ∃ left' xs t₃ w₂, left = left' + 1 ∧ found = none ∧
            t₂ = .did .elapsed :: (xs.map .asked ++ t₃) ∧ w₁.queue.Asked xs w₂.queue ∧
            (ask check pace late first left' s').run.Course w₂ t₃ o w') := by
  unfold ask at h
  rcases course_bind_inv h with ⟨t₁, t₂, ⟨found, s'⟩, w₁, rfl, hcheck, hrest⟩ | ⟨e, -, hcheck⟩
  · refine Or.inr ⟨t₁, t₂, found, s', w₁, rfl, hcheck, ?_⟩
    cases found with
    | some output =>
      cases hrest
      exact Or.inl (Or.inl rfl)
    | none =>
      obtain ⟨t₃, rfl, hpace⟩ := course_perform_bind_inv (e := .elapsed) hrest
      rcases course_bind_inv hpace with ⟨t₄, t₅, pause, w₂, rfl, hpause, hgo⟩ | ⟨e, -, hpause⟩
      · obtain ⟨rfl, -, rfl⟩ := course_ofOutcome_inv hpause
        cases pause with
        | none =>
          cases hgo
          exact Or.inl (Or.inr rfl)
        | some pause =>
          cases left with
          | zero =>
            cases hgo
            exact Or.inl (Or.inr rfl)
          | succ left =>
            cases hgo with
            | wait r others rest => exact Or.inr ⟨left, _, _, _, rfl, rfl, rfl, others, rest⟩
      · obtain ⟨rfl, -⟩ := course_ofOutcome_inv hpause
        exact Or.inl (Or.inr rfl)
  · exact Or.inl ⟨e, hcheck⟩

namespace Task

variable (task : Task) (scope : Scope) {w w' : World} {t : List Happening} {token : String}

theorem queue_takeReport (h : (w.takeReport token).1 = none) :
    (w.takeReport token).2.queue = w.queue := by
  unfold World.takeReport at h ⊢
  split at h
  · cases h
  · rfl

section

variable [Room]

theorem course_activityProgress {seen : Bool} {o : Outcome (Option Report × Bool)}
    (h : (task.activityProgress scope token seen).run.Course w t o w') :
    ∃ found, o = .ok (found, seen || w.queue.isClaimed token) ∧
      (found = none → w'.queue = w.queue) ∧ .did (.takeReport token) ∈ t ∧
      (∀ x, .asked x ∉ t) ∧
      (task.startedEvent ∈ recorded t ↔ seen = false ∧ w.queue.isClaimed token = true) := by
  have htake {w₁ : World} {t' : List Happening} {seen' : Bool}
      (h : (perform (.takeReport token) >>= fun found => pure (found, seen')).run.Course w₁ t' o w')
      (hqueue : w₁.queue = w.queue) :
      ∃ found, o = .ok (found, seen') ∧ (found = none → w'.queue = w.queue) ∧
        t' = [.did (.takeReport token)] := by
    obtain ⟨t'', rfl, hend⟩ := course_perform_bind_inv h
    cases hend
    exact ⟨_, rfl, fun hnone => (queue_takeReport hnone).trans hqueue, rfl⟩
  unfold activityProgress at h
  cases seen with
  | true =>
    obtain ⟨found, rfl, hqueue, rfl⟩ := htake h rfl
    exact ⟨found, rfl, hqueue, by simp, by simp, by simp [Effect.records]⟩
  | false =>
    obtain ⟨t₁, rfl, hlook⟩ := course_perform_bind_inv (e := .isClaimed token) h
    have hreply : w.perform (.isClaimed token) = (w.queue.isClaimed token, w) := rfl
    rw [hreply] at hlook
    cases hclaimed : w.queue.isClaimed token with
    | false =>
      rw [hclaimed] at hlook
      obtain ⟨found, rfl, hqueue, rfl⟩ := htake hlook rfl
      exact ⟨found, rfl, hqueue, by simp, by simp, by simp [Effect.records]⟩
    | true =>
      rw [hclaimed] at hlook
      obtain ⟨t₂, rfl, hstart⟩ := course_perform_bind_inv (e := .record scope "TaskStarted" _) hlook
      obtain ⟨found, rfl, hqueue, rfl⟩ := htake hstart (w.alike_record _ _ _).queue
      exact ⟨found, rfl, hqueue, by simp, by simp, by simp [Effect.records, startedEvent]⟩

/-- A poll, from a check on: its start is recorded, if it was not before, exactly when there is a
claim by the time of one of its checks. -/
theorem course_ask {pace : Polling.Pace} {late : Failure} {first left : Nat} {seen : Bool}
    {o : Outcome Report}
    (h : (Polling.ask (task.activityProgress scope token) pace late first left seen).run.Course
      w t o w')
    (hseen : seen = true → w.queue.isClaimed token = true)
    (hspares : ∀ x, .asked x ∈ t → x.op.Spares token) :
    .did (.takeReport token) ∈ t ∧
      (seen = true ∨ task.startedEvent ∈ recorded t ↔
        w.queue.isClaimed token = true ∨ claimedInTime token t) := by
  induction left using Nat.strongRecOn generalizing w t seen with
  | ind left ih =>
    rcases Polling.course_ask_inv h with ⟨e, hcheck⟩ | ⟨t₁, t₂, found, seen', w₁, rfl, hcheck, hrest⟩
    · obtain ⟨found, heq, -⟩ := task.course_activityProgress scope hcheck
      cases heq
    obtain ⟨found', heq, hqueue, hmem, hown, hstarted⟩ := task.course_activityProgress scope hcheck
    cases heq
    refine ⟨List.mem_append_left _ hmem, ?_⟩
    -- What the check has seen by now is that there is a claim.
    have hnow : seen = true ∨ task.startedEvent ∈ recorded t₁ ↔ w.queue.isClaimed token = true := by
      rw [hstarted]
      cases seen
      · simp
      · simpa using hseen rfl
    rw [recorded_append, List.mem_append, ← or_assoc, hnow, claimedInTime_append t₂ hown]
    rcases hrest with hend | ⟨left', xs, t₃, w₂, rfl, rfl, rfl, hasked, hagain⟩
    · have hlast : recorded t₂ = [] ∧ .did (.takeReport token) ∉ t₂ := by
        rcases hend with rfl | rfl <;> simp [Effect.records]
      rw [hlast.1]
      exact or_congr_right (iff_of_false List.not_mem_nil (not_claimedInTime hlast.2))
    · have hothers := hasked.isClaimed fun x hx => hspares x (by simp [hx])
      rw [hqueue rfl] at hothers
      have hseen' : (seen || w.queue.isClaimed token) = true → w₂.queue.isClaimed token = true := by
        intro hor
        rw [hothers]
        cases seen
        · exact Or.inl hor
        · exact Or.inl (hseen rfl)
      obtain ⟨hcheck₃, hiff⟩ := ih left' (Nat.lt_succ_self left') hagain hseen' fun x hx =>
        hspares x (by simp [hx])
      have hclaimed : (seen || w.queue.isClaimed token) = true ↔ w.queue.isClaimed token = true := by
        cases seen
        · simp
        · simpa using hseen rfl
      rw [hclaimed, hothers, or_assoc] at hiff
      simp only [recorded_did, recorded_append, recorded_asked, Effect.records, List.nil_append,
        claimedInTime, claimedInTime_asked xs hcheck₃]
      exact hiff

theorem course_conclude {r : Outcome Report} {o : Outcome Value}
    (h : (conclude token r).run.Course w t o w') :
    recorded t = [] ∧ .did (.takeReport token) ∉ t := by
  cases r with
  | ok report =>
    obtain ⟨rfl, -⟩ := course_ofOutcome_inv h
    simp
  | error e =>
    simp only [conclude] at h
    split at h
    · obtain ⟨t', rfl, hend⟩ := course_perform_bind_inv (e := .cancelTask token) h
      cases hend
      simp [Effect.records]
    · cases h
      simp

theorem course_awaitReport {o : Outcome Value}
    (h : (do ofOutcome (reportResult (← task.awaitReport scope token))).run.Course w t o w')
    (hnew : w.queue.isClaimed token = false)
    (hspares : ∀ x, .asked x ∈ t → x.op.Spares token) :
    task.startedEvent ∈ recorded t ↔ claimedInTime token t := by
  rw [run_awaitReport] at h
  obtain ⟨t₁, t₂, r, w₁, rfl, hpoll, hend⟩ := h.bind_inv
  obtain ⟨hquiet, hlast⟩ := course_conclude hend
  obtain ⟨t₃, rfl, hask⟩ := course_perform_bind_inv (e := .elapsed) hpoll
  obtain ⟨-, hiff⟩ := task.course_ask scope hask nofun fun x hx => hspares x (by simp [hx])
  have hqueue : (w.perform .elapsed).2.queue = w.queue := rfl
  rw [hqueue, hnew] at hiff
  rw [recorded_append, hquiet, List.append_nil, claimedInTime_append_right _ hlast]
  simpa [Effect.records, claimedInTime] using hiff

theorem course_scheduled {more : Members} {o : Outcome Unit}
    (h : (task.scheduled scope more).run.Course w t o w') :
    o = .ok () ∧ w'.queue = w.queue ∧ (∀ x, .asked x ∉ t) ∧ task.startedEvent ∉ recorded t := by
  obtain ⟨t₁, rfl, hcount⟩ := course_perform_bind_inv (e := .record scope "TaskScheduled" _) h
  have hqueue := (w.alike_record scope "TaskScheduled" (task.details more)).queue
  have hfirst : task.startedEvent ≠ ("TaskScheduled", task.details more) := by
    simp [startedEvent]
  unfold count at hcount
  split at hcount
  · obtain ⟨rfl, rfl, rfl⟩ := course_perform_inv hcount
    exact ⟨rfl, hqueue, by simp, by simp [Effect.records, hfirst]⟩
  · cases hcount
    exact ⟨rfl, hqueue, by simp, by simp [Effect.records, hfirst]⟩

theorem course_runActivity {parameters : Value} {o : Outcome Value}
    (h : (task.runActivity scope parameters).run.Course w t o w')
    (hnew : w.queue.isClaimed (identifier (w.drawn + 1)) = false)
    (hspares : ∀ x, .asked x ∈ t → x.op.Spares (identifier (w.drawn + 1))) :
    task.startedEvent ∈ recorded t ↔ claimedInTime (identifier (w.drawn + 1)) t := by
  unfold runActivity at h
  rcases course_bind_inv h with ⟨t₁, t₂, input, w₁, rfl, hinput, hqueue⟩ | ⟨e, -, hinput⟩
  swap
  · obtain ⟨rfl, -⟩ := course_ofOutcome_inv hinput
    simp [claimedInTime]
  obtain ⟨rfl, -, rfl⟩ := course_ofOutcome_inv hinput
  obtain ⟨t₃, rfl, hreply⟩ := course_perform_bind_inv (e := .scheduleTask task.resource input) hqueue
  have hclaimed : (w₁.scheduleTask task.resource input).2.queue.claimed = w₁.queue.claimed ∧
      ∀ token, (w₁.scheduleTask task.resource input).1 = .ok token →
        token = identifier (w₁.drawn + 1) := by
    simp only [World.scheduleTask]
    split
    · rename_i q hqueued
      obtain ⟨rfl, -⟩ := ActivityQueue.schedule?_eq_some hqueued
      exact ⟨rfl, fun token htoken => (Except.ok.inj htoken).symm⟩
    · exact ⟨rfl, fun token htoken => by cases htoken⟩
  rcases course_bind_inv hreply with ⟨t₄, t₅, token, w₂, rfl, htoken, hrun⟩ | ⟨e, -, htoken⟩
  · obtain ⟨rfl, hok, rfl⟩ := course_ofOutcome_inv htoken
    obtain rfl := hclaimed.2 token hok.symm
    rcases course_bind_inv hrun with ⟨t₆, t₇, u, w₃, rfl, hscheduled, hawait⟩ | ⟨e, -, hscheduled⟩
    · obtain ⟨-, hqueue, hown, hstarted⟩ := task.course_scheduled scope hscheduled
      have hiff := task.course_awaitReport scope hawait ?_ fun x hx => hspares x (by simp [hx])
      · simp only [List.nil_append, recorded_did, recorded_append, List.mem_append, hstarted, false_or,
          claimedInTime, claimedInTime_append t₇ hown, Effect.records]
        exact hiff
      · rw [ActivityQueue.isClaimed, hqueue]
        exact (congrArg (Table.has · _) hclaimed.1).trans hnew
    · cases (task.course_scheduled scope hscheduled).1
  · obtain ⟨rfl, -⟩ := course_ofOutcome_inv htoken
    simp [claimedInTime, Effect.records]

/-! ## How a call ends -/

def succeededEvent (text : String) : String × Members :=
  ("TaskSucceeded", task.details [("output", .str text)])

def failedEvent (e : Failure) (text : String) : String × Members :=
  ("TaskFailed", Event.fullDetails (task.details []) e.name (.str text))

omit [Room] in
theorem get?_failedEvent (e : Failure) (text : String) :
    (Table.get? (task.failedEvent e text).2 "cause").getD .null = e.name ∧
      Table.get? (task.failedEvent e text).2 "error" = some (.str text) := by
  unfold failedEvent
  cases e.name <;> exact ⟨rfl, rfl⟩

def closing (execution : String) (start : Nat) : Outcome Value → Work Value
  | .error e => do
    let raised := match ← (task.callFailed scope e).outcome with
      | .ok () => e
      | .error problem => problem
    task.observe ((← Work.now) - start)
    Work.perform (.span ⟨task.resource, execution, e.text.toOption.map fun _ => e, some raised⟩)
    throw raised
  | .ok result => do
    task.observe ((← Work.now) - start)
    Work.perform (.span ⟨task.resource, execution, none, none⟩)
    let text ← Work.ofOutcome (Json.encode result)
    Work.record scope "TaskSucceeded" (task.details [("output", .str text)])
    task.count .succeeded
    return result

theorem course_invokeResource_inv {execution : String} {parameters : Value} {o : Outcome Value}
    (h : (task.invokeResource execution scope parameters).run.Course w t o w') :
    ∃ called rest r w₁, t = .did .now :: (called ++ rest) ∧
      (task.invoke scope parameters).run.Course w called r w₁ ∧
      (task.closing scope execution w.now r).run.Course w₁ rest o w' := by
  obtain ⟨t', rfl, hcall⟩ := course_perform_bind_inv (e := .now) h
  rw [run_outcome_bind] at hcall
  obtain ⟨called, rest, r, w₁, rfl, hinvoke, hclosing⟩ := hcall.bind_inv
  refine ⟨called, rest, r, w₁, rfl, hinvoke, ?_⟩
  cases r <;> exact hclosing

theorem keeps_callFailed {e : Failure} {ok : Unit → Records → Prop} {err : Failure → Records → Prop}
    (hok : ∀ text, e.text = .ok text → ok () [task.failedEvent e text])
    (hshown : ∀ text problem, e.text = .ok text →
      (Value.obj (Event.fullDetails [] e.name (.str text))).display = .error problem →
        err problem [task.failedEvent e text])
    (htext : ∀ problem, e.text = .error problem → err problem []) :
    (task.callFailed scope e).Keeps .recording ok err [] := by
  exact (keeps_bind _ _).mpr
    (keeps_recordFailure (fun text h => task.keeps_count _ (hok text h)) hshown htext)

theorem keeps_closing_error (execution : String) (start : Nat) (e : Failure) :
    (task.closing scope execution start (.error e)).Keeps .recording (fun _ _ => False)
      (fun e' g => e.text = .error e' ∧ g = [] ∨ ∃ text, e.text = .ok text ∧
        g = [task.failedEvent e text] ∧
        (e' = e ∨ (Value.obj (Event.fullDetails [] e.name (.str text))).display = .error e')) [] := by
  have hlast {g : Records} {raised : Failure} {post : Failure → Records → Prop} (h : post raised g) :
      (do
        task.observe ((← Work.now) - start)
        Work.perform (.span ⟨task.resource, execution, e.text.toOption.map fun _ => e, some raised⟩)
        throw raised : Work Value).Keeps .recording (fun _ _ => False) post g := by
    refine (keeps_bind _ _).mpr (keeps_perform_recording.mpr fun stop => ?_)
    refine (keeps_bind _ _).mpr (task.keeps_observe _ ?_)
    refine (keeps_bind _ _).mpr (keeps_perform_recording.mpr fun _ => ?_)
    simpa [Effect.records] using h
  refine (keeps_bind _ _).mpr ((keeps_outcome _).mpr (task.keeps_callFailed scope ?_ ?_ ?_))
  · exact fun text htext => hlast (.inr ⟨text, htext, rfl, .inl rfl⟩)
  · exact fun text problem htext hproblem => hlast (.inr ⟨text, htext, rfl, .inr hproblem⟩)
  · exact fun problem hproblem => hlast (.inl ⟨hproblem, rfl⟩)

theorem keeps_closing_ok (execution : String) (start : Nat) (v : Value) :
    (task.closing scope execution start (.ok v)).Keeps .recording
      (fun a g => a = v ∧ ∃ text, Json.encode v = .ok text ∧ g = [task.succeededEvent text])
      (fun e g => Json.encode v = .error e ∧ g = []) [] := by
  refine (keeps_bind _ _).mpr (keeps_perform_recording.mpr fun stop => ?_)
  refine (keeps_bind _ _).mpr (task.keeps_observe _ ?_)
  refine (keeps_bind _ _).mpr (keeps_perform_recording.mpr fun _ => ?_)
  refine (keeps_bind (ofOutcome (Json.encode v)) _).mpr ?_
  cases htext : Json.encode v with
  | error e => exact ⟨rfl, rfl⟩
  | ok text =>
    refine (keeps_bind _ _).mpr (keeps_perform_recording.mpr fun _ => ?_)
    exact (keeps_bind _ _).mpr (task.keeps_count _ ⟨rfl, text, rfl, rfl⟩)

/-- What a call comes to, and the attempt with it, when that has been told in an event. An error whose
event cannot be shown is told, but the attempt ends with the fault of showing it. -/
inductive Closes : Outcome Value → String × Members → Outcome Value → Prop
  | succeeded (v : Value) (text : String) (encoded : Json.encode v = .ok text) :
      Closes (.ok v) ("TaskSucceeded", task.details [("output", .str text)]) (.ok v)
  | failed (e e' : Failure) (text : String) (details : Members) (told : e.text = .ok text)
      (cause : (Table.get? details "cause").getD .null = e.name)
      (error : Table.get? details "error" = some (.str text))
      (raised : e' = e ∨ (Value.obj (Event.fullDetails [] e.name (.str text))).display = .error e') :
      Closes (.error e) ("TaskFailed", details) (.error e')

/-- What a call comes to cannot be told: it is a result without a JSON text, or an error without any.
The attempt ends with the fault of telling it. -/
inductive Untold : Outcome Value → Outcome Value → Prop
  | result (v : Value) (e : Failure) (untold : Json.encode v = .error e) : Untold (.ok v) (.error e)
  | failure (e e' : Failure) (untold : e.text = .error e') : Untold (.error e) (.error e')

theorem course_closing {execution : String} {start : Nat} {r o : Outcome Value}
    (h : (task.closing scope execution start r).run.Course w t o w') :
    recorded t = [] ∧ Untold r o ∨ ∃ last, recorded t = [last] ∧ task.Closes r last o := by
  cases r with
  | error e =>
    have hkept := (task.keeps_closing_error scope execution start e).course h
    cases o with
    | ok v => exact hkept.elim
    | error e' =>
      rcases hkept with ⟨huntold, hrecorded⟩ | ⟨text, htold, hrecorded, hraised⟩
      · exact .inl ⟨hrecorded, .failure e e' huntold⟩
      · obtain ⟨hcause, herror⟩ := task.get?_failedEvent e text
        exact .inr ⟨_, hrecorded, .failed e e' text _ htold hcause herror hraised⟩
  | ok v =>
    have hkept := (task.keeps_closing_ok scope execution start v).course h
    cases o with
    | error e => exact .inl ⟨hkept.2, .result v e hkept.1⟩
    | ok v' =>
      obtain ⟨rfl, text, htext, hrecorded⟩ := hkept
      exact .inr ⟨_, hrecorded, .succeeded v' text htext⟩

theorem recorded_invoke {parameters : Value} {r : Outcome Value}
    (h : (task.invoke scope parameters).run.Course w t r w') : task.Opening (recorded t) := by
  have hkept := (task.keeps_invoke scope parameters).course h
  cases r <;> exact hkept

theorem recorded_runFunction {parameters : Value} {r : Outcome Value}
    (h : (task.runFunction scope parameters).run.Course w t r w') :
    recorded t = [] ∨ task.startedEvent ∈ recorded t ∨ task.Unshown := by
  have hkept := (task.keeps_runFunction scope parameters).course h
  have hstarted {more : Members} (hrecorded : recorded t = task.opened more true) :
      task.startedEvent ∈ recorded t := by
    rw [hrecorded]
    simp [opened]
  cases r with
  | ok v =>
    obtain ⟨more, hrecorded⟩ := hkept
    exact .inr (.inl (hstarted hrecorded))
  | error e =>
    rcases hkept with hrecorded | ⟨more, hrecorded | ⟨-, hunshown⟩⟩
    · exact .inl hrecorded
    · exact .inr (.inl (hstarted hrecorded))
    · exact .inr (.inr hunshown)

end

/-- Work for an activity that is claimed during the first pause and reported on during the second. -/
def claimedTask : Task :=
  ⟨"T", .null, .activity, Ledger.activityArn, .int 3000, .int 1000, none⟩

def claimedWorld : World :=
  .create 0 (ActivityQueue.empty.addActivity ⟨Ledger.activityArn, "a", ""⟩) default

def claimedCourse : Option (List Happening × Outcome Value × World) :=
  (claimedTask.invokeResource "" .top (.obj [])).run.follow claimedWorld
    [.asked [.getActivityTask (.str Ledger.activityArn) .null],
      .asked [.enqueueResult (.str (identifier 1)) (.str "1") .null .null]]

def deepList : Nat → Value
  | 0 => .arr []
  | n + 1 => .arr [deepList n]

/-- A function that fails with a message that is nested too deep to be told. -/
def deepReply : Value :=
  .obj [("FunctionError", .str "E"), ("Payload", .obj [("errorMessage", deepList 1000)])]

def deepTask : Task :=
  ⟨"T", .null, .function, "f", .int 3000, .int 1000, none⟩

def deepCourse : Option (List Happening × Outcome Value × World) :=
  (deepTask.invokeResource "" .top (.obj [])).run.follow (.create 0 .empty default)
    [.answered (.ok deepReply)]

end Task

end StatesLanguage
