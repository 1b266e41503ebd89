import Mathlib.Data.List.Nodup
import StatesLanguage.Proofs.ActivityQueue

/-!
# Delivery of work

What schedulers and workers see of a queue, kept in a ledger: for each activity, the work that was
scheduled and not withdrawn is the work that was handed out, in that order, and then the work that
is still pending.
-/

namespace StatesLanguage

/-- The task that an answer to a worker tells of. -/
def ScheduledTask.ofValue? : Value → Option ScheduledTask
  | .obj [("taskToken", .str token), ("input", input)] => some ⟨token, input⟩
  | _ => none

def ActivityQueue.Operation.token? : Operation → Option String
  | .scheduleTask token _ _ => some token
  | _ => none

def ActivityQueue.Operation.activity? : Operation → Option String
  | .createActivity _ (.str arn) | .hasActivity (.str arn) | .scheduleTask _ (.str arn) _
  | .findPendingTask (.str arn) _ | .getActivityTask (.str arn) _ => some arn
  | _ => none

/-- Work and the activity that it is for, oldest first. -/
abbrev Entries := List (String × ScheduledTask)

namespace Entries

def on (entries : Entries) (arn : String) : List ScheduledTask :=
  (entries.filter (·.1 = arn)).map (·.2)

def tokens (entries : Entries) : List String :=
  entries.map (·.2.token)

theorem on_append (l l' : Entries) (arn : String) : on (l ++ l') arn = l.on arn ++ l'.on arn := by
  simp [on]

theorem on_singleton (arn other : String) (task : ScheduledTask) :
    on [(arn, task)] other = if other = arn then [task] else [] := by
  by_cases h : other = arn
  · simp [on, h]
  · simp [on, h, Ne.symm h]

theorem mem_on {entries : Entries} {arn : String} {task : ScheduledTask} :
    task ∈ entries.on arn ↔ (arn, task) ∈ entries := by
  simp only [on, List.mem_map, List.mem_filter, decide_eq_true_eq]
  constructor
  · rintro ⟨⟨_, _⟩, ⟨hmem, rfl⟩, rfl⟩
    exact hmem
  · exact fun h => ⟨(arn, task), ⟨h, rfl⟩, rfl⟩

theorem mem_tokens {entries : Entries} {token : String} :
    token ∈ entries.tokens ↔ ∃ arn task, (arn, task) ∈ entries ∧ task.token = token := by
  simp [tokens]

theorem eq_of_token_eq {entries : Entries} (h : entries.tokens.Nodup) {e e' : String × ScheduledTask}
    (he : e ∈ entries) (he' : e' ∈ entries) (htoken : e.2.token = e'.2.token) : e = e' :=
  List.inj_on_of_nodup_map h he he' htoken

theorem tokens_on_sublist (entries : Entries) (arn : String) :
    ((entries.on arn).map (·.token)).Sublist entries.tokens := by
  rw [on, tokens, List.map_map]
  exact List.filter_sublist.map _

end Entries

/-- What operations and their answers tell about the work of a queue. -/
structure Ledger where
  scheduled : Entries
  handed : Entries
  /-- The tokens that were cancelled after they were scheduled and before they were handed out. -/
  withdrawn : List String

namespace Ledger

def empty : Ledger := ⟨[], [], []⟩

def isPending (l : Ledger) (token : String) : Bool :=
  l.scheduled.tokens.contains token && !l.handed.tokens.contains token

/-- The ledger after an operation that was answered. -/
def add (l : Ledger) : ActivityQueue.Operation → Outcome Value → Ledger
  | .scheduleTask token (.str arn) input, .ok _ =>
    { l with scheduled := l.scheduled ++ [(arn, ⟨token, input⟩)] }
  | .findPendingTask (.str arn) _, .ok v | .getActivityTask (.str arn) _, .ok v =>
    { l with handed := l.handed ++ ((ScheduledTask.ofValue? v).map (arn, ·)).toList }
  | .cancelTask (.str token), .ok _ =>
    if l.isPending token then { l with withdrawn := l.withdrawn ++ [token] } else l
  | _, _ => l

def kept (l : Ledger) (arn : String) : List ScheduledTask :=
  (l.scheduled.on arn).filter fun task => !l.withdrawn.contains task.token

def step [Room] (s : ActivityQueue × Ledger) (op : ActivityQueue.Operation) : ActivityQueue × Ledger :=
  ((s.1.answer op).2, s.2.add op (s.1.answer op).1)

def after [Room] (ops : List ActivityQueue.Operation) : ActivityQueue × Ledger :=
  ops.foldl step (.empty, .empty)

structure Balanced (q : ActivityQueue) (l : Ledger) : Prop where
  known : q.Known
  balance : ∀ arn, l.kept arn = l.handed.on arn ++ q.pendingOf arn
  fresh : l.scheduled.tokens.Nodup
  handedOnce : l.handed.tokens.Nodup
  withdrawn_scheduled : ∀ token ∈ l.withdrawn, token ∈ l.scheduled.tokens

namespace Balanced

variable {q q' : ActivityQueue} {l : Ledger} {arn token : String} {task : ScheduledTask}

theorem mem_kept : task ∈ l.kept arn ↔ (arn, task) ∈ l.scheduled ∧ task.token ∉ l.withdrawn := by
  simp [kept, Entries.mem_on]

theorem pending_scheduled (h : Balanced q l) (ht : task ∈ q.pendingOf arn) :
    (arn, task) ∈ l.scheduled ∧ task.token ∉ l.withdrawn := by
  apply mem_kept.mp
  rw [h.balance arn]
  exact List.mem_append_right _ ht

theorem handed_scheduled (h : Balanced q l) (ht : (arn, task) ∈ l.handed) :
    (arn, task) ∈ l.scheduled := by
  have hkept : task ∈ l.kept arn := by
    rw [h.balance arn]
    exact List.mem_append_left _ (Entries.mem_on.mpr ht)
  exact (mem_kept.mp hkept).1

theorem pending_not_handed (h : Balanced q l) (ht : task ∈ q.pendingOf arn) :
    task.token ∉ l.handed.tokens := by
  intro hmem
  obtain ⟨arn', task', hhanded, htoken⟩ := Entries.mem_tokens.mp hmem
  have heq := Entries.eq_of_token_eq h.fresh (h.handed_scheduled hhanded)
    (h.pending_scheduled ht).1 htoken
  cases heq
  -- The same work would stand twice among what was kept.
  have hnodup : ((l.kept arn).map (·.token)).Nodup :=
    ((List.filter_sublist.map _).trans (Entries.tokens_on_sublist _ arn)).nodup h.fresh
  rw [h.balance, List.map_append] at hnodup
  exact List.disjoint_of_nodup_append hnodup (List.mem_map_of_mem (Entries.mem_on.mpr hhanded))
    (List.mem_map_of_mem ht)

theorem isPending_of_mem (h : Balanced q l) (ht : task ∈ q.pendingOf arn) :
    l.isPending task.token = true := by
  have hscheduled : task.token ∈ l.scheduled.tokens :=
    Entries.mem_tokens.mpr ⟨arn, task, (h.pending_scheduled ht).1, rfl⟩
  simp [isPending, hscheduled, h.pending_not_handed ht]

theorem unchanged (h : Balanced q l) (hknown : q'.Known)
    (hpending : ∀ arn, q'.pendingOf arn = q.pendingOf arn) : Balanced q' l :=
  ⟨hknown, fun arn => by rw [hpending arn, h.balance arn], h.fresh, h.handedOnce,
    h.withdrawn_scheduled⟩

theorem schedule (h : Balanced q l) (hknown : q'.Known) (hnew : task.token ∉ l.scheduled.tokens)
    (hqueued : q.schedule? arn task = some q') :
    Balanced q' { l with scheduled := l.scheduled ++ [(arn, task)] } := by
  refine ⟨hknown, ?_, ?_, h.handedOnce, ?_⟩
  · intro other
    have hkept : task.token ∉ l.withdrawn := fun hmem => hnew (h.withdrawn_scheduled _ hmem)
    have hbalance := h.balance other
    simp only [kept] at hbalance ⊢
    rw [Entries.on_append, List.filter_append, hbalance, Entries.on_singleton,
      ActivityQueue.pendingOf_schedule hqueued]
    split
    · rename_i heq
      simp [heq, hkept]
    · simp
  · simp only [Entries.tokens, List.map_append] at hnew ⊢
    rw [List.nodup_append]
    refine ⟨h.fresh, List.nodup_singleton _, ?_⟩
    rintro a ha b hb rfl
    obtain rfl := List.mem_singleton.mp hb
    exact hnew ha
  · intro token htoken
    have := h.withdrawn_scheduled token htoken
    simp only [Entries.tokens, List.map_append, List.mem_append] at this ⊢
    exact Or.inl this

theorem handOut (h : Balanced q l) (hknown : q'.Known) {worker : Value}
    (hclaimed : q.claim? arn worker = some (task, q')) :
    Balanced q' { l with handed := l.handed ++ [(arn, task)] } := by
  obtain ⟨hfirst, hother⟩ := ActivityQueue.pendingOf_claim hclaimed
  have hmem : task ∈ q.pendingOf arn := by
    rw [hfirst]
    exact List.mem_cons_self
  have hnew := h.pending_not_handed hmem
  refine ⟨hknown, ?_, h.fresh, ?_, h.withdrawn_scheduled⟩
  · intro other
    have hbalance := h.balance other
    simp only [kept] at hbalance ⊢
    rw [hbalance, Entries.on_append, Entries.on_singleton]
    split
    · rename_i heq
      rw [heq, hfirst, List.append_assoc, List.singleton_append]
    · rename_i hne
      rw [hother other hne, List.append_nil]
  · simp only [Entries.tokens, List.map_append] at hnew ⊢
    rw [List.nodup_append]
    refine ⟨h.handedOnce, List.nodup_singleton _, ?_⟩
    rintro a ha b hb rfl
    obtain rfl := List.mem_singleton.mp hb
    exact hnew ha

theorem withdraw (h : Balanced q l) (hknown : (q.cancel token).Known) :
    Balanced (q.cancel token)
      (if l.isPending token then { l with withdrawn := l.withdrawn ++ [token] } else l) := by
  split
  · rename_i hpending
    simp only [isPending, List.contains_eq_mem, Bool.and_eq_true, decide_eq_true_eq,
      Bool.not_eq_true', decide_eq_false_iff_not] at hpending
    refine ⟨hknown, ?_, h.fresh, h.handedOnce, ?_⟩
    · intro arn
      have hbalance := h.balance arn
      have hhanded : (l.handed.on arn).filter (·.token != token) = l.handed.on arn := by
        rw [List.filter_eq_self]
        intro task htask
        rw [bne_iff_ne]
        rintro rfl
        exact hpending.2 (Entries.mem_tokens.mpr ⟨arn, task, Entries.mem_on.mp htask, rfl⟩)
      have hkept : kept { l with withdrawn := l.withdrawn ++ [token] } arn =
          (l.kept arn).filter (·.token != token) := by
        simp only [kept, List.filter_filter]
        congr 1
        funext task
        rw [Bool.eq_iff_iff]
        simp [and_comm]
      rw [hkept, hbalance, List.filter_append, hhanded, ActivityQueue.pendingOf_cancel]
    · intro t ht
      rcases List.mem_append.mp ht with ht | ht
      · exact h.withdrawn_scheduled t ht
      · obtain rfl := List.mem_singleton.mp ht
        exact hpending.1
  · -- The token is not pending anywhere, so that nothing is taken out.
    rename_i hnot
    refine h.unchanged hknown fun arn => ?_
    rw [ActivityQueue.pendingOf_cancel, List.filter_eq_self]
    intro task htask
    rw [bne_iff_ne]
    rintro rfl
    exact hnot (h.isPending_of_mem htask)

end Balanced

/-! ## Steps and runs -/

theorem add_error (l : Ledger) (op : ActivityQueue.Operation) (e : Failure) :
    l.add op (.error e) = l := by
  unfold add
  split
  all_goals first
    | rfl
    | exact nomatch (‹Except.error e = Except.ok _› : (Except.error e : Outcome Value) = .ok _)

theorem add_noWork (l : Ledger) {op : ActivityQueue.Operation} {arn worker : Value}
    (hop : op = .findPendingTask arn worker ∨ op = .getActivityTask arn worker) :
    l.add op (.ok .null) = l := by
  have hnull (name : String) :
      l.handed ++ ((ScheduledTask.ofValue? .null).map (name, ·)).toList = l.handed :=
    List.append_nil _
  rcases hop with rfl | rfl
  all_goals
    cases arn with
    | str name => simp only [add, hnull]
    | _ => rfl

theorem add_noToken (l : Ledger) {token v : Value} (h : token.asKey = .ok none) :
    l.add (.cancelTask token) (.ok v) = l := by
  cases token with
  | str s => cases h
  | _ => rfl

theorem Balanced.step [Room] {q : ActivityQueue} {l : Ledger} (h : Balanced q l)
    {op : ActivityQueue.Operation} (hfresh : ∀ token, op.token? = some token →
      token ∉ l.scheduled.tokens) :
    Balanced (Ledger.step (q, l) op).1 (Ledger.step (q, l) op).2 := by
  simp only [Ledger.step, ActivityQueue.answer]
  cases hperform : q.perform op with
  | error e =>
    simp only [add_error]
    exact h
  | ok result =>
    obtain ⟨v, q'⟩ := result
    have hdid := ActivityQueue.did_of_perform hperform
    have hknown := hdid.known h.known
    cases hdid with
    | create date name activity v arn =>
      exact h.unchanged hknown (ActivityQueue.pendingOf_addActivity h.known activity)
    | look op v lookup =>
      rcases lookup with ⟨arn, rfl⟩ | ⟨token, rfl⟩
      · exact h
      · exact h
    | schedule token arn input q' queued => exact h.schedule hknown (hfresh token rfl) queued
    | claim op arn worker task q' claims claimed =>
      rcases claims with rfl | rfl
      · exact h.handOut hknown claimed
      · exact h.handOut hknown claimed
    | noWork op arn worker claims idle =>
      simp only [add_noWork l claims]
      exact h
    | report token output error cause q' accepted =>
      obtain ⟨rfl, -⟩ := ActivityQueue.report?_eq_some accepted
      exact h.unchanged hknown fun _ => rfl
    | take token report q' taken =>
      obtain ⟨-, rfl⟩ := ActivityQueue.takeReport?_eq_some taken
      exact h.unchanged hknown fun _ => rfl
    | noReport token absent => exact h
    | cancel token => exact h.withdraw hknown
    | noToken token noKey =>
      simp only [add_noToken l noKey]
      exact h

theorem tokens_add (l : Ledger) (op : ActivityQueue.Operation) (answer : Outcome Value) :
    (l.add op answer).scheduled.tokens.Sublist (l.scheduled.tokens ++ op.token?.toList) := by
  unfold add
  split
  · simp [Entries.tokens, ActivityQueue.Operation.token?]
  · exact List.sublist_append_left _ _
  · exact List.sublist_append_left _ _
  · split <;> exact List.sublist_append_left _ _
  · exact List.sublist_append_left _ _

theorem Balanced.run [Room] {s : ActivityQueue × Ledger} (h : Balanced s.1 s.2)
    (ops : List ActivityQueue.Operation)
    (hfresh : (s.2.scheduled.tokens ++ ops.filterMap (·.token?)).Nodup) :
    Balanced (ops.foldl Ledger.step s).1 (ops.foldl Ledger.step s).2 := by
  -- By induction on the operations; the tokens scheduled before are kept apart from those to come.
  induction ops generalizing s with
  | nil => exact h
  | cons op rest ih =>
    have hall : (s.2.scheduled.tokens ++ op.token?.toList ++ rest.filterMap (·.token?)).Nodup := by
      cases htoken : op.token? <;> simpa [htoken] using hfresh
    apply ih
    · apply h.step
      intro token htoken hmem
      rw [List.append_assoc, htoken] at hall
      exact List.disjoint_of_nodup_append hall hmem List.mem_cons_self
    · exact ((tokens_add s.2 op _).append_right _).nodup hall

theorem balanced_empty : Balanced .empty .empty :=
  ⟨ActivityQueue.known_empty, fun _ => rfl, List.nodup_nil, List.nodup_nil, nofun⟩

/-- A queue changes only by what is asked of its activity, or when work of it is cancelled. -/
theorem changed_by [Room] {q : ActivityQueue} (hknown : q.Known) {op : ActivityQueue.Operation}
    {arn : String} (h : (q.answer op).2.pendingOf arn ≠ q.pendingOf arn) :
    op.activity? = some arn ∨ ∃ task ∈ q.pendingOf arn, op = .cancelTask (.str task.token) := by
  unfold ActivityQueue.answer at h
  cases hperform : q.perform op with
  | error e =>
    rw [hperform] at h
    exact absurd rfl h
  | ok result =>
    obtain ⟨v, q'⟩ := result
    rw [hperform] at h
    cases ActivityQueue.did_of_perform hperform with
    | create date name activity v hname =>
      exact absurd (ActivityQueue.pendingOf_addActivity hknown activity arn) h
    | look | noWork | noReport | noToken => exact absurd rfl h
    | schedule token arn' input q' queued =>
      by_cases heq : arn = arn'
      · exact Or.inl (by rw [heq]; rfl)
      · simp only [ActivityQueue.pendingOf_schedule queued, if_neg heq] at h
        exact absurd rfl h
    | claim op arn' worker task q' claims claimed =>
      by_cases heq : arn = arn'
      · left
        rcases claims with rfl | rfl <;> rw [heq] <;> rfl
      · exact absurd ((ActivityQueue.pendingOf_claim claimed).2 arn heq) h
    | report token output error cause q' accepted =>
      obtain ⟨rfl, -⟩ := ActivityQueue.report?_eq_some accepted
      exact absurd rfl h
    | take token report q' taken =>
      obtain ⟨-, rfl⟩ := ActivityQueue.takeReport?_eq_some taken
      exact absurd rfl h
    | cancel token =>
      right
      -- A cancellation that meets none of the pending work changes nothing.
      by_contra hnone
      refine h ?_
      simp only [ActivityQueue.pendingOf_cancel]
      rw [List.filter_eq_self]
      intro task htask
      rw [bne_iff_ne]
      rintro rfl
      exact hnone ⟨task, htask, rfl⟩

/-- Work is delivered first in, first out, at most once and without loss. -/
theorem delivers [Room] (ops : List ActivityQueue.Operation)
    (hfresh : (ops.filterMap (·.token?)).Nodup) :
    (∀ arn, (after ops).2.kept arn = (after ops).2.handed.on arn ++ (after ops).1.pendingOf arn) ∧
      (after ops).2.handed.tokens.Nodup ∧
      ∀ op arn, ((after ops).1.answer op).2.pendingOf arn ≠ (after ops).1.pendingOf arn →
        op.activity? = some arn ∨
          ∃ task ∈ (after ops).1.pendingOf arn, op = .cancelTask (.str task.token) := by
  have h : Balanced (after ops).1 (after ops).2 := balanced_empty.run ops hfresh
  exact ⟨h.balance, h.handedOnce, fun op arn => changed_by h.known⟩

def activityArn : String := "arn:aws:states:local:0123456789:activity:a"

/-- Two pieces of work, of which the first is cancelled and the second handed out. -/
def cancelFirst : List ActivityQueue.Operation :=
  [.createActivity "" (.str activityArn), .scheduleTask "1" (.str activityArn) (.str "{}"),
    .scheduleTask "2" (.str activityArn) (.str "{}"), .cancelTask (.str "1"),
    .getActivityTask (.str activityArn) .null]

theorem delivers_cancelFirst :
    (after cancelFirst).2.handed.tokens = ["2"] ∧
      (after cancelFirst).2.kept activityArn =
        (after cancelFirst).2.handed.on activityArn ++ (after cancelFirst).1.pendingOf activityArn := by
  refine ⟨?_, ?_⟩
  · decide +kernel
  · exact (delivers cancelFirst (by decide)).1 activityArn

end Ledger

end StatesLanguage
