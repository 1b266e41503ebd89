import StatesLanguage.ActivityQueue
import StatesLanguage.Proofs.Process
import StatesLanguage.Proofs.Table

/-!
# Operations of activity queues

What an operation that does not fail can do, said once, and what each of these does to the tables of
the queue.
-/

namespace StatesLanguage.ActivityQueue

def pendingOf (q : ActivityQueue) (arn : String) : List ScheduledTask :=
  (Table.get? q.pending arn).getD []

def answer [Room] (q : ActivityQueue) (op : Operation) : Outcome Value × ActivityQueue :=
  match q.perform op with
  | .ok (v, q') => (.ok v, q')
  | .error e => (.error e, q)

/-- What an operation did to the queue, and what it was answered. -/
inductive Did (q : ActivityQueue) : Operation → Value → ActivityQueue → Prop
  | create (date name : String) (activity : Activity) (v : Value) (arn : activity.arn = name) :
      Did q (.createActivity date (.str name)) v (q.addActivity activity)
  | look (op : Operation) (v : Value)
      (lookup : (∃ arn, op = .hasActivity arn) ∨ ∃ token, op = .isClaimed token) : Did q op v q
  | schedule (token arn : String) (input : Value) (q' : ActivityQueue)
      (queued : q.schedule? arn ⟨token, input⟩ = some q') :
      Did q (.scheduleTask token (.str arn) input) (.str token) q'
  | claim (op : Operation) (arn : String) (worker : Value) (task : ScheduledTask)
      (q' : ActivityQueue) (claims : op = .findPendingTask (.str arn) worker ∨
        op = .getActivityTask (.str arn) worker) (claimed : q.claim? arn worker = some (task, q')) :
      Did q op task.toValue q'
  | noWork (op : Operation) (arn worker : Value) (claims : op = .findPendingTask arn worker ∨
      op = .getActivityTask arn worker) (idle : ∀ s, arn = .str s → q.pendingOf s = []) :
      Did q op .null q
  | report (token : String) (output error cause : Value) (q' : ActivityQueue)
      (accepted : q.report? token (Report.ofParts output error cause) = some q') :
      Did q (.enqueueResult (.str token) output error cause) .null q'
  | take (token : String) (report : Report) (q' : ActivityQueue)
      (taken : q.takeReport? token = some (report, q')) :
      Did q (.getResult (.str token)) report.toValue q'
  | noReport (token : Value) (absent : ∀ s, token = .str s → Table.get? q.reports s = none) :
      Did q (.getResult token) .null q
  | cancel (token : String) : Did q (.cancelTask (.str token)) .null (q.cancel token)
  | noToken (token : Value) (noKey : token.asKey = .ok none) : Did q (.cancelTask token) .null q

theorem bind_asKey {α : Type} {v : Value} {f : Option String → Outcome α} {a : α}
    (h : v.asKey >>= f = .ok a) :
    (∃ s, v = .str s ∧ f (some s) = .ok a) ∨ v.asKey = .ok none ∧ f none = .ok a := by
  obtain ⟨key, hkey, h⟩ := Outcome.bind_eq_ok.mp h
  cases key with
  | none => exact Or.inr ⟨hkey, h⟩
  | some s => exact Or.inl ⟨s, Value.eq_str_of_asKey hkey, h⟩

theorem not_str_of_asKey {v : Value} (h : v.asKey = .ok none) (s : String) : v ≠ .str s := by
  rintro rfl
  cases h

theorem pendingOf_of_claim?_eq_none {q : ActivityQueue} {arn : String} {worker : Value}
    (h : q.claim? arn worker = none) : q.pendingOf arn = [] := by
  unfold claim? at h
  split at h
  · cases h
  · rename_i hnot
    cases hget : Table.get? q.pending arn with
    | none => simp [pendingOf, hget]
    | some tasks =>
      cases tasks with
      | nil => simp [pendingOf, hget]
      | cons task rest => exact absurd hget (hnot task rest)

theorem did_find {q q' : ActivityQueue} {op : Operation} {arn worker v : Value}
    (hop : op = .findPendingTask arn worker ∨ op = .getActivityTask arn worker)
    (h : q.findPendingTask arn worker = .ok (v, q')) : Did q op v q' := by
  unfold findPendingTask at h
  rcases bind_asKey h with ⟨s, rfl, hfound⟩ | ⟨hkey, hfound⟩
  · cases hclaim : q.claim? s worker with
    | none =>
      simp only [Option.bind_some, hclaim] at hfound
      cases hfound
      refine .noWork op (.str s) worker hop ?_
      rintro _ ⟨rfl⟩
      exact pendingOf_of_claim?_eq_none hclaim
    | some found =>
      obtain ⟨task, q₁⟩ := found
      simp only [Option.bind_some, hclaim] at hfound
      cases hfound
      exact .claim op s worker task q' hop hclaim
  · cases hfound
    exact .noWork op arn worker hop fun s hs => absurd hs (not_str_of_asKey hkey s)

theorem did_of_perform [Room] {q q' : ActivityQueue} {op : Operation} {v : Value}
    (h : q.perform op = .ok (v, q')) : Did q op v q' := by
  cases op with
  | createActivity date arn =>
    cases arn with
    | str name =>
      simp only [perform] at h
      split at h
      · cases h
        exact .create date name _ _ rfl
      · cases h
    | _ => cases h
  | hasActivity arn =>
    obtain ⟨key, -, h⟩ := Outcome.bind_eq_ok.mp h
    cases h
    exact .look _ _ (Or.inl ⟨arn, rfl⟩)
  | scheduleTask token arn input =>
    rcases bind_asKey h with ⟨s, rfl, h⟩ | ⟨-, h⟩
    · cases hqueue : q.schedule? s ⟨token, input⟩ with
      | none =>
        simp only [Option.bind_some, hqueue] at h
        cases h
      | some q₁ =>
        simp only [Option.bind_some, hqueue] at h
        cases h
        exact .schedule token s input q' hqueue
    · cases h
  | findPendingTask arn worker => exact did_find (Or.inl rfl) h
  | getActivityTask arn worker =>
    -- The guards are about the request; what passes them all is a search like any other.
    unfold perform getActivityTask at h
    obtain ⟨-, h⟩ := Outcome.of_guard h
    obtain ⟨-, h⟩ := Outcome.of_guard h
    obtain ⟨-, h⟩ := Outcome.of_guard h
    obtain ⟨key, -, h⟩ := Outcome.bind_eq_ok.mp h
    obtain ⟨-, h⟩ := Outcome.of_guard h
    exact did_find (Or.inr rfl) h
  | isClaimed token =>
    obtain ⟨key, -, h⟩ := Outcome.bind_eq_ok.mp h
    cases h
    exact .look _ _ (Or.inr ⟨token, rfl⟩)
  | enqueueResult token output error cause =>
    rcases bind_asKey h with ⟨s, rfl, h⟩ | ⟨-, h⟩
    · cases hreport : q.report? s (Report.ofParts output error cause) with
      | none =>
        simp only [Option.bind_some, hreport] at h
        cases h
      | some q₁ =>
        simp only [Option.bind_some, hreport] at h
        cases h
        exact .report s output error cause q' hreport
    · cases h
  | getResult token =>
    simp only [perform] at h
    split at h
    · rename_i hempty
      cases h
      refine .noReport token fun s _ => ?_
      rw [List.isEmpty_iff.mp hempty]
      rfl
    · rcases bind_asKey h with ⟨s, rfl, hfound⟩ | ⟨hkey, hfound⟩
      · cases htake : q.takeReport? s with
        | none =>
          simp only [Option.bind_some, htake] at hfound
          cases hfound
          refine .noReport _ ?_
          rintro _ ⟨rfl⟩
          exact Option.map_eq_none_iff.mp htake
        | some found =>
          obtain ⟨report, q₁⟩ := found
          simp only [Option.bind_some, htake] at hfound
          cases hfound
          exact .take s report q' htake
      · cases hfound
        exact .noReport token fun s hs => absurd hs (not_str_of_asKey hkey s)
  | cancelTask token =>
    rcases bind_asKey h with ⟨s, rfl, hfound⟩ | ⟨hkey, hfound⟩
    · cases hfound
      exact .cancel s
    · cases hfound
      exact .noToken token hkey

/-! ## Pending work -/

/-- Only activities have a queue. -/
def Known (q : ActivityQueue) : Prop :=
  ∀ arn, (Table.get? q.pending arn).isSome → Table.has q.activities arn = true

section Pending

variable {q q' : ActivityQueue} {arn : String}

theorem same_addActivity (q : ActivityQueue) (activity : Activity) :
    (q.addActivity activity).live = q.live ∧ (q.addActivity activity).claimed = q.claimed ∧
      (q.addActivity activity).reports = q.reports := by
  unfold addActivity
  split <;> exact ⟨rfl, rfl, rfl⟩

theorem pendingOf_addActivity (hknown : q.Known) (activity : Activity) (other : String) :
    (q.addActivity activity).pendingOf other = q.pendingOf other := by
  unfold addActivity
  split
  · rfl
  · rename_i hnew
    simp only [pendingOf, Table.get?_put]
    split
    · rename_i heq
      subst heq
      cases hget : Table.get? q.pending activity.arn with
      | none => rfl
      | some tasks => exact absurd (hknown activity.arn (by rw [hget]; rfl)) hnew
    · rfl

theorem schedule?_eq_some {task : ScheduledTask} (h : q.schedule? arn task = some q') :
    q' = { q with
      pending := Table.put q.pending arn (q.pendingOf arn ++ [task])
      live := q.live ++ [task.token] } ∧ (Table.get? q.pending arn).isSome := by
  unfold schedule? at h
  cases hget : Table.get? q.pending arn with
  | none =>
    rw [hget] at h
    cases h
  | some tasks =>
    rw [hget] at h
    cases h
    simp [pendingOf, hget]

theorem pendingOf_schedule {task : ScheduledTask} (h : q.schedule? arn task = some q')
    (other : String) :
    q'.pendingOf other = if other = arn then q.pendingOf arn ++ [task] else q.pendingOf other := by
  obtain ⟨rfl, -⟩ := schedule?_eq_some h
  simp only [pendingOf, Table.get?_put]
  split <;> rfl

theorem claim?_eq_some {worker : Value} {task : ScheduledTask}
    (h : q.claim? arn worker = some (task, q')) :
    ∃ rest, Table.get? q.pending arn = some (task :: rest) ∧ q' = { q with
      pending := Table.put q.pending arn rest
      claimed := Table.put q.claimed task.token worker } := by
  unfold claim? at h
  split at h
  · rename_i task' rest hget
    cases h
    exact ⟨rest, hget, rfl⟩
  · cases h

theorem pendingOf_claim {worker : Value} {task : ScheduledTask}
    (h : q.claim? arn worker = some (task, q')) :
    q.pendingOf arn = task :: q'.pendingOf arn ∧
      ∀ other, other ≠ arn → q'.pendingOf other = q.pendingOf other := by
  obtain ⟨rest, hget, rfl⟩ := claim?_eq_some h
  refine ⟨?_, ?_⟩
  · simp [pendingOf, hget, Table.get?_put]
  · intro other hother
    simp only [pendingOf, Table.get?_put, if_neg hother]

theorem pendingOf_cancel (q : ActivityQueue) (token other : String) :
    (q.cancel token).pendingOf other = (q.pendingOf other).filter (·.token != token) := by
  have h := Table.get?_map q.pending (fun tasks => tasks.filter (·.token != token)) other
  simp only [pendingOf, cancel]
  rw [h]
  cases Table.get? q.pending other <;> rfl

theorem report?_eq_some {token : String} {report : Report} (h : q.report? token report = some q') :
    q' = { q with reports := Table.put q.reports token report } ∧ token ∈ q.live ∧
      Table.get? q.reports token = none := by
  unfold report? at h
  split at h
  · rename_i hlive
    cases h
    simp only [Bool.and_eq_true, List.contains_eq_mem, decide_eq_true_eq, Bool.not_eq_true',
      Table.has, Option.isSome_eq_false_iff, Option.isNone_iff_eq_none] at hlive
    exact ⟨rfl, hlive⟩
  · cases h

theorem takeReport?_eq_some {token : String} {report : Report}
    (h : q.takeReport? token = some (report, q')) :
    Table.get? q.reports token = some report ∧ q' = { q with
      claimed := Table.erase q.claimed token
      reports := Table.erase q.reports token
      live := q.live.filter (· != token) } := by
  unfold takeReport? at h
  cases hget : Table.get? q.reports token with
  | none =>
    rw [hget] at h
    cases h
  | some found =>
    rw [hget] at h
    cases h
    exact ⟨rfl, rfl⟩

end Pending

theorem known_empty : empty.Known := by
  intro arn h
  cases h

theorem Did.known {q q' : ActivityQueue} {op : Operation} {v : Value} (h : Did q op v q')
    (hknown : q.Known) : q'.Known := by
  cases h with
  | create date name activity v arn =>
    unfold addActivity
    split
    · exact hknown
    · intro other hother
      simp only [Table.get?_put] at hother
      simp only [Table.has_put]
      split at hother
      · simp [*]
      · simp [hknown other hother]
  | schedule token arn input q' queued =>
    obtain ⟨rfl, hsome⟩ := schedule?_eq_some queued
    intro other hother
    simp only [Table.get?_put] at hother
    split at hother
    · rename_i heq
      rw [heq]
      exact hknown arn hsome
    · exact hknown other hother
  | claim op arn worker task q' claims claimed =>
    obtain ⟨rest, hget, rfl⟩ := claim?_eq_some claimed
    intro other hother
    simp only [Table.get?_put] at hother
    split at hother
    · rename_i heq
      rw [heq]
      exact hknown arn (by rw [hget]; rfl)
    · exact hknown other hother
  | report token output error cause q' accepted =>
    obtain ⟨rfl, -⟩ := report?_eq_some accepted
    exact hknown
  | take token report q' taken =>
    obtain ⟨-, rfl⟩ := takeReport?_eq_some taken
    exact hknown
  | cancel token =>
    intro other hother
    have hget := Table.get?_map q.pending (fun tasks => tasks.filter (·.token != token)) other
    simp only [ActivityQueue.cancel] at hother
    rw [hget, Option.isSome_map] at hother
    exact hknown other hother
  | look | noWork | noReport | noToken => exact hknown

end StatesLanguage.ActivityQueue
