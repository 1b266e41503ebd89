import StatesLanguage.Fresh
import StatesLanguage.Proofs.Delivery

/-!
# The life of tokens

A token is live from when its work is scheduled until its report is taken or the work is cancelled.
A queue on which workers report only on what was handed to them knows no other tokens.
-/

namespace StatesLanguage

theorem identifier_injective : Function.Injective identifier := by
  intro m n h
  have hvalue (k : Nat) : Nat.ofDigitChars 10 (List.replicate (12 - (Nat.toDigits 10 k).length) '0' ++
      Nat.toDigits 10 k) 0 = k := by
    rw [Nat.ofDigitChars_append, Nat.ofDigitChars_replicate_zero, Nat.mul_zero,
      Nat.ofDigitChars_ten_toDigits]
  have hdigits := String.ofList_injective ((String.append_right_inj _).mp h)
  rw [← hvalue m, ← hvalue n, hdigits]

namespace ActivityQueue

structure Forgot (q : ActivityQueue) (token : String) : Prop where
  pending : ∀ arn, ∀ task ∈ q.pendingOf arn, task.token ≠ token
  claimed : Table.has q.claimed token = false
  reports : Table.has q.reports token = false
  live : token ∉ q.live

/-- Nothing was done about a token. -/
structure Kept (q q' : ActivityQueue) (token : String) : Prop where
  live : token ∈ q'.live ↔ token ∈ q.live
  report : Table.get? q'.reports token = Table.get? q.reports token

theorem kept_refl (q : ActivityQueue) (token : String) : Kept q q token :=
  ⟨Iff.rfl, rfl⟩

theorem Kept.trans {q q' q'' : ActivityQueue} {token : String} (h : Kept q q' token)
    (h' : Kept q' q'' token) : Kept q q'' token :=
  ⟨h'.live.trans h.live, h'.report.trans h.report⟩

theorem mem_live_filter {q : ActivityQueue} {token other : String} :
    other ∈ q.live.filter (· != token) ↔ other ∈ q.live ∧ other ≠ token := by
  simp

/-- Whether a worker that holds some tokens makes such a request: workers do not schedule, take
reports or cancel, and they report only on what they were given. -/
def Operation.isWorkers (held : List String) : Operation → Bool
  | .scheduleTask .. | .getResult _ | .cancelTask _ => false
  | .enqueueResult (.str token) _ _ _ => held.contains token
  | _ => true

def Operation.given? : Operation → Outcome Value → Option String
  | .findPendingTask _ _, .ok v | .getActivityTask _ _, .ok v =>
    (ScheduledTask.ofValue? v).map (·.token)
  | _, _ => none

theorem answer_unknown [Room] {q : ActivityQueue} {token : String} (h : token ∉ q.live)
    (output error cause : Value) :
    (q.answer (.enqueueResult (.str token) output error cause)).1 =
      .error (invalidToken (.str token)) := by
  have hnone : q.report? token (Report.ofParts output error cause) = none := by
    simp [report?, h]
  have hperform : q.perform (.enqueueResult (.str token) output error cause) =
      .error (invalidToken (.str token)) := by
    have hkey : (Value.str token).asKey = .ok (some token) := rfl
    simp only [perform, hkey, Outcome.ok_bind, Option.bind_some, hnone]
    rfl
  rw [answer, hperform]

end ActivityQueue

/-! ## The queue and its ledger -/

/-- Only live tokens are known to the queue, and only work that was handed out is reported on. -/
structure Tidy (q : ActivityQueue) (l : Ledger) : Prop where
  balanced : Ledger.Balanced q l
  swept : ∀ token, token ∉ q.live → q.Forgot token
  reported : ∀ token, Table.has q.reports token = true → token ∈ l.handed.tokens

namespace Tidy

open ActivityQueue

variable {q q' : ActivityQueue} {l : Ledger} {arn token other : String} {task : ScheduledTask}
  {report : Report} {activity : Activity}

theorem handed_scheduled (h : Tidy q l) (htoken : token ∈ l.handed.tokens) :
    token ∈ l.scheduled.tokens := by
  obtain ⟨arn, task, hmem, rfl⟩ := Entries.mem_tokens.mp htoken
  exact Entries.mem_tokens.mpr ⟨arn, task, h.balanced.handed_scheduled hmem, rfl⟩

theorem not_reported (h : Tidy q l) (hnew : token ∉ l.scheduled.tokens) :
    Table.get? q.reports token = none := by
  by_contra hsome
  have hhas : Table.has q.reports token = true := Option.isSome_iff_ne_none.mpr hsome
  exact hnew (h.handed_scheduled (h.reported token hhas))

theorem schedule (h : Tidy q l) (hnew : task.token ∉ l.scheduled.tokens)
    (hqueued : q.schedule? arn task = some q') :
    Tidy q' { l with scheduled := l.scheduled ++ [(arn, task)] } ∧ task.token ∈ q'.live ∧
      ∀ other, other ≠ task.token → Kept q q' other := by
  have hknown := (Did.schedule task.token arn task.input q' hqueued).known h.balanced.known
  have hbalanced := h.balanced.schedule hknown hnew hqueued
  have hpending := pendingOf_schedule hqueued
  obtain ⟨rfl, -⟩ := schedule?_eq_some hqueued
  refine ⟨⟨hbalanced, ?_, h.reported⟩, by simp, ?_⟩
  · intro other hother
    simp only [List.mem_append, List.mem_singleton, not_or] at hother
    obtain ⟨hpend, hclaimed, hreports, -⟩ := h.swept other hother.1
    refine ⟨?_, hclaimed, hreports, by simpa using hother⟩
    intro arn' t ht
    rw [hpending] at ht
    split at ht
    · rcases List.mem_append.mp ht with ht | ht
      · exact hpend arn t ht
      · obtain rfl := List.mem_singleton.mp ht
        exact Ne.symm hother.2
    · exact hpend arn' t ht
  · intro other hother
    exact ⟨by simp [hother], rfl⟩

theorem drop {l' : Ledger} (h : Tidy q l) (hbalanced : Ledger.Balanced q' l')
    (hhanded : l'.handed = l.handed)
    (hpending : ∀ arn, ∀ task ∈ q'.pendingOf arn, task ∈ q.pendingOf arn ∧ task.token ≠ token)
    (hclaimed : q'.claimed = Table.erase q.claimed token)
    (hreports : q'.reports = Table.erase q.reports token)
    (hlive : q'.live = q.live.filter (· != token)) :
    Tidy q' l' ∧ token ∉ q'.live ∧ ∀ other, other ≠ token → Kept q q' other := by
  refine ⟨⟨hbalanced, ?_, ?_⟩, ?_, ?_⟩
  · intro other hother
    by_cases hsame : other = token
    · subst hsame
      refine ⟨fun arn task htask => (hpending arn task htask).2, ?_, ?_, hother⟩
      · simp [hclaimed, Table.has_erase]
      · simp [hreports, Table.has_erase]
    · have hbefore : other ∉ q.live := by
        intro hmem
        apply hother
        rw [hlive, mem_live_filter]
        exact ⟨hmem, hsame⟩
      obtain ⟨hpend, hclaim, hreport, -⟩ := h.swept other hbefore
      refine ⟨fun arn task htask => hpend arn task (hpending arn task htask).1, ?_, ?_, hother⟩
      · rw [hclaimed, Table.has_erase, hclaim, Bool.and_false]
      · rw [hreports, Table.has_erase, hreport, Bool.and_false]
  · intro other hother
    rw [hreports, Table.has_erase, Bool.and_eq_true] at hother
    rw [hhanded]
    exact h.reported other hother.2
  · rw [hlive, mem_live_filter]
    exact fun hmem => hmem.2 rfl
  · intro other hother
    refine ⟨?_, ?_⟩
    · rw [hlive, mem_live_filter]
      exact and_iff_left hother
    · rw [hreports, Table.get?_erase, if_neg hother]

theorem take (h : Tidy q l) (htaken : q.takeReport? token = some (report, q')) :
    Tidy q' l ∧ token ∉ q'.live ∧ ∀ other, other ≠ token → Kept q q' other := by
  have hknown := (Did.take token report q' htaken).known h.balanced.known
  obtain ⟨hreport, rfl⟩ := takeReport?_eq_some htaken
  refine h.drop (h.balanced.unchanged hknown fun _ => rfl) rfl ?_ rfl rfl rfl
  intro arn task htask
  refine ⟨htask, ?_⟩
  -- What is reported on was handed out, and so is no longer pending.
  rintro rfl
  exact h.balanced.pending_not_handed htask (h.reported _ (by simp [Table.has, hreport]))

theorem cancel (h : Tidy q l) (token : String) :
    ∃ l', l'.scheduled = l.scheduled ∧ l'.handed = l.handed ∧ Tidy (q.cancel token) l' ∧
      token ∉ (q.cancel token).live ∧
      ∀ other, other ≠ token → Kept q (q.cancel token) other := by
  have hknown := (Did.cancel token).known h.balanced.known
  refine ⟨_, ?_, ?_, h.drop (h.balanced.withdraw hknown) ?_ ?_ rfl rfl rfl⟩
  · split <;> rfl
  · split <;> rfl
  · split <;> rfl
  · intro arn task htask
    rw [pendingOf_cancel, List.mem_filter, bne_iff_ne] at htask
    exact htask

theorem pending_live (h : Tidy q l) (htask : task ∈ q.pendingOf arn) : task.token ∈ q.live := by
  by_contra hnot
  exact (h.swept task.token hnot).pending arn task htask rfl

theorem same_live {l' : Ledger} (h : Tidy q l) (hbalanced : Ledger.Balanced q' l')
    (hlive : q'.live = q.live)
    (hpending : ∀ arn, ∀ task ∈ q'.pendingOf arn, task ∈ q.pendingOf arn)
    (hclaimed : ∀ token, Table.has q'.claimed token = true →
      Table.has q.claimed token = true ∨ token ∈ q.live)
    (hreports : ∀ token, Table.has q'.reports token = true →
      Table.has q.reports token = true ∨ token ∈ q.live)
    (hreported : ∀ token, Table.has q'.reports token = true → token ∈ l'.handed.tokens) :
    Tidy q' l' := by
  refine ⟨hbalanced, ?_, hreported⟩
  intro token htoken
  rw [hlive] at htoken
  obtain ⟨hpend, hclaim, hreport, -⟩ := h.swept token htoken
  refine ⟨fun arn task htask => hpend arn task (hpending arn task htask), ?_, ?_, hlive ▸ htoken⟩
  · rw [← Bool.not_eq_true]
    intro hnow
    rcases hclaimed token hnow with hbefore | hmem
    · rw [hclaim] at hbefore
      cases hbefore
    · exact htoken hmem
  · rw [← Bool.not_eq_true]
    intro hnow
    rcases hreports token hnow with hbefore | hmem
    · rw [hreport] at hbefore
      cases hbefore
    · exact htoken hmem

theorem addActivity (h : Tidy q l) (hknown : (q.addActivity activity).Known) :
    Tidy (q.addActivity activity) l := by
  have hpending := pendingOf_addActivity h.balanced.known activity
  have hbalanced := h.balanced.unchanged hknown hpending
  obtain ⟨hlive, hclaimed, hreports⟩ := same_addActivity q activity
  refine h.same_live hbalanced hlive ?_ ?_ ?_ ?_
  · intro arn task htask
    rwa [hpending] at htask
  · exact fun token htoken => Or.inl (hclaimed ▸ htoken)
  · exact fun token htoken => Or.inl (hreports ▸ htoken)
  · exact fun token htoken => h.reported token (hreports ▸ htoken)

theorem claim (h : Tidy q l) {worker : Value} (hclaimed : q.claim? arn worker = some (task, q')) :
    Tidy q' { l with handed := l.handed ++ [(arn, task)] } := by
  have hknown :=
    (Did.claim _ arn worker task q' (Or.inl rfl) hclaimed).known h.balanced.known
  have hbalanced := h.balanced.handOut hknown hclaimed
  obtain ⟨hfirst, hothers⟩ := pendingOf_claim hclaimed
  have hlive : task.token ∈ q.live := by
    have hmem : task ∈ q.pendingOf arn := by
      rw [hfirst]
      exact List.mem_cons_self
    exact h.pending_live hmem
  obtain ⟨rest, -, rfl⟩ := claim?_eq_some hclaimed
  refine h.same_live hbalanced rfl ?_ ?_ (fun token htoken => Or.inl htoken) ?_
  · intro arn' t ht
    by_cases harn : arn' = arn
    · rw [harn] at ht ⊢
      rw [hfirst]
      exact List.mem_cons_of_mem _ ht
    · rwa [hothers arn' harn] at ht
  · intro token htoken
    rw [Table.has_put, Bool.or_eq_true, decide_eq_true_eq] at htoken
    rcases htoken with rfl | htoken
    · exact Or.inr hlive
    · exact Or.inl htoken
  · intro token htoken
    have := h.reported token htoken
    simp only [Entries.tokens, List.map_append, List.mem_append] at this ⊢
    exact Or.inl this

theorem accept (h : Tidy q l) (hhanded : token ∈ l.handed.tokens)
    (haccepted : q.report? token report = some q') : Tidy q' l := by
  obtain ⟨rfl, hlive, -⟩ := report?_eq_some haccepted
  refine h.same_live (h.balanced.unchanged h.balanced.known fun _ => rfl) rfl (fun _ _ ht => ht)
    (fun _ ht => Or.inl ht) ?_ ?_
  · intro other hother
    rw [Table.has_put, Bool.or_eq_true, decide_eq_true_eq] at hother
    rcases hother with rfl | hother
    · exact Or.inr hlive
    · exact Or.inl hother
  · intro other hother
    rw [Table.has_put, Bool.or_eq_true, decide_eq_true_eq] at hother
    rcases hother with rfl | hother
    · exact hhanded
    · exact h.reported other hother

theorem requested {held : List String} {op : Operation} {v : Value} (h : Tidy q l)
    (hheld : ∀ token ∈ held, token ∈ l.handed.tokens) (hop : op.isWorkers held = true)
    (hdid : Did q op v q') :
    (∃ l', l'.scheduled = l.scheduled ∧ Tidy q' l' ∧
      ∀ token ∈ held ++ (op.given? (.ok v)).toList, token ∈ l'.handed.tokens) ∧
    q'.live = q.live ∧
    ∀ token r, Table.get? q.reports token = some r → Table.get? q'.reports token = some r := by
  have hknown := hdid.known h.balanced.known
  cases hdid with
  | create date name activity v arn =>
    obtain ⟨hlive, -, hreports⟩ := same_addActivity q activity
    refine ⟨⟨l, rfl, h.addActivity hknown, by simpa [Operation.given?] using hheld⟩, hlive, ?_⟩
    exact fun token r hr => by rwa [hreports]
  | look op v lookup =>
    have hgiven : op.given? (.ok v) = none := by
      rcases lookup with ⟨arn, rfl⟩ | ⟨token, rfl⟩ <;> rfl
    exact ⟨⟨l, rfl, h, by simpa [hgiven] using hheld⟩, rfl, fun _ _ hr => hr⟩
  | claim op arn worker task q' claims claimed =>
    have hgiven : op.given? (.ok task.toValue) = some task.token := by
      rcases claims with rfl | rfl <;> rfl
    have htidy := h.claim claimed
    obtain ⟨rest, -, rfl⟩ := claim?_eq_some claimed
    refine ⟨⟨{ l with handed := l.handed ++ [(arn, task)] }, rfl, htidy, ?_⟩, rfl, fun _ _ hr => hr⟩
    intro token htoken
    rw [hgiven] at htoken
    simp only [Entries.tokens, List.map_append, List.mem_append] at hheld htoken ⊢
    exact htoken.imp (hheld token) id
  | noWork op arn worker claims idle =>
    have hgiven : op.given? (.ok .null) = none := by
      rcases claims with rfl | rfl <;> rfl
    exact ⟨⟨l, rfl, h, by simpa [hgiven] using hheld⟩, rfl, fun _ _ hr => hr⟩
  | report token output error cause q' accepted =>
    -- Workers report on what they hold, and that was handed out.
    have hhanded := hheld token (by simpa [Operation.isWorkers] using hop)
    refine ⟨⟨l, rfl, h.accept hhanded accepted, by simpa [Operation.given?] using hheld⟩, ?_, ?_⟩
    · obtain ⟨rfl, -, -⟩ := report?_eq_some accepted
      rfl
    · obtain ⟨rfl, -, hnone⟩ := report?_eq_some accepted
      intro other r hr
      have hne : other ≠ token := by
        rintro rfl
        rw [hnone] at hr
        cases hr
      rw [Table.get?_put, if_neg hne, hr]
  | schedule | take | noReport | cancel | noToken => cases hop

end Tidy

end StatesLanguage
