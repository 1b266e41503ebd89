import Mathlib.Data.List.Induction
import StatesLanguage.Proofs.Tokens

/-!
# Work that outlives its token

Taking the report on a token settles the token but leaves its work where it is. What a queue still
holds of a token that is no longer live is therefore the work that was reported on, and settled,
before any worker was handed it.
-/

namespace StatesLanguage.Ledger

open ActivityQueue

section

variable [Room]

/-- The report on a token was taken before its work was handed out. -/
def TakenEarly (ops : List Operation) (token : String) : Prop :=
  ∃ earlier later, ops = earlier ++ .getResult (.str token) :: later ∧
    (∃ report : Report,
      ((after earlier).1.answer (.getResult (.str token))).1 = .ok report.toValue) ∧
    token ∉ (after earlier).2.handed.tokens

def Holds (q : ActivityQueue) (token : String) : Prop :=
  (∃ arn, ∃ task ∈ q.pendingOf arn, task.token = token) ∨ Table.has q.claimed token = true

theorem after_concat (ops : List Operation) (op : Operation) :
    after (ops ++ [op]) = Ledger.step (after ops) op := by
  simp [after]

theorem tokens_after (ops : List Operation) :
    (after ops).2.scheduled.tokens.Sublist (ops.filterMap (·.token?)) := by
  induction ops using List.reverseRecOn with
  | nil => exact List.Sublist.slnil
  | append_singleton earlier op ih =>
    have hlast : [op].filterMap (·.token?) = op.token?.toList := rfl
    rw [after_concat, List.filterMap_append, hlast]
    exact (tokens_add _ op _).trans (ih.append_right _)

theorem takenEarly_concat {ops : List Operation} {op : Operation} {token : String} :
    TakenEarly (ops ++ [op]) token ↔ TakenEarly ops token ∨
      op = .getResult (.str token) ∧
        (∃ report : Report, ((after ops).1.answer op).1 = .ok report.toValue) ∧
        token ∉ (after ops).2.handed.tokens := by
  constructor
  · rintro ⟨earlier, later, hsplit, hreport, hhanded⟩
    rcases List.eq_nil_or_concat later with rfl | ⟨later, last, rfl⟩
    · obtain ⟨rfl, hop⟩ := List.append_inj' hsplit rfl
      obtain rfl := List.singleton_inj.mp hop
      exact Or.inr ⟨rfl, hreport, hhanded⟩
    · rw [List.concat_eq_append, ← List.cons_append, ← List.append_assoc] at hsplit
      obtain ⟨rfl, -⟩ := List.append_inj' hsplit rfl
      exact Or.inl ⟨earlier, later, rfl, hreport, hhanded⟩
  · rintro (⟨earlier, later, rfl, hreport, hhanded⟩ | ⟨rfl, hreport, hhanded⟩)
    · exact ⟨earlier, later ++ [op], by simp, hreport, hhanded⟩
    · exact ⟨ops, [], rfl, hreport, hhanded⟩

theorem takenEarly_concat_eq {ops : List Operation} {op : Operation}
    (h : ∀ token (report : Report), op = .getResult (.str token) →
      ((after ops).1.answer op).1 ≠ .ok report.toValue) :
    TakenEarly (ops ++ [op]) = TakenEarly ops := by
  funext token
  refine propext (takenEarly_concat.trans (or_iff_left ?_))
  rintro ⟨hop, ⟨report, hreport⟩, -⟩
  exact h token report hop hreport

end

/-- What a queue knows of tokens, some of which were settled early. -/
structure Accounted (early : String → Prop) (q : ActivityQueue) (l : Ledger) : Prop where
  balanced : Balanced q l
  live_scheduled : ∀ token ∈ q.live, token ∈ l.scheduled.tokens
  reported_live : ∀ token, Table.has q.reports token = true → token ∈ q.live
  claimed_handed : ∀ token, Table.has q.claimed token = true → token ∈ l.handed.tokens
  held : ∀ token, Holds q token → token ∈ q.live ∨ early token
  settled : ∀ token, early token → token ∈ l.scheduled.tokens ∧ token ∉ q.live

namespace Accounted

variable {early early' : String → Prop} {q q' : ActivityQueue} {l l' : Ledger}
  {arn token : String} {task : ScheduledTask}

theorem schedule (h : Accounted early q l) (hknown : q'.Known)
    (hnew : task.token ∉ l.scheduled.tokens) (hqueued : q.schedule? arn task = some q') :
    Accounted early q' { l with scheduled := l.scheduled ++ [(arn, task)] } := by
  have hbalanced := h.balanced.schedule hknown hnew hqueued
  have hpending := pendingOf_schedule hqueued
  obtain ⟨rfl, -⟩ := schedule?_eq_some hqueued
  have htokens (token : String) : token ∈ Entries.tokens (l.scheduled ++ [(arn, task)]) ↔
      token ∈ l.scheduled.tokens ∨ token = task.token := by
    simp [Entries.tokens]
  refine ⟨hbalanced, ?_, ?_, h.claimed_handed, ?_, ?_⟩
  · intro token htoken
    rw [List.mem_append, List.mem_singleton] at htoken
    exact (htokens token).mpr (htoken.imp_left (h.live_scheduled token))
  · intro token htoken
    exact List.mem_append_left _ (h.reported_live token htoken)
  · rintro token (⟨arn', t, ht, rfl⟩ | hclaimed)
    · rw [hpending] at ht
      by_cases hsame : t.token = task.token
      · exact Or.inl (by simp [hsame])
      · have hbefore : ∃ arn, t ∈ q.pendingOf arn := by
          split at ht
          · rcases List.mem_append.mp ht with ht | ht
            · exact ⟨arn, ht⟩
            · exact absurd (congrArg ScheduledTask.token (List.mem_singleton.mp ht)) hsame
          · exact ⟨arn', ht⟩
        obtain ⟨arn'', ht⟩ := hbefore
        exact (h.held _ (Or.inl ⟨arn'', t, ht, rfl⟩)).imp_left (List.mem_append_left _)
    · exact (h.held token (Or.inr hclaimed)).imp_left (List.mem_append_left _)
  · intro token hearly
    obtain ⟨hscheduled, hlive⟩ := h.settled token hearly
    refine ⟨(htokens token).mpr (Or.inl hscheduled), ?_⟩
    rw [List.mem_append, List.mem_singleton, not_or]
    exact ⟨hlive, fun heq => hnew (heq ▸ hscheduled)⟩

theorem same_live (h : Accounted early q l) (hbalanced : Balanced q' l')
    (hscheduled : l'.scheduled = l.scheduled) (hlive : q'.live = q.live)
    (hreports : ∀ token, Table.has q'.reports token = true →
      Table.has q.reports token = true ∨ token ∈ q.live)
    (hclaimed : ∀ token, Table.has q'.claimed token = true → token ∈ l'.handed.tokens)
    (hholds : ∀ token, Holds q' token → Holds q token) : Accounted early q' l' := by
  refine ⟨hbalanced, ?_, ?_, hclaimed, ?_, ?_⟩
  · rw [hscheduled, hlive]
    exact h.live_scheduled
  · intro token htoken
    rw [hlive]
    exact (hreports token htoken).elim (h.reported_live token) id
  · intro token htoken
    rw [hlive]
    exact h.held token (hholds token htoken)
  · rw [hscheduled, hlive]
    exact h.settled

theorem addActivity (h : Accounted early q l) {activity : Activity}
    (hknown : (q.addActivity activity).Known) : Accounted early (q.addActivity activity) l := by
  have hpending := pendingOf_addActivity h.balanced.known activity
  have hbalanced := h.balanced.unchanged hknown hpending
  obtain ⟨hlive, hclaimed, hreports⟩ := same_addActivity q activity
  refine h.same_live hbalanced rfl hlive ?_ ?_ ?_
  · exact fun token htoken => Or.inl (hreports ▸ htoken)
  · exact fun token htoken => h.claimed_handed token (hclaimed ▸ htoken)
  · simp only [Holds, hpending, hclaimed]
    exact fun token htoken => htoken

theorem accept (h : Accounted early q l) {report : Report}
    (haccepted : q.report? token report = some q') : Accounted early q' l := by
  obtain ⟨rfl, hlive, -⟩ := report?_eq_some haccepted
  refine h.same_live (h.balanced.unchanged h.balanced.known fun _ => rfl) rfl rfl ?_
    h.claimed_handed fun _ htoken => htoken
  intro other hother
  rw [Table.has_put, Bool.or_eq_true, decide_eq_true_eq] at hother
  rcases hother with rfl | hother
  · exact Or.inr hlive
  · exact Or.inl hother

theorem claim (h : Accounted early q l) (hknown : q'.Known) {worker : Value}
    (hclaimed : q.claim? arn worker = some (task, q')) :
    Accounted early q' { l with handed := l.handed ++ [(arn, task)] } := by
  have hbalanced := h.balanced.handOut hknown hclaimed
  obtain ⟨hfirst, hothers⟩ := pendingOf_claim hclaimed
  have hpending (arn' : String) (t : ScheduledTask) (ht : t ∈ q'.pendingOf arn') :
      t ∈ q.pendingOf arn' := by
    by_cases harn : arn' = arn
    · rw [harn] at ht ⊢
      rw [hfirst]
      exact List.mem_cons_of_mem _ ht
    · rwa [hothers arn' harn] at ht
  obtain ⟨rest, -, rfl⟩ := claim?_eq_some hclaimed
  have hclaims (token : String) :
      Table.has (Table.put q.claimed task.token worker) token = true →
        token = task.token ∨ Table.has q.claimed token = true := by
    rw [Table.has_put, Bool.or_eq_true, decide_eq_true_eq]
    exact id
  refine h.same_live hbalanced rfl rfl (fun _ => Or.inl) ?_ ?_
  · intro token htoken
    simp only [Entries.tokens, List.map_append, List.mem_append, List.map_cons, List.map_nil,
      List.mem_singleton]
    exact (hclaims token htoken).symm.imp_left (h.claimed_handed token)
  · rintro token (⟨arn', t, ht, rfl⟩ | htoken)
    · exact Or.inl ⟨arn', t, hpending arn' t ht, rfl⟩
    · rcases hclaims token htoken with rfl | hbefore
      · refine Or.inl ⟨arn, task, ?_, rfl⟩
        rw [hfirst]
        exact List.mem_cons_self
      · exact Or.inr hbefore

theorem drop (h : Accounted early q l) (hbalanced : Balanced q' l')
    (hscheduled : l'.scheduled = l.scheduled) (hhanded : l'.handed = l.handed)
    (hpending : ∀ arn, ∀ task ∈ q'.pendingOf arn, task ∈ q.pendingOf arn)
    (hclaimed : q'.claimed = Table.erase q.claimed token)
    (hreports : q'.reports = Table.erase q.reports token)
    (hlive : q'.live = q.live.filter (· != token))
    (hmono : ∀ other, early other → early' other)
    (hearly : ∀ other, early' other → early other ∨ other = token ∧ token ∈ l.scheduled.tokens)
    (hleft : ∀ arn, ∀ task ∈ q'.pendingOf arn, task.token = token → early' token) :
    Accounted early' q' l' := by
  have herase {α : Type} (table : Table α) (other : String) :
      Table.has (Table.erase table token) other = true ↔
        other ≠ token ∧ Table.has table other = true := by
    rw [Table.has_erase, Bool.and_eq_true, Bool.not_eq_true', decide_eq_false_iff_not]
  refine ⟨hbalanced, ?_, ?_, ?_, ?_, ?_⟩
  · intro other hother
    rw [hlive, mem_live_filter] at hother
    rw [hscheduled]
    exact h.live_scheduled other hother.1
  · intro other hother
    rw [hreports, herase] at hother
    rw [hlive, mem_live_filter]
    exact ⟨h.reported_live other hother.2, hother.1⟩
  · intro other hother
    rw [hclaimed, herase] at hother
    rw [hhanded]
    exact h.claimed_handed other hother.2
  · intro other hother
    -- Of the token itself nothing but pending work can be left; of others nothing changes.
    by_cases hsame : other = token
    · subst hsame
      rcases hother with ⟨arn, task, htask, htoken⟩ | hclaim
      · exact Or.inr (hleft arn task htask htoken)
      · rw [hclaimed, herase] at hclaim
        exact absurd rfl hclaim.1
    · have hbefore : Holds q other := by
        rcases hother with ⟨arn, task, htask, htoken⟩ | hclaim
        · exact Or.inl ⟨arn, task, hpending arn task htask, htoken⟩
        · rw [hclaimed, herase] at hclaim
          exact Or.inr hclaim.2
      rcases h.held other hbefore with hmem | hsettled
      · left
        rw [hlive, mem_live_filter]
        exact ⟨hmem, hsame⟩
      · exact Or.inr (hmono other hsettled)
  · intro other hother
    rw [hscheduled, hlive, mem_live_filter]
    rcases hearly other hother with hbefore | ⟨rfl, hmem⟩
    · obtain ⟨hmem, hnot⟩ := h.settled other hbefore
      exact ⟨hmem, fun hlive => hnot hlive.1⟩
    · exact ⟨hmem, fun hlive => hlive.2 rfl⟩

variable [Room]

theorem step {ops : List Operation} {op : Operation} (hafter : after ops = (q, l))
    (h : Accounted (TakenEarly ops) q l)
    (hfresh : ∀ token, op.token? = some token → token ∉ l.scheduled.tokens) :
    Accounted (TakenEarly (ops ++ [op])) (Ledger.step (q, l) op).1 (Ledger.step (q, l) op).2 := by
  have hbalanced := h.balanced.step hfresh
  -- What gives no report back settles no token early.
  have hquiet (hnot : ∀ token (report : Report), op = .getResult (.str token) →
      (q.answer op).1 ≠ .ok report.toValue) : TakenEarly (ops ++ [op]) = TakenEarly ops :=
    takenEarly_concat_eq (by rwa [hafter])
  simp only [Ledger.step, answer] at hbalanced hquiet ⊢
  cases hperform : q.perform op with
  | error e =>
    simp only [hperform, add_error] at hquiet ⊢
    rw [hquiet (by simp)]
    exact h
  | ok result =>
    obtain ⟨v, q'⟩ := result
    simp only [hperform] at hbalanced hquiet ⊢
    have hdid := did_of_perform hperform
    have hknown := hdid.known h.balanced.known
    cases hdid with
    | create date name activity v arn =>
      rw [hquiet (by simp)]
      exact h.addActivity hknown
    | look op v lookup =>
      rcases lookup with ⟨arn, rfl⟩ | ⟨token, rfl⟩
      · rw [hquiet (by simp)]
        exact h
      · rw [hquiet (by simp)]
        exact h
    | schedule token arn input q' queued =>
      rw [hquiet (by simp)]
      exact h.schedule hknown (hfresh token rfl) queued
    | claim op arn worker task q' claims claimed =>
      rcases claims with rfl | rfl
      · rw [hquiet (by simp)]
        exact h.claim hknown claimed
      · rw [hquiet (by simp)]
        exact h.claim hknown claimed
    | noWork op arn worker claims idle =>
      simp only [add_noWork l claims]
      rcases claims with rfl | rfl
      · rw [hquiet (by simp)]
        exact h
      · rw [hquiet (by simp)]
        exact h
    | report token output error cause q' accepted =>
      rw [hquiet (by simp)]
      exact h.accept accepted
    | take token report q' taken =>
      obtain ⟨hreport, rfl⟩ := takeReport?_eq_some taken
      have hlive : token ∈ q.live := h.reported_live token (by simp [Table.has, hreport])
      refine h.drop hbalanced rfl rfl (fun _ _ htask => htask) rfl rfl rfl ?_ ?_ ?_
      · exact fun other hother => takenEarly_concat.mpr (Or.inl hother)
      · intro other hother
        rcases takenEarly_concat.mp hother with hbefore | ⟨hop, -⟩
        · exact Or.inl hbefore
        · cases hop
          exact Or.inr ⟨rfl, h.live_scheduled token hlive⟩
      · -- Work that is pending was not handed out.
        rintro arn task htask rfl
        refine takenEarly_concat.mpr (Or.inr ⟨rfl, ⟨report, ?_⟩, ?_⟩)
        · rw [hafter, answer, hperform]
        · rw [hafter]
          exact h.balanced.pending_not_handed htask
    | noReport token absent =>
      rw [hquiet fun _ report _ heq => by cases report <;> cases heq]
      exact h
    | cancel token =>
      rw [hquiet (by simp)]
      have hpending (arn : String) (task : ScheduledTask)
          (htask : task ∈ (q.cancel token).pendingOf arn) :
          task ∈ q.pendingOf arn ∧ task.token ≠ token := by
        rwa [pendingOf_cancel, List.mem_filter, bne_iff_ne] at htask
      refine h.drop hbalanced ?_ ?_ (fun arn task htask => (hpending arn task htask).1) rfl rfl rfl
        (fun _ => id) (fun _ => Or.inl) ?_
      · simp only [Ledger.add]
        split <;> rfl
      · simp only [Ledger.add]
        split <;> rfl
      · exact fun arn task htask htoken => absurd htoken (hpending arn task htask).2
    | noToken token noKey =>
      rw [hquiet (by simp)]
      simp only [add_noToken l noKey]
      exact h

theorem run (ops : List Operation) (hfresh : (ops.filterMap (·.token?)).Nodup) :
    Accounted (TakenEarly ops) (after ops).1 (after ops).2 := by
  induction ops using List.reverseRecOn with
  | nil =>
    refine ⟨balanced_empty, nofun, nofun, nofun, ?_, ?_⟩
    · rintro token (⟨arn, task, htask, -⟩ | hclaimed)
      · cases htask
      · cases hclaimed
    · rintro token ⟨earlier, later, hsplit, -⟩
      simp at hsplit
  | append_singleton earlier op ih =>
    rw [List.filterMap_append, List.nodup_append] at hfresh
    obtain ⟨hearlier, -, hdisjoint⟩ := hfresh
    rw [after_concat]
    refine (ih hearlier).step rfl fun token htoken hmem => ?_
    exact hdisjoint token ((tokens_after earlier).subset hmem) token (by simp [htoken]) rfl

end Accounted

theorem pending_of_given [Room] {q : ActivityQueue} {op : Operation} {token : String}
    (h : op.given? (q.answer op).1 = some token) :
    ∃ arn, ∃ task ∈ q.pendingOf arn, task.token = token := by
  unfold answer at h
  cases hperform : q.perform op with
  | error e =>
    rw [hperform] at h
    cases op <;> cases h
  | ok result =>
    obtain ⟨v, q'⟩ := result
    rw [hperform] at h
    cases did_of_perform hperform with
    | claim op arn worker task q' claims claimed =>
      have hgiven : op.given? (.ok task.toValue) = some task.token := by
        rcases claims with rfl | rfl <;> rfl
      refine ⟨arn, task, ?_, Option.some.inj (hgiven.symm.trans h)⟩
      rw [(pendingOf_claim claimed).1]
      exact List.mem_cons_self
    | look op v lookup => rcases lookup with ⟨arn, rfl⟩ | ⟨other, rfl⟩ <;> cases h
    | noWork op arn worker claims idle => rcases claims with rfl | rfl <;> cases h
    | create | schedule | report | take | noReport | cancel | noToken => cases h

/-- What a queue reports on is live. Of what it holds, or hands out, that is live which was not
settled before it was handed out. -/
theorem live_unless_taken_early [Room] (ops : List Operation)
    (hfresh : (ops.filterMap (·.token?)).Nodup) :
    (∀ token, Table.has (after ops).1.reports token = true → token ∈ (after ops).1.live) ∧
      (∀ token, Holds (after ops).1 token →
        (token ∈ (after ops).1.live ↔ ¬TakenEarly ops token)) ∧
      ∀ (op : Operation) token, op.given? ((after ops).1.answer op).1 = some token →
        (token ∈ (after ops).1.live ↔ ¬TakenEarly ops token) := by
  have h := Accounted.run ops hfresh
  have hheld (token : String) (hholds : Holds (after ops).1 token) :
      token ∈ (after ops).1.live ↔ ¬TakenEarly ops token :=
    ⟨fun hlive hearly => (h.settled token hearly).2 hlive, (h.held token hholds).resolve_right⟩
  exact ⟨h.reported_live, hheld, fun op token hgiven => hheld token (Or.inl (pending_of_given hgiven))⟩

/-- Work on which a report is taken before it is handed out. -/
def settleFirst : List Operation :=
  [.createActivity "" (.str activityArn), .scheduleTask "1" (.str activityArn) (.str "{}"),
    .enqueueResult (.str "1") (.str "1") .null .null, .getResult (.str "1")]

theorem settleFirst_hands_out_settled :
    (settleFirst.filterMap (·.token?)).Nodup ∧
      ((after settleFirst).1.pendingOf activityArn).map (·.token) = ["1"] ∧
      (after settleFirst).1.live = [] ∧
      Operation.given? (.getActivityTask (.str activityArn) .null)
        ((after settleFirst).1.answer (.getActivityTask (.str activityArn) .null)).1 = some "1" := by
  decide +kernel

theorem live_unless_taken_early_settleFirst :
    TakenEarly settleFirst "1" ∧ ¬TakenEarly cancelFirst "2" := by
  have hsettled := (live_unless_taken_early settleFirst (by decide)).2.2
    (.getActivityTask (.str activityArn) .null) "1" (by decide +kernel)
  have hclaimed := (live_unless_taken_early cancelFirst (by decide)).2.1 "2"
    (Or.inr (by decide +kernel))
  refine ⟨?_, hclaimed.mp (by decide +kernel)⟩
  by_contra hnot
  have hlive : "1" ∉ (after settleFirst).1.live := by decide +kernel
  exact hlive (hsettled.mpr hnot)

end StatesLanguage.Ledger
