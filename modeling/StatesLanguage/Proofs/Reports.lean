import Mathlib.Data.List.Induction
import StatesLanguage.Proofs.Tokens

/-!
# Reports on work

The life of one token, read off the answers that operations were given: its work is awaited, then a
report is accepted, then that report is taken. A token that was settled or cancelled is refused from
then on.
-/

namespace StatesLanguage

theorem Report.ofParts_of_ne {output error cause : Value} (h : error ≠ .null ∨ cause ≠ .null) :
    Report.ofParts output error cause = .failure error cause := by
  unfold Report.ofParts
  split
  · simp at h
  · rfl

namespace ActivityQueue

structure Exchange where
  op : Operation
  reply : Outcome Value

namespace Exchange

/-- The report on a token that was accepted. -/
def accepted? (token : String) : Exchange → Option Report
  | ⟨.enqueueResult (.str other) output error cause, .ok _⟩ =>
    if other = token then some (.ofParts output error cause) else none
  | _ => none

/-- The report on a token that was given back. -/
def taken? (token : String) : Exchange → Option Value
  | ⟨.getResult (.str other), .ok v⟩ =>
    if other = token && !(v matches .null) then some v else none
  | _ => none

end Exchange

def accepted (token : String) (log : List Exchange) : List Report :=
  log.filterMap (·.accepted? token)

def taken (token : String) (log : List Exchange) : List Value :=
  log.filterMap (·.taken? token)

section

variable [Room]

def converse (s : ActivityQueue × List Exchange) (op : Operation) :
    ActivityQueue × List Exchange :=
  ((s.1.answer op).2, s.2 ++ [⟨op, (s.1.answer op).1⟩])

def conversation (ops : List Operation) : ActivityQueue × List Exchange :=
  ops.foldl converse (empty, [])

theorem conversation_concat (ops : List Operation) (op : Operation) :
    conversation (ops ++ [op]) = converse (conversation ops) op := by
  simp [conversation]

end

/-! ## Tokens that are refused -/

/-- No report on the token is accepted or given back. -/
structure Gone (q : ActivityQueue) (token : String) : Prop where
  live : token ∉ q.live
  report : Table.get? q.reports token = none

section Refused

variable {q q' : ActivityQueue} {op : Operation} {token : String}

theorem Gone.kept (h : q.Gone token) (hkept : Kept q q' token) : q'.Gone token :=
  ⟨fun hlive => h.live (hkept.live.mp hlive), hkept.report.trans h.report⟩

theorem gone_cancel (q : ActivityQueue) (token : String) : (q.cancel token).Gone token :=
  ⟨by simp [ActivityQueue.cancel], by simp [ActivityQueue.cancel, Table.get?_erase]⟩

theorem gone_take {report : Report} (h : q.takeReport? token = some (report, q')) :
    q'.Gone token := by
  obtain ⟨-, rfl⟩ := takeReport?_eq_some h
  exact ⟨by simp, by simp [Table.get?_erase]⟩

theorem kept_addActivity (q : ActivityQueue) (activity : Activity) (token : String) :
    Kept q (q.addActivity activity) token := by
  obtain ⟨hlive, -, hreports⟩ := same_addActivity q activity
  exact ⟨by rw [hlive], by rw [hreports]⟩

theorem kept_schedule {arn : String} {task : ScheduledTask} (h : q.schedule? arn task = some q')
    (hother : task.token ≠ token) : Kept q q' token := by
  obtain ⟨rfl, -⟩ := schedule?_eq_some h
  exact ⟨by simp [Ne.symm hother], rfl⟩

theorem kept_claim {arn : String} {worker : Value} {task : ScheduledTask}
    (h : q.claim? arn worker = some (task, q')) : Kept q q' token := by
  obtain ⟨rest, -, rfl⟩ := claim?_eq_some h
  exact ⟨Iff.rfl, rfl⟩

theorem kept_report {other : String} {report : Report} (h : q.report? other report = some q')
    (hother : other ≠ token) : Kept q q' token := by
  obtain ⟨rfl, -, -⟩ := report?_eq_some h
  exact ⟨Iff.rfl, by rw [Table.get?_put, if_neg (Ne.symm hother)]⟩

theorem kept_take {other : String} {report : Report}
    (h : q.takeReport? other = some (report, q')) (hother : other ≠ token) : Kept q q' token := by
  obtain ⟨-, rfl⟩ := takeReport?_eq_some h
  exact ⟨by simp [Ne.symm hother], by rw [Table.get?_erase, if_neg (Ne.symm hother)]⟩

theorem kept_cancel (q : ActivityQueue) {other : String} (hother : other ≠ token) :
    Kept q (q.cancel other) token :=
  ⟨by simp [ActivityQueue.cancel, Ne.symm hother],
    by simp only [ActivityQueue.cancel, Table.get?_erase, if_neg (Ne.symm hother)]⟩

variable [Room]

theorem answer_of_error {e : Failure} (h : (q.answer op).1 = .error e) : (q.answer op).2 = q := by
  unfold answer at h ⊢
  split at h
  · cases h
  · rfl

theorem Gone.refuses (h : q.Gone token) (output error cause : Value) :
    q.answer (.enqueueResult (.str token) output error cause) =
      (.error (invalidToken (.str token)), q) := by
  have herror := answer_unknown h.live output error cause
  exact Prod.ext herror (answer_of_error herror)

theorem Gone.gives_nothing (h : q.Gone token) :
    q.answer (.getResult (.str token)) = (.ok .null, q) := by
  have hkey : (Value.str token).asKey = .ok (some token) := rfl
  have hnone : q.takeReport? token = none := by simp [takeReport?, h.report]
  have hperform : q.perform (.getResult (.str token)) = .ok (.null, q) := by
    simp only [perform]
    split
    · rfl
    · simp only [hkey, Outcome.ok_bind, Option.bind_some, hnone]
      rfl
  rw [answer, hperform]

end Refused

/-! ## The life of a token -/

/-- How far a token has come: the tokens that were asked for, the queue, and what was accepted and
taken of the token. -/
inductive Stage (token : String) (asked : List String) (q : ActivityQueue) :
    List Report → List Value → Prop
  | unknown (gone : q.Gone token) : Stage token asked q [] []
  | awaited (known : token ∈ asked) (live : token ∈ q.live)
      (unreported : Table.get? q.reports token = none) : Stage token asked q [] []
  | reported (known : token ∈ asked) (report : Report) (live : token ∈ q.live)
      (found : Table.get? q.reports token = some report) : Stage token asked q [report] []
  | settled (known : token ∈ asked) (report : Report) (gone : q.Gone token) :
      Stage token asked q [report] [report.toValue]
  | cancelled (known : token ∈ asked) (reports : List Report) (once : reports.length ≤ 1)
      (gone : q.Gone token) : Stage token asked q reports []

namespace Stage

variable {token : String} {asked asked' : List String} {q q' : ActivityQueue}
  {reports : List Report} {values : List Value}

theorem once (h : Stage token asked q reports values) :
    reports.length ≤ 1 ∧ values <+: reports.map Report.toValue := by
  cases h with
  | unknown gone => exact ⟨Nat.zero_le 1, List.prefix_rfl⟩
  | awaited known live unreported => exact ⟨Nat.zero_le 1, List.prefix_rfl⟩
  | reported known report live found => exact ⟨Nat.le_refl 1, List.nil_prefix⟩
  | settled known report gone => exact ⟨Nat.le_refl 1, List.prefix_rfl⟩
  | cancelled known reports once gone => exact ⟨once, List.nil_prefix⟩

theorem kept (h : Stage token asked q reports values) (hkept : Kept q q' token)
    (hasked : asked ⊆ asked') : Stage token asked' q' reports values := by
  cases h with
  | unknown gone => exact .unknown (gone.kept hkept)
  | awaited known live unreported =>
    exact .awaited (hasked known) (hkept.live.mpr live) (hkept.report.trans unreported)
  | reported known report live found =>
    exact .reported (hasked known) report (hkept.live.mpr live) (hkept.report.trans found)
  | settled known report gone => exact .settled (hasked known) report (gone.kept hkept)
  | cancelled known reports once gone =>
    exact .cancelled (hasked known) reports once (gone.kept hkept)

theorem of_taken {value : Value} (h : Stage token asked q reports values)
    (hvalue : value ∈ values) : q.Gone token ∧ token ∈ asked := by
  cases h with
  | settled known report gone => exact ⟨gone, known⟩
  | unknown | awaited | reported | cancelled => cases hvalue

theorem schedule {arn : String} {input : Value} (h : Stage token asked q reports values)
    (hnew : token ∉ asked) (hqueued : q.schedule? arn ⟨token, input⟩ = some q') :
    Stage token (asked ++ [token]) q' reports values := by
  obtain ⟨rfl, -⟩ := schedule?_eq_some hqueued
  cases h with
  | unknown gone => exact .awaited (by simp) (by simp) gone.report
  | awaited known | reported known | settled known | cancelled known => exact absurd known hnew

theorem accept {report : Report} (h : Stage token asked q reports values)
    (haccepted : q.report? token report = some q') :
    Stage token asked q' (reports ++ [report]) values := by
  obtain ⟨rfl, hlive, hnone⟩ := report?_eq_some haccepted
  cases h with
  | unknown gone => exact absurd hlive gone.live
  | awaited known live unreported =>
    exact .reported known report live (by rw [Table.get?_put, if_pos rfl])
  | reported known report' live found =>
    rw [hnone] at found
    cases found
  | settled known report' gone => exact absurd hlive gone.live
  | cancelled known reports once gone => exact absurd hlive gone.live

theorem take {report : Report} (h : Stage token asked q reports values)
    (htaken : q.takeReport? token = some (report, q')) :
    Stage token asked q' reports (values ++ [report.toValue]) := by
  have hgone := gone_take htaken
  obtain ⟨hreport, -⟩ := takeReport?_eq_some htaken
  cases h with
  | reported known report' live found =>
    rw [hreport] at found
    cases found
    exact .settled known report hgone
  | awaited known live unreported =>
    rw [hreport] at unreported
    cases unreported
  | unknown gone | settled known report' gone | cancelled known reports once gone =>
    have hnone := gone.report
    rw [hreport] at hnone
    cases hnone

theorem cancel (h : Stage token asked q reports values) :
    Stage token asked (q.cancel token) reports values := by
  have hgone := gone_cancel q token
  cases h with
  | unknown gone => exact .unknown hgone
  | awaited known live unreported => exact .cancelled known [] (Nat.zero_le 1) hgone
  | reported known report live found => exact .cancelled known [report] (Nat.le_refl 1) hgone
  | settled known report gone => exact .settled known report hgone
  | cancelled known reports once gone => exact .cancelled known reports once hgone

theorem quiet {x : Exchange} {more : List String} (h : Stage token asked q reports values)
    (hkept : Kept q q' token) (haccepted : x.accepted? token = none)
    (htaken : x.taken? token = none) :
    Stage token (asked ++ more) q' (reports ++ (x.accepted? token).toList)
      (values ++ (x.taken? token).toList) := by
  simp only [haccepted, htaken, Option.toList_none, List.append_nil]
  exact h.kept hkept (List.subset_append_left _ _)

variable [Room]

theorem step (h : Stage token asked q reports values) (op : Operation)
    (hfresh : ∀ other, op.token? = some other → other ∉ asked) :
    Stage token (asked ++ op.token?.toList) (q.answer op).2
      (reports ++ (Exchange.accepted? token ⟨op, (q.answer op).1⟩).toList)
      (values ++ (Exchange.taken? token ⟨op, (q.answer op).1⟩).toList) := by
  unfold answer
  cases hperform : q.perform op with
  | error e =>
    exact h.quiet (kept_refl q token) (by simp [Exchange.accepted?]) (by simp [Exchange.taken?])
  | ok result =>
    obtain ⟨v, q'⟩ := result
    -- Only where its token is scheduled, reported on, taken or cancelled the stage can change.
    cases did_of_perform hperform with
    | create date name activity v arn => exact h.quiet (kept_addActivity q activity token) rfl rfl
    | look op v lookup =>
      rcases lookup with ⟨arn, rfl⟩ | ⟨other, rfl⟩
      · exact h.quiet (kept_refl q token) rfl rfl
      · exact h.quiet (kept_refl q token) rfl rfl
    | schedule other arn input q' queued =>
      by_cases hother : other = token
      · subst hother
        simpa [Exchange.accepted?, Exchange.taken?, Operation.token?] using
          h.schedule (hfresh other rfl) queued
      · exact h.quiet (kept_schedule queued hother) rfl rfl
    | claim op arn worker task q' claims claimed =>
      rcases claims with rfl | rfl
      · exact h.quiet (kept_claim claimed) rfl rfl
      · exact h.quiet (kept_claim claimed) rfl rfl
    | noWork op arn worker claims idle =>
      rcases claims with rfl | rfl
      · exact h.quiet (kept_refl q token) rfl rfl
      · exact h.quiet (kept_refl q token) rfl rfl
    | report other output error cause q' accepted =>
      by_cases hother : other = token
      · subst hother
        simpa [Exchange.accepted?, Exchange.taken?, Operation.token?] using h.accept accepted
      · exact h.quiet (kept_report accepted hother) (by simp [Exchange.accepted?, hother]) rfl
    | take other report q' taken =>
      by_cases hother : other = token
      · subst hother
        have hvalue : Exchange.taken? other ⟨.getResult (.str other), .ok report.toValue⟩ =
            some report.toValue := by
          cases report <;> simp [Exchange.taken?, Report.toValue]
        simpa [Exchange.accepted?, hvalue, Operation.token?] using h.take taken
      · exact h.quiet (kept_take taken hother) rfl (by simp [Exchange.taken?, hother])
    | noReport other absent =>
      exact h.quiet (kept_refl q token) rfl (by cases other <;> simp [Exchange.taken?])
    | cancel other =>
      by_cases hother : other = token
      · subst hother
        simpa [Exchange.accepted?, Exchange.taken?, Operation.token?] using h.cancel
      · exact h.quiet (kept_cancel q hother) rfl rfl
    | noToken other noKey => exact h.quiet (kept_refl q token) rfl rfl

theorem conversation (ops : List Operation) (hfresh : (ops.filterMap (·.token?)).Nodup)
    (token : String) :
    Stage token (ops.filterMap (·.token?)) (conversation ops).1
      (accepted token (conversation ops).2) (taken token (conversation ops).2) := by
  induction ops using List.reverseRecOn with
  | nil => exact .unknown ⟨List.not_mem_nil, rfl⟩
  | append_singleton earlier op ih =>
    rw [List.filterMap_append, List.nodup_append] at hfresh
    obtain ⟨hearlier, -, hdisjoint⟩ := hfresh
    have hstep := (ih hearlier).step op fun other hother hmem =>
      hdisjoint other hmem other (by simp [hother]) rfl
    rw [conversation_concat]
    simp only [converse, accepted, taken, List.filterMap_append] at hstep ⊢
    exact hstep

end Stage

section

variable [Room]

/-! ## Tokens whose life has ended -/

/-- A token that is refused can only come back if it is scheduled. -/
theorem Gone.answer {q : ActivityQueue} {token : String} (h : q.Gone token) {op : Operation}
    (hop : op.token? ≠ some token) : (q.answer op).2.Gone token := by
  -- It is in the same place as a token on which some report was taken, which nothing follows.
  have hsettled : Stage token [token] q [default] [(default : Report).toValue] :=
    .settled List.mem_cons_self default h
  have hstep := hsettled.step op fun other hother hmem =>
    hop (hother.trans (congrArg some (List.mem_singleton.mp hmem)))
  exact (hstep.of_taken List.mem_cons_self).1

theorem Gone.conversation {earlier : List Operation} {token : String}
    (h : (conversation earlier).1.Gone token) (later : List Operation)
    (hlater : token ∉ later.filterMap (·.token?)) :
    (conversation (earlier ++ later)).1.Gone token := by
  induction later using List.reverseRecOn with
  | nil => rwa [List.append_nil]
  | append_singleton later op ih =>
    simp only [List.filterMap_append, List.mem_append, not_or] at hlater
    rw [← List.append_assoc, conversation_concat]
    refine (ih hlater.1).answer fun hop => hlater.2 ?_
    simp [hop]

/-- The exchange ends the life of a token: its report is given back, or it is cancelled after it was
scheduled. -/
def Exchange.Closes (token : String) (log : List Exchange) (x : Exchange) : Prop :=
  (∃ value, x.taken? token = some value) ∨
    x.op = .cancelTask (.str token) ∧
      ∃ arn input v, Exchange.mk (.scheduleTask token arn input) (.ok v) ∈ log

omit [Room] in
theorem eq_of_mem_of_length_le_one {α : Type} {xs : List α} {x y : α} (h : xs.length ≤ 1)
    (hx : x ∈ xs) (hy : y ∈ xs) : x = y := by
  match xs, h with
  | [z], _ => rw [List.mem_singleton.mp hx, List.mem_singleton.mp hy]

theorem op_mem_of_mem_log {ops : List Operation} {x : Exchange}
    (h : x ∈ (conversation ops).2) : x.op ∈ ops := by
  induction ops using List.reverseRecOn with
  | nil => cases h
  | append_singleton earlier op ih =>
    rw [conversation_concat, converse, List.mem_append, List.mem_singleton] at h
    rcases h with h | rfl
    · exact List.mem_append_left _ (ih h)
    · exact List.mem_append_right _ List.mem_cons_self

theorem gone_of_closes {earlier : List Operation} {op : Operation} {token : String}
    (hfresh : ((earlier ++ [op]).filterMap (·.token?)).Nodup)
    (h : Exchange.Closes token (conversation earlier).2
      ⟨op, ((conversation earlier).1.answer op).1⟩) :
    (conversation (earlier ++ [op])).1.Gone token ∧
      token ∈ (earlier ++ [op]).filterMap (·.token?) := by
  rcases h with ⟨value, htaken⟩ | ⟨hop, arn, input, v, hmem⟩
  · apply (Stage.conversation (earlier ++ [op]) hfresh token).of_taken
    rw [conversation_concat, converse, taken, List.filterMap_append]
    exact List.mem_append_right _ (List.mem_filterMap.mpr ⟨_, List.mem_cons_self, htaken⟩)
  · rw [conversation_concat]
    refine ⟨?_, List.mem_filterMap.mpr ⟨_, List.mem_append_left _ (op_mem_of_mem_log hmem), rfl⟩⟩
    obtain rfl : op = .cancelTask (.str token) := hop
    exact gone_cancel _ token

theorem queue_of_refused (w : World) :
    (∀ arn input e, (w.scheduleTask arn input).1 = .error e →
      (w.scheduleTask arn input).2.queue = w.queue) ∧
    (∀ arn worker e, (w.getActivityTask arn worker).1 = .error e →
      (w.getActivityTask arn worker).2.queue = w.queue) ∧
    (∀ token output error cause e, (w.enqueueResult token output error cause).1 = .error e →
      (w.enqueueResult token output error cause).2.queue = w.queue) := by
  refine ⟨?_, ?_, ?_⟩
  · intro arn input e h
    simp only [World.scheduleTask] at h ⊢
    split at h
    · cases h
    · rfl
  · intro arn worker e h
    unfold World.getActivityTask at h ⊢
    split at h
    · rfl
    · split at h <;> cases h
  · intro token output error cause e h
    unfold World.enqueueResult at h ⊢
    split at h
    · rfl
    · cases h

/-- Each token is reported on at most once, and what is given back is that report; after that, and
after it is cancelled, the token is refused. What fails changes nothing. -/
theorem settles_once (ops : List Operation) (hfresh : (ops.filterMap (·.token?)).Nodup)
    (token : String) :
    (accepted token (conversation ops).2).length ≤ 1 ∧
      taken token (conversation ops).2 <+:
        (accepted token (conversation ops).2).map Report.toValue ∧
      (∀ output error cause v,
        Exchange.mk (.enqueueResult (.str token) output error cause) (.ok v) ∈
          (conversation ops).2 →
        ∀ value ∈ taken token (conversation ops).2,
          (error = .null ∧ cause = .null → value = .obj [("output", output)]) ∧
          (error ≠ .null ∨ cause ≠ .null →
            value = .obj [("error", error), ("cause", cause)])) ∧
      (∀ earlier op later, ops = earlier ++ op :: later →
        Exchange.Closes token (conversation earlier).2
          ⟨op, ((conversation earlier).1.answer op).1⟩ →
        (∀ output error cause,
          (conversation ops).1.answer (.enqueueResult (.str token) output error cause) =
            (.error (invalidToken (.str token)), (conversation ops).1)) ∧
        (conversation ops).1.answer (.getResult (.str token)) =
          (.ok .null, (conversation ops).1)) ∧
      (∀ op e, ((conversation ops).1.answer op).1 = .error e →
        ((conversation ops).1.answer op).2 = (conversation ops).1) ∧
      ∀ w : World,
        (∀ arn input e, (w.scheduleTask arn input).1 = .error e →
          (w.scheduleTask arn input).2.queue = w.queue) ∧
        (∀ arn worker e, (w.getActivityTask arn worker).1 = .error e →
          (w.getActivityTask arn worker).2.queue = w.queue) ∧
        (∀ token output error cause e, (w.enqueueResult token output error cause).1 = .error e →
          (w.enqueueResult token output error cause).2.queue = w.queue) := by
  have hstage := Stage.conversation ops hfresh token
  refine ⟨hstage.once.1, hstage.once.2, ?_, ?_, fun op e => answer_of_error, queue_of_refused⟩
  · intro output error cause v hmem value hvalue
    have haccepted : Report.ofParts output error cause ∈ accepted token (conversation ops).2 :=
      List.mem_filterMap.mpr ⟨_, hmem, by simp [Exchange.accepted?]⟩
    obtain ⟨report, hreport, rfl⟩ := List.mem_map.mp (hstage.once.2.subset hvalue)
    obtain rfl := eq_of_mem_of_length_le_one hstage.once.1 hreport haccepted
    refine ⟨?_, fun hfailure => by rw [Report.ofParts_of_ne hfailure]; rfl⟩
    rintro ⟨rfl, rfl⟩
    rfl
  · rintro earlier op later rfl hcloses
    rw [List.append_cons, List.filterMap_append, List.nodup_append] at hfresh
    obtain ⟨hgone, hasked⟩ := gone_of_closes hfresh.1 hcloses
    have hend := hgone.conversation later fun hmem => hfresh.2.2 token hasked token hmem rfl
    rw [← List.append_cons] at hend
    exact ⟨hend.refuses, hend.gives_nothing⟩

end

/-- A worker reports a null output, which is given back; then it reports once more. -/
def reportNull : List Operation :=
  [.createActivity "" (.str Ledger.activityArn),
    .scheduleTask "1" (.str Ledger.activityArn) (.str "{}"),
    .getActivityTask (.str Ledger.activityArn) .null,
    .enqueueResult (.str "1") .null .null .null, .getResult (.str "1")]

theorem settles_once_reportNull :
    (taken "1" (conversation reportNull).2).length = 1 ∧
      (∀ value ∈ taken "1" (conversation reportNull).2, value = .obj [("output", .null)]) ∧
      (conversation reportNull).1.answer (.enqueueResult (.str "1") (.str "2") .null .null) =
        (.error (invalidToken (.str "1")), (conversation reportNull).1) := by
  obtain ⟨-, -, hvalue, hclosed, -⟩ := settles_once reportNull (by decide) "1"
  have hreport : (conversation reportNull).2[3]? =
      some ⟨.enqueueResult (.str "1") .null .null .null, .ok .null⟩ := by
    rfl
  have htaken : (Exchange.taken? "1" ⟨.getResult (.str "1"),
      ((conversation (reportNull.take 4)).1.answer (.getResult (.str "1"))).1⟩).isSome = true := by
    decide +kernel
  refine ⟨by decide +kernel, ?_, ?_⟩
  · intro value hmem
    exact (hvalue _ _ _ _ (List.mem_of_getElem? hreport) value hmem).1 ⟨rfl, rfl⟩
  · have hcloses := Option.isSome_iff_exists.mp htaken
    exact (hclosed (reportNull.take 4) (.getResult (.str "1")) [] rfl (Or.inl hcloses)).1 _ _ _

end ActivityQueue

end StatesLanguage
