import StatesLanguage.Proofs.Awaiting
import StatesLanguage.Proofs.Tokens

/-!
# Hand-off

Attempts at tasks wait on one queue while workers claim their work and report on it. The steps of
all of them may come in any order.
-/

namespace StatesLanguage

/-! ## Attempts -/

/-- An attempt at a task that is done by workers. -/
structure Attempt where
  task : Task
  token? : Option String
  pause : Pause (Outcome Value)

namespace Attempt

def hasEnded (a : Attempt) : Bool :=
  match a.pause with
  | .done _ => true
  | .waiting _ _ => false

def isFaulted (a : Attempt) : Bool :=
  match a.pause with
  | .done (.error e) => e.isFault
  | _ => false

variable [Room]

def start (task : Task) (scope : Scope) (parameters : Value) (w : World) : Attempt × World :=
  let stop := (task.runActivity scope parameters).run.advance w
  (⟨task, task.tokenIn w parameters, stop.1⟩, stop.2)

def check (a : Attempt) (w : World) : Attempt × World :=
  match a.pause with
  | .waiting (.sleep _) next =>
    let stop := (next ()).advance w
    ({ a with pause := stop.1 }, stop.2)
  | _ => (a, w)

theorem check_of_hasEnded {a : Attempt} (h : a.hasEnded = true) (w : World) : a.check w = (a, w) := by
  unfold hasEnded at h
  unfold check
  split
  · rename_i hpause
    rw [hpause] at h
    cases h
  · rfl

theorem check_of_waiting {a : Attempt} {pause : Nat} {p : Process (Outcome Value)}
    (h : a.pause = .waiting (.sleep pause) fun _ => p) (w : World) :
    a.check w = ({ a with pause := (p.advance w).1 }, (p.advance w).2) := by
  unfold check
  rw [h]

omit [Room] in
theorem isFaulted_of_waiting {a : Attempt} (h : a.hasEnded = false) : a.isFaulted = false := by
  unfold hasEnded at h
  unfold isFaulted
  split
  · rename_i hpause
    rw [hpause] at h
    cases h
  · rfl

/-- How an attempt stands to the queue that its work is in: its token is live while it waits, and
stays so for good if it ends on a fault. -/
structure Fits (a : Attempt) (q : ActivityQueue) (token : String) : Prop where
  live : token ∈ q.live ↔ a.hasEnded = false ∨ a.isFaulted = true
  waits : a.hasEnded = false → ∃ scope pause first left seen, a.pause =
    .waiting (.sleep pause) fun _ => (a.task.awaiting scope token first left seen).run
  measured : a.isFaulted = false → Polling.isMeasurable a.task.timeout = true
  unmeasured : a.isFaulted = true → Polling.isMeasurable a.task.timeout = true →
    Polling.isPausable a.task.pollInterval = false

theorem Fits.kept {a : Attempt} {q q' : ActivityQueue} {token : String} (h : a.Fits q token)
    (hkept : q.Kept q' token) : a.Fits q' token :=
  ⟨hkept.live.trans h.live, h.waits, h.measured, h.unmeasured⟩

omit [Room] in
theorem isFaulted_reportResult (task : Task) (token? : Option String) (report : Report) :
    Attempt.isFaulted ⟨task, token?, .done (Task.reportResult report)⟩ = false := by
  unfold Task.reportResult
  split
  · split <;> rfl
  · rfl
  · rfl

end Attempt

/-- What asking once does to the queue and to the attempt that asks. -/
theorem Task.Asked.settles [Room] {task : Task} {scope : Scope} {token : String} {q q' : ActivityQueue}
    {pause : Pause (Outcome Value)} {l : Ledger} (h : task.Asked scope token q pause q')
    (htidy : Tidy q l) (hlive : token ∈ q.live)
    (hmeasured : Table.get? q.reports token ≠ none → Polling.isMeasurable task.timeout = true) :
    (∃ l', l'.scheduled = l.scheduled ∧ l'.handed = l.handed ∧ Tidy q' l') ∧
      (∀ other, other ≠ token → q.Kept q' other) ∧
      Attempt.Fits ⟨task, some token, pause⟩ q' token := by
  cases h with
  | reported report q' taken =>
    obtain ⟨htidy', hdropped, hkept⟩ := htidy.take taken
    have hfine := Attempt.isFaulted_reportResult task (some token) report
    refine ⟨⟨l, rfl, rfl, htidy'⟩, hkept, ⟨?_, nofun, ?_, ?_⟩⟩
    · rw [hfine]
      simp [hdropped, Attempt.hasEnded]
    · exact fun _ => hmeasured (by simp [(ActivityQueue.takeReport?_eq_some taken).1])
    · rw [hfine]
      nofun
  | failed e absent fault unmeasured =>
    refine ⟨⟨l, rfl, rfl, htidy⟩, fun other _ => ActivityQueue.kept_refl q other, ⟨?_, nofun, ?_, ?_⟩⟩
    · simp [hlive, Attempt.isFaulted, fault]
    · simp [Attempt.isFaulted, fault]
    · exact fun _ => unmeasured
  | late absent measured =>
    obtain ⟨l', hscheduled, hhanded, htidy', hdropped, hkept⟩ := htidy.cancel token
    obtain ⟨text, hexceeded⟩ := Polling.exceeded_of_measurable measured
    rw [hexceeded]
    refine ⟨⟨l', hscheduled, hhanded, htidy'⟩, hkept, ⟨?_, nofun, fun _ => measured, nofun⟩⟩
    simp [hdropped, Attempt.hasEnded, Attempt.isFaulted, Failure.ofKind, Failure.isFault]
  | asleep pause first left seen absent measured =>
    refine ⟨⟨l, rfl, rfl, htidy⟩, fun other _ => ActivityQueue.kept_refl q other,
      ⟨?_, fun _ => ⟨scope, pause, first, left, seen, rfl⟩, fun _ => measured, nofun⟩⟩
    simp [hlive, Attempt.hasEnded]

/-! ## Steps -/

/-- Attempts in a world, and the tokens that its workers hold. -/
structure Handoff where
  world : World
  attempts : List Attempt
  held : List String

namespace Handoff

inductive Move where
  | start (task : Task) (scope : Scope) (parameters : Value)
  | check (i : Nat)
  | request (op : ActivityQueue.Operation)
  /-- Something else happens in the world; the queue is not touched, and no token is drawn twice. -/
  | drift (world : World)

section

variable [Room]

def step (s : Handoff) : Move → Handoff
  | .start task scope parameters =>
    let started := Attempt.start task scope parameters s.world
    { s with world := started.2, attempts := s.attempts ++ [started.1] }
  | .check i =>
    match s.attempts[i]? with
    | some a => { s with world := (a.check s.world).2, attempts := s.attempts.set i (a.check s.world).1 }
    | none => s
  | .request op =>
    if op.isWorkers s.held then
      let (answer, queue) := s.world.queue.answer op
      { s with world := { s.world with queue }, held := s.held ++ (op.given? answer).toList }
    else s
  | .drift w =>
    { s with world := { w with queue := s.world.queue, drawn := max s.world.drawn w.drawn } }

def run (s : Handoff) (moves : List Move) : Handoff :=
  moves.foldl step s

/-- What comes of moves in a world whose queue is empty. -/
def after (w : World) (moves : List Move) : Handoff :=
  run ⟨{ w with queue := .empty }, [], []⟩ moves

end

def Owns (s : Handoff) (i : Nat) (token : String) : Prop :=
  ∃ a, s.attempts[i]? = some a ∧ a.token? = some token

theorem set_of_getElem? {α : Type} {xs : List α} {x : α} {i : Nat} (h : xs[i]? = some x) :
    xs.set i x = xs := by
  obtain ⟨hi, rfl⟩ := List.getElem?_eq_some_iff.mp h
  exact List.set_getElem_self hi

theorem getElem?_set_cases {α : Type} {xs : List α} {x y : α} {i j : Nat}
    (h : (xs.set i x)[j]? = some y) : j = i ∧ y = x ∨ j ≠ i ∧ xs[j]? = some y := by
  by_cases hj : j = i
  · subst hj
    rw [List.getElem?_set_self'] at h
    obtain ⟨_, -, rfl⟩ := Option.map_eq_some_iff.mp h
    exact Or.inl ⟨rfl, rfl⟩
  · rw [List.getElem?_set_ne (Ne.symm hj)] at h
    exact Or.inr ⟨hj, h⟩

theorem getElem?_concat_cases {α : Type} {xs : List α} {x y : α} {i : Nat}
    (h : (xs ++ [x])[i]? = some y) : i = xs.length ∧ y = x ∨ i ≠ xs.length ∧ xs[i]? = some y := by
  by_cases hi : i = xs.length
  · subst hi
    rw [List.getElem?_concat_length, Option.some.injEq] at h
    exact Or.inl ⟨rfl, h.symm⟩
  · refine Or.inr ⟨hi, ?_⟩
    have hlt : i < (xs ++ [x]).length := (List.getElem?_eq_some_iff.mp h).1
    rw [List.length_append, List.length_singleton] at hlt
    rwa [List.getElem?_append_left (by omega)] at h

def KeepsReport (s s' : Handoff) (token : String) : Prop :=
  ∀ r, Table.get? s.world.queue.reports token = some r →
    Table.get? s'.world.queue.reports token = some r

section

variable [Room]

/-- All attempts fit the queue, each by a token of its own. -/
structure Sound (s : Handoff) (l : Ledger) : Prop where
  tidy : Tidy s.world.queue l
  held : ∀ token ∈ s.held, token ∈ l.handed.tokens
  drawn : ∀ token ∈ l.scheduled.tokens, ∃ n ≤ s.world.drawn, token = identifier n
  scheduled : ∀ i token, s.Owns i token → token ∈ l.scheduled.tokens
  own : ∀ i j token, s.Owns i token → s.Owns j token → i = j
  fits : ∀ (i : Nat) (a : Attempt) token, s.attempts[i]? = some a → a.token? = some token →
    a.Fits s.world.queue token
  idle : ∀ (i : Nat) (a : Attempt), s.attempts[i]? = some a → a.token? = none → a.hasEnded = true

namespace Sound

variable {s s' : Handoff} {l l' : Ledger}

theorem update (h : Sound s l) {i : Nat} {a : Attempt} {token : String}
    (hattempts : ∀ (j : Nat) b, s'.attempts[j]? = some b →
      j = i ∧ b = a ∨ j ≠ i ∧ s.attempts[j]? = some b)
    (hheld : s'.held = s.held) (htoken : a.token? = some token)
    (hown : ∀ j, s.Owns j token → j = i) (htidy : Tidy s'.world.queue l')
    (hhanded : l'.handed = l.handed)
    (hscheduled : ∀ t, t ∈ l.scheduled.tokens ∨ t = token ↔ t ∈ l'.scheduled.tokens)
    (hdrawn : ∀ t ∈ l'.scheduled.tokens, ∃ n ≤ s'.world.drawn, t = identifier n)
    (hkept : ∀ other, other ≠ token → s.world.queue.Kept s'.world.queue other)
    (hfits : a.Fits s'.world.queue token) : Sound s' l' := by
  -- A token of the new state is that of the attempt, or was there before.
  have howns {j : Nat} {t : String} (hj : s'.Owns j t) :
      j = i ∧ t = token ∨ j ≠ i ∧ s.Owns j t ∧ t ≠ token := by
    obtain ⟨b, hb, ht⟩ := hj
    rcases hattempts j b hb with ⟨rfl, rfl⟩ | ⟨hne, hb⟩
    · rw [htoken, Option.some.injEq] at ht
      exact Or.inl ⟨rfl, ht.symm⟩
    · refine Or.inr ⟨hne, ⟨b, hb, ht⟩, ?_⟩
      rintro rfl
      exact hne (hown j ⟨b, hb, ht⟩)
  refine ⟨htidy, by rw [hheld, hhanded]; exact h.held, hdrawn, ?_, ?_, ?_, ?_⟩
  · intro j t hj
    rcases howns hj with ⟨-, rfl⟩ | ⟨-, hj, -⟩
    · exact (hscheduled t).mp (Or.inr rfl)
    · exact (hscheduled t).mp (Or.inl (h.scheduled j t hj))
  · intro j k t hj hk
    rcases howns hj with ⟨rfl, rfl⟩ | ⟨-, hj, hne⟩
    · rcases howns hk with ⟨rfl, -⟩ | ⟨-, -, hne⟩
      · rfl
      · exact absurd rfl hne
    · rcases howns hk with ⟨-, rfl⟩ | ⟨-, hk, -⟩
      · exact absurd rfl hne
      · exact h.own j k t hj hk
  · intro j b t hb ht
    rcases hattempts j b hb with ⟨rfl, rfl⟩ | ⟨hne, hb'⟩
    · rw [htoken, Option.some.injEq] at ht
      exact ht ▸ hfits
    · refine (h.fits j b t hb' ht).kept (hkept t ?_)
      rintro rfl
      exact hne (hown j ⟨b, hb', ht⟩)
  · intro j b hb ht
    rcases hattempts j b hb with ⟨rfl, rfl⟩ | ⟨-, hb⟩
    · rw [htoken] at ht
      cases ht
    · exact h.idle j b hb ht

theorem fresh (h : Sound s l) : identifier (s.world.drawn + 1) ∉ l.scheduled.tokens := by
  intro hmem
  obtain ⟨n, hn, heq⟩ := h.drawn _ hmem
  have := identifier_injective heq
  omega

theorem carry (h : Sound s l)
    (hattempts : ∀ (i : Nat) a, s'.attempts[i]? = some a →
      s.attempts[i]? = some a ∨ a.token? = none ∧ a.hasEnded = true)
    (hheld : ∀ token ∈ s'.held, token ∈ l'.handed.tokens) (htidy : Tidy s'.world.queue l')
    (hscheduled : l'.scheduled = l.scheduled) (hdrawn : s.world.drawn ≤ s'.world.drawn)
    (hlive : s'.world.queue.live = s.world.queue.live) : Sound s' l' := by
  have hbefore {i : Nat} {a : Attempt} {token : String} (ha : s'.attempts[i]? = some a)
      (htoken : a.token? = some token) : s.attempts[i]? = some a := by
    rcases hattempts i a ha with ha | ⟨hnone, -⟩
    · exact ha
    · rw [hnone] at htoken
      cases htoken
  have howns {i : Nat} {token : String} (hi : s'.Owns i token) : s.Owns i token := by
    obtain ⟨a, ha, htoken⟩ := hi
    exact ⟨a, hbefore ha htoken, htoken⟩
  refine ⟨htidy, hheld, ?_, ?_, ?_, ?_, ?_⟩
  · rw [hscheduled]
    intro token htoken
    obtain ⟨n, hn, heq⟩ := h.drawn token htoken
    exact ⟨n, Nat.le_trans hn hdrawn, heq⟩
  · rw [hscheduled]
    exact fun i token hi => h.scheduled i token (howns hi)
  · exact fun i j token hi hj => h.own i j token (howns hi) (howns hj)
  · intro i a token ha htoken
    obtain ⟨hlive', hwaits, hmeasured, hunmeasured⟩ := h.fits i a token (hbefore ha htoken) htoken
    exact ⟨by rw [hlive]; exact hlive', hwaits, hmeasured, hunmeasured⟩
  · intro i a ha hnone
    rcases hattempts i a ha with ha | ⟨-, hended⟩
    · exact h.idle i a ha hnone
    · exact hended

theorem drift (h : Sound s l) (w : World) : Sound (s.step (.drift w)) l :=
  h.carry (fun _ _ => Or.inl) h.held h.tidy rfl (Nat.le_max_left _ _) rfl

theorem request (h : Sound s l) (op : ActivityQueue.Operation) :
    (∃ l', Sound (s.step (.request op)) l') ∧
      ∀ token, s.KeepsReport (s.step (.request op)) token := by
  simp only [step]
  split
  · rename_i hop
    cases hperform : s.world.queue.perform op with
    | error e =>
      have hgiven : op.given? (.error e) = none := by
        cases op <;> rfl
      simp only [ActivityQueue.answer, hperform, hgiven]
      refine ⟨⟨l, h.carry (fun _ _ => Or.inl) ?_ h.tidy rfl (Nat.le_refl _) rfl⟩, fun _ _ hr => hr⟩
      simpa using h.held
    | ok result =>
      obtain ⟨v, q'⟩ := result
      obtain ⟨⟨l', hscheduled, htidy, hheld⟩, hlive, hreports⟩ :=
        h.tidy.requested h.held hop (ActivityQueue.did_of_perform hperform)
      simp only [ActivityQueue.answer, hperform]
      exact ⟨⟨l', h.carry (fun _ _ => Or.inl) hheld htidy hscheduled (Nat.le_refl _) hlive⟩, hreports⟩
  · exact ⟨⟨l, h⟩, fun _ _ hr => hr⟩

theorem start (h : Sound s l) (task : Task) (scope : Scope) (parameters : Value) :
    (∃ l', Sound (s.step (.start task scope parameters)) l') ∧
      ∀ i token, s.Owns i token →
        s.KeepsReport (s.step (.start task scope parameters)) token := by
  have hbegun := task.begun_runActivity scope parameters s.world
  simp only [step, Attempt.start]
  generalize (task.runActivity scope parameters).run.advance s.world = stop at hbegun ⊢
  generalize task.tokenIn s.world parameters = token? at hbegun ⊢
  obtain ⟨pause, w'⟩ := stop
  cases hbegun with
  | refused e w' queue drawn =>
    refine ⟨⟨l, h.carry ?_ h.held ?_ rfl drawn (congrArg _ queue)⟩, ?_⟩
    · intro i a ha
      rcases getElem?_concat_cases ha with ⟨-, rfl⟩ | ⟨-, ha⟩
      · exact Or.inr ⟨rfl, rfl⟩
      · exact Or.inl ha
    · rw [queue]
      exact h.tidy
    · intro i token _ r hr
      rw [queue]
      exact hr
  | queued input q pause w' scheduled asked drawn =>
    -- The token is new, so neither the queue nor any other attempt knows it.
    have hfresh := h.fresh
    obtain ⟨htidy, hlive, hkept⟩ := h.tidy.schedule hfresh scheduled
    have hreports : q.reports = s.world.queue.reports := by
      obtain ⟨rfl, -⟩ := ActivityQueue.schedule?_eq_some scheduled
      rfl
    obtain ⟨⟨l', hscheduled, hhanded, htidy'⟩, hkept', hfits⟩ := asked.settles htidy hlive fun hsome =>
      absurd (hreports ▸ h.tidy.not_reported hfresh) hsome
    have hboth (other : String) (hother : other ≠ identifier (s.world.drawn + 1)) :=
      (hkept other hother).trans (hkept' other hother)
    refine ⟨⟨l', h.update (fun _ _ => getElem?_concat_cases) rfl rfl ?_ htidy' hhanded ?_ ?_ hboth
      hfits⟩, ?_⟩
    · intro j hj
      exact absurd (h.scheduled j _ hj) hfresh
    · intro t
      rw [hscheduled]
      simp [Entries.tokens]
    · intro t ht
      rw [hscheduled] at ht
      simp only [Entries.tokens, List.map_append, List.mem_append, List.map_cons, List.map_nil,
        List.mem_singleton] at ht
      rcases ht with ht | rfl
      · obtain ⟨n, hn, heq⟩ := h.drawn t ht
        exact ⟨n, Nat.le_trans (Nat.le_succ_of_le hn) (Nat.le_of_eq drawn.symm), heq⟩
      · exact ⟨_, Nat.le_of_eq drawn.symm, rfl⟩
    · intro i token hi r hr
      have hother : token ≠ identifier (s.world.drawn + 1) := by
        rintro rfl
        exact hfresh (h.scheduled i _ hi)
      rw [(hboth token hother).report]
      exact hr

theorem check (h : Sound s l) (i : Nat) :
    (∃ l', Sound (s.step (.check i)) l') ∧
      ∀ j token, j ≠ i → s.Owns j token → s.KeepsReport (s.step (.check i)) token := by
  simp only [step]
  split
  · rename_i a ha
    cases hended : a.hasEnded with
    | true =>
      rw [a.check_of_hasEnded hended, set_of_getElem? ha]
      exact ⟨⟨l, h⟩, fun _ _ _ _ _ hr => hr⟩
    | false =>
      obtain ⟨task, token?, stopped⟩ := a
      obtain ⟨token, rfl⟩ : ∃ token, token? = some token := by
        rw [← Option.ne_none_iff_exists']
        rintro rfl
        rw [h.idle i _ ha rfl] at hended
        cases hended
      have hfits := h.fits i _ token ha rfl
      -- What has not ended sleeps in its poll, and asks once more.
      obtain ⟨scope, pause, first, left, seen, hpause⟩ := hfits.waits hended
      obtain ⟨hasked, hdrawn⟩ := task.asked_awaiting scope token first left seen s.world
      obtain ⟨⟨l', hscheduled, hhanded, htidy⟩, hkept, hfits'⟩ :=
        hasked.settles h.tidy (hfits.live.mpr (Or.inl hended)) fun _ =>
          hfits.measured (Attempt.isFaulted_of_waiting hended)
      rw [Attempt.check_of_waiting hpause]
      refine ⟨⟨l', h.update (fun _ _ => getElem?_set_cases) rfl rfl ?_ htidy hhanded ?_ ?_ hkept
        hfits'⟩, ?_⟩
      · exact fun j hj => h.own j i token hj ⟨_, ha, rfl⟩
      · intro t
        rw [hscheduled]
        refine or_iff_left_of_imp ?_
        rintro rfl
        exact h.scheduled i t ⟨_, ha, rfl⟩
      · rw [hscheduled, hdrawn]
        exact h.drawn
      · intro j other hne hj r hr
        have hother : other ≠ token := by
          rintro rfl
          exact hne (h.own j i other hj ⟨_, ha, rfl⟩)
        rw [(hkept other hother).report]
        exact hr
  · exact ⟨⟨l, h⟩, fun _ _ _ _ _ hr => hr⟩

theorem step (h : Sound s l) (m : Move) :
    (∃ l', Sound (s.step m) l') ∧
      ∀ i token, m ≠ .check i → s.Owns i token → s.KeepsReport (s.step m) token := by
  cases m with
  | start task scope parameters =>
    obtain ⟨hsound, hreports⟩ := h.start task scope parameters
    exact ⟨hsound, fun i token _ hi => hreports i token hi⟩
  | check i =>
    obtain ⟨hsound, hreports⟩ := h.check i
    refine ⟨hsound, fun j token hne => hreports j token ?_⟩
    rintro rfl
    exact hne rfl
  | request op =>
    obtain ⟨hsound, hreports⟩ := h.request op
    exact ⟨hsound, fun _ token _ _ => hreports token⟩
  | drift w => exact ⟨⟨l, h.drift w⟩, fun _ _ _ _ _ hr => hr⟩

theorem run (h : Sound s l) (moves : List Move) : ∃ l', Sound (s.run moves) l' := by
  induction moves generalizing s l with
  | nil => exact ⟨l, h⟩
  | cons m rest ih =>
    obtain ⟨l', h'⟩ := (h.step m).1
    exact ih h'

end Sound

theorem sound_empty (w : World) : Sound ⟨{ w with queue := .empty }, [], []⟩ .empty := by
  have hforgot (token : String) : ActivityQueue.empty.Forgot token :=
    ⟨nofun, rfl, rfl, List.not_mem_nil⟩
  have howns (i : Nat) (token : String) : ¬Owns ⟨{ w with queue := .empty }, [], []⟩ i token := by
    rintro ⟨a, ha, -⟩
    cases ha
  refine ⟨⟨Ledger.balanced_empty, fun token _ => hforgot token, ?_⟩, ?_, ?_, ?_, ?_, ?_, ?_⟩
  · intro token htoken
    cases htoken
  · intro token htoken
    cases htoken
  · intro token htoken
    cases htoken
  · exact fun i token hi => absurd hi (howns i token)
  · exact fun i j token hi _ => absurd hi (howns i token)
  · intro i a token ha
    cases ha
  · intro i a ha
    cases ha

theorem sound_after (w : World) (moves : List Move) : ∃ l, Sound (after w moves) l :=
  (sound_empty w).run moves

/-- Whether a request is one of the workers, and does not fail. -/
def accepts (s : Handoff) (op : ActivityQueue.Operation) : Bool :=
  op.isWorkers s.held && (s.world.queue.answer op).1.isOk

/-! ## Runs -/

section Runs

variable {s : Handoff} {l : Ledger} {i : Nat} {a : Attempt} {token : String}

/-- Only its own questions change an attempt, and none once it has ended. -/
theorem attempt_step {m : Move} (ha : s.attempts[i]? = some a)
    (hm : m ≠ .check i ∨ a.hasEnded = true) : (s.step m).attempts[i]? = some a := by
  cases m with
  | start task scope parameters =>
    have hi : i < s.attempts.length := (List.getElem?_eq_some_iff.mp ha).1
    simp only [step]
    rw [List.getElem?_append_left hi]
    exact ha
  | check j =>
    simp only [step]
    by_cases hj : j = i
    · subst hj
      have hended : a.hasEnded = true := hm.resolve_left fun hne => hne rfl
      simp only [ha, a.check_of_hasEnded hended, set_of_getElem? ha]
    · cases s.attempts[j]? with
      | none => exact ha
      | some b =>
        simp only
        rw [List.getElem?_set_ne hj]
        exact ha
  | request op =>
    simp only [step]
    split <;> exact ha
  | drift w => exact ha

theorem attempt_run {moves : List Move} (ha : s.attempts[i]? = some a)
    (hmoves : (∀ m ∈ moves, m ≠ .check i) ∨ a.hasEnded = true) :
    (s.run moves).attempts[i]? = some a := by
  induction moves generalizing s with
  | nil => exact ha
  | cons m rest ih =>
    refine ih (attempt_step ha (hmoves.imp_left fun h => h m List.mem_cons_self)) ?_
    exact hmoves.imp_left fun h m' hm' => h m' (List.mem_cons_of_mem m hm')

theorem Sound.report_run {moves : List Move} (h : Sound s l) (hi : s.Owns i token)
    (hmoves : ∀ m ∈ moves, m ≠ .check i) : s.KeepsReport (s.run moves) token := by
  induction moves generalizing s l with
  | nil => exact fun r hr => hr
  | cons m rest ih =>
    intro r hr
    have hm := hmoves m List.mem_cons_self
    obtain ⟨⟨l', h'⟩, hreports⟩ := h.step m
    obtain ⟨a, ha, htoken⟩ := hi
    have hi' : (s.step m).Owns i token := ⟨a, attempt_step ha (Or.inl hm), htoken⟩
    exact ih h' hi' (fun m' hm' => hmoves m' (List.mem_cons_of_mem m hm')) r
      (hreports i token hm ⟨a, ha, htoken⟩ r hr)

theorem Sound.check_reported {r : Report} (h : Sound s l) (ha : s.attempts[i]? = some a)
    (htoken : a.token? = some token) (hwaits : a.hasEnded = false)
    (hr : Table.get? s.world.queue.reports token = some r) :
    (s.step (.check i)).attempts[i]? = some { a with pause := .done (Task.reportResult r) } := by
  obtain ⟨scope, pause, first, left, seen, hpause⟩ := (h.fits i a token ha htoken).waits hwaits
  have hasked := (a.task.asked_awaiting scope token first left seen s.world).1
  have hi : i < s.attempts.length := (List.getElem?_eq_some_iff.mp ha).1
  simp only [Handoff.step, ha, Attempt.check_of_waiting hpause]
  rw [List.getElem?_set_self hi]
  generalize (a.task.awaiting scope token first left seen).run.advance s.world = stop at hasked ⊢
  obtain ⟨stopped, w'⟩ := stop
  dsimp only at hasked ⊢
  generalize w'.queue = q' at hasked
  have hsome : s.world.queue.takeReport? token ≠ none := by
    simp [ActivityQueue.takeReport?, hr]
  cases hasked with
  | reported report q' taken =>
    rw [(ActivityQueue.takeReport?_eq_some taken).1, Option.some.injEq] at hr
    rw [hr]
  | failed e absent => exact absurd absent hsome
  | late absent => exact absurd absent hsome
  | asleep pause first left seen absent => exact absurd absent hsome

theorem accepted_report {output error cause : Value}
    (h : s.accepts (.enqueueResult (.str token) output error cause) = true) :
    token ∈ s.world.queue.live ∧ Table.get? (s.step (.request
      (.enqueueResult (.str token) output error cause))).world.queue.reports token =
        some (.ofParts output error cause) := by
  obtain ⟨hop, hanswer⟩ := Bool.and_eq_true_iff.mp h
  simp only [step, if_pos hop]
  unfold ActivityQueue.answer at hanswer ⊢
  cases hperform : s.world.queue.perform (.enqueueResult (.str token) output error cause) with
  | error e =>
    rw [hperform] at hanswer
    cases hanswer
  | ok result =>
    obtain ⟨v', q'⟩ := result
    cases ActivityQueue.did_of_perform hperform with
    | look op v lookup => rcases lookup with ⟨_, hop⟩ | ⟨_, hop⟩ <;> cases hop
    | claim op arn worker task q' claims => rcases claims with hop | hop <;> cases hop
    | noWork op arn worker claims => rcases claims with hop | hop <;> cases hop
    | report token output error cause q' accepted =>
      obtain ⟨rfl, hlive, -⟩ := ActivityQueue.report?_eq_some accepted
      exact ⟨hlive, Table.get?_put_self _ _ _⟩

end Runs

/-- An attempt, with a timeout in milliseconds, and a worker that claims its work. -/
def claimMoves (timeout : Value) : List Move :=
  [.request (.createActivity "" (.str Ledger.activityArn)),
    .start ⟨"T", .null, .activity, Ledger.activityArn, timeout, .int 1000, none⟩ .top (.obj []),
    .request (.getActivityTask (.str Ledger.activityArn) .null)]

def claimed (timeout : Value) : Handoff :=
  after (.create 0 .empty default) (claimMoves timeout)

end

def claimedReport : ActivityQueue.Operation :=
  .enqueueResult (.str (identifier 1)) (.str "1") .null .null

end Handoff

end StatesLanguage
