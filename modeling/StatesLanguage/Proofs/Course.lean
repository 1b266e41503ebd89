import StatesLanguage.Proofs.Reports

/-!
# Courses of processes

One way that a process can go. Its effects are answered by the world that it runs in. Where it waits,
others go on in its place: it may be answered anything, and the world may have changed in any way,
except that its queue is the one that was left but for what was asked of it since.
-/

namespace StatesLanguage

section

variable [Room]

/-- What others ask of a queue, and how they are answered. -/
inductive ActivityQueue.Asked : ActivityQueue → List Exchange → ActivityQueue → Prop
  | nil (q : ActivityQueue) : Asked q [] q
  | cons {q q' : ActivityQueue} {xs : List Exchange} (op : Operation)
      (rest : Asked (q.answer op).2 xs q') : Asked q (⟨op, (q.answer op).1⟩ :: xs) q'

/-- The exchanges of some operations, and the queue after them. -/
def ActivityQueue.askAll (q : ActivityQueue) : List Operation → List Exchange × ActivityQueue
  | [] => ([], q)
  | op :: rest =>
    let (xs, q') := (q.answer op).2.askAll rest
    (⟨op, (q.answer op).1⟩ :: xs, q')

theorem ActivityQueue.asked_askAll (q : ActivityQueue) (ops : List Operation) :
    q.Asked (q.askAll ops).1 (q.askAll ops).2 := by
  induction ops generalizing q with
  | nil => exact .nil q
  | cons op rest ih => exact .cons op (ih _)

end

/-- What happens in the course of a process. -/
inductive Happening where
  | did (e : Effect)
  | asked (x : ActivityQueue.Exchange)

abbrev Records := List (String × Members)

def Effect.records : Effect → Records
  | .record _ type details => [(type, details)]
  | _ => []

def Happening.records : Happening → Records
  | .did e => e.records
  | .asked _ => []

def recorded (t : List Happening) : Records :=
  t.flatMap Happening.records

@[simp] theorem recorded_nil : recorded [] = [] := rfl

@[simp] theorem recorded_did (e : Effect) (t : List Happening) :
    recorded (.did e :: t) = e.records ++ recorded t := rfl

@[simp] theorem recorded_append (t t' : List Happening) :
    recorded (t ++ t') = recorded t ++ recorded t' :=
  List.flatMap_append

@[simp] theorem recorded_asked (xs : List ActivityQueue.Exchange) :
    recorded (xs.map .asked) = [] := by
  simp [recorded, List.flatMap_map, Happening.records]

/-- The protocol whose state is what has been recorded. -/
def Protocol.recording : Protocol Records :=
  ⟨fun _ _ => True, fun g e _ => g ++ e.records, fun _ _ => True⟩

namespace Process

variable {α β : Type}

variable [Room]

inductive Course : Process α → World → List Happening → α → World → Prop
  | ret (a : α) (w : World) : Course (.ret a) w [] a w
  | effect {e : Effect} {next : e.Reply → Process α} {w w' : World} {t : List Happening} {a : α}
      (rest : Course (next (w.perform e).1) (w.perform e).2 t a w') :
      Course (.effect e next) w (.did e :: t) a w'
  | wait {wt : Wait} {next : wt.Reply → Process α} {w w₁ w' : World} {t : List Happening} {a : α}
      (r : wt.Reply) {xs : List ActivityQueue.Exchange} (others : w.queue.Asked xs w₁.queue)
      (rest : Course (next r) w₁ t a w') : Course (.wait wt next) w (xs.map .asked ++ t) a w'

variable {w w' : World} {t : List Happening}

theorem Course.bind_inv {p : Process α} {f : α → Process β} {b : β}
    (h : (p.bind f).Course w t b w') :
    ∃ t₁ t₂ a w₁, t = t₁ ++ t₂ ∧ p.Course w t₁ a w₁ ∧ (f a).Course w₁ t₂ b w' := by
  induction p generalizing w t with
  | ret a => exact ⟨[], t, a, w, rfl, .ret a w, h⟩
  | effect e next ih =>
    cases h with
    | effect rest =>
      obtain ⟨t₁, t₂, a, w₁, rfl, hp, hf⟩ := ih _ rest
      exact ⟨.did e :: t₁, t₂, a, w₁, rfl, .effect hp, hf⟩
  | wait wt next ih =>
    cases h with
    | wait r others rest =>
      obtain ⟨t₁, t₂, a, w₁, rfl, hp, hf⟩ := ih _ rest
      exact ⟨_, t₂, a, w₁, (List.append_assoc _ _ _).symm, .wait r others hp, hf⟩

theorem Course.bind {p : Process α} {f : α → Process β} {t' : List Happening} {a : α} {b : β}
    {w₁ : World} (hp : p.Course w t a w₁) (hf : (f a).Course w₁ t' b w') :
    (p.bind f).Course w (t ++ t') b w' := by
  induction hp with
  | ret a w => exact hf
  | effect rest ih => exact .effect (ih hf)
  | wait r others rest ih =>
    rw [List.append_assoc]
    exact .wait r others (ih hf)

/-- What a process that sleeps or calls a service goes on with: what others ask of the queue while it
sleeps, or what the service answers. -/
inductive Meanwhile where
  | asked (ops : List ActivityQueue.Operation)
  | answered (o : Outcome Value)

def follow : Process α → World → List Meanwhile → Option (List Happening × α × World)
  | .ret a, w, _ => some ([], a, w)
  | .effect e next, w, plan =>
    (follow (next (w.perform e).1) (w.perform e).2 plan).map fun (t, a, w') => (.did e :: t, a, w')
  | .wait (.sleep _) next, w, .asked ops :: plan =>
    (follow (next ()) { w with queue := (w.queue.askAll ops).2 } plan).map fun (t, a, w') =>
      ((w.queue.askAll ops).1.map .asked ++ t, a, w')
  | .wait (.call _ _) next, w, .answered o :: plan => follow (next (some o)) w plan
  | .wait _ _, _, _ => none

theorem course_of_follow {p : Process α} {plan : List Meanwhile} {a : α}
    (h : p.follow w plan = some (t, a, w')) : p.Course w t a w' := by
  induction p generalizing w plan t with
  | ret b =>
    cases h
    exact .ret _ _
  | effect e next ih =>
    obtain ⟨⟨t', a', w₁⟩, hrest, heq⟩ := Option.map_eq_some_iff.mp h
    cases heq
    exact .effect (ih _ hrest)
  | wait wt next ih =>
    cases wt with
    | sleep micros =>
      rcases plan with _ | ⟨ops | o, plan⟩
      · cases h
      · obtain ⟨⟨t', a', w₁⟩, hrest, heq⟩ := Option.map_eq_some_iff.mp h
        cases heq
        exact .wait () (w.queue.asked_askAll ops) (ih _ hrest)
      · cases h
    | call c limit =>
      rcases plan with _ | ⟨ops | o, plan⟩
      · cases h
      · cases h
      · exact .wait (some o) (.nil w.queue) (ih (some o) h)
    | _ => cases h

theorem Keeps.course {post : α → Records → Prop} {p : Process α} {g : Records} {a : α}
    (h : p.Keeps .recording post g) (hcourse : p.Course w t a w') : post a (g ++ recorded t) := by
  induction hcourse generalizing g with
  | ret a w =>
    rw [recorded_nil, List.append_nil]
    exact h
  | effect rest ih => simpa [Protocol.recording] using ih (h.2 _)
  | wait r others rest ih => simpa using ih (h.2 r)

end Process

namespace Work

variable {α β : Type} {w w' : World} {t : List Happening}

section

variable [Room]

theorem course_bind_inv {x : Work α} {f : α → Work β} {o : Outcome β}
    (h : (x >>= f).run.Course w t o w') :
    (∃ t₁ t₂ a w₁, t = t₁ ++ t₂ ∧ x.run.Course w t₁ (.ok a) w₁ ∧ (f a).run.Course w₁ t₂ o w') ∨
      ∃ e, o = .error e ∧ x.run.Course w t (.error e) w' := by
  obtain ⟨t₁, t₂, r, w₁, rfl, hx, hf⟩ := Process.Course.bind_inv (p := x.run) h
  cases r with
  | ok a => exact Or.inl ⟨t₁, t₂, a, w₁, rfl, hx, hf⟩
  | error e =>
    cases hf
    exact Or.inr ⟨e, rfl, by rwa [List.append_nil]⟩

theorem course_perform_inv {e : Effect} {o : Outcome e.Reply}
    (h : (perform e).run.Course w t o w') :
    t = [.did e] ∧ o = .ok (w.perform e).1 ∧ w' = (w.perform e).2 := by
  cases h with
  | effect rest =>
    cases rest
    exact ⟨rfl, rfl, rfl⟩

theorem course_ofOutcome_inv {o o' : Outcome α} (h : (ofOutcome o).run.Course w t o' w') :
    t = [] ∧ o' = o ∧ w' = w := by
  cases h
  exact ⟨rfl, rfl, rfl⟩

theorem course_perform_bind_inv {e : Effect} {f : e.Reply → Work β} {o : Outcome β}
    (h : (perform e >>= f).run.Course w t o w') :
    ∃ t', t = .did e :: t' ∧ (f (w.perform e).1).run.Course (w.perform e).2 t' o w' := by
  cases h with
  | effect rest => exact ⟨_, rfl, rest⟩

end

/-! ## What work records -/

section Recording

variable {ok : α → Records → Prop} {err : Failure → Records → Prop} {g : Records}

theorem keeps_perform_recording {e : Effect} {ok : e.Reply → Records → Prop} :
    (perform e).Keeps .recording ok err g ↔ ∀ r, ok r (g ++ e.records) :=
  (keeps_perform e).trans (and_iff_right trivial)

def Silent (x : Work α) : Prop :=
  ∀ g, x.Keeps .recording (fun _ g' => g' = g) (fun _ g' => g' = g) g

theorem Silent.keeps {x : Work α} (h : x.Silent) (hok : ∀ a, ok a g) (herr : ∀ e, err e g) :
    x.Keeps .recording ok err g :=
  (h g).mono (fun a _ hg => hg ▸ hok a) fun e _ hg => hg ▸ herr e

theorem Silent.bind {x : Work α} {f : α → Work β} (hx : x.Silent) (hf : ∀ a, (f a).Silent) :
    (x >>= f).Silent := fun g =>
  (keeps_bind x f).mpr (hx.keeps (fun a => hf a g) fun _ => rfl)

theorem silent_ofOutcome (o : Outcome α) : (ofOutcome o).Silent := by
  intro g
  cases o <;> exact rfl

theorem silent_throw (e : Failure) : (throw e : Work α).Silent := fun _ => rfl

theorem silent_perform {e : Effect} (h : e.records = []) : (perform e).Silent := fun g =>
  keeps_perform_recording.mpr fun _ => by rw [h, List.append_nil]

theorem keeps_shown [Room] {details : Members} {ok : Unit → Records → Prop}
    (hok : ∀ text, (Value.obj details).display = .ok text → ok () g)
    (herr : ∀ e, (Value.obj details).display = .error e → err e g) :
    (shown details).Keeps .recording ok err g := by
  refine (keeps_bind (ofOutcome (Value.obj details).display) _).mpr ?_
  cases hshown : (Value.obj details).display with
  | ok text => exact hok text hshown
  | error e => exact herr e hshown

theorem keeps_recordValues [Room] {scope : Scope} {type : String} {details : Members}
    {ok : Unit → Records → Prop} (hok : ∀ text, (Value.obj details).display = .ok text →
      ok () (g ++ [(type, details)]))
    (herr : ∀ e, (Value.obj details).display = .error e → err e (g ++ [(type, details)])) :
    (recordValues scope type details).Keeps .recording ok err g := by
  exact (keeps_bind _ _).mpr (keeps_perform_recording.mpr fun _ => keeps_shown hok herr)

theorem keeps_recordFailure [Room] {scope : Scope} {type : String} {details : Members} {e : Failure}
    {ok : Unit → Records → Prop}
    (hok : ∀ text, e.text = .ok text → ok () (g ++ [(type, Event.fullDetails details e.name (.str text))]))
    (hshown : ∀ text problem, e.text = .ok text →
      (Value.obj (Event.fullDetails [] e.name (.str text))).display = .error problem →
        err problem (g ++ [(type, Event.fullDetails details e.name (.str text))]))
    (htext : ∀ problem, e.text = .error problem → err problem g) :
    (recordFailure scope type details e).Keeps .recording ok err g := by
  refine (keeps_bind (ofOutcome e.text) _).mpr ?_
  cases h : e.text with
  | error problem => exact htext problem h
  | ok text =>
    refine (keeps_bind _ _).mpr (keeps_perform_recording.mpr fun _ => ?_)
    exact keeps_shown (fun _ _ => hok text h) fun problem => hshown text problem h

theorem silent_await (wt : Wait) : (await wt).Silent := fun _ => ⟨trivial, fun _ => rfl⟩

end Recording

end Work

end StatesLanguage
