import StatesLanguage.Scheduler

/-!
# Protocols of processes

A protocol says what a process may ask for, given a state of its own that grows with what it has
asked for so far. A process keeps a protocol if all it asks for is allowed, however it is answered.
Since nothing is assumed about the answers, what is shown of a process here holds in every world and
beside all other processes.
-/

namespace StatesLanguage

theorem Outcome.ok_bind {α β : Type} (a : α) (f : α → Outcome β) :
    (.ok a : Outcome α) >>= f = f a := rfl

theorem Outcome.bind_eq_ok {α β : Type} {x : Outcome α} {f : α → Outcome β} {b : β} :
    x >>= f = .ok b ↔ ∃ a, x = .ok a ∧ f a = .ok b := by
  cases x with
  | error e =>
    constructor
    · intro h
      cases h
    · rintro ⟨a, h, _⟩
      cases h
  | ok a =>
    constructor
    · exact fun h => ⟨a, rfl, h⟩
    · rintro ⟨_, ⟨rfl⟩, h⟩
      exact h

theorem Outcome.bind_eq_error {α β : Type} {x : Outcome α} {f : α → Outcome β} {e : Failure} :
    x >>= f = .error e ↔ x = .error e ∨ ∃ a, x = .ok a ∧ f a = .error e := by
  cases x with
  | error e' =>
    constructor
    · intro h
      cases h
      exact .inl rfl
    · rintro (h | ⟨_, h, _⟩)
      · cases h
        rfl
      · cases h
  | ok a =>
    constructor
    · exact fun h => .inr ⟨a, rfl, h⟩
    · rintro (h | ⟨_, ⟨rfl⟩, h⟩)
      · cases h
      · exact h

theorem Outcome.of_guard {α β : Type} {c : Prop} [Decidable c] {e : Failure}
    {f : α → Outcome β} {x : Outcome β} {b : β}
    (h : (if c then throw e >>= f else x) = .ok b) : ¬c ∧ x = .ok b := by
  split at h
  · cases h
  · exact ⟨‹_›, h⟩

theorem Value.eq_str_of_asKey {v : Value} {key : String} (h : v.asKey = .ok (some key)) :
    v = .str key := by
  cases v <;> simp_all [Value.asKey]

/-- What processes may do. The state is bookkeeping: it is no part of what runs. -/
structure Protocol (γ : Type) where
  allows : γ → Effect → Prop
  next : γ → (e : Effect) → e.Reply → γ
  mayWait : γ → Wait → Prop

namespace Process

variable {α β γ : Type} {P : Protocol γ}

/-- The process does only what is allowed from a state on, and satisfies `post` when it returns. -/
def Keeps (P : Protocol γ) (post : α → γ → Prop) : Process α → γ → Prop
  | .ret a, g => post a g
  | .effect e next, g => P.allows g e ∧ ∀ r, Keeps P post (next r) (P.next g e r)
  | .wait w next, g => P.mayWait g w ∧ ∀ r, Keeps P post (next r) g

def Returns : Process α → α → Prop
  | .ret a, b => a = b
  | .effect _ next, b => ∃ r, Returns (next r) b
  | .wait _ next, b => ∃ r, Returns (next r) b

theorem Keeps.mono {post post' : α → γ → Prop} {p : Process α} {g : γ} (h : p.Keeps P post g)
    (himp : ∀ a g, post a g → post' a g) : p.Keeps P post' g := by
  induction p generalizing g with
  | ret a => exact himp a g h
  | effect e next ih => exact ⟨h.1, fun r => ih r (h.2 r)⟩
  | wait w next ih => exact ⟨h.1, fun r => ih r (h.2 r)⟩

theorem keeps_bind (post : β → γ → Prop) (p : Process α) (f : α → Process β) (g : γ) :
    (p.bind f).Keeps P post g ↔ p.Keeps P (fun a g => (f a).Keeps P post g) g := by
  induction p generalizing g with
  | ret a => rfl
  | effect e next ih => simp only [bind, Keeps, ih]
  | wait w next ih => simp only [bind, Keeps, ih]

theorem Keeps.of_returns {post : α → γ → Prop} {p : Process α} {g : γ} {a : α}
    (h : p.Keeps P post g) (ha : p.Returns a) : ∃ g, post a g := by
  induction p generalizing g with
  | ret b => exact ⟨g, ha ▸ h⟩
  | effect e next ih =>
    obtain ⟨r, ha⟩ := ha
    exact ih r (h.2 r) ha
  | wait w next ih =>
    obtain ⟨r, ha⟩ := ha
    exact ih r (h.2 r) ha

theorem bind_assoc {δ : Type} (p : Process α) (f : α → Process β) (g : β → Process δ) :
    (p.bind f).bind g = p.bind fun a => (f a).bind g := by
  induction p with
  | ret a => rfl
  | effect e next ih => simp only [bind, ih]
  | wait w next ih => simp only [bind, ih]

theorem bind_ret (p : Process α) : p.bind .ret = p := by
  induction p with
  | ret a => rfl
  | effect e next ih => simp only [bind, ih]
  | wait w next ih => simp only [bind, ih]

instance : LawfulMonad Process :=
  LawfulMonad.mk' Process bind_ret (fun _ _ => rfl) bind_assoc

variable [Room]

/-! ## Running up to a stop -/

theorem advance_bind (p : Process α) (f : α → Process β) (w : World) :
    (p.bind f).advance w =
      match p.advance w with
      | (.done a, w') => (f a).advance w'
      | (.waiting wt next, w') => (.waiting wt fun r => (next r).bind f, w') := by
  induction p generalizing w with
  | ret a => rfl
  | wait wt next _ => rfl
  | effect e next ih => exact ih _ _

theorem advance_bind_congr {p p' : Process α} {w : World} (h : p.advance w = p'.advance w)
    (f : α → Process β) :
    (p.bind f).advance w = (p'.bind f).advance w := by
  rw [advance_bind p, advance_bind p', h]

theorem returns_of_done {p : Process α} {w w' : World} {a : α}
    (h : p.advance w = (.done a, w')) : p.Returns a := by
  induction p generalizing w with
  | ret b => exact (Pause.done.inj (Prod.mk.inj h).1)
  | wait wt next _ => cases (Prod.mk.inj h).1
  | effect e next ih => exact ⟨_, ih _ h⟩

theorem returns_of_waiting {p : Process α} {w w' : World} {wt : Wait} {next : wt.Reply → Process α}
    (h : p.advance w = (.waiting wt next, w')) {r : wt.Reply} {a : α} (ha : (next r).Returns a) :
    p.Returns a := by
  induction p generalizing w with
  | ret b => cases (Prod.mk.inj h).1
  | wait wt' next' _ =>
    cases (Prod.mk.inj h).1
    exact ⟨r, ha⟩
  | effect e next ih => exact ⟨_, ih _ h⟩

/-- What can be said of a process that has run up to where it stops: `Inv` relates its state to the
world around it. -/
def Stopped (P : Protocol γ) (Inv : γ → World → Prop) (post : α → γ → Prop) :
    Pause α × World → Prop
  | (.done a, w) => ∃ g, post a g ∧ Inv g w
  | (.waiting wt next, w) => ∃ g, P.mayWait g wt ∧ (∀ r, (next r).Keeps P post g) ∧ Inv g w

/-- Running a process keeps a relation between its state and the world that every allowed effect
keeps. -/
theorem Keeps.advance {Inv : γ → World → Prop} {post : α → γ → Prop} {p : Process α} {g : γ}
    {w : World} (h : p.Keeps P post g) (hinv : Inv g w)
    (hstep : ∀ g w e, Inv g w → P.allows g e →
      Inv (P.next g e (w.perform e).1) (w.perform e).2) :
    Stopped P Inv post (p.advance w) := by
  induction p generalizing g w with
  | ret a => exact ⟨g, h, hinv⟩
  | wait wt next _ => exact ⟨g, h.1, h.2, hinv⟩
  | effect e next ih => exact ih _ (h.2 _) (hstep g w e hinv h.1)

end Process

/-- The protocol that allows everything: what is left of `Keeps` is the condition on the end. -/
def Protocol.free : Protocol Unit := ⟨fun _ _ => True, fun _ _ _ => (), fun _ _ => True⟩

theorem Process.keeps_free {α : Type} (p : Process α) : p.Keeps .free (fun _ _ => True) () := by
  induction p with
  | ret a => trivial
  | effect e next ih => exact ⟨trivial, ih⟩
  | wait w next ih => exact ⟨trivial, ih⟩

namespace Work

variable {α β γ : Type} {P : Protocol γ}

/-- `Process.Keeps` for work, with a condition for each way that it can end. -/
def Keeps (P : Protocol γ) (ok : α → γ → Prop) (err : Failure → γ → Prop) (work : Work α) (g : γ) :
    Prop :=
  Process.Keeps P (fun o g => match o with | .ok a => ok a g | .error e => err e g) work.run g

variable {ok ok' : α → γ → Prop} {err err' : Failure → γ → Prop} {g : γ}

theorem Keeps.mono {work : Work α} (h : work.Keeps P ok err g) (hok : ∀ a g, ok a g → ok' a g)
    (herr : ∀ e g, err e g → err' e g) : work.Keeps P ok' err' g := by
  apply Process.Keeps.mono h
  intro o g ho
  cases o with
  | ok a => exact hok a g ho
  | error e => exact herr e g ho

@[simp] theorem keeps_pure (a : α) : Keeps P ok err (pure a) g ↔ ok a g := Iff.rfl

@[simp] theorem keeps_throw (e : Failure) : Keeps P ok err (throw e) g ↔ err e g := Iff.rfl

@[simp] theorem keeps_ofOutcome (o : Outcome α) :
    Keeps P ok err (ofOutcome o) g ↔ match o with | .ok a => ok a g | .error e => err e g := Iff.rfl

@[simp] theorem keeps_bind {ok : β → γ → Prop} (x : Work α) (f : α → Work β) :
    Keeps P ok err (x >>= f) g ↔ Keeps P (fun a g => Keeps P ok err (f a) g) err x g := by
  refine (Process.keeps_bind _ x.run _ g).trans (Iff.of_eq ?_)
  congr 1
  funext o g
  cases o <;> rfl

theorem Keeps.bind {mid : α → γ → Prop} {ok : β → γ → Prop} {x : Work α} {f : α → Work β}
    (hx : x.Keeps P mid err g) (hf : ∀ a g, mid a g → (f a).Keeps P ok err g) :
    (x >>= f).Keeps P ok err g :=
  (keeps_bind x f).mpr (hx.mono hf fun _ _ h => h)

@[simp] theorem keeps_outcome {ok : Outcome α → γ → Prop} (x : Work α) :
    Keeps P ok err x.outcome g ↔ Keeps P (fun a => ok (.ok a)) (fun e => ok (.error e)) x g := by
  refine (Process.keeps_bind _ x.run _ g).trans (Iff.of_eq ?_)
  congr 1
  funext o g
  cases o <;> rfl

theorem run_outcome_bind (x : Work α) (f : Outcome α → Work β) :
    (x.outcome >>= f).run = x.run.bind fun o => (f o).run :=
  Process.bind_assoc x.run _ _

section

variable [Room]

theorem advance_perform (e : Effect) (w : World) :
    (perform e).run.advance w = (.done (.ok (w.perform e).1), (w.perform e).2) := rfl

theorem advance_elapsed (w : World) :
    elapsed.run.advance w = (.done (.ok (w.now - w.began)), w) := rfl

theorem advance_ofOutcome (o : Outcome α) (w : World) :
    (ofOutcome o).run.advance w = (.done o, w) := rfl

theorem advance_bind_ok {x : Work α} {w w' : World} {a : α}
    (h : x.run.advance w = (.done (.ok a), w')) (f : α → Work β) :
    (x >>= f).run.advance w = (f a).run.advance w' := by
  refine (Process.advance_bind x.run _ w).trans ?_
  rw [h]
  rfl

theorem advance_bind_error {x : Work α} {w w' : World} {e : Failure}
    (h : x.run.advance w = (.done (.error e), w')) (f : α → Work β) :
    (x >>= f).run.advance w = (.done (.error e), w') := by
  refine (Process.advance_bind x.run _ w).trans ?_
  rw [h]
  rfl

theorem advance_shown (details : Members) (w : World) :
    (shown details).run.advance w = (.done ((Value.obj details).display.map fun _ => ()), w) := by
  unfold shown
  cases (Value.obj details).display <;> rfl

theorem advance_recordFailure {e : Failure} {text : String} (htext : e.text = .ok text)
    (scope : Scope) (type : String) (details : Members) (w : World) :
    (recordFailure scope type details e).run.advance w =
      (.done ((Value.obj (Event.fullDetails [] e.name (.str text))).display.map fun _ => ()),
        w.record scope type (Event.fullDetails details e.name (.str text))) := by
  unfold recordFailure
  rw [htext, advance_bind_ok (advance_ofOutcome (.ok text) w)]
  refine (advance_bind_ok (advance_perform (.record scope type _) w) _).trans ?_
  exact advance_shown _ _

theorem advance_recordFailure_error {e problem : Failure} (htext : e.text = .error problem)
    (scope : Scope) (type : String) (details : Members) (w : World) :
    (recordFailure scope type details e).run.advance w = (.done (.error problem), w) := by
  unfold recordFailure
  rw [htext]
  exact advance_bind_error (advance_ofOutcome _ w) _

theorem advance_tell {text : Outcome String} {line : String} (htext : text = .ok line)
    (level : Level) (w : World) :
    (tell level text).run.advance w = (.done (.ok ()), w.log ⟨level, line⟩) := by
  unfold tell
  rw [htext, advance_bind_ok (advance_ofOutcome (.ok line) w)]
  rfl

end

@[simp] theorem keeps_perform (e : Effect) {ok : e.Reply → γ → Prop} :
    Keeps P ok err (perform e) g ↔ P.allows g e ∧ ∀ r, ok r (P.next g e r) := Iff.rfl

@[simp] theorem keeps_await (w : Wait) {ok : w.Reply → γ → Prop} :
    Keeps P ok err (await w) g ↔ P.mayWait g w ∧ ∀ r, ok r g := Iff.rfl

@[simp] theorem keeps_now {ok : Nat → γ → Prop} :
    Keeps P ok err now g ↔ P.allows g .now ∧ ∀ n, ok n (P.next g .now n) := Iff.rfl

@[simp] theorem keeps_elapsed {ok : Nat → γ → Prop} :
    Keeps P ok err elapsed g ↔ P.allows g .elapsed ∧ ∀ n, ok n (P.next g .elapsed n) := Iff.rfl

@[simp] theorem keeps_record {ok : Unit → γ → Prop} (scope : Scope) (type : String)
    (details : Members) :
    Keeps P ok err (record scope type details) g ↔
      P.allows g (.record scope type details) ∧
        ∀ u, ok u (P.next g (.record scope type details) u) := Iff.rfl

@[simp] theorem keeps_log {ok : Unit → γ → Prop} (level : Level) (text : String) :
    Keeps P ok err (log level text) g ↔
      P.allows g (.log level text) ∧ ∀ u, ok u (P.next g (.log level text) u) := Iff.rfl

@[simp] theorem keeps_sleep {ok : Unit → γ → Prop} (micros : Nat) :
    Keeps P ok err (sleep micros) g ↔ P.mayWait g (.sleep micros) ∧ ∀ u, ok u g := Iff.rfl

theorem keeps_free (work : Work α) : work.Keeps .free (fun _ _ => True) (fun _ _ => True) () := by
  apply (Process.keeps_free work.run).mono
  intro o g _
  cases o <;> trivial

theorem keeps_ite {c : Prop} [Decidable c] {x y : Work α} (hx : c → x.Keeps P ok err g)
    (hy : ¬c → y.Keeps P ok err g) : Keeps P ok err (if c then x else y) g := by
  split
  · exact hx ‹_›
  · exact hy ‹_›

end Work

end StatesLanguage
