import StatesLanguage.Proofs.Labels
import StatesLanguage.Proofs.Parts
import StatesLanguage.Proofs.Settlement
import StatesLanguage.Proofs.Table

/-!
# Books about a resource

What is done with the tasks of a resource is kept in three places: events, metrics and spans. The
entries of one call belong together, and books that have all entries of each call balance. A call that
fails ends early where its error has no text, or the details of an event have none that is logged.
-/

namespace StatesLanguage

def Event.isAbout (resource : String) (details : Members) : Bool :=
  match Table.get? details "resource" with
  | some (.str r) => r == resource
  | _ => false

def Event.isOf (type resource : String) (e : Event) : Bool :=
  e.type == type && isAbout resource e.details

variable [Room]

/-- The details have a text, which is logged. -/
def Event.isShown (details : Members) : Bool := (Value.obj details).display.isOk

theorem Event.isShown_iff {details : Members} :
    isShown details = true ↔ ∀ m ∈ details, ∃ text, Value.inner (Room.texts - 1) m.2 = .ok text := by
  rw [← Value.display_obj_isOk, isShown]
  cases (Value.obj details).display with
  | ok text => exact iff_of_true rfl ⟨text, rfl⟩
  | error e => exact iff_of_false nofun nofun

namespace World

@[simp] theorem spans_record (w : World) (scope : Scope) (type : String) (details : Members) :
    (w.record scope type details).spans = w.spans := by
  unfold record
  dsimp only
  split <;> rfl

@[simp] theorem metrics_record (w : World) (scope : Scope) (type : String) (details : Members) :
    (w.record scope type details).metrics = w.metrics := by
  unfold record
  dsimp only
  split <;> rfl

def taskEvents (w : World) (type resource : String) : List Event :=
  w.execution.history.toList.filter (Event.isOf type resource)

/-- The spans of a resource, without so many that were there before. -/
def spansOf (w : World) (before : Nat) (resource : String) : List Span :=
  (w.spans.toList.drop before).filter (·.resource == resource)

/-- The errors of calls that could be told. -/
def failures (w : World) (before : Nat) (resource : String) : List Failure :=
  (w.spansOf before resource).filterMap (·.told)

def completed (w : World) (before : Nat) (resource : String) : Nat :=
  (w.spansOf before resource).countP fun s => s.told.isNone && s.raised.isNone

/-- The number of calls that failed with an error that could not be told. -/
def untold (w : World) (before : Nat) (resource : String) : Nat :=
  (w.spansOf before resource).countP fun s => s.told.isNone && s.raised.isSome

end World

/-- What the event of a failed call says, if its error has a text. -/
def Task.failedDetails (resource : String) (kind : ResourceKind) (e : Failure) : Outcome Members :=
  e.text.map fun text => Event.fullDetails
    [("resource", .str resource), ("resourceType", .str (Task.resourceType kind))] e.name (.str text)

/-- The error is told, by an event that is logged. -/
def Task.isLogged (resource : String) (kind : ResourceKind) (e : Failure) : Bool :=
  match Task.failedDetails resource kind e with
  | .ok details => Event.isShown details
  | .error _ => false

/-- A resource, and the metrics by which its tasks are counted. -/
structure Account where
  resource : String
  kind : ResourceKind
  space : String
  /-- The number of spans that are not looked at. -/
  before : Nat

/-- An entry about a resource in one of the places. -/
inductive Entry where
  | scheduled (details : Members)
  | succeeded
  | failed (details : Members)
  | counted (event : Metrics.Event)
  | timed
  | span (told raised : Option Failure)

structure Books where
  scheduledEvents : List Members
  succeededEvents : Nat
  failedEvents : List Members
  counted : Metrics.Event → Nat
  timed : Nat
  completed : Nat
  untold : Nat
  failures : List Failure

def Books.enter (b : Books) : Entry → Books
  | .scheduled details => { b with scheduledEvents := b.scheduledEvents ++ [details] }
  | .succeeded => { b with succeededEvents := b.succeededEvents + 1 }
  | .failed details => { b with failedEvents := b.failedEvents ++ [details] }
  | .counted event =>
    { b with counted := fun other => if other = event then b.counted event + 1 else b.counted other }
  | .timed => { b with timed := b.timed + 1 }
  | .span none none => { b with completed := b.completed + 1 }
  | .span none (some _) => { b with untold := b.untold + 1 }
  | .span (some e) _ => { b with failures := b.failures ++ [e] }

namespace Account

variable (a : Account)

def books (w : World) : Books where
  scheduledEvents := (w.taskEvents "TaskScheduled" a.resource).map (·.details)
  succeededEvents := (w.taskEvents "TaskSucceeded" a.resource).length
  failedEvents := (w.taskEvents "TaskFailed" a.resource).map (·.details)
  counted event := w.metrics.counted a.space a.kind event a.resource
  timed := w.metrics.timed a.space a.kind a.resource
  completed := w.completed a.before a.resource
  untold := w.untold a.before a.resource
  failures := w.failures a.before a.resource

def entryOf? (type : String) (details : Members) : Option Entry :=
  if Event.isAbout a.resource details then
    if type = "TaskScheduled" then some (.scheduled details)
    else if type = "TaskSucceeded" then some .succeeded
    else if type = "TaskFailed" then some (.failed details)
    else none
  else none

def entryBy? : Effect → Option Entry
  | .record _ type details => a.entryOf? type details
  | .count _ _ event resource => if resource = a.resource then some (.counted event) else none
  | .observe _ _ resource _ => if resource = a.resource then some .timed else none
  | .span s => if s.resource = a.resource then some (.span s.told s.raised) else none
  | _ => none

/-- Metrics are those of the space, and of a resource's own family. -/
def Fits : Effect → Prop
  | .count space family _ resource | .observe space family resource _ =>
    space = a.space ∧ ∃ kind, family = .of kind ∧ (resource = a.resource → kind = a.kind)
  | _ => True

def after (b : Books) : Option Entry → Books
  | none => b
  | some x => b.enter x

variable {a}

theorem taskEvents_record (w : World) (scope : Scope) (type type' : String) (details : Members)
    (resource : String) :
    (w.record scope type details).taskEvents type' resource =
      w.taskEvents type' resource ++ [⟨w.execution.history.size + 1, w.now, type, details, scope⟩].filter
        (Event.isOf type' resource) := by
  rw [World.taskEvents, World.execution_record, Execution.history_addEvent, List.filter_append]
  rfl

theorem books_record (w : World) (scope : Scope) (type : String) (details : Members) :
    a.books (w.record scope type details) = after (a.books w) (a.entryOf? type details) := by
  have hisOf (type' : String) (time id : Nat) :
      Event.isOf type' a.resource ⟨id, time, type, details, scope⟩ =
        (type == type' && Event.isAbout a.resource details) := rfl
  simp only [books, taskEvents_record, World.metrics_record, World.spans_record, List.filter_cons, List.filter_nil, hisOf,
    World.completed, World.untold, World.failures, World.spansOf, entryOf?]
  by_cases habout : Event.isAbout a.resource details
  · by_cases hscheduled : type = "TaskScheduled"
    · subst hscheduled
      simp [habout, after, Books.enter]
    by_cases hsucceeded : type = "TaskSucceeded"
    · subst hsucceeded
      simp [habout, after, Books.enter]
    by_cases hfailed : type = "TaskFailed"
    · subst hfailed
      simp [habout, after, Books.enter]
    simp [hscheduled, hsucceeded, hfailed, after]
  · simp [habout, after]

omit [Room] in
theorem books_count (w : World) (kind : ResourceKind) (event : Metrics.Event) (resource : String)
    (hkind : resource = a.resource → kind = a.kind) :
    a.books { w with metrics := w.metrics.count a.space (.of kind) event resource } =
      after (a.books w) (if resource = a.resource then some (.counted event) else none) := by
  by_cases hself : resource = a.resource
  · obtain rfl := hkind hself
    subst hself
    rw [if_pos rfl]
    simp only [books, after, Books.enter, Books.mk.injEq]
    refine ⟨rfl, rfl, rfl, funext fun other => ?_, ?_, rfl, rfl, rfl⟩
    · by_cases hother : other = event
      · rw [hother, if_pos rfl, Metrics.Registry.counted_count_self]
      · rw [if_neg hother, Metrics.Registry.counted_count_of_ne _ _ _ _ _ _ _ _ (.inl hother)]
    · exact Metrics.Registry.timed_count _ _ _ _ _ _ _
  · rw [if_neg hself]
    simp only [books, after, Books.mk.injEq]
    refine ⟨rfl, rfl, rfl, funext fun other => ?_, ?_, rfl, rfl, rfl⟩
    · exact Metrics.Registry.counted_count_of_ne _ _ _ _ _ _ _ _ (.inr (Ne.symm hself))
    · exact Metrics.Registry.timed_count _ _ _ _ _ _ _

omit [Room] in
theorem books_observe (w : World) (kind : ResourceKind) (resource : String) (micros : Nat)
    (hkind : resource = a.resource → kind = a.kind) :
    a.books { w with metrics := w.metrics.observe a.space (.of kind) resource micros } =
      after (a.books w) (if resource = a.resource then some .timed else none) := by
  by_cases hself : resource = a.resource
  · obtain rfl := hkind hself
    subst hself
    rw [if_pos rfl]
    simp only [books, after, Books.enter, Books.mk.injEq]
    exact ⟨rfl, rfl, rfl, rfl, Metrics.Registry.timed_observe_self _ _ _ _ _, rfl, rfl, rfl⟩
  · rw [if_neg hself]
    simp only [books, after, Books.mk.injEq]
    exact ⟨rfl, rfl, rfl, rfl,
      Metrics.Registry.timed_observe_of_ne _ _ _ _ _ _ (Ne.symm hself) _, rfl, rfl, rfl⟩

omit [Room] in
theorem books_span (w : World) (s : Span) (hbefore : a.before ≤ w.spans.size) :
    a.books { w with spans := w.spans.push s } =
      after (a.books w) (if s.resource = a.resource then some (.span s.told s.raised) else none) := by
  have hspans : World.spansOf { w with spans := w.spans.push s } a.before a.resource =
      w.spansOf a.before a.resource ++ if s.resource = a.resource then [s] else [] := by
    have hlength : a.before ≤ w.spans.toList.length := hbefore
    unfold World.spansOf
    rw [Array.toList_push, List.drop_append_of_le_length hlength, List.filter_append]
    by_cases hself : s.resource = a.resource <;> simp [hself]
  simp only [books, World.completed, World.untold, World.failures, hspans]
  by_cases hself : s.resource = a.resource
  · simp only [if_pos hself]
    cases htold : s.told with
    | none =>
      cases hraised : s.raised <;> simp [after, Books.enter, htold, hraised, World.taskEvents]
    | some e => simp [after, Books.enter, htold, World.taskEvents]
  · simp [hself, after, World.taskEvents]

theorem books_perform (w : World) {e : Effect} (he : a.Fits e) (hbefore : a.before ≤ w.spans.size) :
    a.books (w.perform e).2 = after (a.books w) (a.entryBy? e) ∧
      a.before ≤ (w.perform e).2.spans.size := by
  cases e with
  | record scope type details =>
    refine ⟨books_record w scope type details, ?_⟩
    rw [World.perform, World.spans_record]
    exact hbefore
  | count space family event resource =>
    obtain ⟨rfl, kind, rfl, hkind⟩ := he
    exact ⟨books_count w kind event resource hkind, hbefore⟩
  | observe space family resource micros =>
    obtain ⟨rfl, kind, rfl, hkind⟩ := he
    exact ⟨books_observe w kind resource micros hkind, hbefore⟩
  | span s =>
    refine ⟨books_span w s hbefore, Nat.le_trans hbefore ?_⟩
    simp [World.perform]
  | conclude o =>
    cases o with
    | ok output => exact ⟨rfl, hbefore⟩
    | error e =>
      refine ⟨?_, hbefore⟩
      simp only [books, World.perform, World.conclude, World.taskEvents, Execution.history_fail]
      rfl
  | scheduleTask arn input =>
    simp only [World.perform, World.scheduleTask]
    split <;> exact ⟨rfl, hbefore⟩
  | takeReport token =>
    simp only [World.perform, World.takeReport]
    split <;> exact ⟨rfl, hbefore⟩
  | getActivityTask arn worker =>
    simp only [World.perform, World.getActivityTask]
    repeat' split
    all_goals exact ⟨rfl, hbefore⟩
  | enqueueResult token output error cause =>
    simp only [World.perform, World.enqueueResult]
    split <;> exact ⟨rfl, hbefore⟩
  | _ => exact ⟨rfl, hbefore⟩

end Account

/-! ## Transactions -/

namespace Account

variable (a : Account) (lossless : Prop)

/-- The entries that belong together. What is not logged is not counted, and an error without a text
leaves its call without an event. A result that has no text does so too, and if results are never lost
there is no such call. -/
inductive Transaction : List Entry → Prop
  | schedule (details : Members) (h : Event.isShown details) :
    Transaction [.scheduled details, .counted .scheduled]
  | scheduleUnshown (details : Members) (h : ¬Event.isShown details) :
    Transaction [.scheduled details]
  | fail (e : Failure) (details : Members) (htext : Task.failedDetails a.resource a.kind e = .ok details)
      (h : Event.isShown details) :
    Transaction [.failed details, .counted (Task.failureEvent e), .timed, .span (some e) (some e)]
  | failUnshown (e problem : Failure) (details : Members)
      (htext : Task.failedDetails a.resource a.kind e = .ok details) (h : ¬Event.isShown details) :
    Transaction [.failed details, .timed, .span (some e) (some problem)]
  | failUntold (problem : Failure) : Transaction [.timed, .span none (some problem)]
  | succeed : Transaction [.timed, .span none none, .succeeded, .counted .succeeded]
  | lose (h : ¬lossless) : Transaction [.timed, .span none none]

/-- The entries of the three places agree. -/
structure Balanced (b : Books) : Prop where
  scheduled : b.counted .scheduled = b.scheduledEvents.countP Event.isShown
  succeeded : b.counted .succeeded = b.succeededEvents
  events : b.failedEvents.map .ok = b.failures.map (Task.failedDetails a.resource a.kind)
  timedOut : b.counted .timedOut = b.failures.countP fun e =>
    e.kind? = some .timeout && Task.isLogged a.resource a.kind e
  failed : b.counted .failed + b.counted .timedOut = b.failedEvents.countP Event.isShown
  timed : b.timed = b.completed + b.untold + b.failures.length
  results : b.succeededEvents ≤ b.completed
  lossless : lossless → b.succeededEvents = b.completed

variable {a lossless} {b : Books} {entries : List Entry}

theorem Balanced.transaction (h : a.Balanced lossless b) (ht : a.Transaction lossless entries) :
    a.Balanced lossless (entries.foldl Books.enter b) := by
  have htimed := h.timed
  cases ht with
  | schedule details hshown =>
    refine ⟨?_, h.succeeded, h.events, h.timedOut, h.failed, h.timed, h.results, h.lossless⟩
    simp [Books.enter, h.scheduled, hshown]
  | scheduleUnshown details hshown =>
    refine ⟨?_, h.succeeded, h.events, h.timedOut, h.failed, h.timed, h.results, h.lossless⟩
    simp [Books.enter, h.scheduled, hshown]
  | fail e details htext hshown =>
    have hfailed := h.failed
    have htimedOut := h.timedOut
    have hlogged : Task.isLogged a.resource a.kind e = true := by
      rw [Task.isLogged, htext]
      exact hshown
    by_cases htimeout : e.kind? = some .timeout
    · refine ⟨?_, ?_, ?_, ?_, ?_, ?_, h.results, h.lossless⟩ <;>
        simp [Books.enter, Task.failureEvent, htimeout, h.scheduled, h.succeeded, h.events, htext,
          hshown, hlogged] <;> omega
    · refine ⟨?_, ?_, ?_, ?_, ?_, ?_, h.results, h.lossless⟩ <;>
        simp [Books.enter, Task.failureEvent, htimeout, h.scheduled, h.succeeded, h.events, htext,
          hshown] <;> omega
  | failUnshown e problem details htext hshown =>
    have hlogged : Task.isLogged a.resource a.kind e = false := by
      rw [Task.isLogged, htext]
      exact Bool.eq_false_of_not_eq_true hshown
    refine ⟨h.scheduled, h.succeeded, ?_, ?_, ?_, ?_, h.results, h.lossless⟩
    · simp [Books.enter, h.events, htext]
    · simp [Books.enter, h.timedOut, hlogged]
    · simp [Books.enter, h.failed, hshown]
    · simp [Books.enter, h.timed]
      omega
  | failUntold problem =>
    refine ⟨h.scheduled, h.succeeded, h.events, h.timedOut, h.failed, ?_, h.results, h.lossless⟩
    simp only [List.foldl_cons, List.foldl_nil, Books.enter, h.timed]
    omega
  | succeed =>
    refine ⟨h.scheduled, congrArg (· + 1) h.succeeded, h.events, h.timedOut, h.failed, ?_, ?_, ?_⟩
    · simp only [List.foldl_cons, List.foldl_nil, Books.enter, h.timed]
      omega
    · exact Nat.succ_le_succ h.results
    · exact fun hl => congrArg (· + 1) (h.lossless hl)
  | lose hl =>
    refine ⟨h.scheduled, h.succeeded, h.events, h.timedOut, h.failed, ?_, ?_, ?_⟩
    · simp only [List.foldl_cons, List.foldl_nil, Books.enter, h.timed]
      omega
    · exact Nat.le_succ_of_le h.results
    · exact fun hlossless => absurd hlossless hl

end Account

end StatesLanguage
