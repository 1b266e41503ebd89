import Mathlib.Data.List.Chain
import StatesLanguage.Proofs.Transitions

/-!
# Traces of machines

What the history of a run says about the states of one machine: they are visited one after another,
from the start on, each led to by the one before and given its output. Only the last visit may lack
an end.
-/

namespace StatesLanguage

variable [Room]

/-! ## Visits -/

def State.entry (s : State) (input : String) : String × Members :=
  (s.kind.name ++ "StateEntered", [("name", .str s.name), ("input", .str input)])

def State.exit (s : State) (output : String) : String × Members :=
  (s.kind.name ++ "StateExited", [("name", .str s.name), ("output", .str output)])

/-- A state that was entered with the text of an input and, if it was left, left with the text of an
output. -/
structure Visit where
  state : State
  input : String
  /-- The events between the state's entry and its exit. -/
  inner : Records
  output : Option String

def Visit.records (v : Visit) : Records :=
  v.state.entry v.input :: (v.inner ++ (v.output.map v.state.exit).toList)

/-- The state was left, and what it had recorded led it to go on at `next`. -/
def Visit.Leads (v : Visit) (site : Site) (next : Value) : Prop :=
  ∃ entered input text t, Json.encode input = .ok v.input ∧ v.output = some text ∧
    Json.encode t.output = .ok text ∧ v.state.Leads site entered input v.inner t ∧ t.next = next

/-- A visit may come right after another. -/
def Visit.Precedes (site : Site) (v w : Visit) : Prop :=
  v.output = some w.input ∧ v.Leads site (.str w.state.name)

/-- Visits to states of the machine from its start on. -/
structure Machine.IsPath (m : Machine) (site : Site) (visits : List Visit) : Prop where
  parts : ∀ v ∈ visits, v.state.IsPart m.states
  start : ∀ v, visits.head? = some v → m.startAt = .str v.state.name
  linked : visits.IsChain (Visit.Precedes site)
  inner : ∀ v ∈ visits, ∀ r ∈ v.inner, Event.isInner r.1 = true
  bounded : ∀ v ∈ visits, ∀ text, v.output = some text → text.length ≤ State.maxDataLength

/-- The events are those of visits to states of the machine. -/
def Machine.Traces (m : Machine) (site : Site) (rs : Records) : Prop :=
  ∃ visits, m.IsPath site visits ∧ rs = visits.flatMap Visit.records

/-- The events are those of a machine that has ended with an output. -/
def Machine.Ends (m : Machine) (site : Site) (rs : Records) (output : Value) : Prop :=
  ∃ visits last text, m.IsPath site (visits ++ [last]) ∧
    rs = (visits ++ [last]).flatMap Visit.records ∧ last.state.IsFinal ∧ last.output = some text ∧
    Json.encode output = .ok text

/-- A definition of a machine inside a state of the machine. -/
def Machine.Contains (m : Machine) (definition : Value) : Prop :=
  ∃ s : State, s.IsPart m.states ∧
    ((s.kind = .parallel ∧ ∃ branches, (s.field "Branches" .null).iterate = .ok branches ∧
      definition ∈ branches) ∨ s.kind = .map definition)

namespace Machine

variable {m : Machine} {site : Site} {visits : List Visit}

theorem isPath_nil : m.IsPath site [] := by
  refine ⟨?_, ?_, .nil, ?_, ?_⟩
  all_goals simp

/-- The machine may go on at a name with an input of a text. -/
def Awaits (m : Machine) (site : Site) (visits : List Visit) (name : Value) (text : String) : Prop :=
  match visits.getLast? with
  | none => m.startAt = name
  | some last => last.output = some text ∧ last.Leads site name

theorem IsPath.enter {s : State} {text : String} (h : m.IsPath site visits) (hs : s.IsPart m.states)
    (hnext : m.Awaits site visits (.str s.name) text) :
    m.IsPath site (visits ++ [⟨s, text, [], none⟩]) := by
  refine ⟨?_, ?_, ?_, ?_, ?_⟩
  · intro v hv
    rcases List.mem_append.mp hv with hv | hv
    · exact h.parts v hv
    · obtain rfl := List.mem_singleton.mp hv
      exact hs
  · intro v hv
    cases visits with
    | nil =>
      obtain rfl := Option.some.inj hv
      exact hnext
    | cons first rest => exact h.start v hv
  · refine List.isChain_append.mpr ⟨h.linked, .singleton _, ?_⟩
    intro last hlast w hw
    obtain rfl := Option.some.inj hw
    rw [Awaits, Option.mem_def.mp hlast] at hnext
    exact hnext
  · intro v hv
    rcases List.mem_append.mp hv with hv | hv
    · exact h.inner v hv
    · obtain rfl := List.mem_singleton.mp hv
      exact fun _ h => nomatch h
  · intro v hv
    rcases List.mem_append.mp hv with hv | hv
    · exact h.bounded v hv
    · obtain rfl := List.mem_singleton.mp hv
      exact fun _ h => nomatch h

/-- The last visit goes on: what is before it is as it was. -/
theorem IsPath.goOn {v w : Visit} (h : m.IsPath site (visits ++ [v])) (hstate : w.state = v.state)
    (hinput : w.input = v.input) (hinner : ∀ r ∈ w.inner, Event.isInner r.1 = true)
    (hlength : ∀ text, w.output = some text → text.length ≤ State.maxDataLength) :
    m.IsPath site (visits ++ [w]) := by
  refine ⟨?_, ?_, ?_, ?_, ?_⟩
  · intro u hu
    rcases List.mem_append.mp hu with hu | hu
    · exact h.parts u (List.mem_append_left _ hu)
    · obtain rfl := List.mem_singleton.mp hu
      rw [hstate]
      exact h.parts v (by simp)
  · intro u hu
    cases visits with
    | nil =>
      obtain rfl := Option.some.inj hu
      rw [hstate]
      exact h.start v rfl
    | cons first rest => exact h.start u hu
  · obtain ⟨hlinked, -, hlast⟩ := List.isChain_append.mp h.linked
    refine List.isChain_append.mpr ⟨hlinked, .singleton _, ?_⟩
    intro last hmem u hu
    obtain rfl := Option.some.inj hu
    have hprecedes := hlast last hmem v rfl
    rwa [Visit.Precedes, ← hstate, ← hinput] at hprecedes
  · intro u hu
    rcases List.mem_append.mp hu with hu | hu
    · exact h.inner u (List.mem_append_left _ hu)
    · obtain rfl := List.mem_singleton.mp hu
      exact hinner
  · intro u hu
    rcases List.mem_append.mp hu with hu | hu
    · exact h.bounded u (List.mem_append_left _ hu)
    · obtain rfl := List.mem_singleton.mp hu
      exact hlength

end Machine

end StatesLanguage
