import StatesLanguage.State.Simple

/-!
# Data that does not depend on when it is looked at

What a state sees of the execution it belongs to changes with the time at which it is entered, and the
identifiers that templates ask for change with the number of those that have been drawn. Paths,
templates and rules that read no part of it that changes, and call no function that draws, give the
same always.
-/

namespace StatesLanguage

variable {ι κ α β : Type}

/-- The outcomes are all the same value, or all of them are errors. -/
def Agreed (o : ι → Outcome α) : Prop :=
  ∃ value, ∀ i, (o i).toOption = value

namespace Agreed

theorem comp {o : ι → Outcome α} (h : Agreed o) (f : κ → ι) : Agreed fun k => o (f k) := by
  obtain ⟨value, h⟩ := h
  exact ⟨value, fun k => h (f k)⟩

theorem const (o : Outcome α) : Agreed fun _ : ι => o :=
  ⟨_, fun _ => rfl⟩

theorem cases {o : ι → Outcome α} (h : Agreed o) :
    (∀ i, ∃ e, o i = .error e) ∨ ∃ a, ∀ i, o i = .ok a := by
  obtain ⟨value, h⟩ := h
  cases value with
  | none =>
    refine .inl fun i => ?_
    have hi := h i
    rcases ho : o i with e | a
    · exact ⟨e, rfl⟩
    · rw [ho] at hi
      cases hi
  | some a =>
    refine .inr ⟨a, fun i => ?_⟩
    have hi := h i
    rcases ho : o i with e | b
    · rw [ho] at hi
      cases hi
    · rw [ho] at hi
      cases hi
      rfl

theorem of_errors {o : ι → Outcome α} (h : ∀ i, ∃ e, o i = .error e) : Agreed o := by
  refine ⟨none, fun i => ?_⟩
  obtain ⟨e, he⟩ := h i
  rw [he]
  rfl

theorem bind {o : ι → Outcome α} {f : ι → α → Outcome β} (h : Agreed o)
    (hf : ∀ a, Agreed fun i => f i a) : Agreed fun i => o i >>= f i := by
  rcases h.cases with herror | ⟨a, hok⟩
  · refine of_errors fun i => ?_
    obtain ⟨e, he⟩ := herror i
    exact ⟨e, by rw [he]; rfl⟩
  · simp only [hok]
    exact hf a

theorem map {o : ι → Outcome α} (h : Agreed o) (f : α → β) : Agreed fun i => (o i).map f := by
  rcases h.cases with herror | ⟨a, hok⟩
  · refine of_errors fun i => ?_
    obtain ⟨e, he⟩ := herror i
    exact ⟨e, by rw [he]; rfl⟩
  · simp only [hok]
    exact const _

end Agreed

namespace Draw

/-- Steps of which all come to the same, however many identifiers have been drawn. -/
def Agreed (x : ι → Draw α) : Prop :=
  StatesLanguage.Agreed fun i : ι × Nat => ((x i.1).runFrom i.2).1

theorem Agreed.comp {x : ι → Draw α} (h : Agreed x) (f : κ → ι) : Agreed fun k => x (f k) :=
  StatesLanguage.Agreed.comp h fun k : κ × Nat => (f k.1, k.2)

theorem agreed_ofOutcome {o : ι → Outcome α} (h : StatesLanguage.Agreed o) :
    Agreed fun i => ofOutcome (o i) :=
  h.comp Prod.fst

theorem agreed_throw (e : Failure) : Agreed fun _ : ι => (throw e : Draw α) :=
  .const (.error e)

theorem agreed_pure (a : α) : Agreed fun _ : ι => (pure a : Draw α) :=
  .const (.ok a)

theorem runFrom_bind (x : Draw α) (f : α → Draw β) (n : Nat) :
    (x >>= f).runFrom n = match x.runFrom n with
      | (.ok a, drawn) => (f a).runFrom drawn
      | (.error e, drawn) => (.error e, drawn) := by
  simp only [runFrom, ExceptT.run_bind, StateT.run_bind]
  rcases StateT.run (ExceptT.run x) n with ⟨e | a, drawn⟩
  · rfl
  · rfl

theorem agreed_bind {x : ι → Draw α} {f : ι → α → Draw β} (h : Agreed x)
    (hf : ∀ a, Agreed fun i => f i a) : Agreed fun i => x i >>= f i := by
  unfold Agreed
  simp only [runFrom_bind]
  rcases h.cases with herror | ⟨a, hok⟩
  · refine .of_errors fun i => ?_
    obtain ⟨e, he⟩ := herror i
    refine ⟨e, ?_⟩
    rcases hx : (x i.1).runFrom i.2 with ⟨o, drawn⟩
    rw [hx] at he
    cases he
    rfl
  · obtain ⟨value, hvalue⟩ := hf a
    refine ⟨value, fun i => ?_⟩
    have hi := hok i
    dsimp only
    rcases hx : (x i.1).runFrom i.2 with ⟨o, drawn⟩
    rw [hx] at hi
    cases hi
    exact hvalue (i.1, drawn)

theorem agreed_mapM (items : List κ) {f : ι → κ → Draw α}
    (h : ∀ item ∈ items, Agreed fun i => f i item) : Agreed fun i => items.mapM (f i) := by
  induction items with
  | nil => exact agreed_pure []
  | cons item rest ih =>
    simp only [List.mapM_cons]
    refine agreed_bind (h item List.mem_cons_self) fun v => ?_
    refine agreed_bind (ih fun item hitem => h item (List.mem_cons_of_mem _ hitem)) fun vs => ?_
    exact agreed_pure _

end Draw

variable [Room]

/-! ## Paths -/

/-- A path that selects the same, or nothing, whichever context it is applied in. -/
def SteadyPath (context : ι → Value) (path : Value) : Prop :=
  ∀ input, Agreed fun i => Choice.Rule.selected input (context i) path

/-- A path into the data and not into the context. -/
def isData : Value → Bool
  | .str text => text.toList.take 2 != ['$', '$']
  | _ => true

namespace SteadyPath

variable {context : ι → Value} {path : Value}

theorem apply (h : SteadyPath context path) (input : Value) :
    Agreed fun i => Path.apply input (context i) path := by
  obtain ⟨value, h⟩ := h input
  refine ⟨value.join, fun i => ?_⟩
  rw [← h i]
  unfold Choice.Rule.selected
  dsimp only
  split
  · rename_i hpath
    rw [hpath]
    rfl
  · rename_i hpath
    rw [hpath]
    rfl
  · rename_i hpath
    rw [hpath]
    rfl

theorem filter (h : SteadyPath context path) (input : Value) :
    Agreed fun i => Path.filter input (context i) path := by
  unfold Path.filter
  split
  · exact .const _
  · exact h.apply input

theorem of_data (h : isData path = true) : SteadyPath context path := by
  intro input
  have hpath (i : ι) : Path.apply input (context i) path = Path.apply input .null path := by
    unfold Path.apply
    split
    · split
      · rename_i text _ rest htext
        simp [isData, htext] at h
      · rfl
      · rfl
    · rfl
  unfold Choice.Rule.selected
  simp only [hpath]
  exact .const _

end SteadyPath

/-! ## Templates -/

namespace Intrinsic

/-- The second text is one that the evaluation of the first comes upon: itself or, in a call, part of an
argument that does not stand in apostrophes. -/
inductive Within : List Char → List Char → Prop
  | here (cs : List Char) : Within cs cs
  | argument {cs arg part : List Char} {call : Call} (hcall : Call.ofText? cs = some call)
      (harg : arg ∈ splitArguments call.arguments) (hplain : quotation? arg = none)
      (hpart : Within arg part) : Within cs part

/-- A text whose paths are steady, and which never calls `States.UUID`. -/
structure Steady (context : ι → Value) (cs : List Char) : Prop where
  paths : ∀ part, Within cs part → SteadyPath context (.str (String.ofList part))
  calls : ∀ part call, Within cs part → Call.ofText? part = some call →
    call.function ≠ Function.uuid.name

variable {context : ι → Value} {cs : List Char}

theorem Steady.argument {arg : List Char} {call : Call} (h : Steady context cs)
    (hcall : Call.ofText? cs = some call) (harg : arg ∈ splitArguments call.arguments)
    (hplain : quotation? arg = none) : Steady context arg where
  paths part hpart := h.paths part (.argument hcall harg hplain hpart)
  calls part call hpart := h.calls part call (.argument hcall harg hplain hpart)

theorem agreed_apply {function : Function} (h : function ≠ .uuid) (args : List Value) :
    Draw.Agreed fun _ : ι => function.apply args := by
  cases function with
  | uuid => exact absurd rfl h
  | array => exact Draw.agreed_pure _
  | _ => exact Draw.agreed_ofOutcome (.const _)

omit [Room] in
theorem name_of_ofName {name : String} {function : Function}
    (h : Function.ofName? name = some function) : function.name = name := by
  have hname := List.find?_some h
  exact eq_of_beq hname

theorem agreed_pathArgument (h : SteadyPath context (.str (String.ofList cs))) (input : Value) :
    Agreed fun i => pathArgument input (context i) cs := by
  unfold pathArgument
  rcases (h.apply input).cases with herror | ⟨v, hok⟩
  · refine .of_errors fun i => ?_
    obtain ⟨e, he⟩ := herror i
    rw [he]
    split
    · exact ⟨_, rfl⟩
    · exact ⟨e, rfl⟩
  · simp only [hok]
    exact .const _

theorem agreed_evaluateCall (h : Steady context cs) (input : Value) (levels : Nat) :
    Draw.Agreed fun i => evaluateCall input (context i) levels cs := by
  induction levels generalizing cs with
  | zero => exact Draw.agreed_throw _
  | succ levels ih =>
    unfold evaluateCall
    rcases hcall : Call.ofText? cs with _ | call
    · exact Draw.agreed_throw _
    · dsimp only
      rcases hname : Function.ofName? call.function with _ | function
      · exact Draw.agreed_throw _
      · have hfunction : function ≠ .uuid := by
          rintro rfl
          exact h.calls cs call (.here cs) hcall (name_of_ofName hname).symm
        refine Draw.agreed_bind (Draw.agreed_mapM _ fun arg harg => ?_) (agreed_apply hfunction)
        unfold evaluateArgument
        split
        · exact Draw.agreed_pure _
        · rename_i hplain
          have harg := h.argument hcall harg hplain
          split
          · exact Draw.agreed_ofOutcome (agreed_pathArgument (harg.paths arg (.here arg)) input)
          · split
            · exact ih harg
            · exact Draw.agreed_ofOutcome (.const _)

end Intrinsic

namespace Template

def textOf : Value → List String
  | .str text => [text]
  | _ => []

mutual

/-- The texts of the computed members of a template. -/
def texts : Value → List String
  | .obj members => textsOfMembers members
  | .arr items => textsOfItems items
  | _ => []

def textsOfItems : List Value → List String
  | [] => []
  | item :: rest => texts item ++ textsOfItems rest

def textsOfMembers : List (String × Value) → List String
  | [] => []
  | (key, field) :: rest =>
    (match computedName? key with
      | some _ => textOf field
      | none => texts field) ++ textsOfMembers rest

end

/-- A template whose computed members read steady paths and never call `States.UUID`. -/
def Steady (context : ι → Value) (template : Value) : Prop :=
  ∀ text ∈ texts template, Intrinsic.Steady context text.toList

variable {context : ι → Value}

theorem agreed_compute (field : Value)
    (h : ∀ text ∈ textOf field, Intrinsic.Steady context text.toList) (input : Value) (key : String) :
    Draw.Agreed fun i => compute input (context i) key field := by
  unfold compute
  split
  · rename_i text
    have htext := h text List.mem_cons_self
    split
    · have hpath := htext.paths _ (.here _)
      rw [String.ofList_toList] at hpath
      rcases (hpath.apply input).cases with herror | ⟨v, hok⟩
      · refine .of_errors fun i => ?_
        obtain ⟨e, he⟩ := herror i.1
        dsimp only
        rw [he]
        split
        · exact ⟨_, rfl⟩
        · exact ⟨e, rfl⟩
      · simp only [hok]
        exact Draw.agreed_ofOutcome (.const _)
    · exact Intrinsic.agreed_evaluateCall htext input _
  · exact Draw.agreed_throw _

mutual

theorem agreed_expand (input : Value) (room : Nat) : (template : Value) →
    (∀ text ∈ texts template, Intrinsic.Steady context text.toList) →
      Draw.Agreed fun i => expand input (context i) room template
  | .obj members, h => by
    unfold expand
    split
    · exact Draw.agreed_throw _
    · exact Draw.agreed_bind (agreed_expandMembers input _ [] members h) fun _ => Draw.agreed_pure _
  | .arr items, h => by
    unfold expand
    split
    · exact Draw.agreed_throw _
    · exact Draw.agreed_bind (agreed_expandItems input _ items h) fun _ => Draw.agreed_pure _
  | .null, _ | .bool _, _ | .int _, _ | .float _, _ | .str _, _ | .datum _, _ => Draw.agreed_pure _

theorem agreed_expandItems (input : Value) (room : Nat) : (items : List Value) →
    (∀ text ∈ textsOfItems items, Intrinsic.Steady context text.toList) →
      Draw.Agreed fun i => expandItems input (context i) room items
  | [], _ => Draw.agreed_pure _
  | item :: rest, h => by
    unfold expandItems
    unfold textsOfItems at h
    refine Draw.agreed_bind (agreed_expand input room item fun text htext => ?_) fun v => ?_
    · exact h text (List.mem_append_left _ htext)
    · refine Draw.agreed_bind (agreed_expandItems input room rest fun text htext => ?_) fun _ => ?_
      · exact h text (List.mem_append_right _ htext)
      · exact Draw.agreed_pure _

theorem agreed_expandMembers (input : Value) (room : Nat) (done : Members) :
    (members : List (String × Value)) →
    (∀ text ∈ textsOfMembers members, Intrinsic.Steady context text.toList) →
      Draw.Agreed fun i => expandMembers input (context i) room done members
  | [], _ => Draw.agreed_pure _
  | (key, field) :: rest, h => by
    unfold expandMembers
    unfold textsOfMembers at h
    have hrest : ∀ text ∈ textsOfMembers rest, Intrinsic.Steady context text.toList :=
      fun text htext => h text (List.mem_append_right _ htext)
    split
    · rename_i hname
      simp only [hname] at h
      refine Draw.agreed_bind (agreed_compute field (fun text htext => ?_) input key) fun v => ?_
      · exact h text (List.mem_append_left _ htext)
      · exact agreed_expandMembers input room _ rest hrest
    · rename_i hname
      simp only [hname] at h
      refine Draw.agreed_bind (agreed_expand input room field fun text htext => ?_) fun v => ?_
      · exact h text (List.mem_append_left _ htext)
      · exact agreed_expandMembers input room _ rest hrest

end

theorem Steady.apply {template : Value} (h : Steady context template) (input : Value) :
    Draw.Agreed fun i => Template.apply input (context i) template := by
  unfold Template.apply
  split
  · exact Draw.agreed_pure _
  · exact agreed_expand input _ _ h

end Template

/-! ## Rules -/

namespace Choice.Rule

mutual

def paths : Rule → List Value
  | all rules => pathsOfRules rules
  | any rules => pathsOfRules rules
  | not rule => rule.paths
  | test members =>
    (Table.get? members "Variable").getD .null :: members.filterMap fun (key, value) =>
      match comparison? key with
      | some (_, true) => some value
      | _ => none
  | malformed _ => []

def pathsOfRules : List Rule → List Value
  | [] => []
  | rule :: rest => rule.paths ++ pathsOfRules rest

end

variable {context : ι → Value}

theorem agreed_decide {members : Members} (h : ∀ key value c, (key, value) ∈ members →
      comparison? key = some (c, true) → SteadyPath context value) (input : Value)
    (subject : Option Value) : Agreed fun i => decide input (context i) subject members := by
  induction members with
  | nil => exact .const _
  | cons member rest ih =>
    obtain ⟨key, value⟩ := member
    unfold decide
    split
    · exact .const _
    · split
      · rename_i c isPath hkey
        unfold compareWith
        cases isPath with
        | true => exact Agreed.bind (h key value c List.mem_cons_self hkey input) fun other => .const _
        | false => exact .const _
      · exact ih fun key value c hmem => h key value c (List.mem_cons_of_mem _ hmem)

mutual

theorem agreed_holds (input : Value) (room : Nat) : (rule : Rule) →
    (∀ path ∈ rule.paths, SteadyPath context path) →
      Agreed fun i => rule.holds input (context i) room
  | all rules, h => by
    unfold holds
    split
    · exact .const _
    · exact agreed_allHold input _ rules h
  | any rules, h => by
    unfold holds
    split
    · exact .const _
    · exact agreed_anyHolds input _ rules h
  | not rule, h => by
    unfold holds
    split
    · exact .const _
    · exact (agreed_holds input _ rule h).map _
  | test members, h => by
    unfold holds
    unfold paths at h
    refine Agreed.bind (h _ List.mem_cons_self input) fun subject => ?_
    refine agreed_decide (fun key value c hmem hkey => ?_) input subject
    refine h value (List.mem_cons_of_mem _ (List.mem_filterMap.mpr ⟨(key, value), hmem, ?_⟩))
    simp only [hkey]
  | malformed e, _ => .const _

theorem agreed_allHold (input : Value) (room : Nat) : (rules : List Rule) →
    (∀ path ∈ pathsOfRules rules, SteadyPath context path) →
      Agreed fun i => allHold input (context i) room rules
  | [], _ => .const _
  | rule :: rest, h => by
    unfold allHold
    unfold pathsOfRules at h
    refine Agreed.bind (agreed_holds input room rule fun path hpath => ?_) fun holds => ?_
    · exact h path (List.mem_append_left _ hpath)
    · cases holds with
      | true =>
        exact agreed_allHold input room rest fun path hpath => h path (List.mem_append_right _ hpath)
      | false => exact .const _

theorem agreed_anyHolds (input : Value) (room : Nat) : (rules : List Rule) →
    (∀ path ∈ pathsOfRules rules, SteadyPath context path) →
      Agreed fun i => anyHolds input (context i) room rules
  | [], _ => .const _
  | rule :: rest, h => by
    unfold anyHolds
    unfold pathsOfRules at h
    refine Agreed.bind (agreed_holds input room rule fun path hpath => ?_) fun holds => ?_
    · exact h path (List.mem_append_left _ hpath)
    · cases holds with
      | true => exact .const _
      | false =>
        exact agreed_anyHolds input room rest fun path hpath => h path (List.mem_append_right _ hpath)

end

end Choice.Rule

theorem State.agreed_chosen {context : ι → Value} {rules : List Value}
    (h : ∀ rule ∈ rules, ∀ path ∈ (Choice.Rule.ofValue rule).paths, SteadyPath context path)
    (input : Value) : Agreed fun i => chosen input (context i) rules := by
  induction rules with
  | nil => exact .const _
  | cons rule rest ih =>
    unfold chosen
    refine Agreed.bind (Choice.Rule.agreed_holds input _ _ (h rule List.mem_cons_self)) fun holds => ?_
    cases holds with
    | true => exact .const _
    | false => exact ih fun rule hrule => h rule (List.mem_cons_of_mem _ hrule)

end StatesLanguage
