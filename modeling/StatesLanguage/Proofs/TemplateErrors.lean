import StatesLanguage.Proofs.Faults
import StatesLanguage.Proofs.Steady

/-!
# Errors of templates

What goes wrong while a template is expanded is named by the template's own errors: a path that
selects nothing is a failure of a parameter's path, wherever in the template or inside whichever
calls it stands. All else is a fault of the data, which has a name of its own, so retriers and
catchers see every error of a template.
-/

namespace StatesLanguage

variable {α β κ : Type} {P Q : Failure → Prop}

/-! ## Errors of a kind -/

/-- Whatever error a step ends with is of a kind. -/
def Outcome.Errs (P : Failure → Prop) (o : Outcome α) : Prop :=
  ∀ e, o = .error e → P e

namespace Outcome

theorem errs_ok (a : α) : Errs P (.ok a : Outcome α) := nofun

theorem errs_error {e : Failure} (h : P e) : Errs P (.error e : Outcome α) := by
  rintro _ ⟨⟩
  exact h

theorem Errs.mono {o : Outcome α} (h : Errs P o) (himp : ∀ e, P e → Q e) : Errs Q o :=
  fun e he => himp e (h e he)

theorem Errs.bind {o : Outcome α} {f : α → Outcome β} (h : Errs P o) (hf : ∀ a, Errs P (f a)) :
    Errs P (o >>= f) := by
  intro e he
  rcases bind_eq_error.mp he with ho | ⟨a, -, ha⟩
  · exact h e ho
  · exact hf a e ha

theorem Errs.map {o : Outcome α} (h : Errs P o) (f : α → β) : Errs P (o.map f) := by
  cases o with
  | ok a => exact errs_ok _
  | error e => exact errs_error (h e rfl)

theorem errs_mapM {f : κ → Outcome α} (hf : ∀ k, Errs P (f k)) (items : List κ) :
    Errs P (items.mapM f) := by
  induction items with
  | nil => exact errs_ok []
  | cons item rest ih =>
    rw [List.mapM_cons]
    exact (hf item).bind fun _ => ih.bind fun _ => errs_ok _

end Outcome

/-- Whatever error a step that may draw identifiers ends with is of a kind. -/
def Draw.Errs (P : Failure → Prop) (x : Draw α) : Prop :=
  ∀ drawn, Outcome.Errs P (x.runFrom drawn).1

namespace Draw

theorem errs_pure (a : α) : Errs P (pure a : Draw α) :=
  fun _ => Outcome.errs_ok a

theorem errs_throw {e : Failure} (h : P e) : Errs P (throw e : Draw α) :=
  fun _ => Outcome.errs_error h

theorem errs_ofOutcome {o : Outcome α} (h : Outcome.Errs P o) : Errs P (ofOutcome o) :=
  fun _ => h

theorem Errs.bind {x : Draw α} {f : α → Draw β} (h : Errs P x) (hf : ∀ a, Errs P (f a)) :
    Errs P (x >>= f) := by
  intro drawn
  have hx := h drawn
  rw [runFrom_bind]
  rcases hrun : x.runFrom drawn with ⟨e | a, drawn'⟩
  · rw [hrun] at hx
    exact Outcome.errs_error (hx e rfl)
  · exact hf a drawn'

theorem errs_mapM {f : κ → Draw α} (hf : ∀ k, Errs P (f k)) (items : List κ) :
    Errs P (items.mapM f) := by
  induction items with
  | nil => exact errs_pure []
  | cons item rest ih =>
    rw [List.mapM_cons]
    exact (hf item).bind fun _ => ih.bind fun _ => errs_pure _

end Draw

/-! ## Paths -/

namespace Path

open Outcome (Errs errs_ok errs_error)

theorem errs_expressionAt (aside : List (List Char)) (digits : List Char) :
    Errs (·.isFault) (expressionAt aside digits) := by
  unfold expressionAt
  split
  · exact errs_error rfl
  · rename_i n _
    cases aside[n.toNat]? with
    | none => exact errs_error rfl
    | some e => exact errs_ok e

theorem errs_putBack (aside : List (List Char)) (fuel : Nat) (cs : List Char) :
    Errs (·.isFault) (putBack aside fuel cs) := by
  induction fuel generalizing cs with
  | zero => exact errs_ok cs
  | succ fuel ih =>
    cases cs with
    | nil => exact errs_ok []
    | cons c rest =>
      unfold putBack
      dsimp only
      split
      · exact (errs_expressionAt aside _).bind fun _ => (ih _).bind fun _ => errs_ok _
      · exact (ih rest).bind fun _ => errs_ok _

theorem errs_normalize (path : List Char) : Errs (·.isFault) (normalize path) :=
  errs_putBack _ _ _

theorem errs_gather {branches : List κ} {select : κ → Selection}
    (h : ∀ k, Errs (·.isFault) (select k)) : Errs (·.isFault) (gather branches select) :=
  (Outcome.errs_mapM h branches).map _

theorem errs_integerOr (default : Int) (cs : List Char) : Errs (·.isFault) (integerOr default cs) := by
  unfold integerOr
  split
  · exact errs_ok default
  · split
    · exact errs_ok _
    · exact errs_error rfl

theorem errs_indices (s : Slice) (size : Nat) : Errs (·.isFault) (s.indices size) := by
  unfold Slice.indices
  refine (errs_integerOr _ _).bind fun _ => (errs_integerOr _ _).bind fun _ =>
    (errs_integerOr _ _).bind fun stride => ?_
  split
  · exact errs_error rfl
  · split <;> exact errs_ok _

section

variable {go : Turnoff → Steps → Value → Selection}

theorem errs_turnOff (hgo : ∀ turn steps v, Errs (·.isFault) (go turn steps v)) (loc : List Char)
    (rest : Steps) (v : Value) : Errs (·.isFault) (turnOff go loc rest v) := by
  unfold turnOff
  split
  · split
    · exact hgo _ _ _
    · exact errs_error rfl
  · split
    · refine errs_gather fun member => ?_
      dsimp only
      split
      · exact hgo _ _ _
      · exact errs_ok _
    · split
      · split
        · exact (errs_indices _ _).bind fun _ => errs_gather fun _ => hgo _ _ _
        · exact (errs_indices _ _).bind fun _ => errs_gather fun _ => hgo _ _ _
        · exact errs_ok _
      · split
        · exact errs_gather fun _ => hgo _ _ _
        · exact errs_ok _

theorem errs_follow (hgo : ∀ turn steps v, Errs (·.isFault) (go turn steps v)) (steps : Steps)
    (v : Value) : Errs (·.isFault) (follow go steps v) := by
  -- By induction on the steps; what turns off is left to `go`.
  induction steps generalizing v with
  | nil => exact errs_ok [v]
  | cons loc rest ih =>
    rw [follow.eq_def]
    dsimp only
    split
    · exact errs_gather fun _ => hgo _ _ _
    · split
      · exact (ih v).bind fun _ => (errs_gather fun _ => hgo _ _ _).bind fun _ => errs_ok _
      · split
        · split
          · exact errs_gather fun _ => hgo _ _ _
          · exact errs_ok []
        · split
          · exact ih _
          · split
            · split
              · exact errs_error rfl
              · split
                · exact ih _
                · exact errs_ok []
            · exact errs_turnOff hgo _ _ _

end

theorem errs_trace (room : Nat) (steps : Steps) (v : Value) :
    Errs (·.isFault) (trace room steps v) := by
  induction room using Nat.strongRecOn generalizing steps v with
  | ind room ih =>
    unfold trace
    split
    · rename_i room
      refine errs_follow (fun turn steps v => ?_) steps v
      cases turn with
      | detour => exact ih (room + 2) (by omega) steps v
      | descent => exact ih (room + 1) (by omega) steps v
      | branch => exact ih room (by omega) steps v
    · exact errs_error rfl

variable [Room]

theorem errs_select (v : Value) (path : List Char) : Errs (·.isFault) (select v path) := by
  unfold select
  split
  · exact errs_ok []
  · exact (errs_normalize path).bind fun _ => errs_trace _ _ v

/-- A path selects nothing or is none at all, or the data is at fault. -/
def IsPathError (e : Failure) : Prop :=
  e.isFault = true ∨ ∃ text, e = .ofKind .invalidPath text

theorem isPathError_unmatched (path input : Value) : IsPathError (unmatched path input) := by
  refine Failure.telling_of (fun _ => .inl) (fun e he => ?_) fun text => .inr ⟨text, rfl⟩
  rcases Outcome.bind_eq_error.mp he with hpath | ⟨shown, -, he⟩
  · exact Value.display_fault hpath
  · rcases Outcome.bind_eq_error.mp he with hinput | ⟨shown, -, hdone⟩
    · exact Value.display_fault hinput
    · cases hdone

theorem errs_find (input path : Value) : Errs IsPathError (find input path) := by
  have hunmatched := isPathError_unmatched path input
  unfold find
  split
  · exact errs_ok input
  · refine ((errs_select _ _).mono fun _ => .inl).bind fun selected => ?_
    split
    · exact errs_error hunmatched
    · exact errs_ok _
    · exact errs_ok _
  · split
    · exact errs_error (.inl rfl)
    · exact errs_error hunmatched

theorem errs_apply (input context path : Value) : Errs IsPathError (apply input context path) := by
  have hnone : IsPathError (notAPath path) :=
    Failure.telling_of (fun _ => .inl) (fun _ => Value.display_fault) fun text => .inr ⟨_, rfl⟩
  unfold apply
  split
  · split
    · exact errs_find _ _
    · exact errs_find _ _
    · exact errs_error hnone
  · exact errs_error hnone

end Path

/-! ## Calls -/

/-- An error of a template's own, or a fault of the data. -/
def Template.IsTemplateError (e : Failure) : Prop :=
  e.isFault = true ∨ ∃ text, e = .ofKind .parameterPath text ∨ e = .ofKind .intrinsic text

namespace Intrinsic

open Outcome (Errs errs_ok errs_error)
open Template (IsTemplateError)

theorem isTemplateError_failure (text : String) : IsTemplateError (failure text) :=
  .inr ⟨text, .inr rfl⟩

theorem errs_encode (v : Value) : Errs (·.isFault) (Json.encode v) :=
  fun _ h => Json.write_fault h

theorem errs_shown (v : Value) : Errs (·.isFault) (shown v) := by
  unfold shown
  split
  · exact errs_ok _
  · exact (errs_encode v).map _

theorem errs_fill (template : List Char) (values : List Value) :
    Errs IsTemplateError (fill template values) := by
  fun_induction fill template values with
  | case1 => exact errs_ok []
  | case2 => exact errs_error (isTemplateError_failure _)
  | case3 c rest values ih => exact ih.bind fun _ => errs_ok _
  | case4 rest => exact errs_error (isTemplateError_failure _)
  | case5 rest v more ih =>
    exact ((errs_shown v).mono fun _ => .inl).bind fun _ => ih.bind fun _ => errs_ok _
  | case6 c rest values _ _ ih => exact ih.bind fun _ => errs_ok _

namespace Function

theorem errs_applyFormat (args : List Value) : Errs IsTemplateError (applyFormat args) := by
  unfold applyFormat
  split
  · exact (errs_fill _ _).bind fun _ => errs_ok _
  · exact errs_error (isTemplateError_failure _)

variable [Room]

theorem errs_applyStringToJson (args : List Value) :
    Errs IsTemplateError (applyStringToJson args) := by
  unfold applyStringToJson
  split
  · split
    · exact errs_ok _
    · exact errs_error (Failure.telling_of (fun _ => .inl) (fun _ => Failure.text_fault)
        fun _ => isTemplateError_failure _)
  · exact errs_error (isTemplateError_failure _)

omit [Room] in
theorem errs_applyJsonToString (args : List Value) :
    Errs IsTemplateError (applyJsonToString args) := by
  unfold applyJsonToString
  split
  · exact ((errs_encode _).map _).mono fun _ => .inl
  · exact errs_error (isTemplateError_failure _)

omit [Room] in
theorem errs_applyArrayGetItem (args : List Value) :
    Errs IsTemplateError (applyArrayGetItem args) := by
  unfold applyArrayGetItem
  split
  · split
    · exact errs_error (isTemplateError_failure _)
    · split
      · exact errs_ok _
      · exact errs_error (isTemplateError_failure _)
  · exact errs_error (isTemplateError_failure _)
  · exact errs_error (isTemplateError_failure _)

theorem errs_apply (function : Function) (args : List Value) :
    Draw.Errs IsTemplateError (function.apply args) := by
  cases function with
  | format => exact Draw.errs_ofOutcome (errs_applyFormat args)
  | stringToJson => exact Draw.errs_ofOutcome (errs_applyStringToJson args)
  | jsonToString => exact Draw.errs_ofOutcome (errs_applyJsonToString args)
  | array => exact Draw.errs_pure _
  | arrayGetItem => exact Draw.errs_ofOutcome (errs_applyArrayGetItem args)
  | arrayLength =>
    refine Draw.errs_ofOutcome ?_
    unfold applyArrayLength
    split
    · exact errs_ok _
    · exact errs_error (isTemplateError_failure _)
  | arrayContains =>
    refine Draw.errs_ofOutcome ?_
    unfold applyArrayContains
    split
    · exact errs_ok _
    · exact errs_error (isTemplateError_failure _)
  | mathAdd =>
    refine Draw.errs_ofOutcome ?_
    unfold applyMathAdd
    split
    · exact errs_ok _
    · exact errs_error (isTemplateError_failure _)
  | uuid =>
    change Draw.Errs IsTemplateError (applyUuid args)
    unfold applyUuid
    split
    · exact fun _ => errs_ok _
    · exact Draw.errs_throw (isTemplateError_failure _)

end Function

theorem errs_literal (arg : List Char) : Errs IsTemplateError (literal arg) := by
  unfold literal
  dsimp only
  split
  · exact errs_ok _
  · split
    · exact errs_ok _
    · split
      · exact errs_ok _
      · split
        · exact errs_ok _
        · split
          · exact errs_ok _
          · exact errs_error (isTemplateError_failure _)

variable [Room]

/-- The error of a path that selects nothing does not leave the argument that holds it. -/
theorem errs_pathArgument (input context : Value) (arg : List Char) :
    Errs IsTemplateError (pathArgument input context arg) := by
  have happly := Path.errs_apply input context (.str (String.ofList arg))
  unfold pathArgument
  split
  · exact errs_error (Failure.telling_of (fun _ => .inl) (fun _ => Value.display_fault)
      fun text => .inr ⟨text, .inl rfl⟩)
  · rename_i o hother
    intro e he
    rcases happly e he with hfault | ⟨text, rfl⟩
    · exact .inl hfault
    · exact absurd he (hother _ _)

theorem errs_evaluateCall (input context : Value) (levels : Nat) (cs : List Char) :
    Draw.Errs IsTemplateError (evaluateCall input context levels cs) := by
  induction levels generalizing cs with
  | zero => exact Draw.errs_throw (.inl rfl)
  | succ levels ih =>
    unfold evaluateCall
    split
    · exact Draw.errs_throw (isTemplateError_failure _)
    · split
      · exact Draw.errs_throw (isTemplateError_failure _)
      · refine (Draw.errs_mapM (fun arg => ?_) _).bind fun args => Function.errs_apply _ args
        unfold evaluateArgument
        split
        · exact Draw.errs_pure _
        · split
          · exact Draw.errs_ofOutcome (errs_pathArgument input context arg)
          · split
            · exact ih arg
            · exact Draw.errs_ofOutcome (errs_literal arg)

end Intrinsic

/-! ## Templates -/

namespace Template

section

variable [Room]

theorem errs_compute (input context : Value) (key : String) (field : Value) :
    Draw.Errs IsTemplateError (compute input context key field) := by
  have hfailure (text : String) : IsTemplateError (pathFailure text) := .inr ⟨text, .inl rfl⟩
  unfold compute
  split
  · rename_i text
    split
    · split
      · exact Draw.errs_throw (Failure.telling_of (fun _ => .inl) (fun _ => Value.display_fault)
          fun _ => hfailure _)
      · rename_i o hother
        refine Draw.errs_ofOutcome (Outcome.Errs.bind (fun e he => ?_) fun v => ?_)
        · rcases Path.errs_apply input context (.str text) e he with hfault | ⟨reason, rfl⟩
          · exact .inl hfault
          · exact absurd he (hother _ _)
        · unfold Nesting.copied
          split
          · exact Outcome.errs_error (.inl rfl)
          · exact Outcome.errs_ok _
    · exact Intrinsic.errs_evaluateCall input context _ _
  · exact Draw.errs_throw (hfailure _)

mutual

theorem errs_expand (input context : Value) (room : Nat) : (template : Value) →
    Draw.Errs IsTemplateError (expand input context room template)
  | .obj members => by
    unfold expand
    split
    · exact Draw.errs_throw (.inl rfl)
    · exact (errs_expandMembers input context _ [] members).bind fun _ => Draw.errs_pure _
  | .arr items => by
    unfold expand
    split
    · exact Draw.errs_throw (.inl rfl)
    · exact (errs_expandItems input context _ items).bind fun _ => Draw.errs_pure _
  | .null | .bool _ | .int _ | .float _ | .str _ | .datum _ => Draw.errs_pure _

theorem errs_expandItems (input context : Value) (room : Nat) : (items : List Value) →
    Draw.Errs IsTemplateError (expandItems input context room items)
  | [] => Draw.errs_pure _
  | item :: rest => by
    unfold expandItems
    exact (errs_expand input context room item).bind fun _ =>
      (errs_expandItems input context room rest).bind fun _ => Draw.errs_pure _

theorem errs_expandMembers (input context : Value) (room : Nat) (done : Members) :
    (members : List (String × Value)) →
    Draw.Errs IsTemplateError (expandMembers input context room done members)
  | [] => Draw.errs_pure _
  | (key, field) :: rest => by
    unfold expandMembers
    split
    · exact (errs_compute input context key field).bind fun _ =>
        errs_expandMembers input context room _ rest
    · exact (errs_expand input context room field).bind fun _ =>
        errs_expandMembers input context room _ rest

end

theorem errs_apply (input context template : Value) :
    Draw.Errs IsTemplateError (apply input context template) := by
  unfold apply
  split
  · exact Draw.errs_pure _
  · exact errs_expand input context _ _

omit [Room] in
theorem isRuntime_fault (kind : Fault) (text : String) :
    (Failure.fault kind text).isRuntime = false := by
  cases kind <;> rfl

/-- The language's own errors that a template ends with are those of a parameter's path and of a call,
and a catcher of all errors catches whatever it ends with. -/
theorem apply_raises {input context template : Value} {drawn drawn' : Nat} {e : Failure}
    (h : (apply input context template).runFrom drawn = (.error e, drawn')) :
    (e.isStates = true → e.kind? = some .parameterPath ∨ e.kind? = some .intrinsic) ∧
      e.isRuntime = false := by
  have herror : ((apply input context template).runFrom drawn).1 = .error e := by rw [h]
  rcases errs_apply input context template drawn e herror with hfault | ⟨text, rfl | rfl⟩
  · cases e with
    | fault kind text => exact ⟨nofun, isRuntime_fault kind text⟩
    | _ => cases hfault
  · exact ⟨fun _ => .inl rfl, rfl⟩
  · exact ⟨fun _ => .inr rfl, rfl⟩

end

/-- A member of an object in an array, which calls a function on what another makes of a path. -/
def nestedCall : Value :=
  .obj [("a", .arr [.obj [("b.$", .str "States.Array(1, States.ArrayLength($.x))")]])]

def nothingThere : Failure :=
  .ofKind .parameterPath "Invalid path '$.x' applied to input 'None'"

set_option maxRecDepth 2000 in
theorem nestedCall_raises :
    (apply .null .null nestedCall).runFrom 0 = (.error nothingThere, 0) ∧
      (nothingThere.kind? = some .parameterPath ∨ nothingThere.kind? = some .intrinsic) ∧
        nothingThere.isRuntime = false := by
  have hraises : (apply .null .null nestedCall).runFrom 0 = (.error nothingThere, 0) := rfl
  obtain ⟨hkind, hruntime⟩ := apply_raises hraises
  exact ⟨hraises, hkind rfl, hruntime⟩

end Template

end StatesLanguage
