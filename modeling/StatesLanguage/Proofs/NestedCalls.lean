import StatesLanguage.Proofs.Literals
import StatesLanguage.Proofs.Separators
import StatesLanguage.Proofs.Steady

/-!
# Calls in arguments of calls

The arguments of a call are parts of its text, and each is shorter than the call by what the call itself
takes. So calls stand inside each other only so deep, evaluation comes to an end on every text, and the
room for levels makes a difference to long texts only.
-/

namespace StatesLanguage

variable {α β κ : Type}

namespace Draw

theorem mapM_congr {f g : κ → Draw α} {items : List κ} (h : ∀ item ∈ items, f item = g item) :
    items.mapM f = items.mapM g := by
  induction items with
  | nil => rfl
  | cons item rest ih =>
    obtain ⟨hitem, hrest⟩ := List.forall_mem_cons.mp h
    rw [List.mapM_cons, List.mapM_cons, hitem, ih hrest]

/-- A step that does what another does, except that it may find that there is no room. -/
def Follows (x y : Draw α) : Prop :=
  ∀ drawn, x.runFrom drawn = y.runFrom drawn ∨ (x.runFrom drawn).1 = .error tooDeep

theorem follows_refl (x : Draw α) : Follows x x := fun _ => .inl rfl

theorem follows_tooDeep (y : Draw α) : Follows (throw tooDeep) y := fun _ => .inr rfl

theorem Follows.bind {x y : Draw α} (h : Follows x y) {f g : α → Draw β}
    (hf : ∀ a, Follows (f a) (g a)) : Follows (x >>= f) (y >>= g) := by
  intro drawn
  rw [runFrom_bind, runFrom_bind]
  rcases h drawn with heq | hdeep
  · rw [heq]
    rcases y.runFrom drawn with ⟨e | a, drawn'⟩
    · exact .inl rfl
    · exact hf a drawn'
  · rcases hx : x.runFrom drawn with ⟨o, drawn'⟩
    rw [hx] at hdeep
    cases hdeep
    exact .inr rfl

theorem follows_mapM {f g : κ → Draw α} (h : ∀ k, Follows (f k) (g k)) (items : List κ) :
    Follows (items.mapM f) (items.mapM g) := by
  induction items with
  | nil => exact follows_refl _
  | cons item rest ih =>
    rw [List.mapM_cons, List.mapM_cons]
    exact (h item).bind fun _ => ih.bind fun _ => follows_refl _

end Draw

namespace Intrinsic

open Text (isBlank isWord trim trimStart trimEnd)

def IsArgument (arg cs : List Char) : Prop :=
  ∃ call, Call.ofText? cs = some call ∧ arg ∈ splitArguments call.arguments

/-- Evaluates a call, given how calls in its arguments are evaluated. -/
def evaluateWith [Room] (input context : Value) (inner : List Char → Draw Value) (cs : List Char) :
    Draw Value :=
  match Call.ofText? cs with
  | none => throw (notACall cs)
  | some call =>
    match Function.ofName? call.function with
    | none => throw (failure ("Intrinsic Function " ++ call.function ++ " is not supported."))
    | some function => do
      let args ← (splitArguments call.arguments).mapM (evaluateArgument input context inner)
      function.apply args

section

variable {cs arg word rest : List Char} {call : Call} {input context : Value} {text : String}
  {inner inner' : List Char → Draw Value}

/-! ## Lengths -/

theorem length_of_dropWord? (h : Json.dropWord? word cs = some rest) :
    word.length + rest.length = cs.length := by
  induction word generalizing cs with
  | nil =>
    cases h
    exact Nat.zero_add _
  | cons w word ih =>
    cases cs with
    | nil => cases h
    | cons c cs =>
      rw [Json.dropWord?] at h
      split at h
      · rw [List.length_cons, List.length_cons, ← ih h]
        omega
      · cases h

theorem length_arguments (h : Call.ofText? cs = some call) :
    call.arguments.length + 10 ≤ cs.length := by
  unfold Call.ofText? at h
  obtain ⟨rest, hword, h⟩ := Option.bind_eq_some_iff.mp h
  dsimp only at h
  split at h
  · cases h
  · rename_i hname
    split at h
    · rename_i behind hopen
      split at h
      · rename_i inside hclose
        obtain rfl := Option.some.inj h
        have hcall := length_of_dropWord? hword
        have hname : 1 ≤ (rest.takeWhile isWord).length := by
          rw [List.isEmpty_iff] at hname
          exact List.length_pos_iff.mpr hname
        have hrest := congrArg List.length (List.takeWhile_append_dropWhile (p := isWord) (l := rest))
        have hopen := congrArg List.length hopen
        have hclose := congrArg List.length hclose
        have hstart := Text.length_trimStart_le cs
        have hbefore := Text.length_trimStart_le (rest.dropWhile isWord)
        have hend := Text.length_trimEnd_le behind
        simp only [List.length_append, List.length_cons, List.length_reverse, String.reduceToList,
          List.length_nil] at *
        omega
      · cases h
    · cases h

theorem length_le_of_mem_intercalate {ps : List (List Char)} (h : arg ∈ ps) :
    arg.length ≤ ([','].intercalate ps).length := by
  induction ps with
  | nil => cases h
  | cons piece ps ih =>
    cases ps with
    | nil => rw [List.mem_singleton.mp h, List.intercalate_singleton]
    | cons other more =>
      rw [List.intercalate_cons_cons, List.length_append, List.length_append]
      rcases List.mem_cons.mp h with rfl | hmore
      · omega
      · have := ih hmore
        omega

theorem length_le_of_mem_splitArguments (h : arg ∈ splitArguments cs) : arg.length ≤ cs.length := by
  rw [splitArguments_eq] at h
  split at h
  · cases h
  · obtain ⟨piece, hpiece, rfl⟩ := List.mem_map.mp h
    have hlength := length_le_of_mem_intercalate hpiece
    rw [intercalate_pieces] at hlength
    exact (Text.length_trim_le piece).trans hlength

theorem IsArgument.length_le (h : IsArgument arg cs) : arg.length + 10 ≤ cs.length := by
  obtain ⟨call, hcall, harg⟩ := h
  have := length_arguments hcall
  have := length_le_of_mem_splitArguments harg
  omega

section

variable [Room]

/-! ## Evaluation -/

theorem evaluateCall_succ (input context : Value) (levels : Nat) (cs : List Char) :
    evaluateCall input context (levels + 1) cs =
      evaluateWith input context (evaluateCall input context levels) cs := rfl

theorem evaluateWith_congr (h : ∀ arg, IsArgument arg cs → inner arg = inner' arg) :
    evaluateWith input context inner cs = evaluateWith input context inner' cs := by
  unfold evaluateWith
  split
  · rfl
  · rename_i call hcall
    split
    · rfl
    · refine congrArg (· >>= _) (Draw.mapM_congr fun arg harg => ?_)
      unfold evaluateArgument
      rw [h arg ⟨call, hcall, harg⟩]

theorem follows_evaluateWith (h : ∀ arg, (inner arg).Follows (inner' arg)) (cs : List Char) :
    (evaluateWith input context inner cs).Follows (evaluateWith input context inner' cs) := by
  unfold evaluateWith
  split
  · exact Draw.follows_refl _
  · split
    · exact Draw.follows_refl _
    · refine (Draw.follows_mapM (fun arg => ?_) _).bind fun _ => Draw.follows_refl _
      unfold evaluateArgument
      split
      · exact Draw.follows_refl _
      · split
        · exact Draw.follows_refl _
        · split
          · exact h arg
          · exact Draw.follows_refl _

/-- With a level for every ten characters, further levels make no difference. -/
theorem evaluateCall_enough {levels levels' : Nat} (h : cs.length < 10 * levels)
    (h' : cs.length < 10 * levels') :
    evaluateCall input context levels cs = evaluateCall input context levels' cs := by
  induction levels generalizing cs levels' with
  | zero => omega
  | succ levels ih =>
    cases levels' with
    | zero => omega
    | succ levels' =>
      rw [evaluateCall_succ, evaluateCall_succ]
      refine evaluateWith_congr fun arg harg => ?_
      have := harg.length_le
      exact ih (by omega) (by omega)

/-- Evaluation without a bound on levels: with as many as the text can need. -/
def evaluateFully (input context : Value) (cs : List Char) : Draw Value :=
  evaluateCall input context (cs.length / 10 + 1) cs

theorem evaluateCall_eq_evaluateFully {levels : Nat} (h : cs.length < 10 * levels) :
    evaluateCall input context levels cs = evaluateFully input context cs :=
  evaluateCall_enough h (by omega)

theorem evaluateFully_eq (input context : Value) (cs : List Char) :
    evaluateFully input context cs =
      evaluateWith input context (evaluateFully input context) cs := by
  rw [evaluateFully, evaluateCall_succ]
  refine evaluateWith_congr fun arg harg => ?_
  have := harg.length_le
  exact evaluateCall_eq_evaluateFully (by omega)

theorem eq_evaluateFully {evaluation : List Char → Draw Value}
    (h : ∀ cs, evaluation cs = evaluateWith input context evaluation cs) :
    evaluation = evaluateFully input context := by
  -- By induction on the length: the equation says of a call what it is in terms of shorter ones.
  funext cs
  induction hn : cs.length using Nat.strong_induction_on generalizing cs with
  | _ n ih =>
    rw [h, evaluateFully_eq]
    refine evaluateWith_congr fun arg harg => ?_
    have := harg.length_le
    exact ih arg.length (by omega) arg rfl

theorem follows_evaluateFully (levels : Nat) (cs : List Char) :
    (evaluateCall input context levels cs).Follows (evaluateFully input context cs) := by
  induction levels generalizing cs with
  | zero => exact Draw.follows_tooDeep _
  | succ levels ih =>
    rw [evaluateCall_succ, evaluateFully_eq]
    exact follows_evaluateWith ih cs

/-- The text of a call's arguments is divided into pieces of which it consists, with commas between
them, at its separating commas; the arguments are the pieces without the white space around them.
Arguments are shorter than the call. So there is one way only to evaluate every text when each call is
evaluated through its arguments; evaluation goes this way, except that it may run out of room on a text
that is long enough. -/
theorem divided_and_evaluated :
    (∀ cs : List Char,
      [','].intercalate (pieces .start cs) = cs ∧
      splitArguments cs = (if cs.all isBlank then [] else (pieces .start cs).map trim) ∧
      ∀ place, place ∈ joints (pieces .start cs) ↔ IsSeparator cs place) ∧
    (∀ arg cs, IsArgument arg cs → arg.length < cs.length) ∧
    ∀ input context : Value,
      (∀ evaluation : List Char → Draw Value,
        (∀ cs, evaluation cs = evaluateWith input context evaluation cs) ↔
          evaluation = evaluateFully input context) ∧
      ∀ text : String,
        (evaluate text input context).Follows (evaluateFully input context text.toList) ∧
        (text.length < 10 * maxNested →
          evaluate text input context = evaluateFully input context text.toList) := by
  refine ⟨fun cs => ⟨intercalate_pieces .start cs, splitArguments_eq cs, fun place => ?_⟩,
    fun arg cs harg => ?_, fun input context => ⟨fun evaluation => ⟨eq_evaluateFully, ?_⟩,
      fun text => ⟨follows_evaluateFully maxNested text.toList, fun hshort => ?_⟩⟩⟩
  · simpa using mem_joints_pieces [] cs place
  · have := harg.length_le
    omega
  · rintro rfl
    exact evaluateFully_eq input context
  · exact evaluateCall_eq_evaluateFully (by rwa [String.length_toList])

end

/-- A call inside a call, with a comma in apostrophes behind it. -/
theorem divided_and_evaluated_nested :
    (IsArgument "States.UUID()".toList "States.Array( States.UUID(), 'a,b')".toList ∧
      "States.UUID()".toList.length < "States.Array( States.UUID(), 'a,b')".toList.length) ∧
    "States.Array( States.UUID(), 'a,b')".length < 10 * maxNested ∧
      evaluate "States.Array( States.UUID(), 'a,b')" .null .null =
        evaluateFully .null .null "States.Array( States.UUID(), 'a,b')".toList := by
  have harg : IsArgument "States.UUID()".toList "States.Array( States.UUID(), 'a,b')".toList :=
    ⟨_, ofText?_array " States.UUID(), 'a,b'".toList, by decide +kernel⟩
  have hshort : "States.Array( States.UUID(), 'a,b')".length < 10 * maxNested := by decide
  exact ⟨⟨harg, divided_and_evaluated.2.1 _ _ harg⟩, hshort,
    ((divided_and_evaluated.2.2 .null .null).2 _).2 hshort⟩

end

end Intrinsic

end StatesLanguage
