import StatesLanguage.Proofs.Steady
import StatesLanguage.Proofs.Table
import StatesLanguage.Proofs.Texts

/-!
# Trees of rules

A rule whose paths can be queried has an answer, true or false, unless it is nested deeper than there
is room, or something wrong with a path cannot be told. The answer of a connective is that of its rules, so neither their order nor repetition matters
to it, and negations go through it by the usual laws, at any place. A comparison with a path is the
one with what the path selects, and false where it selects nothing.
-/

namespace StatesLanguage

/-- The query that a path makes goes through: in the context behind two dollar signs, else in the data.
The root and what is no path make none. -/
structure Path.Answered [Room] (input context path : Value) : Prop where
  inContext : ∀ rest, rest ≠ [] → path = .str (String.ofList ('$' :: '$' :: rest)) →
    ∃ found, select (match context with
      | .null => .obj []
      | v => v) ('$' :: rest) = .ok found
  inData : ∀ c rest, c ≠ '$' → path = .str (String.ofList ('$' :: c :: rest)) →
    ∃ found, select input ('$' :: c :: rest) = .ok found

theorem Path.answered_root [Room] (input context : Value) : Path.Answered input context (.str "$") where
  inContext rest _ h := by
    have := congrArg String.toList (Value.str.inj h)
    simp at this
  inData c rest _ h := by
    have := congrArg String.toList (Value.str.inj h)
    simp at this

/-- What is wrong with a path cannot be told, as the path or what it is looked up in has no text. -/
structure Path.Untold [Room] (input context path : Value) (e : Failure) : Prop where
  raised : Path.apply input context path = .error e
  textless : input.display = .error e ∨ context.display = .error e ∨ path.display = .error e

namespace Choice

/-- A value that describes a rule: `And` and `Or` hold arrays of such values, `Not` holds one, and
an object without any of them is a test. -/
inductive IsRule : Value → Prop
  | all {members : Members} {items : List Value} (hall : Table.get? members "And" = some (.arr items))
      (rules : ∀ item ∈ items, IsRule item) : IsRule (.obj members)
  | any {members : Members} {items : List Value} (hall : Table.get? members "And" = none)
      (hany : Table.get? members "Or" = some (.arr items)) (rules : ∀ item ∈ items, IsRule item) :
      IsRule (.obj members)
  | not {members : Members} {rule : Value} (hall : Table.get? members "And" = none)
      (hany : Table.get? members "Or" = none) (hnot : Table.get? members "Not" = some rule)
      (rule : IsRule rule) : IsRule (.obj members)
  | test {members : Members} (h : ∀ word ∈ Rule.connectives, Table.get? members word = none) :
      IsRule (.obj members)

namespace Rule

mutual

/-- How many levels of the room a rule takes. -/
def levels : Rule → Nat
  | all rules => levelsOfRules rules + 3
  | any rules => levelsOfRules rules + 3
  | not rule => rule.levels + 1
  | test _ => 0
  | malformed _ => 0

def levelsOfRules : List Rule → Nat
  | [] => 0
  | rule :: rest => max rule.levels (levelsOfRules rest)

end

/-- Rules that differ in the order of what connectives hold, in how often it occurs there, and by the
laws for the negation of connectives, at whatever place. -/
inductive Rearranged : Rule → Rule → Prop
  | refl (r : Rule) : Rearranged r r
  | symm {r s : Rule} (h : Rearranged r s) : Rearranged s r
  | trans {r s t : Rule} (h : Rearranged r s) (h' : Rearranged s t) : Rearranged r t
  | all {rules others : List Rule} (h : ∀ r, r ∈ rules ↔ r ∈ others) :
      Rearranged (.all rules) (.all others)
  | any {rules others : List Rule} (h : ∀ r, r ∈ rules ↔ r ∈ others) :
      Rearranged (.any rules) (.any others)
  | not_all (rules : List Rule) : Rearranged (.not (.all rules)) (.any (rules.map .not))
  | not_any (rules : List Rule) : Rearranged (.not (.any rules)) (.all (rules.map .not))
  | inAll {r s : Rule} (before after : List Rule) (h : Rearranged r s) :
      Rearranged (.all (before ++ r :: after)) (.all (before ++ s :: after))
  | inAny {r s : Rule} (before after : List Rule) (h : Rearranged r s) :
      Rearranged (.any (before ++ r :: after)) (.any (before ++ s :: after))
  | inNot {r s : Rule} (h : Rearranged r s) : Rearranged (.not r) (.not s)

section

variable [Room]

/-- A rule of which every test has an answer. -/
inductive Answers (input context : Value) : Rule → Prop
  | all {rules : List Rule} (h : ∀ r ∈ rules, Answers input context r) :
      Answers input context (.all rules)
  | any {rules : List Rule} (h : ∀ r ∈ rules, Answers input context r) :
      Answers input context (.any rules)
  | not {r : Rule} (h : Answers input context r) : Answers input context (.not r)
  | test {members : Members} {b : Bool} (h : holds input context 0 (.test members) = .ok b) :
      Answers input context (.test members)

mutual

/-- The answer of a rule by those of its tests. -/
def truth (input context : Value) : Rule → Bool
  | all rules => allTrue input context rules
  | any rules => anyTrue input context rules
  | not rule => !truth input context rule
  | test members => (holds input context 0 (.test members)).toOption.getD false
  | malformed _ => false

def allTrue (input context : Value) : List Rule → Bool
  | [] => true
  | rule :: rest => truth input context rule && allTrue input context rest

def anyTrue (input context : Value) : List Rule → Bool
  | [] => false
  | rule :: rest => truth input context rule || anyTrue input context rest

end

end

section

variable {input context : Value} {r s : Rule} {rules others : List Rule} {room : Nat}

section

variable [Room]

theorem holds_test (room : Nat) (members : Members) :
    holds input context room (.test members) = holds input context 0 (.test members) := rfl

omit [Room] in
theorem levels_le_of_mem (h : r ∈ rules) : r.levels ≤ levelsOfRules rules := by
  induction rules with
  | nil => cases h
  | cons s rules ih =>
    rw [levelsOfRules]
    rcases List.mem_cons.mp h with rfl | h
    · exact Nat.le_max_left _ _
    · exact Nat.le_trans (ih h) (Nat.le_max_right _ _)

theorem allTrue_iff :
    allTrue input context rules = true ↔ ∀ r ∈ rules, truth input context r = true := by
  induction rules with
  | nil => simp [allTrue]
  | cons r rules ih => rw [allTrue, Bool.and_eq_true, ih, List.forall_mem_cons]

theorem anyTrue_iff :
    anyTrue input context rules = true ↔ ∃ r ∈ rules, truth input context r = true := by
  induction rules with
  | nil => simp [anyTrue]
  | cons r rules ih => rw [anyTrue, Bool.or_eq_true, ih]; simp

theorem anyTrue_map_not (rules : List Rule) :
    anyTrue input context (rules.map .not) = !allTrue input context rules := by
  induction rules with
  | nil => rfl
  | cons r rules ih => rw [List.map_cons, anyTrue, truth, ih, allTrue, Bool.not_and]

theorem allTrue_map_not (rules : List Rule) :
    allTrue input context (rules.map .not) = !anyTrue input context rules := by
  induction rules with
  | nil => rfl
  | cons r rules ih => rw [List.map_cons, allTrue, truth, ih, anyTrue, Bool.not_or]

end

/-! ## Answers -/

/-- The answer, or the error of too deep a nesting where there is not so much room. -/
def Due (room levels : Nat) (b : Bool) (o : Outcome Bool) : Prop :=
  o = .ok b ∨ o = .error tooDeep ∧ room < levels

section

variable {m n k : Nat} {b : Bool} {o : Outcome Bool}

theorem Due.mono (h : Due room m b o) (hle : m ≤ n) : Due room n b o :=
  h.imp_right fun hdeep => ⟨hdeep.1, Nat.lt_of_lt_of_le hdeep.2 hle⟩

theorem Due.negated (h : Due room n b o) : Due room n (!b) (o.map (!·)) := by
  rcases h with rfl | ⟨rfl, hroom⟩
  · exact .inl rfl
  · exact .inr ⟨rfl, hroom⟩

theorem Due.inside (h : Due (room - k) n b o) :
    Due room (n + k) b (if room < k then .error tooDeep else o) := by
  split
  · exact .inr ⟨rfl, by omega⟩
  · rcases h with hok | ⟨hdeep, hroom⟩
    · exact .inl hok
    · exact .inr ⟨hdeep, by omega⟩

end

-- A conjunction asks its rules up to the first that is false or nested too deep.
section

variable [Room]

theorem due_allHold (h : ∀ r ∈ rules, Due room r.levels (truth input context r)
      (holds input context room r)) :
    Due room (levelsOfRules rules) (allTrue input context rules)
      (allHold input context room rules) := by
  induction rules with
  | nil => exact .inl rfl
  | cons r rules ih =>
    obtain ⟨hfirst, hrest⟩ := List.forall_mem_cons.mp h
    rw [allHold, allTrue, levelsOfRules]
    rcases hfirst with hok | ⟨hdeep, hroom⟩
    · rw [hok]
      cases truth input context r with
      | false => exact .inl rfl
      | true => exact (ih hrest).mono (Nat.le_max_right _ _)
    · rw [hdeep]
      exact .inr ⟨rfl, Nat.lt_of_lt_of_le hroom (Nat.le_max_left _ _)⟩

theorem due_anyHolds (h : ∀ r ∈ rules, Due room r.levels (truth input context r)
      (holds input context room r)) :
    Due room (levelsOfRules rules) (anyTrue input context rules)
      (anyHolds input context room rules) := by
  induction rules with
  | nil => exact .inl rfl
  | cons r rules ih =>
    obtain ⟨hfirst, hrest⟩ := List.forall_mem_cons.mp h
    rw [anyHolds, anyTrue, levelsOfRules]
    rcases hfirst with hok | ⟨hdeep, hroom⟩
    · rw [hok]
      cases truth input context r with
      | true => exact .inl rfl
      | false => exact (ih hrest).mono (Nat.le_max_right _ _)
    · rw [hdeep]
      exact .inr ⟨rfl, Nat.lt_of_lt_of_le hroom (Nat.le_max_left _ _)⟩

theorem Answers.due (h : Answers input context r) (room : Nat) :
    Due room r.levels (truth input context r) (holds input context room r) := by
  induction h generalizing room with
  | all _ ih =>
    rw [holds, truth, levels]
    exact .inside (due_allHold fun r hr => ih r hr _)
  | any _ ih =>
    rw [holds, truth, levels]
    exact .inside (due_anyHolds fun r hr => ih r hr _)
  | not _ ih =>
    rw [holds, truth, levels]
    exact .inside (ih _).negated
  | test hok =>
    rw [truth, hok]
    exact .inl ((holds_test room _).trans hok)

theorem Answers.holds_eq (h : Answers input context r) (hroom : r.levels ≤ room) :
    holds input context room r = .ok (truth input context r) :=
  (h.due room).resolve_right fun hdeep => Nat.not_lt.mpr hroom hdeep.2

/-! ## Rearrangement -/

theorem answers_all_iff :
    Answers input context (.all rules) ↔ ∀ r ∈ rules, Answers input context r :=
  ⟨fun | .all h => h, .all⟩

theorem answers_any_iff :
    Answers input context (.any rules) ↔ ∀ r ∈ rules, Answers input context r :=
  ⟨fun | .any h => h, .any⟩

theorem answers_not_iff : Answers input context (.not r) ↔ Answers input context r :=
  ⟨fun | .not h => h, .not⟩

theorem Rearranged.answers_iff (h : Rearranged r s) :
    Answers input context r ↔ Answers input context s := by
  induction h with
  | refl => rfl
  | symm _ ih => exact ih.symm
  | trans _ _ ih ih' => exact ih.trans ih'
  | all h => simp only [answers_all_iff, h]
  | any h => simp only [answers_any_iff, h]
  | not_all | not_any =>
    simp only [answers_all_iff, answers_any_iff, answers_not_iff, List.forall_mem_map]
  | inAll _ _ _ ih => simp only [answers_all_iff, List.forall_mem_append, List.forall_mem_cons, ih]
  | inAny _ _ _ ih => simp only [answers_any_iff, List.forall_mem_append, List.forall_mem_cons, ih]
  | inNot _ ih => simp only [answers_not_iff, ih]

theorem Rearranged.truth_eq (h : Rearranged r s) :
    truth input context r = truth input context s := by
  induction h with
  | refl => rfl
  | symm _ ih => exact ih.symm
  | trans _ _ ih ih' => exact ih.trans ih'
  | all h => rw [Bool.eq_iff_iff, truth, truth, allTrue_iff, allTrue_iff]; simp only [h]
  | any h => rw [Bool.eq_iff_iff, truth, truth, anyTrue_iff, anyTrue_iff]; simp only [h]
  | not_all rules =>
    rw [truth, truth, truth, anyTrue_map_not]
  | not_any rules =>
    rw [truth, truth, truth, allTrue_map_not]
  | inAll _ _ _ ih =>
    rw [Bool.eq_iff_iff, truth, truth, allTrue_iff, allTrue_iff]
    simp only [List.forall_mem_append, List.forall_mem_cons, ih]
  | inAny _ _ _ ih =>
    rw [Bool.eq_iff_iff, truth, truth, anyTrue_iff, anyTrue_iff]
    simp only [List.mem_append, List.mem_cons, or_and_right, exists_or, exists_eq_left, ih]
  | inNot _ ih => rw [truth, truth, ih]

end

/-! ## Descriptions -/

theorem groupUnder_eq (key : String) (members : Members) :
    groupUnder key members = (Table.get? members key).map group := by
  induction members with
  | nil => rfl
  | cons member members ih =>
    obtain ⟨k, v⟩ := member
    rw [groupUnder, ih, Table.get?_cons]
    split <;> rfl

theorem ruleUnder_eq (key : String) (members : Members) :
    ruleUnder key members = (Table.get? members key).map ofValue := by
  induction members with
  | nil => rfl
  | cons member members ih =>
    obtain ⟨k, v⟩ := member
    rw [ruleUnder, ih, Table.get?_cons]
    split <;> rfl

theorem ofItems_eq_map (items : List Value) : ofItems items = items.map ofValue := by
  induction items with
  | nil => rfl
  | cons item items ih => rw [ofItems, ih, List.map_cons]

section

variable {members : Members} {items : List Value} {v : Value}

theorem ofValue_all (h : Table.get? members "And" = some (.arr items)) :
    ofValue (.obj members) = .all (items.map ofValue) := by
  rw [ofValue, groupUnder_eq, h]
  simp only [Option.map_some, group, ofItems_eq_map]

theorem ofValue_any (hall : Table.get? members "And" = none)
    (hany : Table.get? members "Or" = some (.arr items)) :
    ofValue (.obj members) = .any (items.map ofValue) := by
  rw [ofValue, groupUnder_eq, hall, groupUnder_eq, hany]
  simp only [Option.map_none, Option.map_some, group, ofItems_eq_map]

theorem ofValue_not (hall : Table.get? members "And" = none) (hany : Table.get? members "Or" = none)
    (hnot : Table.get? members "Not" = some v) :
    ofValue (.obj members) = .not (ofValue v) := by
  rw [ofValue, groupUnder_eq, hall, groupUnder_eq, hany, ruleUnder_eq, hnot]
  rfl

theorem ofValue_test (h : ∀ word ∈ connectives, Table.get? members word = none) :
    ofValue (.obj members) = .test members := by
  rw [ofValue, groupUnder_eq, h "And" (by decide), groupUnder_eq, h "Or" (by decide), ruleUnder_eq,
    h "Not" (by decide)]
  rfl

/-! ## Tests -/

variable {path : Value}

section

variable [Room]

theorem find_cases {data : Value} {rest : List Char}
    (h : rest ≠ [] → ∃ found, Path.select data ('$' :: rest) = .ok found) :
    (∃ v, Path.find data (.str (String.ofList ('$' :: rest))) = .ok v) ∨
      (∃ text,
        Path.find data (.str (String.ofList ('$' :: rest))) = .error (.ofKind .invalidPath text)) ∨
      ∃ e, Path.find data (.str (String.ofList ('$' :: rest))) = .error e ∧
        data.display = .error e := by
  unfold Path.find
  split
  · exact .inl ⟨_, rfl⟩
  · rename_i text hroot heq
    obtain rfl := Value.str.inj heq
    have hrest : rest ≠ [] := by
      rintro rfl
      exact hroot rfl
    obtain ⟨found, hfound⟩ := h hrest
    rw [String.toList_ofList, hfound, Outcome.ok_bind]
    split
    · rw [Path.unmatched, Value.display, Outcome.ok_bind]
      cases data.display with
      | ok shown => exact .inr (.inl ⟨_, rfl⟩)
      | error e => exact .inr (.inr ⟨e, rfl, rfl⟩)
    · exact .inl ⟨_, rfl⟩
    · exact .inl ⟨_, rfl⟩
  · rename_i hno
    exact absurd rfl (hno _)

theorem notAPath_cases (path : Value) :
    (∃ text, Path.notAPath path = .ofKind .invalidPath text) ∨
      ∃ e, Path.notAPath path = e ∧ path.display = .error e := by
  unfold Path.notAPath
  cases path.display with
  | ok text => exact .inl ⟨_, rfl⟩
  | error e => exact .inr ⟨e, rfl, rfl⟩

theorem display_emptyObject : ∃ shown, (Value.obj []).display = .ok shown :=
  ⟨_, by simp only [Value.display, Value.inner, if_neg Value.texts_ne_zero]; rfl⟩

/-- A path whose query goes through selects a value or nothing, unless the latter cannot be told. -/
theorem apply_cases (h : Path.Answered input context path) :
    (∃ v, Path.apply input context path = .ok v) ∨
      (∃ text, Path.apply input context path = .error (.ofKind .invalidPath text)) ∨
      ∃ e, Path.Untold input context path e := by
  have hcases : (∃ v, Path.apply input context path = .ok v) ∨
      (∃ text, Path.apply input context path = .error (.ofKind .invalidPath text)) ∨
      ∃ e, Path.apply input context path = .error e ∧
        (input.display = .error e ∨ context.display = .error e ∨ path.display = .error e) := by
    unfold Path.apply
    split
    · rename_i text
      split
      · rename_i rest htext
        have hpath : Value.str text = .str (String.ofList ('$' :: '$' :: rest)) := by
          rw [← htext, String.ofList_toList]
        refine (find_cases fun hrest => h.inContext rest hrest hpath).imp_right
          (Or.imp_right fun ⟨e, he, hdata⟩ => ⟨e, he, .inr (.inl ?_)⟩)
        cases context with
        | null =>
          obtain ⟨shown, hshown⟩ := display_emptyObject
          exact nomatch hshown.symm.trans hdata
        | _ => exact hdata
      · rename_i rest hcontext htext
        have hpath : Value.str text = .str (String.ofList ('$' :: rest)) := by
          rw [← htext, String.ofList_toList]
        rw [hpath] at h ⊢
        refine (find_cases fun hrest => ?_).imp_right
          (Or.imp_right fun ⟨e, he, hdata⟩ => ⟨e, he, .inl hdata⟩)
        obtain ⟨c, rest, rfl⟩ := List.exists_cons_of_ne_nil hrest
        exact h.inData c rest (fun hc => hcontext rest (hc ▸ rfl)) rfl
      · rcases notAPath_cases (.str text) with ⟨reason, hreason⟩ | ⟨e, -, he⟩
        · exact .inr (.inl ⟨reason, congrArg Except.error hreason⟩)
        · cases he
    · rcases notAPath_cases path with ⟨reason, hreason⟩ | ⟨e, he, htext⟩
      · exact .inr (.inl ⟨reason, congrArg Except.error hreason⟩)
      · exact .inr (.inr ⟨e, congrArg Except.error he, .inr (.inr htext)⟩)
  exact hcases.imp_right (Or.imp_right fun ⟨e, he, htext⟩ => ⟨e, he, htext⟩)

theorem isFault_of_untold {e : Failure} (h : Path.Untold input context path e) : e.isFault = true := by
  rcases h.textless with h | h | h
  all_goals exact Value.display_fault h

theorem selected_of_untold {e : Failure} (h : Path.Untold input context path e) :
    selected input context path = .error e := by
  have hfault := isFault_of_untold h
  rw [selected, h.raised]
  cases e with
  | fault => rfl
  | _ => cases hfault

theorem selected_cases (h : Path.Answered input context path) :
    (∃ found, selected input context path = .ok found) ∨
      ∃ e, Path.Untold input context path e ∧ selected input context path = .error e := by
  rcases apply_cases h with ⟨v, hv⟩ | ⟨text, htext⟩ | ⟨e, he⟩
  · exact .inl ⟨some v, by rw [selected, hv]⟩
  · exact .inl ⟨none, by rw [selected, htext]; rfl⟩
  · exact .inr ⟨e, he, selected_of_untold he⟩

/-- What a comparison says of two values that may be missing. -/
def compared (c : Comparison) : Option Value → Option Value → Bool
  | some a, some b => c.holds a b
  | _, _ => false

theorem compareWith_literal {subject : Option Value} {c : Comparison} {v : Value} :
    compareWith input context subject c false v = .ok (compared c subject (some v)) := by
  cases subject <;> rfl

theorem compareWith_path {subject found : Option Value} {c : Comparison}
    (h : selected input context path = .ok found) :
    compareWith input context subject c true path = .ok (compared c subject found) := by
  rw [compareWith, if_pos rfl, h, Outcome.ok_bind]
  cases subject <;> cases found <;> rfl

theorem compareWith_path_cases (h : Path.Answered input context path) (subject : Option Value)
    (c : Comparison) :
    (∃ b, compareWith input context subject c true path = .ok b) ∨
      ∃ e, Path.Untold input context path e ∧
        compareWith input context subject c true path = .error e := by
  refine (selected_cases h).imp (fun ⟨found, hfound⟩ => ⟨_, compareWith_path hfound⟩)
    fun ⟨e, he, hraised⟩ => ⟨e, he, ?_⟩
  rw [compareWith, if_pos rfl, hraised]
  rfl

theorem decide_cases {members : Members} (subject : Option Value)
    (h : ∀ key value c, (key, value) ∈ members → comparison? key = some (c, true) →
      Path.Answered input context value) :
    (∃ b, decide input context subject members = .ok b) ∨
      ∃ key value c, (key, value) ∈ members ∧ comparison? key = some (c, true) ∧
        ∃ e, Path.Untold input context value e ∧
          decide input context subject members = .error e := by
  -- By induction on the members up to the first that names a test.
  induction members with
  | nil => exact .inl ⟨false, rfl⟩
  | cons member members ih =>
    obtain ⟨key, value⟩ := member
    unfold decide
    split
    · exact .inl ⟨_, rfl⟩
    · split
      · rename_i c isPath hkey
        cases isPath with
        | true =>
          exact (compareWith_path_cases (h key value c List.mem_cons_self hkey) subject c).imp_right
            fun he => ⟨key, value, c, List.mem_cons_self, hkey, he⟩
        | false => exact .inl ⟨_, compareWith_literal⟩
      · refine (ih fun key value c hmem => h key value c (List.mem_cons_of_mem _ hmem)).imp_right ?_
        rintro ⟨key, value, c, hmem, hkey, he⟩
        exact ⟨key, value, c, List.mem_cons_of_mem _ hmem, hkey, he⟩

/-- How a rule ends: with an answer, with an error of too deep a nesting, or with one of a path that
something is wrong with. -/
def Ended (input context : Value) (room levels : Nat) (paths : List Value) (o : Outcome Bool) : Prop :=
  (∃ b, o = .ok b) ∨ (o = .error tooDeep ∧ room < levels) ∨
    ∃ path ∈ paths, ∃ e, Path.Untold input context path e ∧ o = .error e

section

variable {m n k : Nat} {paths more : List Value} {o : Outcome Bool}

theorem Ended.mono (h : Ended input context room m paths o) (hle : m ≤ n) (hsub : paths ⊆ more) :
    Ended input context room n more o :=
  h.imp_right (Or.imp (fun ⟨hdeep, hroom⟩ => ⟨hdeep, Nat.lt_of_lt_of_le hroom hle⟩)
    fun ⟨path, hpath, he⟩ => ⟨path, hsub hpath, he⟩)

theorem Ended.negated (h : Ended input context room n paths o) :
    Ended input context room n paths (o.map (!·)) := by
  rcases h with ⟨b, rfl⟩ | ⟨rfl, hroom⟩ | ⟨path, hpath, e, he, rfl⟩
  · exact .inl ⟨!b, rfl⟩
  · exact .inr (.inl ⟨rfl, hroom⟩)
  · exact .inr (.inr ⟨path, hpath, e, he, rfl⟩)

theorem Ended.inside (h : Ended input context (room - k) n paths o) :
    Ended input context room (n + k) paths (if room < k then .error tooDeep else o) := by
  split
  · exact .inr (.inl ⟨rfl, by omega⟩)
  · exact h.imp_right (Or.imp_left fun ⟨hdeep, hroom⟩ => ⟨hdeep, by omega⟩)

end

theorem Ended.andThen {r : Rule} {o : Outcome Bool} {go : Bool → Outcome Bool} {n : Nat}
    {paths : List Value} (h : Ended input context room r.levels r.paths o)
    (hgo : ∀ b, Ended input context room n paths (go b)) :
    Ended input context room (max r.levels n) (r.paths ++ paths) (o >>= go) := by
  rcases h with ⟨b, rfl⟩ | ⟨rfl, hroom⟩ | ⟨path, hpath, e, he, rfl⟩
  · exact (hgo b).mono (Nat.le_max_right _ _) (List.subset_append_right _ _)
  · exact .inr (.inl ⟨rfl, Nat.lt_of_lt_of_le hroom (Nat.le_max_left _ _)⟩)
  · exact .inr (.inr ⟨path, List.mem_append_left _ hpath, e, he, rfl⟩)

theorem ended_allHold (h : ∀ r ∈ rules, Ended input context room r.levels r.paths
      (holds input context room r)) :
    Ended input context room (levelsOfRules rules) (pathsOfRules rules)
      (allHold input context room rules) := by
  induction rules with
  | nil => exact .inl ⟨true, rfl⟩
  | cons r rules ih =>
    obtain ⟨hfirst, hrest⟩ := List.forall_mem_cons.mp h
    refine hfirst.andThen fun b => ?_
    cases b with
    | true => exact ih hrest
    | false => exact .inl ⟨false, rfl⟩

theorem ended_anyHolds (h : ∀ r ∈ rules, Ended input context room r.levels r.paths
      (holds input context room r)) :
    Ended input context room (levelsOfRules rules) (pathsOfRules rules)
      (anyHolds input context room rules) := by
  induction rules with
  | nil => exact .inl ⟨false, rfl⟩
  | cons r rules ih =>
    obtain ⟨hfirst, hrest⟩ := List.forall_mem_cons.mp h
    refine hfirst.andThen fun b => ?_
    cases b with
    | true => exact .inl ⟨true, rfl⟩
    | false => exact ih hrest

omit [Room] in
theorem mem_paths_test {members : Members} {key : String} {value : Value} {c : Comparison}
    (hmember : (key, value) ∈ members) (hkey : comparison? key = some (c, true)) :
    value ∈ (test members).paths := by
  rw [paths]
  exact List.mem_cons_of_mem _ (List.mem_filterMap.mpr ⟨(key, value), hmember, by simp only [hkey]⟩)

theorem ended_test {members : Members}
    (h : ∀ path ∈ (test members).paths, Path.Answered input context path) :
    Ended input context room 0 (test members).paths (holds input context room (.test members)) := by
  have hvariable : (Table.get? members "Variable").getD .null ∈ (test members).paths := by
    rw [paths]
    exact List.mem_cons_self
  rw [holds]
  rcases selected_cases (h _ hvariable) with ⟨subject, hsubject⟩ | ⟨e, he, hraised⟩
  · rw [hsubject]
    have hdecided := decide_cases subject fun key value c hmember hkey =>
      h value (mem_paths_test hmember hkey)
    obtain hanswer | ⟨key, value, c, hmember, hkey, he⟩ := hdecided
    · exact .inl hanswer
    · exact .inr (.inr ⟨value, mem_paths_test hmember hkey, he⟩)
  · rw [hraised]
    exact .inr (.inr ⟨_, hvariable, e, he, rfl⟩)

theorem answers_test {members : Members}
    (h : ∀ path ∈ (test members).paths, Path.Answered input context path ∧
      ∀ e, ¬Path.Untold input context path e) : Answers input context (.test members) := by
  have hended : Ended input context 0 0 (test members).paths (holds input context 0 (.test members)) :=
    ended_test fun path hpath => (h path hpath).1
  rcases hended with
    ⟨b, hb⟩ | ⟨-, hroom⟩ | ⟨path, hpath, e, he, -⟩
  · exact .test hb
  · cases hroom
  · exact absurd he ((h path hpath).2 e)

end

theorem mem_pathsOfRules : path ∈ pathsOfRules rules ↔ ∃ r ∈ rules, path ∈ r.paths := by
  induction rules with
  | nil => simp [pathsOfRules]
  | cons r rules ih => rw [pathsOfRules, List.mem_append, ih]; simp

/-! ### Comparisons with what a path selects -/

theorem mem_all (c : Comparison) : c ∈ Comparison.all := by
  rcases c with _ | r | r | _ | r
  case boolean | matchesPattern => decide
  all_goals cases r <;> decide

theorem ofName?_name (c : Comparison) : Comparison.ofName? c.name = some c := by
  have hall : ∀ c ∈ Comparison.all, Comparison.ofName? c.name = some c := by decide
  exact hall c (mem_all c)

theorem ofName?_path (c : Comparison) : Comparison.ofName? (c.name ++ "Path") = none ∧
    TypeTest.ofName? (c.name ++ "Path") = none ∧ TypeTest.ofName? c.name = none := by
  have hall : ∀ c ∈ Comparison.all, Comparison.ofName? (c.name ++ "Path") = none ∧
      TypeTest.ofName? (c.name ++ "Path") = none ∧ TypeTest.ofName? c.name = none := by
    decide +kernel
  exact hall c (mem_all c)

theorem name_ne (c : Comparison) : ∀ word ∈ "Variable" :: connectives,
    c.name ≠ word ∧ c.name ++ "Path" ≠ word := by
  have hall : ∀ c ∈ Comparison.all, ∀ word ∈ "Variable" :: connectives,
      c.name ≠ word ∧ c.name ++ "Path" ≠ word := by
    decide
  exact hall c (mem_all c)

theorem comparison?_name (c : Comparison) : comparison? c.name = some (c, false) := by
  rw [comparison?, ofName?_name]

theorem comparison?_path (c : Comparison) : comparison? (c.name ++ "Path") = some (c, true) := by
  have hends : (c.name ++ "Path").endsWith "Path" = true :=
    String.Slice.endsWith_string_iff.mpr (by simp)
  have htake : (c.name ++ "Path").toList.take ((c.name ++ "Path").length - 4) = c.name.toList := by
    rw [String.toList_append, String.length_append, show "Path".length = 4 from rfl,
      Nat.add_sub_cancel, ← String.length_toList, List.take_left]
  rw [comparison?, (ofName?_path c).1]
  dsimp only
  rw [if_pos hends, htake, String.ofList_toList, ofName?_name]
  rfl

/-- Members that say nothing about what a rule tests. -/
def Silent (members : Members) : Prop :=
  ∀ member ∈ members, member.1 ∉ connectives ∧ TypeTest.ofName? member.1 = none ∧
    comparison? member.1 = none

variable [Room]

theorem decide_silent {before : Members} (h : Silent before) (members : Members)
    (subject : Option Value) :
    decide input context subject (before ++ members) = decide input context subject members := by
  induction before with
  | nil => rfl
  | cons member before ih =>
    obtain ⟨⟨-, htype, hcomparison⟩, hbefore⟩ := List.forall_mem_cons.mp h
    rw [List.cons_append, decide, htype, hcomparison]
    exact ih hbefore

theorem decide_comparison {c : Comparison} {isPath : Bool} {key : String} {v : Value}
    (htype : TypeTest.ofName? key = none) (hkey : comparison? key = some (c, isPath))
    (members : Members) (subject : Option Value) :
    decide input context subject ((key, v) :: members) =
      compareWith input context subject c isPath v := by
  rw [decide, htype, hkey]

variable {before after : Members} {c : Comparison} {key : String} {v : Value} {isPath : Bool}

theorem matchesRule_comparison (hbefore : Silent before) (hafter : Silent after)
    (hname : ∀ word ∈ "Variable" :: connectives, key ≠ word) (htype : TypeTest.ofName? key = none)
    (hkey : comparison? key = some (c, isPath)) :
    matchesRule (.obj (before ++ (key, v) :: after)) input context =
      selected input context ((Table.get? (before ++ after) "Variable").getD .null) >>=
        fun subject => compareWith input context subject c isPath v := by
  obtain ⟨hvariable, hconnectives⟩ := List.forall_mem_cons.mp hname
  -- No member is a connective, so that the rule is a test.
  have htest : ofValue (.obj (before ++ (key, v) :: after)) = .test (before ++ (key, v) :: after) := by
    refine ofValue_test fun word hword => Table.get?_eq_none fun member hmember => ?_
    rcases List.mem_append.mp hmember with hmember | hmember
    · exact fun heq => (hbefore member hmember).1 (heq ▸ hword)
    · rcases List.mem_cons.mp hmember with rfl | hmember
      · exact hconnectives word hword
      · exact fun heq => (hafter member hmember).1 (heq ▸ hword)
  rw [matchesRule, htest, holds, Table.get?_between before after v hvariable]
  refine bind_congr fun subject => ?_
  rw [decide_silent hbefore, decide_comparison htype hkey]

end

end

end Rule

section

variable [Room]

theorem IsRule.ended {v input context : Value} (h : IsRule v)
    (hpaths : ∀ path ∈ (Rule.ofValue v).paths, Path.Answered input context path) (room : Nat) :
    Rule.Ended input context room (Rule.ofValue v).levels (Rule.ofValue v).paths
      ((Rule.ofValue v).holds input context room) := by
  induction h generalizing room with
  | all hall _ ih =>
    rw [Rule.ofValue_all hall, Rule.paths] at hpaths
    rw [Rule.ofValue_all hall, Rule.holds, Rule.levels, Rule.paths]
    refine .inside (Rule.ended_allHold (List.forall_mem_map.mpr fun item hitem =>
      ih item hitem (fun path hpath => ?_) _))
    exact hpaths path (Rule.mem_pathsOfRules.mpr ⟨_, List.mem_map_of_mem hitem, hpath⟩)
  | any hall hany _ ih =>
    rw [Rule.ofValue_any hall hany, Rule.paths] at hpaths
    rw [Rule.ofValue_any hall hany, Rule.holds, Rule.levels, Rule.paths]
    refine .inside (Rule.ended_anyHolds (List.forall_mem_map.mpr fun item hitem =>
      ih item hitem (fun path hpath => ?_) _))
    exact hpaths path (Rule.mem_pathsOfRules.mpr ⟨_, List.mem_map_of_mem hitem, hpath⟩)
  | not hall hany hnot _ ih =>
    rw [Rule.ofValue_not hall hany hnot, Rule.paths] at hpaths
    rw [Rule.ofValue_not hall hany hnot, Rule.holds, Rule.levels, Rule.paths]
    exact .inside (ih hpaths _).negated
  | test h =>
    rw [Rule.ofValue_test h] at hpaths ⊢
    exact Rule.ended_test hpaths

theorem IsRule.answers {v input context : Value} (h : IsRule v)
    (hpaths : ∀ path ∈ (Rule.ofValue v).paths, Path.Answered input context path ∧
      ∀ e, ¬Path.Untold input context path e) :
    Rule.Answers input context (Rule.ofValue v) := by
  induction h with
  | all hall _ ih =>
    rw [Rule.ofValue_all hall, Rule.paths] at hpaths
    rw [Rule.ofValue_all hall]
    refine .all (List.forall_mem_map.mpr fun item hitem => ih item hitem fun path hpath => ?_)
    exact hpaths path (Rule.mem_pathsOfRules.mpr ⟨_, List.mem_map_of_mem hitem, hpath⟩)
  | any hall hany _ ih =>
    rw [Rule.ofValue_any hall hany, Rule.paths] at hpaths
    rw [Rule.ofValue_any hall hany]
    refine .any (List.forall_mem_map.mpr fun item hitem => ih item hitem fun path hpath => ?_)
    exact hpaths path (Rule.mem_pathsOfRules.mpr ⟨_, List.mem_map_of_mem hitem, hpath⟩)
  | not hall hany hnot _ ih =>
    rw [Rule.ofValue_not hall hany hnot, Rule.paths] at hpaths
    rw [Rule.ofValue_not hall hany hnot]
    exact .not (ih hpaths)
  | test h =>
    rw [Rule.ofValue_test h] at hpaths ⊢
    exact Rule.answers_test hpaths

/-! ## Laws -/

/-- A rule whose paths can be queried. -/
structure Asked (input context rule : Value) : Prop where
  isRule : IsRule rule
  answered : ∀ path ∈ (Rule.ofValue rule).paths, Path.Answered input context path

/-- A rule of which whatever is wrong with a path can be told. -/
structure Answerable (input context rule : Value) : Prop extends Asked input context rule where
  told : ∀ path ∈ (Rule.ofValue rule).paths, ∀ e, ¬Path.Untold input context path e

/-- A rule for which there is room. -/
def Fits (rule : Value) : Prop :=
  (Rule.ofValue rule).levels ≤ Room.levels

/-- The laws of rules on some data, in some context. -/
structure Lawful (input context : Value) : Prop where
  answers : ∀ rule, Asked input context rule →
    (∃ b, matchesRule rule input context = .ok b) ∨
      (¬Fits rule ∧ matchesRule rule input context = .error tooDeep) ∨
      ∃ path ∈ (Rule.ofValue rule).paths, ∃ e, Path.Untold input context path e ∧
        matchesRule rule input context = .error e
  all_iff : ∀ members items, Table.get? members "And" = some (.arr items) →
    Answerable input context (.obj members) → Fits (.obj members) →
      (matchesRule (.obj members) input context = .ok true ↔
        ∀ item ∈ items, matchesRule item input context = .ok true)
  any_iff : ∀ members items, Table.get? members "And" = none →
    Table.get? members "Or" = some (.arr items) →
      Answerable input context (.obj members) → Fits (.obj members) →
        (matchesRule (.obj members) input context = .ok true ↔
          ∃ item ∈ items, matchesRule item input context = .ok true)
  not_iff : ∀ members rule, Table.get? members "And" = none → Table.get? members "Or" = none →
    Table.get? members "Not" = some rule →
      Answerable input context (.obj members) → Fits (.obj members) →
        (matchesRule (.obj members) input context = .ok true ↔
          matchesRule rule input context = .ok false)
  rearranged : ∀ rule other, Rule.Rearranged (Rule.ofValue rule) (Rule.ofValue other) →
    Answerable input context rule → Fits rule → Fits other →
      matchesRule rule input context = matchesRule other input context
  /-- A comparison with what a path selects is one with the value selected. -/
  path_eq : ∀ (c : Comparison) (before after : Members) (path v : Value), Rule.Silent before →
    Rule.Silent after → Path.apply input context path = .ok v →
      matchesRule (.obj (before ++ (c.name ++ "Path", path) :: after)) input context =
        matchesRule (.obj (before ++ (c.name, v) :: after)) input context
  path_missing : ∀ (c : Comparison) (before after : Members) (path : Value) (text : String)
    (subject : Option Value), Rule.Silent before → Rule.Silent after →
      Rule.selected input context ((Table.get? (before ++ after) "Variable").getD .null) = .ok subject →
        Path.apply input context path = .error (.ofKind .invalidPath text) →
          matchesRule (.obj (before ++ (c.name ++ "Path", path) :: after)) input context = .ok false
  path_untold : ∀ (c : Comparison) (before after : Members) (path : Value) (e : Failure)
    (subject : Option Value), Rule.Silent before → Rule.Silent after →
      Rule.selected input context ((Table.get? (before ++ after) "Variable").getD .null) = .ok subject →
        Path.Untold input context path e →
          matchesRule (.obj (before ++ (c.name ++ "Path", path) :: after)) input context = .error e

section

variable {input context rule : Value}

theorem Answerable.answers (h : Answerable input context rule) :
    Rule.Answers input context (Rule.ofValue rule) :=
  h.isRule.answers fun path hpath => ⟨h.answered path hpath, h.told path hpath⟩

theorem matchesRule_eq (h : Rule.Answers input context (Rule.ofValue rule)) (hfits : Fits rule) :
    matchesRule rule input context = .ok (Rule.truth input context (Rule.ofValue rule)) :=
  h.holds_eq hfits

theorem matchesRule_iff (h : Rule.Answers input context (Rule.ofValue rule)) (hfits : Fits rule)
    (b : Bool) : matchesRule rule input context = .ok b ↔
      Rule.truth input context (Rule.ofValue rule) = b := by
  rw [matchesRule_eq h hfits]
  exact ⟨Except.ok.inj, congrArg _⟩

theorem matchesRule_item {items : List Value} {item : Value} (hitem : item ∈ items)
    (hanswers : ∀ r ∈ items.map Rule.ofValue, Rule.Answers input context r)
    (hfits : Rule.levelsOfRules (items.map Rule.ofValue) + 3 ≤ Room.levels) (b : Bool) :
    matchesRule item input context = .ok b ↔ Rule.truth input context (Rule.ofValue item) = b := by
  have hmem : Rule.ofValue item ∈ items.map Rule.ofValue := List.mem_map_of_mem hitem
  refine matchesRule_iff (hanswers _ hmem) ?_ b
  exact Nat.le_trans (Rule.levels_le_of_mem hmem) (Nat.le_of_add_right_le hfits)

end

/-! ## Rules inside each other -/

def nestedRule : Nat → Value
  | 0 => .obj [("Variable", .str "$"), ("IsPresent", .bool true)]
  | n + 1 => .obj [("And", .arr [nestedRule n])]

omit [Room] in
theorem ofValue_nestedRule_zero : Rule.ofValue (nestedRule 0) =
    .test [("Variable", .str "$"), ("IsPresent", .bool true)] :=
  Rule.ofValue_test (by decide)

omit [Room] in
theorem ofValue_nestedRule_succ (n : Nat) :
    Rule.ofValue (nestedRule (n + 1)) = .all [Rule.ofValue (nestedRule n)] := by
  rw [nestedRule, Rule.ofValue_all rfl, List.map_singleton]

omit [Room] in
theorem paths_nestedRule (n : Nat) : ∀ path ∈ (Rule.ofValue (nestedRule n)).paths, path = .str "$" := by
  induction n with
  | zero =>
    have hnone : Rule.comparison? "Variable" = none ∧ Rule.comparison? "IsPresent" = none := by
      decide +kernel
    rw [ofValue_nestedRule_zero, Rule.paths]
    simp only [List.filterMap_cons, List.filterMap_nil, hnone.1, hnone.2]
    exact fun path hpath => List.mem_singleton.mp hpath
  | succ n ih =>
    intro path hpath
    rw [ofValue_nestedRule_succ, Rule.paths, Rule.mem_pathsOfRules] at hpath
    obtain ⟨r, hr, hpath⟩ := hpath
    obtain rfl := List.mem_singleton.mp hr
    exact ih path hpath

omit [Room] in
theorem isRule_nestedRule (n : Nat) : IsRule (nestedRule n) := by
  induction n with
  | zero => exact .test (by decide)
  | succ n ih => exact .all rfl fun item hitem => List.mem_singleton.mp hitem ▸ ih

theorem asked_nestedRule (n : Nat) (input context : Value) :
    Asked input context (nestedRule n) where
  isRule := isRule_nestedRule n
  answered path hpath := paths_nestedRule n path hpath ▸ Path.answered_root input context

/-! ## The laws hold -/

theorem lawful (input context : Value) : Lawful input context where
  answers rule h := (h.isRule.ended h.answered Room.levels).imp_right
    (Or.imp_left fun ⟨hdeep, hroom⟩ => ⟨Nat.not_le.mpr hroom, hdeep⟩)
  all_iff members items hall h hfits := by
    have hanswers := h.answers
    rw [matchesRule_iff hanswers hfits]
    -- An item has room as soon as the rule around it has.
    rw [Fits, Rule.ofValue_all hall] at hfits
    rw [Rule.ofValue_all hall] at hanswers ⊢
    rw [Rule.truth, Rule.allTrue_iff, List.forall_mem_map]
    exact forall₂_congr fun item hitem =>
      (matchesRule_item hitem (Rule.answers_all_iff.mp hanswers) hfits true).symm
  any_iff members items hall hany h hfits := by
    have hanswers := h.answers
    rw [matchesRule_iff hanswers hfits]
    rw [Fits, Rule.ofValue_any hall hany] at hfits
    rw [Rule.ofValue_any hall hany] at hanswers ⊢
    rw [Rule.truth, Rule.anyTrue_iff]
    have hitems (item : Value) (hitem : item ∈ items) :=
      matchesRule_item hitem (Rule.answers_any_iff.mp hanswers) hfits true
    constructor
    · rintro ⟨_, hmem, htrue⟩
      obtain ⟨item, hitem, rfl⟩ := List.mem_map.mp hmem
      exact ⟨item, hitem, (hitems item hitem).mpr htrue⟩
    · rintro ⟨item, hitem, htrue⟩
      exact ⟨_, List.mem_map_of_mem hitem, (hitems item hitem).mp htrue⟩
  not_iff members rule hall hany hnot h hfits := by
    have hanswers := h.answers
    rw [matchesRule_iff hanswers hfits]
    rw [Fits, Rule.ofValue_not hall hany hnot, Rule.levels] at hfits
    rw [Rule.ofValue_not hall hany hnot] at hanswers ⊢
    rw [Rule.truth, Bool.not_eq_true',
      matchesRule_iff (Rule.answers_not_iff.mp hanswers) (Nat.le_of_add_right_le hfits)]
  rearranged rule other hr h hfits hother := by
    rw [matchesRule_eq h.answers hfits, matchesRule_eq (hr.answers_iff.mp h.answers) hother,
      hr.truth_eq]
  path_eq c before after path v hbefore hafter hpath := by
    have hfound : Rule.selected input context path = .ok (some v) := by rw [Rule.selected, hpath]
    rw [Rule.matchesRule_comparison hbefore hafter (fun word hword => (Rule.name_ne c word hword).2)
        (Rule.ofName?_path c).2.1 (Rule.comparison?_path c),
      Rule.matchesRule_comparison hbefore hafter (fun word hword => (Rule.name_ne c word hword).1)
        (Rule.ofName?_path c).2.2 (Rule.comparison?_name c)]
    simp only [Rule.compareWith_path hfound, Rule.compareWith_literal]
  path_missing c before after path text subject hbefore hafter hsubject hpath := by
    have hmissing : Rule.selected input context path = .ok none := by
      rw [Rule.selected, hpath]
      rfl
    rw [Rule.matchesRule_comparison hbefore hafter (fun word hword => (Rule.name_ne c word hword).2)
        (Rule.ofName?_path c).2.1 (Rule.comparison?_path c), hsubject, Outcome.ok_bind,
      Rule.compareWith_path hmissing]
    cases subject <;> rfl
  path_untold c before after path e subject hbefore hafter hsubject hpath := by
    rw [Rule.matchesRule_comparison hbefore hafter (fun word hword => (Rule.name_ne c word hword).2)
        (Rule.ofName?_path c).2.1 (Rule.comparison?_path c), hsubject, Outcome.ok_bind,
      Rule.compareWith, if_pos rfl, Rule.selected_of_untold hpath]
    rfl

end

/-- What negates a conjunction has the answer of the disjunction of the negations. -/
theorem lawful_nestedRule :
    Answerable .null .null (.obj [("Not", nestedRule 1)]) ∧
      matchesRule (.obj [("Not", nestedRule 1)]) .null .null =
        matchesRule (.obj [("Or", .arr [.obj [("Not", nestedRule 0)]])]) .null .null := by
  have hnot : Rule.ofValue (.obj [("Not", nestedRule 1)]) =
      .not (.all [Rule.ofValue (nestedRule 0)]) := by
    rw [Rule.ofValue_not rfl rfl rfl, ofValue_nestedRule_succ]
  have hany : Rule.ofValue (.obj [("Or", .arr [.obj [("Not", nestedRule 0)]])]) =
      .any [.not (Rule.ofValue (nestedRule 0))] := by
    rw [Rule.ofValue_any rfl rfl, List.map_singleton, Rule.ofValue_not rfl rfl rfl]
  have hleaf : (Rule.ofValue (nestedRule 0)).levels = 0 := by
    rw [ofValue_nestedRule_zero, Rule.levels]
  have hpaths : ∀ path ∈ (Rule.ofValue (.obj [("Not", nestedRule 1)])).paths, path = .str "$" := by
    rw [Rule.ofValue_not rfl rfl rfl, Rule.paths]
    exact paths_nestedRule 1
  have hanswerable : Answerable .null .null (.obj [("Not", nestedRule 1)]) := by
    refine ⟨⟨.not rfl rfl rfl (isRule_nestedRule 1), fun path hpath => ?_⟩, fun path hpath e he => ?_⟩
    · exact hpaths path hpath ▸ Path.answered_root .null .null
    · -- The root selects all of the data.
      have hraised := he.raised
      rw [hpaths path hpath] at hraised
      cases hraised
  refine ⟨hanswerable, (lawful .null .null).rearranged _ _ ?_ hanswerable ?_ ?_⟩
  · rw [hnot, hany]
    exact .not_all _
  · rw [Fits, hnot, Rule.levels, Rule.levels, Rule.levelsOfRules, Rule.levelsOfRules, hleaf]
    decide
  · rw [Fits, hany, Rule.levels, Rule.levelsOfRules, Rule.levelsOfRules, Rule.levels, hleaf]
    decide

/-! ## Deep rules -/

theorem holds_nestedRule [Room] {n room : Nat} (input context : Value) (h : room < 3 * n) :
    (Rule.ofValue (nestedRule n)).holds input context room = .error tooDeep := by
  induction n generalizing room with
  | zero => cases h
  | succ n ih =>
    rw [ofValue_nestedRule_succ, Rule.holds]
    split
    · rfl
    · rw [Rule.allHold, ih (by omega)]
      rfl

/-- Many rules inside each other have no answer, though the test inside is true of any data. -/
theorem deep_rule_unanswered : Asked .null .null (nestedRule 400) ∧
    matchesRule (nestedRule 400) .null .null = .error tooDeep :=
  ⟨asked_nestedRule 400 .null .null, holds_nestedRule .null .null (by decide)⟩

end Choice

end StatesLanguage
