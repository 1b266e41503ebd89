import StatesLanguage.Intrinsic.Call
import StatesLanguage.Proofs.Numerals
import StatesLanguage.Proofs.Scanning

/-!
# Literals of calls

The literals that can be written in the arguments of a call: null, booleans, integers, texts in
apostrophes, and arrays, as calls of `States.Array`. A call that writes an array is evaluated to that
array, whatever its texts hold, unless it is nested too deep.
-/

namespace StatesLanguage

namespace Value

mutual

/-- How many arrays and objects of a value stand inside each other. -/
def depth : Value → Nat
  | .arr items => depthOfItems items + 1
  | .obj members => depthOfMembers members + 1
  | _ => 0

def depthOfItems : List Value → Nat
  | [] => 0
  | item :: rest => max (depth item) (depthOfItems rest)

def depthOfMembers : List (String × Value) → Nat
  | [] => 0
  | (_, value) :: rest => max (depth value) (depthOfMembers rest)

end

end Value

namespace Intrinsic

open Text (isBlank isAsciiDigit)
open Decimal (maxDigits)

/-- What can be written as a literal. An integer has no more digits than a numeral may have. -/
inductive Literal where
  | null
  | bool (b : Bool)
  | int (n : Int) (short : (Nat.toDigits 10 n.natAbs).length ≤ maxDigits)
  | str (s : String)
  | arr (items : List Literal)

def jsonText (v : Value) : List Char :=
  (match Json.encode v with
    | .ok text => text
    | .error _ => "").toList

namespace Literal

mutual

def value : Literal → Value
  | null => .null
  | bool b => .bool b
  | int n _ => .int n
  | str s => .str s
  | arr items => .arr (values items)

def values : List Literal → List Value
  | [] => []
  | l :: rest => value l :: values rest

end

mutual

/-- The text of a literal, with so many spaces behind each comma between items. -/
def text (spaces : Nat) : Literal → List Char
  | null => jsonText .null
  | bool b => jsonText (.bool b)
  | int n _ => jsonText (.int n)
  | str s => '\'' :: backslashed isQuoteMark s.toList ++ ['\'']
  | arr items => "States.Array".toList ++
      '(' :: (List.intercalate (comma spaces) (texts spaces items) ++ [')'])

def texts (spaces : Nat) : List Literal → List (List Char)
  | [] => []
  | l :: rest => text spaces l :: texts spaces rest

end

theorem text_str (spaces : Nat) (s : String) :
    (str s).text spaces = '\'' :: backslashed isQuoteMark s.toList ++ ['\''] := rfl

theorem text_arr (spaces : Nat) (items : List Literal) :
    (arr items).text spaces = "States.Array".toList ++
      '(' :: (List.intercalate (comma spaces) (texts spaces items) ++ [')']) := rfl

end Literal

section

variable {n : Int} {c : Char} {cs : List Char} {l : Literal} {items : List Literal} {spaces : Nat}
  {input context : Value} {inner : List Char → Draw Value}

/-! ## Words and numbers -/

theorem jsonText_null : jsonText .null = "null".toList := rfl

theorem jsonText_bool (b : Bool) : jsonText (.bool b) = (if b then "true" else "false").toList := rfl

theorem jsonText_int (h : (Nat.toDigits 10 n.natAbs).length ≤ maxDigits) :
    jsonText (.int n) = (toString n).toList := by
  have hencode : Json.encode (.int n) = .ok (toString n) := by
    change Value.integerText n = _
    rw [Value.integerText, Decimal.isTooLong_eq_false h]
    rfl
  rw [jsonText, hencode]

def isLiteralChar (c : Char) : Bool :=
  isAsciiDigit c || "-aeflnrstu".toList.contains c

theorem literalChar_facts (h : isLiteralChar c = true) :
    c ∉ "\\'(),".toList ∧ isBlank c = false ∧ c ≠ '\'' ∧ c ≠ '$' ∧ c ≠ 'S' := by
  have hascii : c.toNat < 128 := by
    rw [isLiteralChar, Bool.or_eq_true, List.contains_iff_mem] at h
    rcases h with h | h
    · have := (Decimal.toNat_of_isAsciiDigit h).2
      omega
    · have hall : "-aeflnrstu".toList.all (·.toNat < 128) = true := by decide
      exact of_decide_eq_true (List.all_eq_true.mp hall c h)
  exact Text.ascii_forall (fun c => isLiteralChar c = true → c ∉ "\\'(),".toList ∧ isBlank c = false ∧
    c ≠ '\'' ∧ c ≠ '$' ∧ c ≠ 'S') (by decide +kernel) hascii h

/-- A word or a number: what is neither in apostrophes nor a call. -/
structure IsWord (cs : List Char) : Prop where
  nonempty : cs ≠ []
  chars : ∀ c ∈ cs, isLiteralChar c = true

theorem isWord_null : IsWord (jsonText .null) :=
  ⟨by decide, List.all_eq_true.mp (by decide)⟩

theorem isWord_bool (b : Bool) : IsWord (jsonText (.bool b)) := by
  cases b <;> exact ⟨by decide, List.all_eq_true.mp (by decide)⟩

theorem isWord_int (h : (Nat.toDigits 10 n.natAbs).length ≤ maxDigits) :
    IsWord (jsonText (.int n)) := by
  rw [jsonText_int h]
  refine ⟨Decimal.toString_ne_nil n, fun c hc => ?_⟩
  rcases Decimal.mem_toString hc with rfl | hdigit
  · rfl
  · rw [isLiteralChar, hdigit, Bool.true_or]

theorem IsWord.enclosed (h : IsWord cs) : Enclosed cs :=
  enclosed_of_ordinary fun c hc => (literalChar_facts (h.chars c hc)).1

theorem IsWord.trimmed (h : IsWord cs) : Trimmed cs where
  nonempty := h.nonempty
  front c hc := (literalChar_facts (h.chars c (List.mem_of_mem_head? hc))).2.1
  back c hc := (literalChar_facts (h.chars c (List.mem_of_mem_getLast? hc))).2.1

theorem IsWord.evaluateArgument_eq [Room] (h : IsWord cs) :
    evaluateArgument input context inner cs = .ofOutcome (literal cs) := by
  obtain ⟨hne, hchars⟩ := h
  cases cs with
  | nil => exact absurd rfl hne
  | cons c cs =>
    obtain ⟨-, -, hquote, hpath, hcall⟩ := literalChar_facts (hchars c List.mem_cons_self)
    have hquotation : quotation? (c :: cs) = none := by
      unfold quotation?
      split
      · rename_i heq
        exact absurd (List.cons.inj heq).1 hquote
      · rfl
    have hstates : "States.".toList.isPrefixOf (c :: cs) = false := by
      simp [List.isPrefixOf, Ne.symm hcall]
    have hhead : ¬(c :: cs).head? = some '$' := by simpa using hpath
    rw [evaluateArgument, hquotation]
    dsimp only
    rw [if_neg hhead, hstates, if_neg Bool.false_ne_true]

theorem literal_null : literal (jsonText .null) = .ok .null := by
  simp [jsonText_null, literal]

theorem literal_bool (b : Bool) : literal (jsonText (.bool b)) = .ok (.bool b) := by
  cases b <;> simp [jsonText_bool, literal]

theorem literal_int (h : (Nat.toDigits 10 n.natAbs).length ≤ maxDigits) :
    literal (jsonText (.int n)) = .ok (.int n) := by
  have hletter {word : String} (c : Char) (hmem : c ∈ word.toList) (hdash : c ≠ '-')
      (hdigit : isAsciiDigit c = false) : toString n ≠ word := by
    rintro rfl
    rcases Decimal.mem_toString hmem with rfl | hc
    · exact hdash rfl
    · rw [hdigit] at hc
      cases hc
  have hnull : toString n ≠ "null" := hletter 'n' (by decide) (by decide) rfl
  have htrue : toString n ≠ "true" := hletter 't' (by decide) (by decide) rfl
  have hfalse : toString n ≠ "false" := hletter 'f' (by decide) (by decide) rfl
  rw [jsonText_int h, literal, String.ofList_toList, if_neg hnull, if_neg htrue, if_neg hfalse,
    Decimal.readInt?_toString h]

/-! ## Texts in apostrophes -/

theorem unescape_cons (h : isQuoteMark c = false) : unescape (c :: cs) = c :: unescape cs := by
  simp only [isQuoteMark, Bool.or_eq_false_iff, beq_eq_false_iff_ne] at h
  rw [unescape]
  · rintro rest rfl
    exact absurd rfl h.1
  · rintro rest rfl
    exact absurd rfl h.1

theorem unescape_backslash (h : isQuoteMark c = true) :
    unescape ('\\' :: c :: cs) = c :: unescape cs := by
  simp only [isQuoteMark, Bool.or_eq_true, beq_iff_eq] at h
  rcases h with rfl | rfl
  · rw [unescape]
  · rw [unescape]

theorem unescape_backslashed (cs : List Char) : unescape (backslashed isQuoteMark cs) = cs := by
  induction cs with
  | nil => rfl
  | cons c cs ih =>
    rw [backslashed, List.flatMap_cons, ← backslashed]
    cases hmark : isQuoteMark c with
    | true => exact (unescape_backslash hmark).trans (congrArg (c :: ·) ih)
    | false => exact (unescape_cons hmark).trans (congrArg (c :: ·) ih)

theorem quotation?_text (s : String) :
    quotation? ((Literal.str s).text spaces) = some (backslashed isQuoteMark s.toList) := by
  have hback (cs : List Char) : (cs ++ ['\'']).reverse = '\'' :: cs.reverse := by simp
  rw [Literal.text_str, List.cons_append, quotation?, hback]
  exact congrArg some (List.reverse_reverse _)

/-! ## Scanning -/

namespace Literal

mutual

theorem enclosed_text (spaces : Nat) : (l : Literal) → Enclosed (l.text spaces)
  | null => isWord_null.enclosed
  | bool b => (isWord_bool b).enclosed
  | int _ short => (isWord_int short).enclosed
  | str s => enclosed_quotation s.toList
  | arr items => enclosed_call (by simp) spaces (enclosed_texts spaces items)

theorem enclosed_texts (spaces : Nat) : (items : List Literal) →
    ∀ cs ∈ texts spaces items, Enclosed cs
  | [] => nofun
  | l :: rest => by
    rw [texts]
    exact List.forall_mem_cons.mpr ⟨enclosed_text spaces l, enclosed_texts spaces rest⟩

end

theorem trimmed_text (spaces : Nat) (l : Literal) : Trimmed (l.text spaces) := by
  cases l with
  | null => exact isWord_null.trimmed
  | bool b => exact (isWord_bool b).trimmed
  | int n short => exact (isWord_int short).trimmed
  | str s =>
    rw [text_str]
    exact trimmed_of_ends _ (by decide) (by decide)
  | arr items =>
    rw [text_arr, ← List.cons_append, ← List.append_assoc]
    exact trimmed_of_ends _ (by decide) (by decide)

theorem texts_eq_map (spaces : Nat) (items : List Literal) :
    texts spaces items = items.map (text spaces) := by
  induction items with
  | nil => rfl
  | cons l rest ih => rw [texts, ih, List.map_cons]

theorem splitArguments_texts (spaces : Nat) (items : List Literal) :
    splitArguments (List.intercalate (comma spaces) (texts spaces items)) = texts spaces items := by
  refine splitArguments_intercalate spaces (enclosed_texts spaces items) fun cs hcs => ?_
  rw [texts_eq_map] at hcs
  obtain ⟨l, -, rfl⟩ := List.mem_map.mp hcs
  exact trimmed_text spaces l

end Literal

/-! ## Evaluation -/

/-- A call of `States.Array` is taken apart into its name and what stands between its first parenthesis
and its last. -/
theorem ofText?_array (arguments : List Char) :
    Call.ofText? ("States.Array".toList ++ '(' :: (arguments ++ [')'])) =
      some ⟨"States.Array", arguments⟩ := by
  have hstart (rest : List Char) :
      Json.dropWord? "States.".toList (Text.trimStart ("States.Array".toList ++ rest)) =
        some ("Array".toList ++ rest) := rfl
  have hword : ∀ c ∈ "Array".toList, Text.isWord c = true := List.all_eq_true.mp (by decide +kernel)
  have hopen : Text.isWord '(' = false := by decide +kernel
  have hname (rest : List Char) : ("Array".toList ++ '(' :: rest).takeWhile Text.isWord =
      "Array".toList := by
    rw [List.takeWhile_append_of_pos hword, List.takeWhile_cons_of_neg (by simp [hopen]),
      List.append_nil]
  have hrest (rest : List Char) : ("Array".toList ++ '(' :: rest).dropWhile Text.isWord =
      '(' :: rest := by
    rw [List.dropWhile_append_of_pos hword, List.dropWhile_cons_of_neg (by simp [hopen])]
  have hparenthesis (rest : List Char) : Text.trimStart ('(' :: rest) = '(' :: rest := rfl
  have hend : Text.trimEnd (arguments ++ [')']) = arguments ++ [')'] := by
    refine trimEnd_eq ?_
    rw [List.getLast?_concat]
    rintro c ⟨⟩
    decide
  have hreverse : (arguments ++ [')']).reverse = ')' :: arguments.reverse := by simp
  unfold Call.ofText?
  rw [hstart]
  dsimp only [Option.bind_eq_bind, Option.bind_some]
  rw [hname, hrest, hparenthesis, if_neg (by decide)]
  split
  · rename_i rest heq
    obtain ⟨-, rfl⟩ := List.cons.inj heq
    rw [hend, hreverse]
    exact congrArg (fun inside => some (Call.mk "States.Array" inside)) (List.reverse_reverse arguments)
  · rename_i hno
    exact absurd rfl (hno _)

def Literal.valueWithin (levels : Nat) (l : Literal) : Draw Value :=
  if l.value.depth ≤ levels then pure l.value else throw tooDeep

section

variable [Room]

theorem evaluateArgument_text {levels : Nat} (hinner : ∀ items : List Literal,
      inner ((Literal.arr items).text spaces) = (Literal.arr items).valueWithin levels)
    (l : Literal) :
    evaluateArgument input context inner (l.text spaces) = l.valueWithin levels := by
  cases l with
  | null => exact isWord_null.evaluateArgument_eq.trans (congrArg Draw.ofOutcome literal_null)
  | bool b =>
    exact (isWord_bool b).evaluateArgument_eq.trans (congrArg Draw.ofOutcome (literal_bool b))
  | int n short =>
    exact (isWord_int short).evaluateArgument_eq.trans
      (congrArg Draw.ofOutcome (literal_int short))
  | str s =>
    rw [evaluateArgument, quotation?_text]
    dsimp only
    rw [unescape_backslashed, String.ofList_toList]
    rfl
  | arr items => exact hinner items

theorem mapM_texts {levels : Nat} (hinner : ∀ items : List Literal,
      inner ((Literal.arr items).text spaces) = (Literal.arr items).valueWithin levels)
    (items : List Literal) :
    (Literal.texts spaces items).mapM (evaluateArgument input context inner) =
      if Value.depthOfItems (Literal.values items) ≤ levels then pure (Literal.values items)
      else throw tooDeep := by
  -- By induction on the items, of which the first that is too deep is the last that is evaluated.
  induction items with
  | nil => rfl
  | cons l rest ih =>
    rw [Literal.texts, List.mapM_cons, evaluateArgument_text hinner, ih, Literal.values,
      Value.depthOfItems, Literal.valueWithin]
    by_cases hfirst : l.value.depth ≤ levels
    · rw [if_pos hfirst, pure_bind]
      by_cases hrest : Value.depthOfItems (Literal.values rest) ≤ levels
      · rw [if_pos hrest, if_pos (Nat.max_le.mpr ⟨hfirst, hrest⟩), pure_bind]
      · rw [if_neg hrest, if_neg fun h => hrest (Nat.max_le.mp h).2]
        rfl
    · rw [if_neg hfirst, if_neg fun h => hfirst (Nat.max_le.mp h).1]
      rfl

theorem evaluateCall_text (spaces : Nat) (input context : Value) (levels : Nat)
    (items : List Literal) :
    evaluateCall input context levels ((Literal.arr items).text spaces) =
      (Literal.arr items).valueWithin levels := by
  -- By induction on the levels; each call takes one for its own arguments.
  have hdepth : (Literal.arr items).value.depth =
      Value.depthOfItems (Literal.values items) + 1 := by
    rw [Literal.value, Value.depth]
  induction levels generalizing items with
  | zero =>
    rw [Literal.valueWithin, hdepth, if_neg (Nat.not_succ_le_zero _)]
    rfl
  | succ levels ih =>
    have hfunction : Function.ofName? "States.Array" = some .array := by decide
    rw [evaluateCall, Literal.text_arr, ofText?_array]
    dsimp only
    rw [hfunction]
    dsimp only
    rw [Literal.splitArguments_texts, mapM_texts fun items => ih items (by
      rw [Literal.value, Value.depth]), Literal.valueWithin, hdepth]
    simp only [Nat.add_le_add_iff_right]
    split
    · rfl
    · rfl

/-- The text of an array is evaluated to that array if it is nested no deeper than calls may be, and
to an error otherwise, in whatever data and context. -/
theorem evaluate_literal (spaces : Nat) (items : List Literal) (input context : Value) :
    evaluate (String.ofList ((Literal.arr items).text spaces)) input context =
      if (Literal.arr items).value.depth ≤ maxNested then pure (Literal.arr items).value
      else throw tooDeep := by
  rw [evaluate, String.toList_ofList, evaluateCall_text, Literal.valueWithin]

end

def Literal.nestedItems : Nat → List Literal
  | 0 => []
  | n + 1 => [arr (nestedItems n)]

theorem depth_nestedItems (n : Nat) :
    Value.depthOfItems (Literal.values (Literal.nestedItems n)) = n := by
  induction n with
  | zero => rfl
  | succ n ih => simp [Literal.nestedItems, Literal.values, Literal.value, Value.depthOfItems,
      Value.depth, ih]

theorem deep_array_not_evaluated :
    (evaluate (String.ofList ((Literal.arr (Literal.nestedItems 600)).text 1)) .null .null).runFrom 0 =
      (.error tooDeep, 0) := by
  have hdepth : (Literal.arr (Literal.nestedItems 600)).value.depth = 601 := by
    rw [Literal.value, Value.depth, depth_nestedItems]
  have hdeep : ¬601 ≤ maxNested := by decide
  rw [evaluate, String.toList_ofList, evaluateCall_text, Literal.valueWithin, hdepth, if_neg hdeep]
  rfl

end

end Intrinsic

end StatesLanguage
