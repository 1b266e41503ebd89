import Mathlib.Data.List.Induction
import Mathlib.Data.List.TakeWhile
import StatesLanguage.Proofs.Scanning

/-!
# Separating commas

Where the text of a call's arguments is divided. What the scanner knows at a place of a text is a matter
of what stands before it: how many backslashes in a row, how many apostrophes, how many parentheses
opened and closed. The text is divided at those commas that it thereby finds outside of everything, and
nothing of it is lost.
-/

namespace StatesLanguage.Intrinsic

open Text (isBlank trim trimStart trimEnd)

/-! ## Places in a text -/

/-- An odd number of backslashes stands at the end, so that the next character is escaped. -/
def escapesNext (before : List Char) : Bool :=
  (before.reverse.takeWhile (· == '\\')).length % 2 == 1

/-- How many characters of a text are as they should be, each seen with what stands before it. -/
def occurrences (p : List Char → Char → Bool) (cs : List Char) : Nat :=
  (List.range cs.length).countP fun i => (cs[i]?).any (p (cs.take i))

/-- An odd number of apostrophes that are not escaped leaves the last of them open. -/
def leavesQuoteOpen (before : List Char) : Bool :=
  occurrences (fun before c => c == '\'' && !escapesNext before) before % 2 == 1

/-- How often a parenthesis stands in a text, not escaped and outside apostrophes. -/
def parentheses (parenthesis : Char) (cs : List Char) : Nat :=
  occurrences (fun before c =>
    c == parenthesis && !escapesNext before && !leavesQuoteOpen before) cs

/-- How many more parentheses are opened than closed; fewer, if it is negative. -/
def depthBehind (before : List Char) : Int :=
  parentheses '(' before - parentheses ')' before

/-- At the place stands a comma, not escaped, outside apostrophes and at depth 0. -/
structure IsSeparator (cs : List Char) (place : Nat) : Prop where
  comma : cs[place]? = some ','
  unescaped : escapesNext (cs.take place) = false
  unquoted : leavesQuoteOpen (cs.take place) = false
  outside : depthBehind (cs.take place) = 0

/-- The places of the commas in pieces with commas between them. -/
def joints : List (List Char) → List Nat
  | [] | [_] => []
  | piece :: more => piece.length :: (joints more).map (· + (piece.length + 1))

section

variable {s : Scan} {c : Char} {cs before rest : List Char} {ps : List (List Char)} {place : Nat}

/-! ## The scanner -/

theorem escapesNext_concat (before : List Char) (c : Char) :
    escapesNext (before ++ [c]) = (c == '\\' && !escapesNext before) := by
  unfold escapesNext
  rw [List.reverse_append, List.reverse_singleton, List.singleton_append, List.takeWhile_cons]
  split
  · rename_i hc
    rw [hc, List.length_cons, Bool.true_and, Bool.eq_iff_iff]
    simp
    omega
  · rename_i hc
    simp [hc]

theorem occurrences_concat (p : List Char → Char → Bool) (before : List Char) (c : Char) :
    occurrences p (before ++ [c]) = occurrences p before + (p before c).toNat := by
  unfold occurrences
  have hbefore : (List.range before.length).countP
        (fun i => ((before ++ [c])[i]?).any (p ((before ++ [c]).take i))) =
      (List.range before.length).countP fun i => (before[i]?).any (p (before.take i)) := by
    refine List.countP_congr fun i hi => ?_
    have hi := List.mem_range.mp hi
    rw [List.getElem?_append_left hi, List.take_append_of_le_length (Nat.le_of_lt hi)]
  rw [List.length_append, List.length_singleton, List.range_succ, List.countP_append, hbefore]
  cases hp : p before c <;> simp [hp]

theorem leavesQuoteOpen_concat (before : List Char) (c : Char) :
    leavesQuoteOpen (before ++ [c]) =
      (leavesQuoteOpen before ^^ (c == '\'' && !escapesNext before)) := by
  unfold leavesQuoteOpen
  rw [occurrences_concat, Bool.eq_iff_iff]
  cases c == '\'' && !escapesNext before
  · simp
  · simp
    omega

theorem parentheses_concat (parenthesis : Char) (before : List Char) (c : Char) :
    parentheses parenthesis (before ++ [c]) = parentheses parenthesis before +
      (c == parenthesis && !escapesNext before && !leavesQuoteOpen before).toNat :=
  occurrences_concat _ before c

theorem foldl_next (before : List Char) : before.foldl Scan.next .start =
    ⟨depthBehind before, leavesQuoteOpen before, escapesNext before⟩ := by
  induction before using List.reverseRecOn with
  | nil => rfl
  | append_singleton before c ih =>
    rw [List.foldl_append, List.foldl_cons, List.foldl_nil, ih]
    unfold depthBehind
    rw [escapesNext_concat, leavesQuoteOpen_concat, parentheses_concat, parentheses_concat]
    cases hescaped : escapesNext before with
    | true => simp [Scan.next]
    | false =>
      by_cases hbackslash : c = '\\'
      · simp [Scan.next, hbackslash]
      · by_cases hquote : c = '\''
        · simp [Scan.next, hquote]
        · cases hquoted : leavesQuoteOpen before with
          | true => simp [Scan.next, hbackslash, hquote]
          | false =>
            by_cases hopen : c = '('
            · simp [Scan.next, hopen]
              omega
            · by_cases hclose : c = ')'
              · simp [Scan.next, hclose]
                omega
              · simp [Scan.next, hbackslash, hquote, hopen, hclose, beq_false_of_ne]

/-! ## Pieces -/

theorem joints_cons (piece : List Char) (h : ps ≠ []) :
    joints (piece :: ps) = piece.length :: (joints ps).map (· + (piece.length + 1)) := by
  cases ps with
  | nil => exact absurd rfl h
  | cons => rfl

theorem joints_modifyHead (c : Char) (ps : List (List Char)) :
    joints (ps.modifyHead (c :: ·)) = (joints ps).map (· + 1) := by
  match ps with
  | [] | [_] => rfl
  | piece :: other :: more =>
    rw [List.modifyHead_cons, joints_cons _ (List.cons_ne_nil _ _),
      joints_cons _ (List.cons_ne_nil _ _)]
    simp [Function.comp_def]
    omega

theorem intercalate_modifyHead (c : Char) (h : ps ≠ []) :
    [','].intercalate (ps.modifyHead (c :: ·)) = c :: [','].intercalate ps := by
  match ps with
  | [] => exact absurd rfl h
  | [_] => simp
  | piece :: other :: more =>
    simp [List.intercalate_cons_cons]

theorem pieces_separator (h : s.separates c = true) (cs : List Char) :
    pieces s (c :: cs) = [] :: pieces s cs := by
  rw [pieces, if_pos h]

theorem eq_comma_of_separates (h : s.separates c = true) : c = ',' := by
  simp only [Scan.separates, Bool.and_eq_true, beq_iff_eq] at h
  exact h.1.1.1

theorem next_of_separates (h : s.separates c = true) : s.next c = s := by
  simp only [Scan.separates, Bool.and_eq_true, Bool.not_eq_true', beq_iff_eq] at h
  obtain ⟨⟨⟨rfl, hescaped⟩, hquoted⟩, -⟩ := h
  simp [Scan.next, hescaped]

theorem intercalate_pieces (s : Scan) (cs : List Char) : [','].intercalate (pieces s cs) = cs := by
  induction cs generalizing s with
  | nil => rfl
  | cons c cs ih =>
    cases hseparates : s.separates c with
    | true =>
      rw [pieces_separator hseparates, eq_comma_of_separates hseparates]
      obtain ⟨piece, more, hpieces⟩ := List.exists_cons_of_ne_nil (pieces_ne_nil s cs)
      rw [hpieces, List.intercalate_cons_cons, ← hpieces, ih]
      rfl
    | false => rw [pieces_cons hseparates, intercalate_modifyHead c (pieces_ne_nil _ _), ih]

theorem isSeparator_behind : IsSeparator (before ++ c :: cs) before.length ↔
    (before.foldl Scan.next .start).separates c = true := by
  have hplace : (before ++ c :: cs)[before.length]? = some c := by simp
  have htake : (before ++ c :: cs).take before.length = before := by simp
  rw [foldl_next]
  constructor
  · intro h
    have hcomma : c = ',' := Option.some.inj (hplace.symm.trans h.comma)
    have hescaped := h.unescaped
    have hquoted := h.unquoted
    have houtside := h.outside
    rw [htake] at hescaped hquoted houtside
    simp [Scan.separates, hcomma, hescaped, hquoted, houtside]
  · intro h
    simp only [Scan.separates, Bool.and_eq_true, Bool.not_eq_true', beq_iff_eq] at h
    obtain ⟨⟨⟨rfl, hescaped⟩, hquoted⟩, houtside⟩ := h
    exact ⟨hplace, htake.symm ▸ hescaped, htake.symm ▸ hquoted, htake.symm ▸ houtside⟩

theorem mem_joints_pieces (before cs : List Char) (place : Nat) :
    place ∈ joints (pieces (before.foldl Scan.next .start) cs) ↔
      IsSeparator (before ++ cs) (before.length + place) := by
  -- By induction on what the scanner has still to read; the places are counted from there on.
  induction cs generalizing before place with
  | nil =>
    refine iff_of_false List.not_mem_nil fun h => ?_
    have hcomma := h.comma
    rw [List.append_nil, List.getElem?_eq_none (Nat.le_add_right _ _)] at hcomma
    cases hcomma
  | cons c cs ih =>
    have hmore := ih (before ++ [c])
    rw [List.foldl_append, List.foldl_cons, List.foldl_nil, List.append_assoc,
      List.singleton_append, List.length_append, List.length_singleton] at hmore
    cases hseparates : (before.foldl Scan.next .start).separates c with
    | true =>
      rw [next_of_separates hseparates] at hmore
      rw [pieces_separator hseparates, joints_cons _ (pieces_ne_nil _ _)]
      cases place with
      | zero => simpa using isSeparator_behind.mpr hseparates
      | succ place =>
        rw [Nat.add_comm place, ← Nat.add_assoc, ← hmore]
        simp [Nat.add_comm 1]
    | false =>
      rw [pieces_cons hseparates, joints_modifyHead]
      cases place with
      | zero =>
        refine iff_of_false (by simp) fun h => ?_
        rw [isSeparator_behind.mp h] at hseparates
        cases hseparates
      | succ place =>
        rw [Nat.add_comm place, ← Nat.add_assoc, ← hmore]
        simp [Nat.add_comm 1]

/-! ## White space -/

theorem trim_eq_nil_iff : trim cs = [] ↔ ∀ c ∈ cs, isBlank c = true := by
  have hstart {cs : List Char} : trimStart cs = [] ↔ ∀ c ∈ cs, isBlank c = true :=
    List.dropWhile_eq_nil_iff
  rw [trim, trimEnd, List.reverse_eq_nil_iff, hstart]
  constructor
  · intro h c hc
    rw [← List.takeWhile_append_dropWhile (p := isBlank) (l := cs), List.mem_append] at hc
    rcases hc with hfront | hrest
    · exact List.mem_takeWhile_imp hfront
    · exact h c (List.mem_reverse.mpr hrest)
  · exact fun h c hc => h c ((List.dropWhile_sublist _).subset (List.mem_reverse.mp hc))

/-- The arguments are the pieces without the white space around them, and there are none if there is
nothing but white space. -/
theorem splitArguments_eq (cs : List Char) : splitArguments cs =
    if cs.all isBlank then [] else (pieces .start cs).map trim := by
  have htext := intercalate_pieces .start cs
  have hpieces := pieces_ne_nil .start cs
  unfold splitArguments
  match hsplit : pieces .start cs with
  | [] => exact absurd hsplit hpieces
  | [piece] =>
    rw [hsplit, List.intercalate_singleton] at htext
    have hblank : (trim piece).isEmpty = cs.all isBlank := by
      rw [Bool.eq_iff_iff, List.isEmpty_iff, htext, trim_eq_nil_iff, List.all_eq_true]
    simp only [List.map_cons, List.map_nil, hblank]
  | piece :: other :: more =>
    have hcomma : cs.all isBlank = false := by
      rw [hsplit, List.intercalate_cons_cons] at htext
      rw [← htext]
      have hblank : isBlank ',' = false := by decide
      simp [hblank]
    rw [hcomma]
    rfl

end

end StatesLanguage.Intrinsic
