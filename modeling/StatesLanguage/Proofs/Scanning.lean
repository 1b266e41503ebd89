import StatesLanguage.Proofs.Format
import StatesLanguage.Intrinsic.Arguments

/-!
# Scanned arguments

What the scanner of a call's arguments makes of a text: commas in apostrophes, behind a backslash or
inside parentheses separate nothing, and a text that closes what it opens leaves the scanner as it was.
Such texts, with commas and white space between them, are the arguments that they are divided into.
-/

namespace StatesLanguage.Intrinsic

open Text (isBlank trim trimStart trimEnd)

section

variable {s s' s'' : Scan} {c : Char} {cs cs' rest : List Char} {texts : List (List Char)}

/-- The scanner goes from one point to another over a text, of which no character separates. -/
inductive Scan.Crosses : Scan → List Char → Scan → Prop
  | nil (s : Scan) : Crosses s [] s
  | cons {s s' : Scan} {c : Char} {cs : List Char} (inside : s.separates c = false)
      (rest : Crosses (s.next c) cs s') : Crosses s (c :: cs) s'

namespace Scan

theorem Crosses.append (h : s.Crosses cs s') (h' : s'.Crosses cs' s'') :
    s.Crosses (cs ++ cs') s'' := by
  induction h with
  | nil => exact h'
  | cons inside _ ih => exact .cons inside (ih h')

theorem crosses_of_ordinary {d : Int} (h : ∀ c ∈ cs, c ∉ "\\'(),".toList) :
    Crosses ⟨d, false, false⟩ cs ⟨d, false, false⟩ := by
  induction cs with
  | nil => exact .nil _
  | cons c cs ih =>
    obtain ⟨hc, hcs⟩ := List.forall_mem_cons.mp h
    simp only [String.reduceToList, List.mem_cons, List.not_mem_nil, or_false, not_or] at hc
    obtain ⟨hbackslash, hquote, hopen, hclose, hcomma⟩ := hc
    have hnext : next ⟨d, false, false⟩ c = ⟨d, false, false⟩ := by
      simp [next, hbackslash, hquote, hopen, hclose]
    refine .cons (by simp [separates, hcomma]) ?_
    rw [hnext]
    exact ih hcs

end Scan

/-- Characters that stand for something else in apostrophes unless a backslash is before them. -/
def isQuoteMark (c : Char) : Bool :=
  c == '\\' || c == '\''

namespace Scan

/-- In apostrophes, a text with a backslash before each backslash and apostrophe closes nothing. -/
theorem crosses_backslashed (d : Int) (cs : List Char) :
    Crosses ⟨d, true, false⟩ (backslashed isQuoteMark cs) ⟨d, true, false⟩ := by
  induction cs with
  | nil => exact .nil _
  | cons c cs ih =>
    rw [backslashed, List.flatMap_cons, ← backslashed]
    refine Crosses.append ?_ ih
    cases hmark : isQuoteMark c with
    | true =>
      -- The backslash escapes the character, whatever it is.
      exact .cons (by simp [separates]) (.cons (by simp [separates, next]) (.nil _))
    | false =>
      simp only [isQuoteMark, Bool.or_eq_false_iff, beq_eq_false_iff_ne] at hmark
      have hnext : next ⟨d, true, false⟩ c = ⟨d, true, false⟩ := by
        simp [next, hmark.1, hmark.2]
      refine .cons (by simp [separates]) ?_
      rw [hnext]
      exact .nil _

end Scan

/-- The scanner is where it was behind the text, and finds no comma in it that separates; also inside
parentheses. -/
def Enclosed (cs : List Char) : Prop :=
  ∀ d : Int, 0 ≤ d → Scan.Crosses ⟨d, false, false⟩ cs ⟨d, false, false⟩

theorem enclosed_of_ordinary (h : ∀ c ∈ cs, c ∉ "\\'(),".toList) : Enclosed cs :=
  fun _ _ => Scan.crosses_of_ordinary h

theorem enclosed_quotation (cs : List Char) :
    Enclosed ('\'' :: backslashed isQuoteMark cs ++ ['\'']) := by
  intro d _
  refine .cons (by simp [Scan.separates]) (Scan.Crosses.append (Scan.crosses_backslashed d cs) ?_)
  exact .cons (by simp [Scan.separates]) (.nil _)

/-! ## Texts between commas -/

def comma (spaces : Nat) : List Char :=
  ',' :: List.replicate spaces ' '

theorem ordinary_spaces (spaces : Nat) : ∀ c ∈ List.replicate spaces ' ', c ∉ "\\'(),".toList := by
  intro c hc
  rw [List.eq_of_mem_replicate hc]
  decide

theorem crosses_intercalate {d : Int} (hd : 0 < d) (spaces : Nat) (h : ∀ cs ∈ texts, Enclosed cs) :
    Scan.Crosses ⟨d, false, false⟩ (List.intercalate (comma spaces) texts) ⟨d, false, false⟩ := by
  have hcomma : Scan.Crosses ⟨d, false, false⟩ (comma spaces) ⟨d, false, false⟩ := by
    have hne : d ≠ 0 := by omega
    exact .cons (by simp [Scan.separates, hne]) (Scan.crosses_of_ordinary (ordinary_spaces spaces))
  induction texts with
  | nil => exact .nil _
  | cons cs texts ih =>
    obtain ⟨hcs, htexts⟩ := List.forall_mem_cons.mp h
    cases texts with
    | nil =>
      rw [List.intercalate_singleton]
      exact hcs d (Int.le_of_lt hd)
    | cons cs' texts =>
      rw [List.intercalate_cons_cons]
      exact ((hcs d (Int.le_of_lt hd)).append hcomma).append (ih htexts)

/-- A word with texts in parentheses behind it is enclosed. -/
theorem enclosed_call {word : List Char} (hword : ∀ c ∈ word, c ∉ "\\'(),".toList) (spaces : Nat)
    (h : ∀ cs ∈ texts, Enclosed cs) :
    Enclosed (word ++ '(' :: (List.intercalate (comma spaces) texts ++ [')'])) := by
  intro d hd
  refine (Scan.crosses_of_ordinary hword).append (.cons (by simp [Scan.separates]) ?_)
  have hopen : Scan.next ⟨d, false, false⟩ '(' = ⟨d + 1, false, false⟩ := by simp [Scan.next]
  have hclose : Scan.next ⟨d + 1, false, false⟩ ')' = ⟨d, false, false⟩ := by simp [Scan.next]
  rw [hopen]
  refine (crosses_intercalate (by omega) spaces h).append (.cons (by simp [Scan.separates]) ?_)
  rw [hclose]
  exact .nil _

/-! ## Pieces -/

theorem pieces_ne_nil (s : Scan) (cs : List Char) : pieces s cs ≠ [] := by
  cases cs with
  | nil => exact List.cons_ne_nil _ _
  | cons c cs =>
    rw [pieces]
    split
    · exact List.cons_ne_nil _ _
    · split <;> exact List.cons_ne_nil _ _

theorem pieces_cons (h : s.separates c = false) :
    pieces s (c :: cs) = (pieces (s.next c) cs).modifyHead (c :: ·) := by
  rw [pieces, h]
  cases hpieces : pieces (s.next c) cs with
  | nil => exact absurd hpieces (pieces_ne_nil _ _)
  | cons => rfl

theorem pieces_append (h : s.Crosses cs s') :
    pieces s (cs ++ rest) = (pieces s' rest).modifyHead (cs ++ ·) := by
  induction h with
  | nil s =>
    rw [List.nil_append]
    cases pieces s rest <;> rfl
  | cons inside _ ih =>
    rw [List.cons_append, pieces_cons inside, ih, List.modifyHead_modifyHead]
    rfl

theorem Enclosed.crosses_start (h : Enclosed cs) : Scan.start.Crosses cs .start :=
  h 0 (Int.le_refl 0)

theorem pieces_comma (spaces : Nat) (rest : List Char) :
    pieces .start (comma spaces ++ rest) =
      [] :: (pieces .start rest).modifyHead (List.replicate spaces ' ' ++ ·) := by
  have hspaces : Scan.start.Crosses (List.replicate spaces ' ') .start :=
    Scan.crosses_of_ordinary (ordinary_spaces spaces)
  have hcomma (rest : List Char) : pieces .start (',' :: rest) = [] :: pieces .start rest := rfl
  rw [comma, List.cons_append, hcomma, pieces_append hspaces]

theorem pieces_intercalate (spaces : Nat) (h : ∀ t ∈ cs :: texts, Enclosed t) :
    pieces .start (List.intercalate (comma spaces) (cs :: texts)) =
      cs :: texts.map (List.replicate spaces ' ' ++ ·) := by
  induction texts generalizing cs with
  | nil =>
    have hcs := h cs List.mem_cons_self
    have hpieces : pieces .start (cs ++ []) = (pieces .start []).modifyHead (cs ++ ·) :=
      pieces_append hcs.crosses_start
    rw [List.append_nil] at hpieces
    rw [List.intercalate_singleton, hpieces]
    simp [pieces]
  | cons cs' texts ih =>
    obtain ⟨hcs, htexts⟩ := List.forall_mem_cons.mp h
    rw [List.intercalate_cons_cons, List.append_assoc, pieces_append hcs.crosses_start, pieces_comma,
      ih htexts]
    simp

/-! ## White space around arguments -/

/-- Neither at its front nor at its end does the text have white space. -/
structure Trimmed (cs : List Char) : Prop where
  nonempty : cs ≠ []
  front : ∀ c ∈ cs.head?, isBlank c = false
  back : ∀ c ∈ cs.getLast?, isBlank c = false

theorem trimmed_of_ends {front back : Char} (cs : List Char) (hfront : isBlank front = false)
    (hback : isBlank back = false) : Trimmed (front :: cs ++ [back]) := by
  refine ⟨List.cons_ne_nil _ _, ?_, ?_⟩
  · rintro c ⟨⟩
    exact hfront
  · rw [List.getLast?_concat]
    rintro c ⟨⟩
    exact hback

theorem trimStart_eq (h : ∀ c ∈ cs.head?, isBlank c = false) : trimStart cs = cs := by
  cases cs with
  | nil => rfl
  | cons c cs => rw [trimStart, List.dropWhile_cons, h c rfl]; rfl

theorem trimEnd_eq (h : ∀ c ∈ cs.getLast?, isBlank c = false) : trimEnd cs = cs := by
  rw [trimEnd, trimStart_eq (by rwa [List.head?_reverse]), List.reverse_reverse]

theorem Trimmed.trim_spaces (h : Trimmed cs) (spaces : Nat) :
    trim (List.replicate spaces ' ' ++ cs) = cs := by
  have hspaces : ∀ c ∈ List.replicate spaces ' ', isBlank c = true := by
    intro c hc
    rw [List.eq_of_mem_replicate hc]
    decide
  rw [trim, trimStart, List.dropWhile_append_of_pos hspaces, ← trimStart, trimStart_eq h.front,
    trimEnd_eq h.back]

theorem splitArguments_intercalate (spaces : Nat) (h : ∀ cs ∈ texts, Enclosed cs)
    (htrimmed : ∀ cs ∈ texts, Trimmed cs) :
    splitArguments (List.intercalate (comma spaces) texts) = texts := by
  cases texts with
  | nil => rfl
  | cons cs texts =>
    obtain ⟨hfirst, hrest⟩ := List.forall_mem_cons.mp htrimmed
    have htrim : (texts.map (List.replicate spaces ' ' ++ ·)).map trim = texts := by
      rw [List.map_map]
      exact (List.map_congr_left fun t ht => (hrest t ht).trim_spaces spaces).trans (List.map_id _)
    have hcs : trim cs = cs := hfirst.trim_spaces 0
    rw [splitArguments, pieces_intercalate spaces h, List.map_cons, htrim, hcs]
    cases texts with
    | nil => simp [hfirst.nonempty]
    | cons => rfl

end

end StatesLanguage.Intrinsic
