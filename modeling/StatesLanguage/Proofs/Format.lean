import Mathlib.Data.List.Forall2
import StatesLanguage.Intrinsic.Function
import StatesLanguage.Proofs.Process

/-!
# Filled templates

The template that `States.Format` is given is made of texts with placeholders between them. The texts,
with a backslash before what would have a meaning, come out as they are, and each placeholder becomes
what its value is shown as, of which nothing is read again.
-/

namespace StatesLanguage.Intrinsic

/-- A text with a backslash before each character of a kind. -/
def backslashed (isMark : Char → Bool) (cs : List Char) : List Char :=
  cs.flatMap fun c => if isMark c then ['\\', c] else [c]

def isMark (c : Char) : Bool :=
  c == '\\' || c == '\x7b' || c == '\x7d'

def placeholders (texts : List String) : List Char :=
  texts.flatMap fun s => '\x7b' :: '\x7d' :: backslashed isMark s.toList

def templateOf (first : String) (others : List String) : String :=
  String.ofList (backslashed isMark first.toList ++ placeholders others)

inductive Shows : Value → String → Prop
  | text (s : String) : Shows (.str s) s
  | json {v : Value} {t : String} (other : ∀ s, v ≠ .str s) (encoded : Json.encode v = .ok t) :
      Shows v t

/-- What the values are shown as, each with the text behind its placeholder. -/
def joined (shownAs texts : List String) : String :=
  String.join (List.zipWith (· ++ ·) shownAs texts)

def tooFewValues : Failure :=
  failure "States.Format failed, too few arguments for template."

def tooManyValues : Failure :=
  failure "States.Format failed, too many arguments for template."

section

variable {v : Value} {t : String} {c : Char} {cs rest : List Char} {values : List Value}
  {shownAs : List String}

theorem Shows.shown (h : Shows v t) : shown v = .ok t.toList := by
  cases h with
  | text => rfl
  | json other encoded =>
    unfold Intrinsic.shown
    split
    · exact absurd rfl (other _)
    · rw [encoded]
      rfl

theorem fill_backslash :
    fill ('\\' :: c :: rest) values = (fill rest values).map (c :: ·) := by
  rw [fill]
  cases fill rest values <;> rfl

theorem fill_of_not_mark (h : isMark c = false) :
    fill (c :: rest) values = (fill rest values).map (c :: ·) := by
  simp only [isMark, Bool.or_eq_false_iff, beq_eq_false_iff_ne] at h
  obtain ⟨⟨hbackslash, hopen⟩, -⟩ := h
  rw [fill]
  · cases fill rest values <;> rfl
  · rintro d rest' rfl
    exact absurd rfl hbackslash
  · rintro rest' rfl
    exact absurd rfl hopen

theorem fill_backslashed (cs rest : List Char) (values : List Value) :
    fill (backslashed isMark cs ++ rest) values = (fill rest values).map (cs ++ ·) := by
  induction cs with
  | nil =>
    rw [backslashed, List.flatMap_nil, List.nil_append]
    cases fill rest values <;> rfl
  | cons c cs ih =>
    have hcons : (fill (backslashed isMark cs ++ rest) values).map (c :: ·) =
        (fill rest values).map (c :: cs ++ ·) := by
      rw [ih]
      cases fill rest values <;> rfl
    rw [backslashed, List.flatMap_cons, ← backslashed]
    cases hmark : isMark c with
    | true => exact fill_backslash.trans hcons
    | false => exact (fill_of_not_mark hmark).trans hcons

/-- A placeholder takes the first value; what that is shown as is not read again. -/
theorem fill_placeholder (h : Shows v t) :
    fill ('\x7b' :: '\x7d' :: rest) (v :: values) = (fill rest values).map (t.toList ++ ·) := by
  rw [fill, h.shown, Outcome.ok_bind]
  cases fill rest values <;> rfl

theorem fill_placeholders (h : List.Forall₂ Shows values shownAs) (texts : List String) :
    fill (placeholders texts) values =
      if values.length < texts.length then .error tooFewValues
      else if texts.length < values.length then .error tooManyValues
      else .ok (joined shownAs texts).toList := by
  -- By induction on the texts, of which each takes the first value that is left.
  induction texts generalizing values shownAs with
  | nil =>
    cases h with
    | nil => rfl
    | cons => rfl
  | cons s texts ih =>
    cases h with
    | nil => rfl
    | @cons v t values shownAs hfirst hrest =>
      have hjoined : (joined (t :: shownAs) (s :: texts)).toList =
          t.toList ++ (s.toList ++ (joined shownAs texts).toList) := by
        simp [joined, String.toList_join]
      rw [placeholders, List.flatMap_cons, ← placeholders, List.cons_append, List.cons_append,
        fill_placeholder hfirst, fill_backslashed, ih hrest, hjoined]
      simp only [List.length_cons, Nat.add_lt_add_iff_right]
      split
      · rfl
      · split <;> rfl

end

/-- A template is filled with as many values as it has placeholders, and with no other number of
them. -/
theorem format_templateOf [Room] (first : String) (others : List String) {values : List Value}
    {shownAs : List String} (h : List.Forall₂ Shows values shownAs) :
    (values.length = others.length →
      Function.format.apply (.str (templateOf first others) :: values) =
        pure (.str (first ++ joined shownAs others))) ∧
      (values.length ≠ others.length → ∃ text,
        Function.format.apply (.str (templateOf first others) :: values) = throw (failure text)) := by
  have hfill : fill (templateOf first others).toList values =
      (fill (placeholders others) values).map (first.toList ++ ·) := by
    rw [templateOf, String.toList_ofList, fill_backslashed]
  have happly : Function.format.apply (.str (templateOf first others) :: values) =
      .ofOutcome ((fill (placeholders others) values).map
        fun cs => .str (String.ofList (first.toList ++ cs))) := by
    change Draw.ofOutcome (Function.applyFormat _) = _
    rw [Function.applyFormat, hfill]
    cases fill (placeholders others) values <;> rfl
  rw [happly, fill_placeholders h]
  constructor
  · intro heq
    have htext : String.ofList (first.toList ++ (joined shownAs others).toList) =
        first ++ joined shownAs others := by
      rw [← String.toList_append, String.ofList_toList]
    rw [if_neg (Nat.not_lt.mpr (Nat.le_of_eq heq.symm)), if_neg (Nat.not_lt.mpr (Nat.le_of_eq heq))]
    exact congrArg (fun s => (pure (.str s) : Draw Value)) htext
  · intro hne
    rcases Nat.lt_or_gt_of_ne hne with hfew | hmany
    · exact ⟨_, by rw [if_pos hfew]; rfl⟩
    · exact ⟨_, by rw [if_neg (Nat.lt_asymm hmany), if_pos hmany]; rfl⟩

/-- A brace of the text stands beside each placeholder, and the values look like placeholders. -/
theorem format_templateOf_braces :
    List.Forall₂ Shows [.str "\\\x7b\x7d", .null] ["\\\x7b\x7d", "null"] ∧
      Function.format.apply [.str "\\\x7b\x7b\x7d\\\x7d\x7b\x7d", .str "\\\x7b\x7d", .null] =
        pure (.str "\x7b\\\x7b\x7d\x7dnull") := by
  have hshows : List.Forall₂ Shows [.str "\\\x7b\x7d", .null] ["\\\x7b\x7d", "null"] :=
    .cons (.text _) (.cons (.json nofun rfl) .nil)
  exact ⟨hshows, (format_templateOf "\x7b" ["\x7d", ""] hshows).1 rfl⟩

end StatesLanguage.Intrinsic
