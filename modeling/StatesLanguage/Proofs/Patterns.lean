import Mathlib.Computability.Language
import StatesLanguage.Choice.Comparison

/-!
# Languages of patterns

A pattern denotes the language that reading it from left to right gives: a star stands for any text,
unless a backslash stands before it, and all else for itself. The texts that fit the pattern are those
of its language, though it is spelled as a glob, in which brackets and question marks have a meaning.
-/

namespace StatesLanguage

/-! ## Globs -/

namespace Text.Glob

variable {p : Piece} {ps : List Piece} {c : Char} {cs rest : List Char} {left : List (List Char)}

/-- The texts that a piece stands for. -/
def Piece.language : Piece → Language Char
  | anything => ⊤
  | p => {text | ∃ c, p.accepts c = true ∧ text = [c]}

def language (ps : List Piece) : Language Char :=
  (ps.map Piece.language).prod

def Nested (left : List (List Char)) : Prop :=
  left.Pairwise fun longer shorter => shorter <:+ longer

theorem mem_ends : rest ∈ ends cs ↔ rest <:+ cs := by
  induction cs with
  | nil => simp [ends]
  | cons c cs ih => rw [ends, List.mem_cons, ih, List.suffix_cons_iff]

theorem nested_ends (cs : List Char) : Nested (ends cs) := by
  induction cs with
  | nil => exact List.pairwise_singleton _ _
  | cons c cs ih =>
    exact List.pairwise_cons.mpr
      ⟨fun rest hrest => (mem_ends.mp hrest).trans (List.suffix_cons c cs), ih⟩

theorem Piece.behind?_eq_some (p : Piece) :
    p.behind? cs = some rest ↔ ∃ c, p.accepts c = true ∧ cs = c :: rest := by
  cases cs with
  | nil => simp [behind?]
  | cons c cs => simp [behind?, and_comm]

theorem Piece.behind?_suffix (p : Piece) {longer shorter a b : List Char} (h : shorter <:+ longer)
    (ha : p.behind? longer = some a) (hb : p.behind? shorter = some b) : b <:+ a := by
  obtain ⟨c, -, rfl⟩ := p.behind?_eq_some.mp ha
  obtain ⟨d, -, rfl⟩ := p.behind?_eq_some.mp hb
  rcases List.suffix_cons_iff.mp h with heq | hsuffix
  · rw [(List.cons.inj heq).2]
  · exact (List.suffix_cons d b).trans hsuffix

theorem Nested.filterMap (h : Nested left) (p : Piece) : Nested (left.filterMap p.behind?) :=
  List.Pairwise.filterMap p.behind? (fun _ _ hsuffix _ ha _ hb => p.behind?_suffix hsuffix ha hb) h

theorem Nested.leave (h : Nested left) (p : Piece) : Nested (p.leave left) := by
  cases p with
  | anything =>
    cases left with
    | nil => exact List.Pairwise.nil
    | cons longest left => exact nested_ends longest
  | anyOne => exact h.filterMap _
  | only c => exact h.filterMap _
  | set negated ranges => exact h.filterMap _

theorem mem_filterMap_behind? (p : Piece) :
    rest ∈ left.filterMap p.behind? ↔
      ∃ cs ∈ left, ∃ w, (∃ c, p.accepts c = true ∧ w = [c]) ∧ w ++ rest = cs := by
  rw [List.mem_filterMap]
  refine exists_congr fun cs => and_congr_right fun _ => ?_
  rw [p.behind?_eq_some]
  constructor
  · rintro ⟨c, haccepts, rfl⟩
    exact ⟨[c], ⟨c, haccepts, rfl⟩, rfl⟩
  · rintro ⟨w, ⟨c, haccepts, rfl⟩, rfl⟩
    exact ⟨c, haccepts, rfl⟩

/-- A piece leaves what stands behind one of its texts. A star leaves every end of the longest, which
are all there are. -/
theorem Nested.mem_leave (h : Nested left) (p : Piece) :
    rest ∈ p.leave left ↔ ∃ cs ∈ left, ∃ w ∈ p.language, w ++ rest = cs := by
  cases p with
  | anything =>
    cases left with
    | nil => simp [Piece.leave]
    | cons longest left =>
      rw [Piece.leave, mem_ends]
      constructor
      · rintro ⟨w, hw⟩
        exact ⟨longest, List.mem_cons_self, w, Set.mem_univ w, hw⟩
      · rintro ⟨cs, hcs, w, -, rfl⟩
        have hrest : rest <:+ w ++ rest := List.suffix_append w rest
        rcases List.mem_cons.mp hcs with rfl | hmem
        · exact hrest
        · exact hrest.trans ((List.pairwise_cons.mp h).1 _ hmem)
  | anyOne => exact mem_filterMap_behind? _
  | only c => exact mem_filterMap_behind? _
  | set negated ranges => exact mem_filterMap_behind? _

theorem Nested.mem_foldl (h : Nested left) (ps : List Piece) :
    rest ∈ ps.foldl (fun left p => p.leave left) left ↔
      ∃ cs ∈ left, ∃ w ∈ language ps, w ++ rest = cs := by
  -- By induction on the pieces, each of which works on the ends that the one before it left.
  induction ps generalizing left with
  | nil => simp [language, Language.mem_one]
  | cons p ps ih =>
    rw [List.foldl_cons, ih (h.leave p)]
    constructor
    · rintro ⟨cs, hcs, w, hw, rfl⟩
      obtain ⟨whole, hwhole, v, hv, hsplit⟩ := (h.mem_leave p).mp hcs
      refine ⟨whole, hwhole, v ++ w, ?_, by rw [List.append_assoc, hsplit]⟩
      exact Language.append_mem_mul hv hw
    · rintro ⟨whole, hwhole, vw, hvw, hsplit⟩
      obtain ⟨v, hv, w, hw, rfl⟩ := Language.mem_mul.mp hvw
      rw [List.append_assoc] at hsplit
      exact ⟨w ++ rest, (h.mem_leave p).mpr ⟨whole, hwhole, v, hv, hsplit⟩, w, hw, rfl⟩

theorem fits_iff_mem_language (ps : List Piece) (cs : List Char) :
    fits ps cs = true ↔ cs ∈ language ps := by
  have hnested : Nested [cs] := List.pairwise_singleton _ _
  rw [fits, List.contains_iff_mem, hnested.mem_foldl]
  simp

theorem language_cons (p : Piece) (ps : List Piece) :
    language (p :: ps) = p.language * language ps := by
  rw [language, List.map_cons, List.prod_cons, language]

theorem language_eq_singleton (hstar : p ≠ .anything) (h : ∀ d, p.accepts d = true ↔ d = c) :
    p.language = {[c]} := by
  have hlanguage : p.language = {text | ∃ d, p.accepts d = true ∧ text = [d]} := by
    cases p with
    | anything => exact absurd rfl hstar
    | _ => rfl
  rw [hlanguage]
  refine Set.ext fun text => ?_
  simp only [h, exists_eq_left]
  exact Iff.rfl

theorem language_only (c : Char) : (Piece.only c).language = {[c]} :=
  language_eq_singleton nofun fun _ => beq_iff_eq

theorem language_set (c : Char) : (Piece.set false [(c, c)]).language = {[c]} := by
  refine language_eq_singleton nofun fun d => ?_
  have haccepts : (Piece.set false [(c, c)]).accepts d = (decide (c ≤ d) && decide (d ≤ c)) := by
    simp [Piece.accepts]
  rw [haccepts, Bool.and_eq_true, decide_eq_true_iff, decide_eq_true_iff]
  constructor
  · rintro ⟨hfirst, hlast⟩
    exact Char.le_antisymm hlast hfirst
  · rintro rfl
    exact ⟨Char.le_refl d, Char.le_refl d⟩

/-! ### Reading -/

theorem pieces_star (rest : List Char) : pieces ('*' :: rest) = .anything :: pieces rest := rfl

theorem pieces_cons (rest : List Char) (hstar : c ≠ '*') (hmark : c ≠ '?') (hopens : c ≠ '[') :
    pieces (c :: rest) = .only c :: pieces rest := by
  rw [pieces, piecesAfter]
  · rfl
  · exact hstar
  · exact hmark
  · exact hopens

theorem bracket?_single (rest : List Char) (hnegates : c ≠ '!') (hcloses : c ≠ ']') :
    bracket? (c :: ']' :: rest) = some ⟨false, [c]⟩ := by
  have hnegation : negation (c :: ']' :: rest) = (false, c :: ']' :: rest) := by
    rw [negation]
    rintro _ ⟨⟩
    exact hnegates rfl
  have hfirst : firstMember (c :: ']' :: rest) = ([], c :: ']' :: rest) := by
    rw [firstMember]
    rintro _ ⟨⟩
    exact hcloses rfl
  rw [bracket?, hnegation]
  dsimp only
  rw [hfirst]
  simp [hcloses]

theorem pieces_set (rest : List Char) (hnegates : c ≠ '!') (hcloses : c ≠ ']') :
    pieces ('[' :: c :: ']' :: rest) = .set false [(c, c)] :: pieces rest := by
  rw [pieces, piecesAfter, bracket?_single rest hnegates hcloses]
  rfl

end Text.Glob

/-! ## Patterns of rules -/

namespace Choice

open Text Glob

variable {c : Char} {pattern rest : List Char}

/-- The language of a pattern, read from left to right. -/
def denotes : List Char → Language Char
  | '\\' :: '*' :: rest => {['*']} * denotes rest
  | '*' :: rest => ⊤ * denotes rest
  | c :: rest => {[c]} * denotes rest
  | [] => 1

/-- A character as a glob spells it that stands for no more than itself. -/
def spelled (c : Char) : List Char :=
  if c = '[' then "[[]".toList else if c = '?' then "[?]".toList else [c]

theorem replaceText_singleton (d : Char) (new : String) (cs : List Char) :
    replaceText (String.singleton d) new cs =
      cs.flatMap fun c => if c = d then new.toList else [c] := by
  rw [replaceText, String.toList_singleton]
  induction cs with
  | nil => rfl
  | cons c cs ih =>
    have hprefix : [d].isPrefixOf (c :: cs) = (d == c) := by simp [List.isPrefixOf]
    rw [replaceAfter, hprefix, List.flatMap_cons, ← ih]
    by_cases h : c = d
    · subst h
      simp
    · simp [h, Ne.symm h]

/-- Only a backslash before a star is still to be taken away when the rest is spelled. -/
theorem globOf_eq (pattern : List Char) :
    globOf pattern = replaceText "\\*" "[*]" (pattern.flatMap spelled) := by
  have hspelled (c : Char) : ((if c = '[' then "[[]".toList else [c]).flatMap fun c =>
      if c = '?' then "[?]".toList else [c]) = spelled c := by
    by_cases hopens : c = '['
    · subst hopens
      rfl
    · simp [spelled, hopens]
  rw [globOf, show "?" = String.singleton '?' from rfl, show "[" = String.singleton '[' from rfl,
    replaceText_singleton, replaceText_singleton, List.flatMap_assoc]
  simp only [hspelled]

theorem replaceText_cons {old new : String} (h : old.toList.isPrefixOf (c :: rest) = false) :
    replaceText old new (c :: rest) = c :: replaceText old new rest := by
  rw [replaceText, replaceAfter, h, if_neg Bool.false_ne_true, ← replaceText]

theorem isPrefixOf_spelled (h : ∀ rest', c = '\\' → rest = '*' :: rest' → False) :
    "\\*".toList.isPrefixOf (c :: rest.flatMap spelled) = false := by
  by_cases hc : c = '\\'
  · cases rest with
    | nil => simp [List.isPrefixOf]
    | cons d rest =>
      have hd : d ≠ '*' := fun hd => h rest hc (hd ▸ rfl)
      have hhead : ∃ e more, spelled d = e :: more ∧ e ≠ '*' := by
        unfold spelled
        split
        · exact ⟨'[', _, rfl, by decide⟩
        · split
          · exact ⟨'[', _, rfl, by decide⟩
          · exact ⟨d, [], rfl, hd⟩
      obtain ⟨e, more, he, hne⟩ := hhead
      simp [List.isPrefixOf, he, Ne.symm hne]
  · simp [List.isPrefixOf, Ne.symm hc]

theorem globOf_escaped (rest : List Char) :
    globOf ('\\' :: '*' :: rest) = '[' :: '*' :: ']' :: globOf rest := by
  rw [globOf_eq, globOf_eq]
  rfl

theorem globOf_bracketed (rest : List Char) (hspelled : spelled c = ['[', c, ']']) (h : c ≠ '\\') :
    globOf (c :: rest) = '[' :: c :: ']' :: globOf rest := by
  have hplain (d : Char) (cs : List Char) (hd : d ≠ '\\') :
      replaceText "\\*" "[*]" (d :: cs) = d :: replaceText "\\*" "[*]" cs :=
    replaceText_cons (by simp [List.isPrefixOf, Ne.symm hd])
  rw [globOf_eq, globOf_eq, List.flatMap_cons, hspelled, List.cons_append, List.cons_append,
    List.cons_append, List.nil_append, hplain _ _ (by decide), hplain _ _ h, hplain _ _ (by decide)]

theorem globOf_cons (hspelled : spelled c = [c])
    (h : ∀ rest', c = '\\' → rest = '*' :: rest' → False) :
    globOf (c :: rest) = c :: globOf rest := by
  rw [globOf_eq, globOf_eq, List.flatMap_cons, hspelled, List.singleton_append,
    replaceText_cons (isPrefixOf_spelled h)]

theorem language_globOf (pattern : List Char) :
    language (pieces (globOf pattern)) = denotes pattern := by
  -- By induction on the pattern, as it is read.
  fun_induction denotes pattern with
  | case1 rest ih =>
    rw [globOf_escaped, pieces_set _ (by decide) (by decide), language_cons, language_set, ih]
  | case2 rest ih =>
    have hescaped : ∀ rest', '*' = '\\' → rest = '*' :: rest' → False :=
      fun _ h => absurd h (by decide)
    rw [globOf_cons rfl hescaped, pieces_star, language_cons, ih]
    rfl
  | case3 c rest hescaped hstar ih =>
    by_cases hopens : c = '['
    · subst hopens
      rw [globOf_bracketed _ rfl (by decide), pieces_set _ (by decide) (by decide), language_cons,
        language_set, ih]
    · by_cases hmark : c = '?'
      · subst hmark
        rw [globOf_bracketed _ rfl (by decide), pieces_set _ (by decide) (by decide), language_cons,
          language_set, ih]
      · rw [globOf_cons (by simp [spelled, hopens, hmark]) hescaped, pieces_cons _ hstar hmark hopens,
          language_cons, language_only, ih]
  | case4 => exact List.prod_nil

/-- A value matches another if both are texts and the second denotes the first. -/
theorem holds_matchesPattern (a b : Value) :
    Comparison.matchesPattern.holds a b = true ↔
      ∃ text pattern, a = .str text ∧ b = .str pattern ∧ text.toList ∈ denotes pattern.toList := by
  have hfits (text pattern : String) :
      fitsPattern text pattern = true ↔ text.toList ∈ denotes pattern.toList := by
    rw [fitsPattern, fits_iff_mem_language, language_globOf]
  cases a with
  | str text =>
    cases b with
    | str pattern =>
      constructor
      · exact fun h => ⟨text, pattern, rfl, rfl, (hfits text pattern).mp h⟩
      · rintro ⟨text', pattern', ⟨⟩, ⟨⟩, h⟩
        exact (hfits text pattern).mpr h
    | _ => exact ⟨nofun, nofun⟩
  | _ => exact ⟨nofun, nofun⟩

/-- The brackets of a pattern make no set. -/
example : fitsPattern "[?]a" "[?]*" = true ∧ fitsPattern "?a" "[?]*" = false := by decide

end Choice

end StatesLanguage
