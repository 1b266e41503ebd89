import StatesLanguage.Proofs.Definite
import StatesLanguage.Proofs.Places
import StatesLanguage.Proofs.Policy

/-!
# Reference paths as lenses

A result that is put at a reference path is what is read there afterwards, and nothing beside the path
changes. A path that leads through a value without members or items, or to an item that is not there,
puts nothing.
-/

namespace StatesLanguage.Reference

open StatesLanguage.Path (Style isPlain textOf)
open StatesLanguage.Path.Definite (MeetsTooLong continuesName reached?)
open StatesLanguage.Path.Expression (isAsciiLetter)
open Text (isAsciiDigit ofDigits)
open Decimal (digitsOf maxDigits)
open Value (Place Location)

/-! ## Names and numerals -/

def isWordChar (c : Char) : Bool :=
  isAsciiLetter c || isAsciiDigit c || c == '_'

def IsName (cs : List Char) : Prop :=
  ∃ c rest, cs = c :: rest ∧ isAsciiLetter c = true ∧ ∀ d ∈ rest, isWordChar d = true

def IsNumeral (cs : List Char) : Prop :=
  cs ≠ [] ∧ ∀ c ∈ cs, isAsciiDigit c = true

section

variable {c : Char} {cs : List Char}

theorem toNat_lt_of_isWordChar (h : isWordChar c = true) : c.toNat < 128 := by
  simp only [isWordChar, isAsciiLetter, isAsciiDigit, Text.asciiDigit?, Bool.or_eq_true,
    Bool.and_eq_true, decide_eq_true_eq, beq_iff_eq, Char.le_def, UInt32.le_iff_toNat_le] at h
  rcases h with ((⟨-, h⟩ | ⟨-, h⟩) | h) | rfl
  · exact lt_of_le_of_lt h (by decide)
  · exact lt_of_le_of_lt h (by decide)
  · split at h
    · rename_i hdigit
      exact lt_of_le_of_lt hdigit.2 (by decide)
    · cases h
  · decide

theorem word_facts (h : isWordChar c = true) :
    continuesName c = true ∧ c ∉ ":-+".toList ∧ Decimal.isMargin c = false ∧
      Decimal.plainDigit c = c := by
  refine Text.ascii_forall (fun c => isWordChar c = true → continuesName c = true ∧
    c ∉ ":-+".toList ∧ Decimal.isMargin c = false ∧ Decimal.plainDigit c = c) ?_
    (toNat_lt_of_isWordChar h) h
  decide +kernel

theorem isPlain_of_isWordChar (h : isWordChar c = true) : isPlain c = true :=
  Path.Definite.isPlain_of_notMem_marks
    (Path.Definite.notMem_marks_of_continuesName (word_facts h).1)

theorem isWordChar_of_letter (h : isAsciiLetter c = true) : isWordChar c = true := by
  simp [isWordChar, h]

theorem isWordChar_of_digit (h : isAsciiDigit c = true) : isWordChar c = true := by
  simp [isWordChar, h]

theorem letter_facts (h : isAsciiLetter c = true) :
    Path.Definite.isLetter c = true ∧ isAsciiDigit c = false ∧ c ≠ '_' := by
  refine Text.ascii_forall (fun c => isAsciiLetter c = true →
    Path.Definite.isLetter c = true ∧ isAsciiDigit c = false ∧ c ≠ '_') ?_
    (toNat_lt_of_isWordChar (isWordChar_of_letter h)) h
  decide +kernel

theorem sign_eq (h : ∀ c ∈ cs, isWordChar c = true) : Decimal.sign cs = (false, cs) := by
  unfold Decimal.sign
  split
  · exact absurd (by decide) (word_facts (h '-' List.mem_cons_self)).2.1
  · exact absurd (by decide) (word_facts (h '+' List.mem_cons_self)).2.1
  · rfl

theorem IsName.isWordChar (h : IsName cs) : ∀ c ∈ cs, isWordChar c = true := by
  obtain ⟨c, rest, rfl, hc, hrest⟩ := h
  exact List.forall_mem_cons.mpr ⟨isWordChar_of_letter hc, hrest⟩

theorem IsNumeral.isWordChar (h : IsNumeral cs) : ∀ c ∈ cs, isWordChar c = true :=
  fun c hc => isWordChar_of_digit (h.2 c hc)

theorem parseInt_name (h : IsName cs) : Decimal.parseInt cs = .error .malformed := by
  have hword := h.isWordChar
  obtain ⟨c, rest, rfl, hc, -⟩ := h
  obtain ⟨-, hdigit, hline⟩ := letter_facts hc
  have hrun : (c :: rest).takeWhile (fun c => isAsciiDigit c || c == '_') = [] := by
    rw [List.takeWhile_cons, hdigit, beq_eq_false_iff_ne.mpr hline]
    rfl
  have hkept := Decimal.map_stripMargin fun c hc => (word_facts (hword c hc)).2.2
  simp only [Decimal.parseInt, hkept, sign_eq hword, hrun]
  rfl

def numeralValue (cs : List Char) : Nat :=
  ofDigits (digitsOf cs)

theorem parseInt_numeral (h : IsNumeral cs) :
    Decimal.parseInt cs =
      if cs.length ≤ maxDigits then .ok (numeralValue cs) else .error (.tooLong cs.length) :=
  Decimal.parseInt_digits h.1 h.2

end

/-! ## Steps -/

/-- A step of a reference path: a name with a point or in brackets with apostrophes, or a numeral in
brackets. -/
structure Step where
  style : Style
  text : List Char
  valid : match style with
    | .bracketed => IsNumeral text
    | _ => IsName text

namespace Step

variable (s : Step)

def key : String :=
  String.ofList s.text

/-- The index that a step stands for in an array. A numeral with more digits than an integer may have
is none, nor is one that no array can be so long for. -/
def index? : Option Nat :=
  match s.style with
  | .bracketed =>
    if s.text.length ≤ maxDigits ∧ numeralValue s.text < Nat.pow 2 63 then
      some (numeralValue s.text)
    else none
  | _ => none

theorem word : ∀ c ∈ s.text, isWordChar c = true := by
  obtain ⟨style, text, valid⟩ := s
  cases style with
  | bracketed => exact IsNumeral.isWordChar valid
  | dotted => exact IsName.isWordChar valid
  | quoted => exact IsName.isWordChar valid

theorem text_ne_nil : s.text ≠ [] := by
  obtain ⟨style, text, valid⟩ := s
  have hname (h : IsName text) : text ≠ [] := by
    obtain ⟨c, rest, rfl, -⟩ := h
    exact List.cons_ne_nil c rest
  cases style with
  | bracketed => exact valid.1
  | dotted => exact hname valid
  | quoted => exact hname valid

def toPathStep : Path.Step where
  style := s.style
  text := s.text
  nonempty := s.text_ne_nil
  plain c hc := isPlain_of_isWordChar (s.word c hc)

/-- Where a step leads in a value. -/
def place? : Value → Option Place
  | .obj _ => some (.member s.key)
  | .arr items =>
    match s.index? with
    | some i => if i < items.length then some (.item i) else none
    | none => none
  | _ => none

/-- A step fails at a value that is neither object nor array, and at an array if it is no index of
one of its items. -/
inductive Fails : Value → Prop
  | scalar {v : Value} (notObject : ∀ members, v ≠ .obj members) (notArray : ∀ items, v ≠ .arr items) :
      Fails v
  | noIndex {items : List Value} (none : s.index? = none) : Fails (.arr items)
  | outOfRange {items : List Value} {i : Nat} (some : s.index? = some i) (beyond : items.length ≤ i) :
      Fails (.arr items)

variable {s} {v : Value} {p : Place}

theorem place?_eq_none_iff : s.place? v = none ↔ s.Fails v := by
  constructor
  · intro h
    cases v with
    | obj => cases h
    | arr items =>
      cases hindex : s.index? with
      | none => exact .noIndex hindex
      | some i =>
        simp only [place?, hindex, ite_eq_right_iff, reduceCtorEq, imp_false, not_lt] at h
        exact .outOfRange hindex h
    | _ => exact .scalar (by simp) (by simp)
  · rintro (⟨hobject, harray⟩ | hnone | ⟨hsome, hbeyond⟩)
    · cases v with
      | obj members => exact absurd rfl (hobject members)
      | arr items => exact absurd rfl (harray items)
      | _ => rfl
    · simp [place?, hnone]
    · simp [place?, hsome, hbeyond]

theorem place?_arr_eq_some_iff {items : List Value} :
    s.place? (.arr items) = some p ↔ ∃ i, s.index? = some i ∧ i < items.length ∧ p = .item i := by
  rw [place?]
  cases s.index? with
  | none => simp
  | some i =>
    by_cases hlt : i < items.length <;> simp [hlt, eq_comm]

theorem admits_of_place? (h : s.place? v = some p) : v.Admits p := by
  cases v with
  | obj members =>
    cases h
    trivial
  | arr items =>
    obtain ⟨i, -, hlt, rfl⟩ := place?_arr_eq_some_iff.mp h
    exact hlt
  | _ => cases h

theorem place?_putChild (x : Value) : s.place? (v.putChild p x) = s.place? v := by
  unfold Value.putChild
  split
  · rfl
  · simp [place?]
  · rfl

end Step

/-! ## Putting -/

section

variable {s : Step} {steps : List Step} {v w r : Value} {p : Place} {l : Location} {i size room : Nat}

theorem Step.parseInt_of_index? (h : s.index? = some i) :
    IsNumeral s.text ∧ Decimal.parseInt s.text = .ok i ∧ i < Nat.pow 2 63 := by
  obtain ⟨style, text, valid⟩ := s
  cases style with
  | bracketed =>
    have hnumeral : IsNumeral text := valid
    simp only [Step.index?] at h
    split at h
    · rename_i hbounds
      cases h
      exact ⟨hnumeral, (parseInt_numeral hnumeral).trans (if_pos hbounds.1), hbounds.2⟩
    · cases h
  | dotted => cases h
  | quoted => cases h

theorem place_of_index? (h : s.index? = some i) (hlt : i < size) : place s.key size = .ok i := by
  obtain ⟨-, hparse, hbound⟩ := Step.parseInt_of_index? h
  have hin : ¬((i : Int) < -(Nat.pow 2 63 : Nat) ∨ ((Nat.pow 2 63 : Nat) : Int) ≤ i) := by omega
  have hsign : ¬(i : Int) < 0 := by omega
  have hrange : 0 ≤ (i : Int) ∧ (i : Int) < size := by omega
  rw [place, Step.key, String.toList_ofList, hparse]
  dsimp only
  rw [if_neg hin, if_neg hsign, if_pos hrange, Int.toNat_natCast]

theorem exists_place_error (h : ∀ i, s.index? = some i → size ≤ i) :
    ∃ f, place s.key size = .error f := by
  obtain ⟨style, text, valid⟩ := s
  rw [place, Step.key, String.toList_ofList]
  cases style with
  | dotted => exact ⟨_, by rw [parseInt_name valid]⟩
  | quoted => exact ⟨_, by rw [parseInt_name valid]⟩
  | bracketed =>
    rw [parseInt_numeral valid]
    by_cases hlength : text.length ≤ maxDigits
    · rw [if_pos hlength]
      dsimp only
      by_cases hbound : numeralValue text < Nat.pow 2 63
      · have hbeyond := h (numeralValue text) (if_pos ⟨hlength, hbound⟩)
        have hsign : ¬(numeralValue text : Int) < 0 := by omega
        have hrange : ¬(0 ≤ (numeralValue text : Int) ∧ (numeralValue text : Int) < size) := by omega
        refine ⟨badItem (String.ofList text) "list index out of range", ?_⟩
        rw [if_neg (by omega), if_neg hsign, if_neg hrange]
      · exact ⟨_, if_pos (by omega)⟩
    · rw [if_neg hlength]
      exact ⟨_, rfl⟩

theorem inject_of_place? (h : s.place? v = some p) (keys : List String) (r : Value) :
    inject (room + 1) (s.key :: keys) v r =
      (inject room keys (v.childOrNew p) r).map (v.putChild p) := by
  cases v with
  | obj members =>
    cases h
    have hmember : (Table.get? members s.key).getD (.obj []) =
        (Value.obj members).childOrNew (.member s.key) := rfl
    rw [inject, hmember]
    cases inject room keys ((Value.obj members).childOrNew (.member s.key)) r <;> rfl
  | arr items =>
    obtain ⟨i, hindex, hlt, rfl⟩ := Step.place?_arr_eq_some_iff.mp h
    have hitem : (items[i]?).getD .null = (Value.arr items).childOrNew (.item i) := by
      rw [Value.childOrNew, Value.child?, List.getElem?_eq_getElem hlt, Option.getD_some,
        Option.getD_some]
    rw [inject, place_of_index? hindex hlt, Outcome.ok_bind]
    dsimp only
    rw [hitem]
    cases inject room keys ((Value.arr items).childOrNew (.item i)) r <;> rfl
  | _ => cases h

theorem exists_inject_error (h : s.Fails v) (keys : List String) (r : Value) :
    ∃ f, inject (room + 1) (s.key :: keys) v r = .error f := by
  rcases h with ⟨hobject, harray⟩ | hnone | ⟨hsome, hbeyond⟩
  · cases v with
    | obj members => exact absurd rfl (hobject members)
    | arr items => exact absurd rfl (harray items)
    | _ => exact ⟨_, rfl⟩
  · rename_i items
    obtain ⟨f, hf⟩ := exists_place_error (s := s) fun i hi => by
      rw [hnone] at hi
      cases hi
    exact ⟨f, by rw [inject, hf]; rfl⟩
  · rename_i items i
    obtain ⟨f, hf⟩ := exists_place_error (s := s) fun j hj => by
      rw [hsome] at hj
      exact Option.some.inj hj ▸ hbeyond
    exact ⟨f, by rw [inject, hf]; rfl⟩

def locate : Value → List Step → Option Location
  | _, [] => some []
  | v, s :: steps =>
    match s.place? v with
    | none => none
    | some p => (locate (v.childOrNew p) steps).map (p :: ·)

/-- Some step fails at the value that the steps before it lead to. -/
inductive Blocked : Value → List Step → Prop
  | first {v : Value} {s : Step} {steps : List Step} (fails : s.Fails v) : Blocked v (s :: steps)
  | later {v : Value} {s : Step} {steps : List Step} {p : Place} (leads : s.place? v = some p)
      (blocked : Blocked (v.childOrNew p) steps) : Blocked v (s :: steps)

theorem locate_cons_eq_some_iff :
    locate v (s :: steps) = some l ↔
      ∃ p l', s.place? v = some p ∧ locate (v.childOrNew p) steps = some l' ∧ l = p :: l' := by
  rw [locate]
  cases s.place? v with
  | none => simp
  | some p =>
    refine Option.map_eq_some_iff.trans ⟨?_, ?_⟩
    · rintro ⟨l', hl', rfl⟩
      exact ⟨p, l', rfl, hl', rfl⟩
    · rintro ⟨p, l', ⟨⟩, hl', rfl⟩
      exact ⟨l', hl', rfl⟩

theorem locate_eq_none_iff : locate v steps = none ↔ Blocked v steps := by
  constructor
  · intro h
    induction steps generalizing v with
    | nil => cases h
    | cons s steps ih =>
      rw [locate] at h
      cases hplace : s.place? v with
      | none => exact .first (Step.place?_eq_none_iff.mp hplace)
      | some p =>
        rw [hplace] at h
        exact .later hplace (ih (Option.map_eq_none_iff.mp h))
  · intro h
    induction h with
    | first fails => rw [locate, Step.place?_eq_none_iff.mpr fails]
    | later leads _ ih =>
      rw [locate, leads]
      exact Option.map_eq_none_iff.mpr ih

theorem reaches_of_locate (h : locate v steps = some l) : v.Reaches l := by
  induction steps generalizing v l with
  | nil =>
    cases h
    trivial
  | cons s steps ih =>
    obtain ⟨p, l', hplace, hlocate, rfl⟩ := locate_cons_eq_some_iff.mp h
    exact ⟨Step.admits_of_place? hplace, ih hlocate⟩

theorem locate_setAt (h : locate v steps = some l) (r : Value) :
    locate (v.setAt l r) steps = some l := by
  induction steps generalizing v l with
  | nil => exact h
  | cons s steps ih =>
    obtain ⟨p, l', hplace, hlocate, rfl⟩ := locate_cons_eq_some_iff.mp h
    refine locate_cons_eq_some_iff.mpr ⟨p, l', ?_, ?_, rfl⟩
    · rw [Value.setAt_cons, Step.place?_putChild, hplace]
    · rw [Value.setAt_cons, Value.childOrNew_putChild (Step.admits_of_place? hplace)]
      exact ih hlocate

theorem inject_of_locate (h : locate v steps = some l) (hroom : steps.length ≤ room) (r : Value) :
    inject room (steps.map Step.key) v r = .ok (v.setAt l r) := by
  induction steps generalizing v l room with
  | nil =>
    cases h
    rw [Value.setAt_nil, List.map_nil, inject]
  | cons s steps ih =>
    obtain ⟨p, l', hplace, hlocate, rfl⟩ := locate_cons_eq_some_iff.mp h
    obtain ⟨room, rfl⟩ : ∃ room', room = room' + 1 := Nat.exists_eq_add_one.mpr (by simp at hroom; omega)
    rw [List.map_cons, inject_of_place? hplace, ih hlocate (by simpa using hroom), Value.setAt_cons]
    rfl

theorem inject_of_long (h : locate v steps = some l) (hlong : room < steps.length) (r : Value) :
    inject room (steps.map Step.key) v r = .error tooDeep := by
  induction steps generalizing v l room with
  | nil => exact absurd hlong (Nat.not_lt_zero room)
  | cons s steps ih =>
    obtain ⟨p, l', hplace, hlocate, rfl⟩ := locate_cons_eq_some_iff.mp h
    cases room with
    | zero => rfl
    | succ room =>
      rw [List.map_cons, inject_of_place? hplace, ih hlocate (Nat.lt_of_succ_lt_succ hlong)]
      rfl

theorem exists_inject_error_of_blocked (h : Blocked v steps) (room : Nat) (r : Value) :
    ∃ f, inject room (steps.map Step.key) v r = .error f := by
  induction h generalizing room with
  | first fails =>
    cases room with
    | zero => exact ⟨tooDeep, rfl⟩
    | succ room => exact exists_inject_error fails _ r
  | later leads _ ih =>
    cases room with
    | zero => exact ⟨tooDeep, rfl⟩
    | succ room =>
      obtain ⟨f, hf⟩ := ih room
      exact ⟨f, by rw [List.map_cons, inject_of_place? leads, hf]; rfl⟩

end

/-! ## Reading -/

theorem IsName.definite {cs : List Char} (h : IsName cs) : Path.Definite.IsName cs := by
  obtain ⟨c, rest, rfl, hc, hrest⟩ := h
  exact ⟨c, rest, rfl, (letter_facts hc).1, fun d hd => (word_facts (hrest d hd)).1⟩

theorem IsNumeral.definite {cs : List Char} (h : IsNumeral cs) : Path.Definite.IsNumeral cs :=
  ⟨h.1, fun c hc => (Decimal.decimalDigit?_of_isAsciiDigit (h.2 c hc)).symm ▸ h.2 c hc⟩

theorem IsNumeral.value_eq {cs : List Char} (h : IsNumeral cs) :
    Path.Definite.numeralValue cs = numeralValue cs := by
  rw [Path.Definite.numeralValue, numeralValue, digitsOf]
  exact congrArg ofDigits
    (List.filterMap_congr fun c hc => Decimal.decimalDigit?_of_isAsciiDigit (h.2 c hc))

def Step.toDefinite (s : Step) : Path.Definite.Step where
  style := s.style
  text := s.text
  valid := by
    obtain ⟨style, text, valid⟩ := s
    cases style with
    | dotted => exact IsName.definite valid
    | quoted => exact IsName.definite valid
    | bracketed => exact IsNumeral.definite valid

section

variable {s : Step} {steps : List Step} {v : Value} {p : Place} {l : Location} {i : Nat}

theorem index?_toDefinite (h : s.index? = some i) :
    s.toDefinite.index? = some i ∧ s.text.length ≤ maxDigits := by
  obtain ⟨style, text, valid⟩ := s
  cases style with
  | bracketed =>
    simp only [Step.index?] at h
    split at h
    · rename_i hbounds
      cases h
      exact ⟨congrArg some (IsNumeral.value_eq valid), hbounds.1⟩
    · cases h
  | dotted => cases h
  | quoted => cases h

theorem child?_toDefinite (h : s.place? v = some p) :
    s.toDefinite.child? v = v.child? p ∧ ¬s.toDefinite.TooLong v := by
  cases v with
  | obj members =>
    cases h
    exact ⟨rfl, nofun⟩
  | arr items =>
    obtain ⟨i, hindex, -, rfl⟩ := Step.place?_arr_eq_some_iff.mp h
    obtain ⟨hdefinite, hshort⟩ := index?_toDefinite hindex
    refine ⟨?_, fun hlong => ?_⟩
    · rw [Path.Definite.Step.child?, hdefinite]
      rfl
    · obtain ⟨-, hlong⟩ := hlong
      exact absurd hshort (Nat.not_le.mpr hlong)
  | _ => cases h

/-- What the steps of a path reach stands at the location that they lead to. -/
theorem reached?_of_locate (h : locate v steps = some l) :
    reached? v (steps.map Step.toDefinite) = v.at? l ∧
      ¬MeetsTooLong v (steps.map Step.toDefinite) := by
  induction steps generalizing v l with
  | nil =>
    cases h
    exact ⟨rfl, nofun⟩
  | cons s steps ih =>
    obtain ⟨p, l', hplace, hlocate, rfl⟩ := locate_cons_eq_some_iff.mp h
    obtain ⟨hchild, hshort⟩ := child?_toDefinite hplace
    rw [List.map_cons, reached?, hchild, Value.at?_cons]
    cases hx : v.child? p with
    | none =>
      rw [hx] at hchild
      refine ⟨rfl, fun meets => ?_⟩
      cases meets with
      | here long => exact hshort long
      | later leads _ => cases hchild.symm.trans leads
    | some x =>
      rw [hx] at hchild
      rw [Value.childOrNew, hx, Option.getD_some] at hlocate
      obtain ⟨hreached, hrest⟩ := ih hlocate
      refine ⟨hreached, fun meets => ?_⟩
      cases meets with
      | here long => exact hshort long
      | later leads meets =>
        cases hchild.symm.trans leads
        exact hrest meets

end

/-! ## Paths -/

def pathOf (steps : List Step) : Value :=
  .str (String.ofList (textOf (steps.map Step.toPathStep)))

/-- What a result is put into: an object with no members if the input is null. -/
def targetOf : Value → Value
  | .null => .obj []
  | v => v

section

variable {o w r : Value} {s : Step} {steps : List Step} {l : Location} {text : String} {c : Char}
  {cs : List Char}

theorem ne_root (htext : text.toList = '$' :: c :: cs) : text ≠ "$" := by
  rintro rfl
  cases htext

theorem combine_str [Room] (htext : text.toList = '$' :: c :: cs) (hc : c ≠ '$') (o r : Value) :
    combine o (.str text) r =
      if Room.copies < o.levels then .error tooDeep
      else inject Room.levels (keys text) (targetOf o) r := by
  unfold combine
  split
  · rename_i heq
    cases heq
  · rename_i heq
    exact absurd (Value.str.inj heq) (ne_root htext)
  · rename_i heq
    cases heq
    rw [htext]
    split
    · rename_i heq
      obtain ⟨rfl, -⟩ := List.cons.inj (List.cons.inj heq).2
      exact absurd rfl hc
    · cases o with
      | null =>
        have hlevels : Value.null.levels = 1 := rfl
        rw [hlevels, if_neg (Nat.not_lt.mpr Room.one_le_copies)]
        rfl
      | _ =>
        dsimp only [targetOf]
        unfold Nesting.copied
        split <;> rfl
    · rename_i hno
      exact absurd rfl (hno _)
  · rename_i hno
    exact absurd rfl (hno text)

theorem combine_pathOf [Room] (o r : Value) (s : Step) (steps : List Step) :
    combine o (pathOf (s :: steps)) r =
      if Room.copies < o.levels then .error tooDeep
      else inject Room.levels ((s :: steps).map Step.key) (targetOf o) r := by
  obtain ⟨c, cs, htext, hc⟩ := Path.exists_textOf_cons s.toPathStep (steps.map Step.toPathStep)
  rw [pathOf, List.map_cons, combine_str (String.toList_ofList.trans htext) hc, Path.keys_textOf,
    ← List.map_cons, List.map_map]
  rfl

theorem toPathStep_toDefinite (steps : List Step) :
    (steps.map Step.toDefinite).map Path.Definite.Step.toPathStep = steps.map Step.toPathStep := by
  rw [List.map_map]
  rfl

theorem not_hasColonInBrackets (steps : List Step) :
    ¬Path.HasColonInBrackets (steps.map Step.toPathStep) := by
  rintro ⟨before, s, after, heq, hcolon, -⟩
  have hs : s ∈ steps.map Step.toPathStep := heq ▸ List.mem_append_right before List.mem_cons_self
  obtain ⟨s', -, rfl⟩ := List.mem_map.mp hs
  exact absurd (by decide) (word_facts (s'.word ':' hcolon)).2.1

theorem reached?_of_target (h : locate (targetOf o) (s :: steps) = some l) :
    ¬(o.truthy = true ∧ MeetsTooLong o ((s :: steps).map Step.toDefinite)) ∧
      reached? o ((s :: steps).map Step.toDefinite) = o.at? l := by
  obtain ⟨p, l', -, -, rfl⟩ := locate_cons_eq_some_iff.mp h
  cases o with
  | null => exact ⟨fun hmeets => Bool.false_ne_true hmeets.1, rfl⟩
  | _ =>
    obtain ⟨hreached, hshort⟩ := reached?_of_locate h
    exact ⟨fun hmeets => hshort hmeets.2, hreached⟩

theorem filter_pathOf [Room] (h : locate (targetOf o) (s :: steps) = some l) (context : Value) :
    Path.filter o context (pathOf (s :: steps)) =
      (o.at? l).elim (.error (Path.unmatched (pathOf (s :: steps)) o)) .ok := by
  have hpath : Path.Definite.pathOf ((s :: steps).map Step.toDefinite) = pathOf (s :: steps) := by
    rw [pathOf, Path.Definite.pathOf, toPathStep_toDefinite]
  have hcolon := not_hasColonInBrackets (s :: steps)
  rw [← toPathStep_toDefinite] at hcolon
  obtain ⟨hshort, hreached⟩ := reached?_of_target h
  have happly := Path.Definite.apply_of_reached? hshort context
  rw [← List.map_cons, hpath, hreached] at happly
  have hfilter : Path.filter o context (pathOf (s :: steps)) =
      Path.apply o context (pathOf (s :: steps)) := rfl
  rw [hfilter, happly]
  cases o.at? l with
  | none => rfl
  | some x => exact congrArg Except.ok (if_neg hcolon)

theorem targetOf_setAt (h : locate (targetOf o) (s :: steps) = some l) (r : Value) :
    targetOf ((targetOf o).setAt l r) = (targetOf o).setAt l r := by
  obtain ⟨p, l', hplace, -, rfl⟩ := locate_cons_eq_some_iff.mp h
  generalize targetOf o = v at hplace ⊢
  cases v with
  | obj members => cases p <;> rfl
  | arr items => cases p <;> rfl
  | _ => cases hplace

theorem at?_targetOf (o : Value) {l : Location} (h : l ≠ []) : (targetOf o).at? l = o.at? l := by
  cases o with
  | null =>
    cases l with
    | nil => exact absurd rfl h
    | cons p l => cases p <;> rfl
  | _ => rfl

variable [Room]

theorem combine_of_locate (h : locate (targetOf o) (s :: steps) = some l)
    (hdepth : o.levels ≤ Room.copies) (hroom : (s :: steps).length ≤ Room.levels) (r : Value) :
    combine o (pathOf (s :: steps)) r = .ok ((targetOf o).setAt l r) := by
  rw [combine_pathOf, if_neg (not_lt.mpr hdepth), inject_of_locate h hroom]

/-- What a result that is put at a path into an input makes of it, given where the path leads. -/
structure Puts (o : Value) (path : Value) (l : Location) (r context w : Value) : Prop where
  /-- The result is read back. -/
  read : Path.filter w context path = .ok r
  /-- What is neither on the path nor below stays. -/
  beside (l' : Location) (on : ¬l' <+: l) (below : ¬l <+: l') : w.at? l' = o.at? l'
  /-- On the path, the members keep their order, with a new one last, and arrays their length. -/
  onPath (before after : Location) (p : Place) (eq : l = before ++ p :: after) (x : Value)
    (found : (targetOf o).at? before = some x) : ∃ y, w.at? before = some y ∧ x.Extends y
  /-- Another result takes the place of this one, unless this one is nested too deep. -/
  again (r₂ : Value) : combine w path r₂ = combine o path r₂ ∨
    combine w path r₂ = .error tooDeep ∧ Room.copies < w.levels
  /-- What stands at the path already changes nothing. -/
  same (h : Path.filter o context path = .ok r) : w = o

theorem puts_setAt (h : locate (targetOf o) (s :: steps) = some l)
    (hdepth : o.levels ≤ Room.copies) (hroom : (s :: steps).length ≤ Room.levels)
    (r context : Value) :
    Puts o (pathOf (s :: steps)) l r context ((targetOf o).setAt l r) := by
  have hreaches := reaches_of_locate h
  have htarget := targetOf_setAt h r
  have hlocate : locate (targetOf ((targetOf o).setAt l r)) (s :: steps) = some l := by
    rw [htarget]
    exact locate_setAt h r
  refine ⟨?_, fun l' on below => ?_, ?_, fun r₂ => ?_, fun hsame => ?_⟩
  · rw [filter_pathOf hlocate, Value.at?_setAt hreaches]
    rfl
  · have hne : l' ≠ [] := by
      rintro rfl
      exact on List.nil_prefix
    rw [Value.at?_setAt_of_not_prefix hreaches on below, at?_targetOf o hne]
  · rintro before after p rfl x found
    exact Value.extends_setAt hreaches found
  · rcases Nat.lt_or_ge Room.copies ((targetOf o).setAt l r).levels with hdeep | hshallow
    · exact .inr ⟨by rw [combine_pathOf, if_pos hdeep], hdeep⟩
    · refine .inl ?_
      rw [combine_of_locate hlocate hshallow hroom, htarget, Value.setAt_setAt hreaches,
        combine_of_locate h hdepth hroom]
  · rw [filter_pathOf h] at hsame
    -- Something is read, so something stands at the location, and the input is not null.
    cases hat : o.at? l with
    | none =>
      rw [hat] at hsame
      cases hsame
    | some x =>
      rw [hat] at hsame
      cases hsame
      obtain ⟨p, l', -, -, rfl⟩ := locate_cons_eq_some_iff.mp h
      have hnull : targetOf o = o := by
        cases o with
        | null => cases p <;> cases hat
        | _ => rfl
      rw [hnull]
      exact Value.setAt_of_at? hat

/-- A result is put at a path unless a step of it fails, or the input or the path is too deep. -/
theorem combine_puts (o r context : Value) (s : Step) (steps : List Step) :
    (∃ f, combine o (pathOf (s :: steps)) r = .error f ∧
      (f.kind? = some .resultPathMatch ∧ Blocked (targetOf o) (s :: steps) ∨
        f = tooDeep ∧ (Room.copies < o.levels ∨ Room.levels < (s :: steps).length))) ∨
      ∃ w l, combine o (pathOf (s :: steps)) r = .ok w ∧
        locate (targetOf o) (s :: steps) = some l ∧ ¬Blocked (targetOf o) (s :: steps) ∧
        Puts o (pathOf (s :: steps)) l r context w := by
  rcases Nat.lt_or_ge Room.copies o.levels with hdeep | hshallow
  · exact .inl ⟨tooDeep, by rw [combine_pathOf, if_pos hdeep], .inr ⟨rfl, .inl hdeep⟩⟩
  have hcombine := combine_pathOf o r s steps
  rw [if_neg (not_lt.mpr hshallow)] at hcombine
  cases hlocate : locate (targetOf o) (s :: steps) with
  | none =>
    have hblocked := locate_eq_none_iff.mp hlocate
    obtain ⟨f, hf⟩ := exists_inject_error_of_blocked hblocked Room.levels r
    refine .inl ⟨f, hcombine.trans hf, ?_⟩
    rcases inject_error hf with hkind | ⟨hdeep, hroom⟩
    · exact .inl ⟨hkind, hblocked⟩
    · exact .inr ⟨hdeep, .inr (by simpa using hroom)⟩
  | some l =>
    rcases Nat.lt_or_ge Room.levels (s :: steps).length with hlong | hroom
    · exact .inl ⟨tooDeep, hcombine.trans (inject_of_long hlocate hlong r), .inr ⟨rfl, .inr hlong⟩⟩
    · refine .inr ⟨_, l, hcombine.trans (inject_of_locate hlocate hroom r), rfl, ?_,
        puts_setAt hlocate hshallow hroom r context⟩
      rw [← locate_eq_none_iff, hlocate]
      exact Option.some_ne_none l

end

def stepA : Step := ⟨.dotted, ['a'], 'a', [], rfl, by decide, nofun⟩

/-- Each step leads somewhere, but the input is too deep. -/
theorem deep_input_not_combined :
    ¬Blocked (targetOf (RetryPolicy.nested 600)) [stepA] ∧
      combine (RetryPolicy.nested 600) (pathOf [stepA]) .null = .error tooDeep := by
  constructor
  · rw [← locate_eq_none_iff]
    exact Option.some_ne_none [Place.member "a"]
  · rw [combine_pathOf, RetryPolicy.levels_nested]
    exact if_pos (by decide)

end StatesLanguage.Reference
