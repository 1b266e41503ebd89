import StatesLanguage.Path
import StatesLanguage.Proofs.Numerals
import StatesLanguage.Proofs.PathText
import StatesLanguage.Text.Word

/-!
# Definite paths

A path that leads from member to member, or item to item, reaches one value at most. That value is what
the path gives, if it is not taken for a slice: a path is if its text has a colon between an opening
and a closing bracket, be the colon that of a slice or of a name.
-/

namespace StatesLanguage.Path

/-! ## Colons between brackets -/

/-- A name with a colon stands between an opening and a closing bracket: its own, or those of a step
before it and of a step behind it. -/
def HasColonInBrackets (steps : List Step) : Prop :=
  ∃ before s after, steps = before ++ s :: after ∧ ':' ∈ s.text ∧
    (∃ t ∈ before ++ [s], t.style ≠ .dotted) ∧ ∃ t ∈ s :: after, t.style ≠ .dotted

section

variable {c : Char} {cs line : List Char} {steps : List Step} {s : Step}

theorem cons_sublist_iff_dropWhile (hne : cs ≠ []) :
    (c :: cs).Sublist line ↔ cs.Sublist ((line.dropWhile (· != c)).drop 1) := by
  induction line with
  | nil => simp [hne]
  | cons d line ih =>
    by_cases hd : d = c
    · rw [hd, List.dropWhile_cons, bne_self_eq_false, List.cons_sublist_cons]
      rfl
    · rw [List.dropWhile_cons, bne_iff_ne.mpr hd, if_pos rfl, ← ih]
      refine ⟨fun h => ?_, fun h => h.cons d⟩
      cases h with
      | cons _ h => exact h
      | cons_cons => exact absurd rfl hd

theorem hasSliceLine_iff : hasSliceLine line = true ↔ ['[', ':', ']'].Sublist line := by
  rw [hasSliceLine, List.contains_iff_mem, cons_sublist_iff_dropWhile (List.cons_ne_nil _ _),
    cons_sublist_iff_dropWhile (List.cons_ne_nil _ _), List.singleton_sublist]

theorem mem_written_of_notMem (h : c ∉ ".[]'".toList) : c ∈ s.written ↔ c ∈ s.text := by
  have hmarks : c ≠ '.' ∧ c ≠ '[' ∧ c ≠ ']' ∧ c ≠ '\'' := by simpa using h
  unfold Step.written
  cases s.style <;> simp [hmarks]

theorem mem_written_bracket (h : c = '[' ∨ c = ']') : c ∈ s.written ↔ s.style ≠ .dotted := by
  have htext : c ∉ s.text := fun hmem => by
    rcases h with rfl | rfl <;> exact ne_of_isPlain (s.plain _ hmem) (by decide) rfl
  unfold Step.written
  cases s.style with
  | dotted => rcases h with rfl | rfl <;> simpa using htext
  | quoted => rcases h with rfl | rfl <;> simp
  | bracketed => rcases h with rfl | rfl <;> simp

theorem cons_sublist_writtenAll (h : (c :: cs).Sublist (writtenAll steps)) :
    ∃ before s after, steps = before ++ s :: after ∧ c ∈ s.written ∧
      cs.Sublist (writtenAll (s :: after)) := by
  induction steps with
  | nil => exact absurd (List.sublist_nil.mp h) (List.cons_ne_nil c cs)
  | cons s steps ih =>
    obtain ⟨front, back, heq, hfront, hback⟩ := List.sublist_append_iff.mp h
    cases front with
    | nil =>
      obtain rfl : c :: cs = back := heq
      obtain ⟨before, t, after, rfl, hc, hcs⟩ := ih hback
      exact ⟨s :: before, t, after, rfl, hc, hcs⟩
    | cons d front =>
      obtain ⟨rfl, rfl⟩ := List.cons.inj heq
      exact ⟨[], s, steps, rfl, hfront.subset List.mem_cons_self,
        (List.sublist_of_cons_sublist hfront).append hback⟩

theorem bracketed_sublist (h : s.style ≠ .dotted) (hcolon : ':' ∈ s.text) :
    ['[', ':', ']'].Sublist s.written := by
  have hinner : [':'].Sublist s.text := List.singleton_sublist.mpr hcolon
  unfold Step.written
  cases hstyle : s.style with
  | dotted => exact absurd hstyle h
  | quoted => exact ((hinner.append (List.sublist_cons_self '\'' [']'])).cons '\'').cons_cons '['
  | bracketed => exact (hinner.append (List.Sublist.refl [']'])).cons_cons '['

theorem sublist_writtenAll_iff :
    ['[', ':', ']'].Sublist (writtenAll steps) ↔ HasColonInBrackets steps := by
  constructor
  · intro h
    obtain ⟨before, s, rest, rfl, hopen, h⟩ := cons_sublist_writtenAll h
    obtain ⟨between, t, after, hrest, hcolon, h⟩ := cons_sublist_writtenAll h
    obtain ⟨within, u, behind, hafter, hclose, -⟩ := cons_sublist_writtenAll h
    refine ⟨before ++ between, t, after, by rw [hrest, List.append_assoc],
      (mem_written_of_notMem (by decide)).mp hcolon,
      ⟨s, ?_, (mem_written_bracket (.inl rfl)).mp hopen⟩,
      ⟨u, ?_, (mem_written_bracket (.inr rfl)).mp hclose⟩⟩
    · -- The step with the opening bracket is the first of those up to the one with the colon.
      have hs : s ∈ between ++ [t] := by
        cases between with
        | nil =>
          obtain ⟨rfl, -⟩ := List.cons.inj hrest
          exact List.mem_singleton_self s
        | cons d between =>
          obtain ⟨rfl, -⟩ := List.cons.inj hrest
          exact List.mem_cons_self
      rw [List.append_assoc]
      exact List.mem_append_right before hs
    · rw [hafter]
      exact List.mem_append_right within List.mem_cons_self
  · rintro ⟨before, s, after, rfl, hcolon, ⟨t, ht, hopen⟩, u, hu, hclose⟩
    have hwritten : writtenAll (before ++ s :: after) =
        writtenAll before ++ (s.written ++ writtenAll after) := by
      rw [writtenAll, List.flatMap_append]
      rfl
    rw [hwritten]
    -- A name in brackets brings its own; one behind a point needs those of other steps.
    by_cases hstyle : s.style = .dotted
    · have hbefore : t ∈ before := by
        rcases List.mem_append.mp ht with ht | ht
        · exact ht
        · exact absurd (List.mem_singleton.mp ht ▸ hstyle) hopen
      have hafter : u ∈ after := by
        rcases List.mem_cons.mp hu with rfl | hu
        · exact absurd hstyle hclose
        · exact hu
      have hfirst : '[' ∈ writtenAll before :=
        List.mem_flatMap.mpr ⟨t, hbefore, (mem_written_bracket (.inl rfl)).mpr hopen⟩
      have hlast : ']' ∈ writtenAll after :=
        List.mem_flatMap.mpr ⟨u, hafter, (mem_written_bracket (.inr rfl)).mpr hclose⟩
      have hmiddle : ':' ∈ s.written := (mem_written_of_notMem (by decide)).mpr hcolon
      exact (List.singleton_sublist.mpr hfirst).append
        ((List.singleton_sublist.mpr hmiddle).append (List.singleton_sublist.mpr hlast))
    · exact ((bracketed_sublist hstyle hcolon).trans (List.sublist_append_left _ _)).trans
        (List.sublist_append_right _ _)

/-- A path is taken for a slice if one of its names has a colon between brackets. -/
theorem isSlice_textOf : isSlice (textOf steps) = true ↔ HasColonInBrackets steps := by
  have hline : '\n' ∉ textOf steps :=
    List.not_mem_cons_of_ne_of_not_mem (by decide) (notMem_writtenAll (by decide) (by decide))
  rw [isSlice, splitAt_of_notMem hline, List.any_cons, List.any_nil, Bool.or_false, hasSliceLine_iff,
    ← sublist_writtenAll_iff]
  refine ⟨fun h => ?_, fun h => h.cons '$'⟩
  cases h with
  | cons _ h => exact h

instance : DecidablePred HasColonInBrackets :=
  fun _ => decidable_of_iff _ isSlice_textOf

end

namespace Definite

open Text Decimal

/-! ## Names and numerals -/

def isLetter (c : Char) : Bool :=
  isWord c && !isDigit c && c != '_'

def continuesName (c : Char) : Bool :=
  isWord c || c == '-' || c == ':' || c == ' '

def IsName (cs : List Char) : Prop :=
  ∃ c rest, cs = c :: rest ∧ isLetter c = true ∧ ∀ d ∈ rest, continuesName d = true

/-- Decimal digits, of any script. -/
def IsNumeral (cs : List Char) : Prop :=
  cs ≠ [] ∧ ∀ c ∈ cs, (decimalDigit? c).isSome = true

def numeralValue (cs : List Char) : Nat :=
  ofDigits (cs.filterMap decimalDigit?)

/-- What stands for something else than itself in a path, or in one of its steps. -/
def marks : List Char :=
  "$.[]'\"();?@#\n*!,".toList

section

variable {c : Char} {cs rest : List Char}

theorem marks_facts (h : c ∈ marks) : continuesName c = false ∧ decimalDigit? c = none := by
  have hall : marks.all fun c => continuesName c == false && decimalDigit? c == none := by
    decide +kernel
  simpa using List.all_eq_true.mp hall c h

theorem notMem_marks_of_continuesName (h : continuesName c = true) : c ∉ marks := by
  intro hmem
  rw [(marks_facts hmem).1] at h
  cases h

theorem notMem_marks_of_digit (h : (decimalDigit? c).isSome = true) : c ∉ marks := by
  intro hmem
  rw [(marks_facts hmem).2] at h
  cases h

theorem isPlain_of_notMem_marks (h : c ∉ marks) : isPlain c = true := by
  have hsub : "$.[]'\"();?@#\n".toList ⊆ marks := by decide
  rw [isPlain, Bool.not_eq_true', ← Bool.not_eq_true, List.contains_iff_mem]
  exact fun hmem => h (hsub hmem)

theorem continuesName_of_isLetter (h : isLetter c = true) : continuesName c = true := by
  simp only [isLetter, Bool.and_eq_true] at h
  simp [continuesName, h.1.1]

theorem isLetter_facts (h : isLetter c = true) :
    isDigit c = false ∧ isAsciiDigit c = false ∧ c ≠ '-' ∧ c ≠ ':' := by
  have hdigit : isDigit c = false := by
    simp only [isLetter, Bool.and_eq_true, Bool.not_eq_true'] at h
    exact h.1.2
  refine ⟨hdigit, ?_, ?_, ?_⟩
  · rw [Bool.eq_false_iff]
    intro hascii
    rw [isDigit, decimalDigit?_of_isAsciiDigit hascii, ← isAsciiDigit, hascii] at hdigit
    cases hdigit
  · rintro rfl
    exact absurd h (by decide +kernel)
  · rintro rfl
    exact absurd h (by decide +kernel)

theorem readInt?_numeral (h : IsNumeral cs) :
    readInt? cs = if cs.length ≤ maxDigits then some (numeralValue cs : Int) else none := by
  rw [readInt?, parseInt_numeral h.1 h.2]
  split <;> rfl

theorem slice?_eq_none (hminus : cs.head? ≠ some '-')
    (hcolon : (cs.dropWhile isAsciiDigit).head? ≠ some ':') : slice? cs = none := by
  have hsigned : signedDigits cs = (cs.takeWhile isAsciiDigit, cs.dropWhile isAsciiDigit) := by
    unfold signedDigits
    split
    · rename_i hcases
      split at hcases
      · exact absurd rfl hminus
      · obtain ⟨rfl, rfl⟩ := Prod.mk.inj hcases
        rfl
  rw [slice?, hsigned]
  dsimp only
  split
  · rename_i rest hrest
    exact absurd (by rw [hrest]; rfl) hcolon
  · rfl

end

/-! ## Steps -/

/-- A step of a definite path: a name with a point or in brackets with apostrophes, or a numeral in
brackets. -/
structure Step where
  style : Style
  text : List Char
  valid : match style with
    | .bracketed => IsNumeral text
    | _ => IsName text

namespace Step

variable (s : Step)

def key : String :=
  String.ofList s.text

def index? : Option Nat :=
  match s.style with
  | .bracketed => some (numeralValue s.text)
  | _ => none

def child? : Value → Option Value
  | .obj members => Table.get? members s.key
  | .arr items => s.index?.bind (items[·]?)
  | _ => none

/-- A numeral with more digits than an integer may have is refused where it has to be an index. -/
inductive TooLong : Value → Prop
  | numeral {items : List Value} (index : s.style = .bracketed) (long : maxDigits < s.text.length) :
      TooLong (.arr items)

theorem notMem_marks : ∀ c ∈ s.text, c ∉ marks := by
  obtain ⟨style, text, valid⟩ := s
  have hname (h : IsName text) : ∀ c ∈ text, c ∉ marks := by
    obtain ⟨c, rest, rfl, hc, hrest⟩ := h
    have hall : ∀ d ∈ c :: rest, continuesName d = true :=
      List.forall_mem_cons.mpr ⟨continuesName_of_isLetter hc, hrest⟩
    exact fun d hd => notMem_marks_of_continuesName (hall d hd)
  cases style with
  | dotted => exact hname valid
  | quoted => exact hname valid
  | bracketed => exact fun c hc => notMem_marks_of_digit (valid.2 c hc)

theorem text_ne_nil : s.text ≠ [] := by
  obtain ⟨style, text, valid⟩ := s
  have hname (h : IsName text) : text ≠ [] := by
    obtain ⟨c, rest, rfl, -⟩ := h
    exact List.cons_ne_nil c rest
  cases style with
  | dotted => exact hname valid
  | quoted => exact hname valid
  | bracketed => exact valid.1

def toPathStep : Path.Step where
  style := s.style
  text := s.text
  nonempty := s.text_ne_nil
  plain c hc := isPlain_of_notMem_marks (s.notMem_marks c hc)

theorem slice?_text : slice? s.text = none := by
  obtain ⟨style, text, valid⟩ := s
  have hname (h : IsName text) : slice? text = none := by
    obtain ⟨c, rest, rfl, hc, -⟩ := h
    obtain ⟨-, hascii, hminus, hcolon⟩ := isLetter_facts hc
    refine slice?_eq_none (by simpa using hminus) ?_
    rw [List.dropWhile_cons, hascii]
    simpa using hcolon
  cases style with
  | dotted => exact hname valid
  | quoted => exact hname valid
  | bracketed =>
    have hdigit : ∀ c ∈ text, c ≠ '-' ∧ c ≠ ':' := by
      intro c hc
      have hc := valid.2 c hc
      constructor <;>
      · rintro rfl
        exact absurd hc (by decide)
    refine slice?_eq_none (fun hhead => ?_) fun hhead => ?_
    · exact (hdigit '-' (List.mem_of_head? hhead)).1 rfl
    · have hmem := (List.dropWhile_sublist isAsciiDigit).subset (List.mem_of_head? hhead)
      exact (hdigit ':' hmem).2 rfl

theorem isIndex_text : isIndex s.text = decide (s.style = .bracketed) := by
  obtain ⟨style, text, valid⟩ := s
  have hname (h : IsName text) : isIndex text = false := by
    obtain ⟨c, rest, rfl, hc, -⟩ := h
    rw [isIndex, List.all_cons, (isLetter_facts hc).1, Bool.false_and, Bool.and_false]
  cases style with
  | dotted => exact hname valid
  | quoted => exact hname valid
  | bracketed =>
    have hall : text.all isDigit = true :=
      List.all_eq_true.mpr fun c hc => by rw [isDigit, valid.2 c hc, Bool.true_or]
    rw [isIndex, List.isEmpty_eq_false_iff.mpr valid.1, hall]
    rfl

theorem isNumeral_text (h : s.style = .bracketed) : IsNumeral s.text := by
  have hvalid := s.valid
  rwa [h] at hvalid

end Step

def reached? : Value → List Step → Option Value
  | v, [] => some v
  | v, s :: steps => (s.child? v).bind (reached? · steps)

/-- Steps lead to an array at which the next one is a numeral with too many digits. -/
inductive MeetsTooLong : Value → List Step → Prop
  | here {v : Value} {s : Step} {steps : List Step} (long : s.TooLong v) : MeetsTooLong v (s :: steps)
  | later {v x : Value} {s : Step} {steps : List Step} (leads : s.child? v = some x)
      (meets : MeetsTooLong x steps) : MeetsTooLong v (s :: steps)

/-! ## Following steps -/

section

variable {go : Turnoff → Steps → Value → Selection} {s : Step} {texts : Steps} {v : Value}

theorem turnOff_text (s : Step) (texts : Steps) (v : Value) :
    turnOff go s.text texts v = .ok [] := by
  have hmarks := s.notMem_marks
  have hhead : ¬(s.text.head? = some '(' ∧ s.text.getLast? = some ')') :=
    fun h => hmarks '(' (List.mem_of_head? h.1) (by decide)
  have htake : ¬(s.text.take 2 = ['?', '('] ∧ s.text.getLast? = some ')') :=
    fun h => hmarks '?' (List.mem_of_mem_take (h.1 ▸ List.mem_cons_self)) (by decide)
  have hcomma : s.text.contains ',' = false := by
    rw [Bool.eq_false_iff, ne_eq, List.contains_iff_mem]
    exact fun hmem => hmarks ',' hmem (by decide)
  simp only [turnOff, Bool.and_eq_true, decide_eq_true_eq, hhead, htake, s.slice?_text, hcomma,
    if_false, Bool.false_eq_true]

theorem follow_cons (s : Step) (texts : Steps) (v : Value) :
    follow go (s.text :: texts) v =
      match v.get? s.key with
      | some member => follow go texts member
      | none =>
        match v, isIndex s.text with
        | .arr items, true =>
          match readInt? s.text with
          | none => .error notInteger
          | some i =>
            match items[i.toNat]? with
            | some item => follow go texts item
            | none => .ok []
        | _, _ => .ok [] := by
  have hne {c : Char} (cs : List Char) (hc : c ∈ marks) : s.text ≠ c :: cs := fun h =>
    s.notMem_marks c (h ▸ List.mem_cons_self) hc
  rw [follow.eq_def]
  dsimp only
  rw [if_neg (hne _ (by decide)), if_neg (hne _ (by decide)), if_neg (hne _ (by decide))]
  simp only [turnOff_text]
  rfl

theorem follow_of_tooLong (h : s.TooLong v) : follow go (s.text :: texts) v = .error notInteger := by
  obtain ⟨index, long⟩ := h
  rename_i items
  have hread : readInt? s.text = none := by
    rw [readInt?_numeral (s.isNumeral_text index), if_neg (Nat.not_le.mpr long)]
  have hdigits : isIndex s.text = true := s.isIndex_text.trans (decide_eq_true index)
  have hnone : (Value.arr items).get? s.key = none := rfl
  rw [follow_cons, hnone, hdigits]
  dsimp only
  rw [hread]

theorem follow_of_not_tooLong (h : ¬s.TooLong v) :
    follow go (s.text :: texts) v = (s.child? v).elim (.ok []) (follow go texts) := by
  rw [follow_cons]
  cases v with
  | obj members =>
    change _ = (Table.get? members s.key).elim _ _
    have hmember : (Value.obj members).get? s.key = Table.get? members s.key := rfl
    rw [hmember]
    cases Table.get? members s.key <;> rfl
  | arr items =>
    have hnone : (Value.arr items).get? s.key = none := rfl
    by_cases hindex : s.style = .bracketed
    · have hdigits : isIndex s.text = true := s.isIndex_text.trans (decide_eq_true hindex)
      have hlength : s.text.length ≤ maxDigits :=
        Nat.not_lt.mp fun hlong => h (.numeral hindex hlong)
      have hchild : s.child? (.arr items) = items[numeralValue s.text]? := by
        rw [Step.child?, Step.index?, hindex]
        rfl
      rw [hnone, hdigits, hchild]
      dsimp only
      rw [readInt?_numeral (s.isNumeral_text hindex), if_pos hlength]
      dsimp only
      rw [Int.toNat_natCast]
      cases items[numeralValue s.text]? <;> rfl
    · have hdigits : isIndex s.text = false := s.isIndex_text.trans (decide_eq_false hindex)
      have hchild : s.child? (.arr items) = none := by
        rw [Step.child?, Step.index?]
        split <;> first | rfl | exact absurd ‹_› hindex
      rw [hnone, hdigits, hchild]
      rfl
  | _ => rfl

variable {steps : List Step}

theorem follow_of_meetsTooLong (h : MeetsTooLong v steps) :
    follow go (steps.map Step.text) v = .error notInteger := by
  induction h with
  | here long => exact follow_of_tooLong long
  | later leads _ ih =>
    rename_i v x s steps _
    by_cases hlong : s.TooLong v
    · exact follow_of_tooLong hlong
    · rw [List.map_cons, follow_of_not_tooLong hlong, leads]
      exact ih

theorem follow_of_not_meetsTooLong (h : ¬MeetsTooLong v steps) :
    follow go (steps.map Step.text) v = .ok (reached? v steps).toList := by
  induction steps generalizing v with
  | nil => rfl
  | cons s steps ih =>
    rw [List.map_cons, follow_of_not_tooLong fun long => h (.here long), reached?]
    cases hchild : s.child? v with
    | none => rfl
    | some x => exact ih fun meets => h (.later hchild meets)

end

/-! ## Definite paths -/

def pathOf (steps : List Step) : Value :=
  .str (String.ofList (textOf (steps.map Step.toPathStep)))

section

variable {input : Value} {s : Step} {steps : List Step}

theorem child?_of_not_truthy (h : input.truthy = false) (s : Step) : s.child? input = none := by
  cases input with
  | obj members =>
    cases members with
    | nil => rfl
    | cons => cases h
  | arr items =>
    cases items with
    | nil =>
      rw [Step.child?]
      cases s.index? <;> rfl
    | cons => cases h
  | _ => rfl

variable [Room]

theorem select_of_truthy (h : input.truthy = true) (s : Step) (steps : List Step) :
    ∃ go, select input (textOf ((s :: steps).map Step.toPathStep)) =
      follow go ((s :: steps).map Step.text) input := by
  have htexts : ((s :: steps).map Step.toPathStep).map Path.Step.text = (s :: steps).map Step.text := by
    rw [List.map_map]
    rfl
  obtain ⟨room, hroom⟩ := Nat.exists_eq_add_of_le Room.four_le_levels
  rw [List.map_cons, select_textOf input _ _ h, ← List.map_cons, htexts, hroom, Nat.add_comm]
  exact ⟨_, rfl⟩

theorem select_of_reached? (h : ¬(input.truthy = true ∧ MeetsTooLong input (s :: steps))) :
    select input (textOf ((s :: steps).map Step.toPathStep)) =
      .ok (reached? input (s :: steps)).toList := by
  cases htruthy : input.truthy with
  | false =>
    rw [select, htruthy, reached?, child?_of_not_truthy htruthy, Bool.not_false, Bool.or_true]
    rfl
  | true =>
    obtain ⟨go, hgo⟩ := select_of_truthy htruthy s steps
    exact hgo.trans (follow_of_not_meetsTooLong fun meets => h ⟨htruthy, meets⟩)

theorem apply_of_meetsTooLong (h : input.truthy = true ∧ MeetsTooLong input (s :: steps))
    (context : Value) : apply input context (pathOf (s :: steps)) = .error notInteger := by
  obtain ⟨go, hgo⟩ := select_of_truthy h.1 s steps
  refine (apply_textOf String.toList_ofList input context).trans ?_
  rw [String.toList_ofList, ← List.map_cons, hgo, follow_of_meetsTooLong h.2]
  rfl

theorem apply_of_reached? (h : ¬(input.truthy = true ∧ MeetsTooLong input (s :: steps)))
    (context : Value) :
    apply input context (pathOf (s :: steps)) =
      match reached? input (s :: steps) with
      | none => .error (unmatched (pathOf (s :: steps)) input)
      | some x => .ok (if HasColonInBrackets ((s :: steps).map Step.toPathStep) then .arr [x] else x) := by
  refine (apply_textOf String.toList_ofList input context).trans ?_
  rw [String.toList_ofList, ← List.map_cons, select_of_reached? h, Outcome.ok_bind]
  cases reached? input (s :: steps) with
  | none => rfl
  | some x =>
    by_cases hcolon : HasColonInBrackets ((s :: steps).map Step.toPathStep)
    · dsimp only [Option.toList_some]
      rw [if_pos hcolon, if_pos (isSlice_textOf.mpr hcolon)]
      rfl
    · dsimp only [Option.toList_some]
      rw [if_neg hcolon, if_neg fun hslice => hcolon (isSlice_textOf.mp hslice)]
      rfl

theorem unmatched_str (text : String) (input : Value) :
    unmatched (.str text) input =
      match input.display with
      | .ok shown => .ofKind .invalidPath
          ("Invalid path '" ++ text ++ "' applied to input '" ++ shown ++ "'")
      | .error problem => problem := by
  rw [unmatched, Value.display, Outcome.ok_bind]
  cases input.display <;> rfl

/-- A definite path gives the value that its steps reach, in an array of its own if it is taken for a
slice, and is no valid one if they reach none, unless the data has no text to say so. A numeral of too
many digits, met at an array, is an error of another kind. -/
theorem apply_definite (input context : Value) (s : Step) (steps : List Step) :
    (input.truthy = true ∧ MeetsTooLong input (s :: steps)) ∧
        apply input context (pathOf (s :: steps)) = .error notInteger ∨
      ¬(input.truthy = true ∧ MeetsTooLong input (s :: steps)) ∧
        apply input context (pathOf (s :: steps)) =
          match reached? input (s :: steps), input.display with
          | some x, _ =>
            .ok (if HasColonInBrackets ((s :: steps).map Step.toPathStep) then .arr [x] else x)
          | none, .ok shown => .error (.ofKind .invalidPath
              ("Invalid path '" ++ String.ofList (textOf ((s :: steps).map Step.toPathStep)) ++
                "' applied to input '" ++ shown ++ "'"))
          | none, .error problem => .error problem := by
  by_cases hlong : input.truthy = true ∧ MeetsTooLong input (s :: steps)
  · exact .inl ⟨hlong, apply_of_meetsTooLong hlong context⟩
  · refine .inr ⟨hlong, (apply_of_reached? hlong context).trans ?_⟩
    cases reached? input (s :: steps) with
    | some x => rfl
    | none =>
      rw [pathOf, unmatched_str]
      cases input.display <;> rfl

end

def colonName : Step :=
  ⟨.quoted, ['a', ':', 'b'], 'a', [':', 'b'], rfl, by decide +kernel,
    List.all_eq_true.mp (by decide +kernel)⟩

/-- A member is reached, but an array around it is what the path gives. -/
theorem colon_in_name_not_unwrapped :
    reached? (.obj [("a:b", .int 1)]) [colonName] = some (.int 1) ∧
      apply (.obj [("a:b", .int 1)]) .null (pathOf [colonName]) = .ok (.arr [.int 1]) := by
  have hreached : reached? (.obj [("a:b", .int 1)]) [colonName] = some (.int 1) := rfl
  have hcolon : HasColonInBrackets ([colonName].map Step.toPathStep) := by
    have hstyle : colonName.toPathStep.style ≠ .dotted := by decide
    exact ⟨[], colonName.toPathStep, [], rfl, by decide, ⟨_, List.mem_singleton_self _, hstyle⟩,
      _, List.mem_singleton_self _, hstyle⟩
  have hlong : ¬((Value.obj [("a:b", .int 1)]).truthy = true ∧
      MeetsTooLong (.obj [("a:b", .int 1)]) [colonName]) := by
    rintro ⟨-, hmeets⟩
    cases hmeets with
    | here long => cases long
    | later _ meets => cases meets
  refine ⟨hreached, (apply_of_reached? hlong .null).trans ?_⟩
  rw [hreached]
  exact congrArg Except.ok (if_pos hcolon)

end Definite

end StatesLanguage.Path
