import Mathlib.Data.List.TakeWhile
import StatesLanguage.Path
import StatesLanguage.Path.Reference
import StatesLanguage.Proofs.Process

/-!
# Texts of paths

A path that leads from member to member, or item to item, is written as steps with a point, or with
brackets and perhaps apostrophes around them. Both readers of paths find the same steps in its text:
the one that looks a path up, by its normal form, and the one that puts a result in its place.
-/

namespace StatesLanguage.Path

/-! ## Steps -/

/-- Characters that stand for nothing but themselves in a path. -/
def isPlain (c : Char) : Bool :=
  !"$.[]'\"();?@#\n".toList.contains c

inductive Style where
  | dotted
  | quoted
  | bracketed
  deriving DecidableEq

/-- A step to a member or an item. -/
structure Step where
  style : Style
  text : List Char
  nonempty : text ≠ []
  plain : ∀ c ∈ text, isPlain c = true

def Step.written (s : Step) : List Char :=
  match s.style with
  | .dotted => '.' :: s.text
  | .quoted => '[' :: '\'' :: (s.text ++ ['\'', ']'])
  | .bracketed => '[' :: (s.text ++ [']'])

def writtenAll (steps : List Step) : List Char :=
  steps.flatMap Step.written

def textOf (steps : List Step) : List Char :=
  '$' :: writtenAll steps

section

variable {c : Char} {cs rest : List Char} {steps : List Step} {s : Step}

@[simp] theorem writtenAll_nil : writtenAll [] = [] := rfl

@[simp] theorem writtenAll_cons : writtenAll (s :: steps) = s.written ++ writtenAll steps := rfl

theorem ne_of_isPlain {d : Char} (h : isPlain c = true)
    (hd : d ∈ "$.[]'\"();?@#\n".toList) : c ≠ d := by
  rintro rfl
  rw [isPlain, List.contains_iff_mem.mpr hd] at h
  cases h

theorem Step.exists_cons (s : Step) :
    ∃ c cs, s.text = c :: cs ∧ isPlain c = true ∧ ∀ c ∈ cs, isPlain c = true := by
  obtain ⟨style, text, hne, hplain⟩ := s
  cases text with
  | nil => exact absurd rfl hne
  | cons c cs => exact ⟨c, cs, rfl, List.forall_mem_cons.mp hplain⟩

theorem mem_written (h : c ∈ s.written) : c ∈ s.text ∨ c ∈ ".[]'".toList := by
  unfold Step.written at h
  split at h <;> simp at h ⊢ <;> grind

/-! ## Parts -/

theorem splitAt_cons_self (sep : Char) (cs : List Char) :
    splitAt sep (sep :: cs) = [] :: splitAt sep cs := by
  rw [splitAt, if_pos rfl]

theorem splitAt_of_notMem {sep : Char} (h : sep ∉ cs) : splitAt sep cs = [cs] := by
  induction cs with
  | nil => rfl
  | cons c cs ih =>
    rw [List.mem_cons, not_or] at h
    rw [splitAt, if_neg (Ne.symm h.1), ih h.2]

theorem splitAt_append {sep : Char} (h : sep ∉ cs) :
    splitAt sep (cs ++ sep :: rest) = cs :: splitAt sep rest := by
  induction cs with
  | nil => exact splitAt_cons_self sep rest
  | cons c cs ih =>
    rw [List.mem_cons, not_or] at h
    rw [List.cons_append, splitAt, if_neg (Ne.symm h.1), ih h.2]

/-! ## The normal form -/

theorem setAside_eq (fuel : Nat) (aside : List (List Char)) (h : '(' ∉ cs) (h' : '?' ∉ cs) :
    setAside fuel aside cs = (cs, aside) := by
  induction fuel generalizing cs with
  | zero => rfl
  | succ fuel ih =>
    cases cs with
    | nil => rfl
    | cons c cs =>
      rw [List.mem_cons, not_or] at h h'
      have hnone : expression? cs = none := by
        unfold expression?
        split
        · exact absurd List.mem_cons_self h'.2
        · exact absurd List.mem_cons_self h.2
        · rfl
      rw [setAside, hnone, ite_self]
      dsimp only
      rw [ih h.2 h'.2]

theorem separate_cons (prev : Char) (hquote : c ≠ '\'') (hopen : c ≠ '[') (hpoint : c ≠ '.') :
    separate prev (c :: cs) = c :: separate c cs := by
  rw [separate]
  all_goals simp_all

theorem separate_append (prev : Char) (h : ∀ c ∈ cs, isPlain c = true) :
    separate prev (cs ++ rest) = cs ++ separate (cs.getLastD prev) rest := by
  induction cs generalizing prev with
  | nil => rfl
  | cons c cs ih =>
    obtain ⟨hc, hcs⟩ := List.forall_mem_cons.mp h
    rw [List.cons_append, separate_cons prev (ne_of_isPlain hc (by decide))
      (ne_of_isPlain hc (by decide)) (ne_of_isPlain hc (by decide)), ih c hcs]
    cases cs <;> rfl

/-- A step behind its semicolon, with the brackets that still have to go. -/
def Step.opened (s : Step) : List Char :=
  ';' :: s.text ++ match s.style with
    | .dotted => []
    | .quoted => ['\'', ']']
    | .bracketed => [']']

def openedAll (steps : List Step) : List Char :=
  steps.flatMap Step.opened

@[simp] theorem openedAll_nil : openedAll [] = [] := rfl

@[simp] theorem openedAll_cons : openedAll (s :: steps) = s.opened ++ openedAll steps := rfl

theorem Step.getLastD_ne (s : Step) (prev : Char) : s.text.getLastD prev ≠ '@' := by
  rw [List.getLastD_eq_getLast?, List.getLast?_eq_some_getLast s.nonempty, Option.getD_some]
  exact ne_of_isPlain (s.plain _ (List.getLast_mem s.nonempty)) (by decide)

theorem separate_written (s : Step) (rest : List Char) {prev : Char} (hprev : prev ≠ '@') :
    ∃ last ≠ '@', separate prev (s.written ++ rest) = s.opened ++ separate last rest := by
  obtain ⟨c, cs, htext, hc, -⟩ := s.exists_cons
  have hquote : c ≠ '\'' := ne_of_isPlain hc (by decide)
  have hinner (prev : Char) (rest : List Char) :
      separate prev (c :: (cs ++ rest)) = s.text ++ separate (s.text.getLastD prev) rest := by
    rw [← separate_append prev s.plain, htext, List.cons_append]
  unfold Step.written Step.opened
  cases s.style with
  | dotted =>
    refine ⟨s.text.getLastD '.', s.getLastD_ne '.', ?_⟩
    rw [List.cons_append, htext, List.cons_append, separate, if_neg hprev, hinner, ← htext]
    · simp
    · simpa using hquote
  | quoted =>
    refine ⟨']', by decide, ?_⟩
    have hclose (prev : Char) :
        separate prev ('\'' :: ']' :: rest) = '\'' :: ']' :: separate ']' rest := by
      rw [separate, separate_cons] <;> simp
    simp only [htext, List.cons_append, List.append_assoc, List.nil_append, separate, hinner, hclose]
  | bracketed =>
    refine ⟨']', by decide, ?_⟩
    have hclose (prev : Char) : separate prev (']' :: rest) = ']' :: separate ']' rest :=
      separate_cons prev (by decide) (by decide) (by decide)
    rw [List.cons_append, htext, List.cons_append, List.cons_append, separate, List.append_assoc,
      hinner]
    · simp [hclose, htext]
    · simpa using hquote

theorem separate_writtenAll {prev : Char} (hprev : prev ≠ '@') :
    separate prev (writtenAll steps) = openedAll steps := by
  induction steps generalizing prev with
  | nil => rw [writtenAll_nil, separate, openedAll_nil]
  | cons s steps ih =>
    obtain ⟨last, hlast, hsep⟩ := separate_written s (writtenAll steps) hprev
    rw [writtenAll_cons, hsep, ih hlast, openedAll_cons]

theorem descend_cons (h : c ≠ ';') : descend (c :: cs) = c :: descend cs := by
  rw [descend] <;> simp_all

theorem descend_append (h : ';' ∉ cs) : descend (cs ++ rest) = cs ++ descend rest := by
  induction cs with
  | nil => rfl
  | cons c cs ih =>
    rw [List.mem_cons, not_or] at h
    rw [List.cons_append, descend_cons (Ne.symm h.1), ih h.2, List.cons_append]

theorem descend_openedAll : descend (openedAll steps) = openedAll steps := by
  induction steps with
  | nil => rfl
  | cons s steps ih =>
    obtain ⟨c, cs, htext, hc, hcs⟩ := s.exists_cons
    have hne : c ≠ ';' := ne_of_isPlain hc (by decide)
    have hno : ';' ∉ cs := fun h => ne_of_isPlain (hcs _ h) (by decide) rfl
    have hfirst (rest : List Char) : descend (';' :: c :: rest) = ';' :: c :: descend rest := by
      rw [descend, descend_cons hne]
      all_goals simp_all
    have hrest (closing : List Char) (h : ';' ∉ closing) :
        descend (';' :: c :: (cs ++ closing ++ openedAll steps)) =
          ';' :: c :: (cs ++ closing ++ openedAll steps) := by
      rw [hfirst, descend_append (by simp [hno, h]), ih]
    rw [openedAll_cons, Step.opened, htext]
    cases s.style with
    | dotted => exact hrest [] (by simp)
    | quoted => exact hrest ['\'', ']'] (by decide)
    | bracketed => exact hrest [']'] (by decide)

theorem close_cons (h : isPlain c = true) : close (c :: cs) = c :: close cs := by
  have hquote : c ≠ '\'' := ne_of_isPlain h (by decide)
  have hclose : c ≠ ']' := ne_of_isPlain h (by decide)
  have hnext : c ≠ ';' := ne_of_isPlain h (by decide)
  rw [close]
  · simp [hquote, hclose, hnext]
  · simp [hquote]

theorem close_append (h : ∀ c ∈ cs, isPlain c = true) : close (cs ++ rest) = cs ++ close rest := by
  induction cs with
  | nil => rfl
  | cons c cs ih =>
    obtain ⟨hc, hcs⟩ := List.forall_mem_cons.mp h
    rw [List.cons_append, close_cons hc, ih hcs, List.cons_append]

theorem close_semicolon (h : isPlain c = true) : close (';' :: c :: cs) = ';' :: close (c :: cs) := by
  have hend : atEnd (c :: cs) = false := by
    simp [atEnd, ne_of_isPlain h (d := '\n') (by decide)]
  rw [close, hend]
  · rfl
  · simp

def normalAll (steps : List Step) : List Char :=
  steps.flatMap fun s => ';' :: s.text

theorem close_openedAll : close (openedAll steps) = normalAll steps := by
  induction steps with
  | nil => rfl
  | cons s steps ih =>
    obtain ⟨c, cs, htext, hc, -⟩ := s.exists_cons
    have htextAll (rest : List Char) : close (';' :: (s.text ++ rest)) = ';' :: s.text ++ close rest := by
      rw [htext, List.cons_append, close_semicolon hc, ← List.cons_append, ← htext,
        close_append s.plain, List.cons_append]
    have hbracket (rest : List Char) : close (']' :: rest) = close rest := by
      rw [close] <;> simp
    rw [openedAll_cons, Step.opened, normalAll, List.flatMap_cons, ← normalAll, ← ih]
    cases s.style with
    | dotted => simp [htextAll]
    | quoted => simp [htextAll, close]
    | bracketed => simp [htextAll, hbracket]

theorem putBack_eq (aside : List (List Char)) (fuel : Nat) (h : '#' ∉ cs) :
    putBack aside fuel cs = .ok cs := by
  induction fuel generalizing cs with
  | zero => rfl
  | succ fuel ih =>
    cases cs with
    | nil => rfl
    | cons c cs =>
      rw [List.mem_cons, not_or] at h
      have hne : (c = '#') = False := by simp [Ne.symm h.1]
      simp only [putBack, hne, decide_false, Bool.false_and, Bool.false_eq_true, if_false, ih h.2]
      rfl

theorem notMem_writtenAll (hplain : isPlain c = false) (h : c ∉ ".[]'".toList) :
    c ∉ writtenAll steps := by
  intro hmem
  obtain ⟨s, -, hs⟩ := List.mem_flatMap.mp hmem
  rcases mem_written hs with hc | hc
  · rw [s.plain c hc] at hplain
    cases hplain
  · exact h hc

theorem notMem_normalAll (hplain : isPlain c = false) (h : c ≠ ';') : c ∉ normalAll steps := by
  intro hmem
  obtain ⟨s, -, hs⟩ := List.mem_flatMap.mp hmem
  rcases List.mem_cons.mp hs with hc | hc
  · exact h hc
  · rw [s.plain c hc] at hplain
    cases hplain

theorem normalize_textOf (steps : List Step) :
    normalize (textOf steps) = .ok ('$' :: normalAll steps) := by
  have haside : setAside (textOf steps).length [] (textOf steps) = (textOf steps, []) := by
    refine setAside_eq _ [] ?_ ?_ <;>
      exact List.not_mem_cons_of_ne_of_not_mem (by decide)
        (notMem_writtenAll (by decide) (by decide))
  have hsteps : close (descend (separate ' ' (textOf steps))) = '$' :: normalAll steps := by
    have hclose (cs : List Char) : close ('$' :: cs) = '$' :: close cs := by
      rw [close] <;> simp
    rw [textOf, separate_cons _ (by decide) (by decide) (by decide), separate_writtenAll (by decide),
      descend_cons (by decide), descend_openedAll, hclose, close_openedAll]
  rw [normalize, haside]
  dsimp only
  rw [hsteps, putBack_eq]
  exact List.not_mem_cons_of_ne_of_not_mem (by decide) (notMem_normalAll (by decide) (by decide))

theorem splitAt_normalAll (s : Step) (steps : List Step) :
    splitAt ';' (s.text ++ normalAll steps) = s.text :: steps.map Step.text := by
  induction steps generalizing s with
  | nil =>
    rw [normalAll, List.flatMap_nil, List.append_nil,
      splitAt_of_notMem fun h => ne_of_isPlain (s.plain _ h) (by decide) rfl]
    rfl
  | cons next steps ih =>
    rw [normalAll, List.flatMap_cons, ← normalAll, List.cons_append,
      splitAt_append fun h => ne_of_isPlain (s.plain _ h) (by decide) rfl, ih, List.map_cons]

theorem stepsOf_normalAll (s : Step) (steps : List Step) :
    stepsOf (s.text ++ normalAll steps) = (s :: steps).map Step.text := by
  rw [stepsOf, splitAt_normalAll, ← List.map_cons]
  have hlast : ((s :: steps).map Step.text).getLast? ≠ some [] := by
    intro h
    obtain ⟨last, -, hlast⟩ := List.mem_map.mp (List.mem_of_getLast? h)
    exact last.nonempty hlast
  exact if_neg hlast

/-- A path is looked up by following its steps. -/
theorem select_textOf [Room] (v : Value) (s : Step) (steps : List Step) (h : v.truthy = true) :
    select v (textOf (s :: steps)) = trace Room.levels ((s :: steps).map Step.text) v := by
  have htake : ('$' :: normalAll (s :: steps)).take 2 = ['$', ';'] := rfl
  have hdrop : ('$' :: normalAll (s :: steps)).drop 2 = s.text ++ normalAll steps := rfl
  rw [select, h, normalize_textOf, Outcome.ok_bind, if_pos htake, hdrop, stepsOf_normalAll]
  rfl

theorem exists_textOf_cons (s : Step) (steps : List Step) :
    ∃ c cs, textOf (s :: steps) = '$' :: c :: cs ∧ c ≠ '$' := by
  rw [textOf, writtenAll_cons, Step.written]
  cases s.style with
  | dotted => exact ⟨_, _, rfl, by decide⟩
  | quoted => exact ⟨_, _, rfl, by decide⟩
  | bracketed => exact ⟨_, _, rfl, by decide⟩

theorem apply_textOf [Room] {text : String} (htext : text.toList = textOf (s :: steps))
    (input context : Value) :
    apply input context (.str text) = do
      match ← select input text.toList with
      | [] => throw (unmatched (.str text) input)
      | [v] => return if isSlice text.toList then .arr [v] else v
      | vs => return .arr vs := by
  obtain ⟨c, cs, hcons, hc⟩ := exists_textOf_cons s steps
  rw [hcons] at htext
  have hroot : text ≠ "$" := by
    rintro rfl
    cases htext
  have hfind : apply input context (.str text) = find input (.str text) := by
    unfold apply
    dsimp only
    rw [htext]
    split
    · rename_i heq
      obtain ⟨rfl, -⟩ := List.cons.inj (List.cons.inj heq).2
      exact absurd rfl hc
    · rfl
    · rename_i hno
      exact absurd rfl (hno _)
  rw [hfind]
  unfold find
  split
  · rename_i heq
    exact absurd (Value.str.inj heq) hroot
  · rename_i heq
    cases heq
    rfl
  · rename_i hno
    exact absurd rfl (hno text)

/-! ## The keys -/

theorem runs_append (run : List Char) (h : ∀ c ∈ cs, isPlain c = true) :
    Reference.runs run (cs ++ rest) = Reference.runs (cs.reverse ++ run) rest := by
  induction cs generalizing run with
  | nil => rfl
  | cons c cs ih =>
    obtain ⟨hc, hcs⟩ := List.forall_mem_cons.mp h
    have hpunctuation : Reference.isPunctuation c = false := by
      simp only [Reference.isPunctuation, Bool.or_eq_false_iff, beq_eq_false_iff_ne]
      refine ⟨⟨⟨⟨⟨?_, ?_⟩, ?_⟩, ?_⟩, ?_⟩, ?_⟩ <;> exact ne_of_isPlain hc (by decide)
    rw [List.cons_append, Reference.runs, hpunctuation, if_neg Bool.false_ne_true, ih _ hcs,
      List.reverse_cons, List.append_assoc, List.singleton_append]

theorem runs_nil_cons (h : Reference.isPunctuation c = true) :
    Reference.runs [] (c :: cs) = Reference.runs [] cs := by
  rw [Reference.runs, h]
  rfl

theorem runs_text (s : Step) (h : ∀ c ∈ rest.head?, Reference.isPunctuation c = true) :
    Reference.runs [] (s.text ++ rest) = s.text :: Reference.runs [] rest := by
  have hne : (s.text.reverse).isEmpty = false := by simp [s.nonempty]
  rw [runs_append [] s.plain, List.append_nil]
  cases rest with
  | nil => rw [Reference.runs, hne, Reference.runs, List.reverse_reverse]; rfl
  | cons c cs =>
    have hc := h c rfl
    rw [Reference.runs, hc, hne, runs_nil_cons hc, List.reverse_reverse]
    rfl

theorem punctuation_writtenAll (steps : List Step) :
    ∀ c ∈ (writtenAll steps).head?, Reference.isPunctuation c = true := by
  cases steps with
  | nil => exact nofun
  | cons s steps =>
    rw [writtenAll_cons, Step.written]
    cases s.style <;> (rintro c ⟨⟩; rfl)

theorem runs_written (s : Step) (h : ∀ c ∈ rest.head?, Reference.isPunctuation c = true) :
    Reference.runs [] (s.written ++ rest) = s.text :: Reference.runs [] rest := by
  have hpunctuation (c : Char) (cs : List Char) (hc : Reference.isPunctuation c = true) :
      ∀ d ∈ (c :: cs).head?, Reference.isPunctuation d = true := by
    rintro d ⟨⟩
    exact hc
  unfold Step.written
  cases s.style with
  | dotted =>
    rw [List.cons_append, runs_nil_cons rfl, runs_text s h]
  | quoted =>
    simp only [List.cons_append, List.append_assoc, List.nil_append]
    rw [runs_nil_cons rfl, runs_nil_cons rfl, runs_text s (hpunctuation _ _ rfl), runs_nil_cons rfl,
      runs_nil_cons rfl]
  | bracketed =>
    simp only [List.cons_append, List.append_assoc, List.nil_append]
    rw [runs_nil_cons rfl, runs_text s (hpunctuation _ _ rfl), runs_nil_cons rfl]

theorem runs_writtenAll (steps : List Step) :
    Reference.runs [] (writtenAll steps) = steps.map Step.text := by
  induction steps with
  | nil => rfl
  | cons s steps ih =>
    rw [writtenAll_cons, runs_written s (punctuation_writtenAll steps), ih, List.map_cons]

theorem keys_textOf (steps : List Step) :
    Reference.keys (String.ofList (textOf steps)) =
      steps.map fun s => String.ofList s.text := by
  rw [Reference.keys, String.toList_ofList, textOf, runs_nil_cons rfl, runs_writtenAll, List.map_map]
  rfl

end

end StatesLanguage.Path
