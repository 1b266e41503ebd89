import Mathlib.Data.List.TakeWhile
import StatesLanguage.Arn

/-!
# Names of resources

What the names of activities, state machines and executions consist of. A value is valid as one of them
exactly if it is a text of these parts, except that a line end may stand behind each name in it and
that an execution may have any number of names.
-/

namespace StatesLanguage.Arn

/-! ## Well-formed names -/

inductive Kind where
  | activity | stateMachine | execution
  deriving DecidableEq

namespace Kind

def name : Kind → String
  | activity => "activity"
  | stateMachine => "stateMachine"
  | execution => "execution"

/-- How many names a resource has: an execution that of its machine too. -/
def count : Kind → Nat
  | execution => 2
  | _ => 1

end Kind

/-- Characters that a name does not have, besides white space. -/
def reserved : List Char :=
  "<>\x7b\x7d[]?*\"#%\\^|~`$&,;:/".toList

/-- A name of 1 to 80 characters, none of them white space or reserved. -/
structure IsPlainName (cs : List Char) : Prop where
  length_pos : 1 ≤ cs.length
  length_le : cs.length ≤ 80
  chars : ∀ c ∈ cs, Text.isBlank c = false ∧ c ∉ reserved

/-- Parts with a colon behind each, and what follows them. -/
def behind (parts : List (List Char)) (rest : List Char) : List Char :=
  parts.foldr (fun part rest => part ++ ':' :: rest) rest

/-- What the name of a resource leaves open. -/
structure Parts where
  partition : List Char
  region : List Char
  account : List Char
  /-- What stands behind the type of the resource. -/
  mark : Char
  names : List (List Char)

namespace Parts

structure Proper (p : Parts) : Prop where
  nonempty : ∀ part ∈ [p.partition, p.region, p.account], part ≠ []
  noColon : ∀ part ∈ [p.partition, p.region, p.account], ':' ∉ part
  mark : p.mark = ':' ∨ p.mark = '/'

/-- The last part: the type and the names, with colons between them. -/
def resource (p : Parts) (k : Kind) : List Char :=
  k.name.toList ++ p.mark :: [':'].intercalate p.names

def text (p : Parts) (k : Kind) : List Char :=
  behind ["arn".toList, p.partition, "states".toList, p.region, p.account] (p.resource k)

end Parts

/-- A text of parts, of which the names are as many as they may be and as they should be. -/
def Composed (k : Kind) (isCount : Nat → Prop) (isName : List Char → Prop) (arn : Value) : Prop :=
  ∃ (text : String) (p : Parts), arn = .str text ∧ text.length ≤ 2048 ∧ text.toList = p.text k ∧
    p.Proper ∧ isCount p.names.length ∧ ∀ name ∈ p.names, isName name

/-- A well-formed name of a resource. -/
def WellFormed (k : Kind) (arn : Value) : Prop :=
  Composed k (· = k.count) IsPlainName arn

/-- A name, with or without a line end behind it. -/
def IsEndedName (cs : List Char) : Prop :=
  ∃ name, IsPlainName name ∧ (cs = name ∨ cs = name ++ ['\n'])

/-- The numbers of names that are taken for those of a resource. -/
def Kind.Takes (k : Kind) (n : Nat) : Prop :=
  if k = .execution then 1 ≤ n else n = 1

section

variable {sep : Char} {cs a b : List Char} {k : Kind} {text : String} {arn : Arn}

/-! ## Parts -/

theorem cut?_eq_some_iff : cut? sep cs = some (a, b) ↔ sep ∉ a ∧ cs = a ++ sep :: b := by
  induction cs generalizing a with
  | nil => simp [cut?]
  | cons c cs ih =>
    by_cases hc : c = sep
    · subst hc
      cases a with
      | nil => simp [cut?]
      | cons d a => simp [cut?]; grind
    · have hcut : cut? sep (c :: cs) = (cut? sep cs).map (Prod.map (c :: ·) id) := by
        unfold cut?
        rw [List.dropWhile_cons_of_pos (by simpa using hc),
          List.takeWhile_cons_of_pos (by simpa using hc)]
        cases List.dropWhile (· != sep) cs <;> rfl
      rw [hcut]
      cases a with
      | nil => simp [hc]
      | cons d a =>
        have := @ih a
        simp only [Option.map_eq_some_iff, Prod.exists, List.cons.injEq, List.mem_cons,
          List.cons_append]
        grind

theorem cut?_eq_none_iff : cut? sep cs = none ↔ sep ∉ cs := by
  have hdrop : cs.dropWhile (· != sep) = [] ↔ sep ∉ cs := by
    rw [List.dropWhile_eq_nil_iff]
    exact ⟨fun h hmem => by simpa using h sep hmem,
      fun h c hc => bne_iff_ne.mpr fun heq => h (heq ▸ hc)⟩
  unfold cut?
  split
  · rename_i hcons
    simp [← hdrop, hcons]
  · rename_i hnil
    simp [← hdrop, hnil]

theorem divide_eq_some_iff : divide cs = (some a, b) ↔
    '/' ∉ a ∧ cs = a ++ '/' :: b ∨ '/' ∉ cs ∧ ':' ∉ a ∧ cs = a ++ ':' :: b := by
  unfold divide
  cases hslash : cut? '/' cs with
  | some parts =>
    obtain ⟨kind, name⟩ := parts
    have hsome := cut?_eq_some_iff.mp hslash
    have hmem : '/' ∈ cs := by simp [hsome.2]
    simp only [Prod.mk.injEq, Option.some.injEq]
    rw [← cut?_eq_some_iff, hslash]
    simp [hmem]
  | none =>
    have hnot := cut?_eq_none_iff.mp hslash
    rw [← cut?_eq_some_iff, ← cut?_eq_some_iff, hslash]
    cases hcolon : cut? ':' cs with
    | some parts => simp [hnot, Prod.ext_iff]
    | none => simp

theorem parse?_eq_some_iff : parse? text = some arn ↔
    (∀ part ∈ [arn.scheme, arn.partition, arn.service, arn.region, arn.account], ':' ∉ part.toList) ∧
      ∃ rest, text.toList = behind ([arn.scheme, arn.partition, arn.service, arn.region,
          arn.account].map String.toList) rest ∧
        divide rest = (arn.resourceType.map String.toList, arn.resource.toList) := by
  simp only [parse?, Option.bind_eq_bind, Option.bind_eq_some_iff, Prod.exists, cut?_eq_some_iff]
  constructor
  · rintro ⟨a, ra, ⟨ha, heq⟩, b, rb, ⟨hb, rfl⟩, c, rc, ⟨hc, rfl⟩, d, rd, ⟨hd, rfl⟩, e, re, ⟨he, rfl⟩, h⟩
    obtain rfl := Option.some.inj h
    simp [ha, hb, hc, hd, he, heq, behind, Function.comp_def]
  · rintro ⟨hparts, rest, htext, hdivide⟩
    simp only [List.forall_mem_cons] at hparts
    obtain ⟨ha, hb, hc, hd, he, -⟩ := hparts
    refine ⟨_, _, ⟨ha, htext⟩, _, _, ⟨hb, rfl⟩, _, _, ⟨hc, rfl⟩, _, _, ⟨hd, rfl⟩, _, _, ⟨he, rfl⟩, ?_⟩
    rw [List.map_nil, List.foldr_nil, hdivide]
    simp [Function.comp_def]

/-! ## Names -/

theorem IsPlainName.notMem {c : Char} (h : IsPlainName cs)
    (hc : Text.isBlank c = true ∨ c ∈ reserved) : c ∉ cs := by
  intro hmem
  obtain ⟨hblank, hreserved⟩ := h.chars c hmem
  rcases hc with hc | hc
  · rw [hblank] at hc
    cases hc
  · exact hreserved hc

theorem isPlainName_iff :
    (1 ≤ cs.length && cs.length ≤ 80 && cs.all (!isReserved ·)) = true ↔ IsPlainName cs := by
  have hreserved (c : Char) : isReserved c = (Text.isBlank c || reserved.contains c) := rfl
  have hchars : cs.all (!isReserved ·) = true ↔ ∀ c ∈ cs, Text.isBlank c = false ∧ c ∉ reserved := by
    simp only [hreserved, List.all_eq_true, Bool.not_eq_true', Bool.or_eq_false_iff,
      List.contains_eq_mem, decide_eq_false_iff_not]
  rw [Bool.and_eq_true, Bool.and_eq_true, decide_eq_true_iff, decide_eq_true_iff, hchars]
  exact ⟨fun h => ⟨h.1.1, h.1.2, h.2⟩, fun h => ⟨⟨h.length_pos, h.length_le⟩, h.chars⟩⟩

theorem isName_iff : isName cs = true ↔ IsEndedName cs := by
  unfold isName
  dsimp only
  rw [isPlainName_iff]
  split
  · rename_i hlast
    obtain ⟨init, rfl⟩ := List.getLast?_eq_some_iff.mp hlast
    rw [List.dropLast_concat]
    constructor
    · exact fun h => ⟨init, h, .inr rfl⟩
    · rintro ⟨name, h, rfl | heq⟩
      · exact absurd (by simp) (h.notMem (.inl (by decide : Text.isBlank '\n' = true)))
      · rwa [List.append_cancel_right heq]
  · rename_i hlast
    constructor
    · exact fun h => ⟨cs, h, .inl rfl⟩
    · rintro ⟨name, h, rfl | rfl⟩
      · exact h
      · exact absurd List.getLast?_concat hlast

theorem IsEndedName.notMem {c : Char} (h : IsEndedName cs) (hc : c ∈ reserved) : c ∉ cs := by
  obtain ⟨name, hname, rfl | rfl⟩ := h
  · exact hname.notMem (.inr hc)
  · have hline : c ≠ '\n' := by
      rintro rfl
      exact absurd hc (by decide)
    simp [hname.notMem (.inr hc), hline]

theorem names_eq_splitOn (cs : List Char) : names cs = cs.splitOn ':' := by
  induction cs with
  | nil => rfl
  | cons c cs ih =>
    rw [names, ih, List.splitOn_cons_eq_if_modifyHead]
    cases h : cs.splitOn ':' with
    | nil => exact absurd h (List.splitOn_ne_nil _ _)
    | cons name more => simp

theorem mem_intercalate {c : Char} {ns : List (List Char)} (hc : c ≠ ':') :
    c ∈ [':'].intercalate ns ↔ ∃ name ∈ ns, c ∈ name := by
  induction ns with
  | nil => simp
  | cons name ns ih =>
    cases ns with
    | nil => simp
    | cons other ns =>
      rw [List.intercalate_cons_cons, List.append_assoc, List.mem_append, List.singleton_append,
        List.mem_cons, ih, or_iff_right hc]
      simp

theorem intercalate_namesOf (k : Kind) (resource : String) :
    [':'].intercalate (namesOf k.name resource) = resource.toList := by
  cases k with
  | execution =>
    change [':'].intercalate (names _) = _
    rw [names_eq_splitOn, List.intercalate_splitOn]
  | _ => exact List.intercalate_singleton

theorem takes_namesOf (k : Kind) (resource : String) : k.Takes (namesOf k.name resource).length := by
  cases k with
  | execution =>
    change 1 ≤ (names _).length
    rw [names_eq_splitOn]
    exact List.length_pos_iff.mpr (List.splitOn_ne_nil _ _)
  | _ => rfl

theorem namesOf_intercalate {ns : List (List Char)} (htakes : k.Takes ns.length)
    (h : ∀ name ∈ ns, ':' ∉ name) : namesOf k.name (String.ofList ([':'].intercalate ns)) = ns := by
  cases k with
  | execution =>
    have hne : ns ≠ [] := List.length_pos_iff.mp htakes
    change names _ = _
    rw [names_eq_splitOn, String.toList_ofList, List.splitOn_intercalate _ h hne]
  | _ =>
    obtain ⟨name, rfl⟩ := List.length_eq_one_iff.mp htakes
    change [_] = _
    rw [String.toList_ofList, List.intercalate_singleton]

/-! ## Validity -/

theorem Kind.name_notMem (k : Kind) : '/' ∉ k.name.toList ∧ ':' ∉ k.name.toList := by
  cases k <;> decide

theorem hasKind_iff : arn.hasKind k.name = true ↔ arn.resourceType = some k.name ∧
    arn.service = "states" ∧ arn.region ≠ "" ∧ arn.account ≠ "" ∧
      ∀ name ∈ namesOf k.name arn.resource, IsEndedName name := by
  have htype : statesTypes.contains k.name = true := by cases k <;> decide
  simp only [hasKind, htype, if_true, Bool.and_eq_true, beq_iff_eq, bne_iff_ne, ne_eq,
    List.all_eq_true, isName_iff, and_assoc]

theorem isValid_text_iff : isValid (.str text) (.str k.name) = true ↔ text.length ≤ 2048 ∧
    ∃ arn, parse? text = some arn ∧ arn.scheme = "arn" ∧ arn.partition ≠ "" ∧
      arn.hasKind k.name = true := by
  have hname : k.name ≠ "" := by cases k <;> decide
  have hservice (arn : Arn) : arn.service ≠ "" ∧ arn.hasKind k.name = true ↔
      arn.hasKind k.name = true := by
    refine and_iff_right_of_imp fun h => ?_
    rw [(hasKind_iff.mp h).2.1]
    decide
  unfold isValid
  cases hparse : parse? text with
  | none => simp [hparse]
  | some arn =>
    simp only [hparse, hname, if_false, Bool.and_eq_true, decide_eq_true_iff, beq_iff_eq, bne_iff_ne,
      Option.some.injEq, exists_eq_left', and_assoc, hservice]

theorem parse?_parts {p : Parts} (htext : text.toList = p.text k) (hproper : p.Proper)
    (hnames : ∀ name ∈ p.names, '/' ∉ name) :
    parse? text = some ⟨"arn", String.ofList p.partition, "states", String.ofList p.region,
      String.ofList p.account, String.ofList ([':'].intercalate p.names), some k.name⟩ := by
  obtain ⟨hpartition, hregion, haccount, -⟩ :
      ':' ∉ p.partition ∧ ':' ∉ p.region ∧ ':' ∉ p.account ∧ _ := by
    simpa only [List.forall_mem_cons] using hproper.noColon
  refine parse?_eq_some_iff.mpr ⟨?_, p.resource k, ?_, ?_⟩
  · simp only [List.forall_mem_cons, String.toList_ofList]
    exact ⟨by decide, hpartition, by decide, hregion, haccount, nofun⟩
  · simp only [List.map_cons, List.map_nil, String.toList_ofList]
    exact htext
  · simp only [Option.map_some, String.toList_ofList]
    refine divide_eq_some_iff.mpr ?_
    obtain ⟨hslash, hcolon⟩ := k.name_notMem
    rcases hproper.mark with hmark | hmark
    · refine .inr ⟨fun hmem => ?_, hcolon, by rw [Parts.resource, hmark]⟩
      rw [Parts.resource, hmark, List.mem_append, List.mem_cons] at hmem
      rcases hmem with h | h | h
      · exact hslash h
      · exact absurd h (by decide)
      · obtain ⟨name, hname, h⟩ := (mem_intercalate (by decide)).mp h
        exact hnames name hname h
    · exact .inl ⟨hslash, by rw [Parts.resource, hmark]⟩

/-- What is valid as the name of a resource, exactly. -/
theorem isValid_iff_composed (k : Kind) (v : Value) :
    isValid v (.str k.name) = true ↔ Composed k k.Takes IsEndedName v := by
  constructor
  · intro h
    cases v with
    | str text =>
      obtain ⟨hlength, arn, hparse, hscheme, hpartition, hkind⟩ := isValid_text_iff.mp h
      obtain ⟨htype, hservice, hregion, haccount, hnames⟩ := hasKind_iff.mp hkind
      obtain ⟨hcolons, rest, htext, hdivide⟩ := parse?_eq_some_iff.mp hparse
      simp only [List.forall_mem_cons] at hcolons
      obtain ⟨-, hpartition', -, hregion', haccount', -⟩ := hcolons
      have hnonempty {s : String} (hs : s ≠ "") : s.toList ≠ [] := by simpa using hs
      obtain ⟨mark, hmark, hrest⟩ : ∃ mark, (mark = ':' ∨ mark = '/') ∧
          rest = k.name.toList ++ mark :: arn.resource.toList := by
        rw [htype] at hdivide
        rcases divide_eq_some_iff.mp hdivide with ⟨-, hrest⟩ | ⟨-, -, hrest⟩
        · exact ⟨'/', .inr rfl, hrest⟩
        · exact ⟨':', .inl rfl, hrest⟩
      refine ⟨text, ⟨arn.partition.toList, arn.region.toList, arn.account.toList, mark,
        namesOf k.name arn.resource⟩, rfl, hlength, ?_, ⟨?_, ?_, hmark⟩, takes_namesOf k _, hnames⟩
      · rw [Parts.text, Parts.resource, intercalate_namesOf, ← hrest, htext, hscheme, hservice]
        rfl
      · simp only [List.forall_mem_cons]
        exact ⟨hnonempty hpartition, hnonempty hregion, hnonempty haccount, nofun⟩
      · simp only [List.forall_mem_cons]
        exact ⟨hpartition', hregion', haccount', nofun⟩
    | _ => cases h
  · rintro ⟨text, p, rfl, hlength, htext, hproper, htakes, hnames⟩
    have hmissing {c : Char} (hc : c ∈ reserved) : ∀ name ∈ p.names, c ∉ name :=
      fun name hname => (hnames name hname).notMem hc
    have hfound : namesOf k.name (String.ofList ([':'].intercalate p.names)) = p.names :=
      namesOf_intercalate htakes (hmissing (by decide))
    have hgiven {cs : List Char} (hcs : cs ≠ []) : String.ofList cs ≠ "" := by simpa using hcs
    obtain ⟨hpartition, hregion, haccount, -⟩ :
        p.partition ≠ [] ∧ p.region ≠ [] ∧ p.account ≠ [] ∧ _ := by
      simpa only [List.forall_mem_cons] using hproper.nonempty
    refine isValid_text_iff.mpr ⟨hlength, _, parse?_parts htext hproper (hmissing (by decide)), rfl,
      hgiven hpartition, hasKind_iff.mpr ⟨rfl, rfl, hgiven hregion, hgiven haccount, ?_⟩⟩
    rw [hfound]
    exact hnames

theorem Kind.takes_count (k : Kind) : k.Takes k.count := by
  cases k <;> simp [Takes, count]

theorem IsEndedName.plain (h : IsEndedName cs) (hline : '\n' ∉ cs) : IsPlainName cs := by
  obtain ⟨name, hname, rfl | rfl⟩ := h
  · exact hname
  · simp at hline

/-- The resource at the end of a name has as many names as it should have. -/
def HasAllNames (k : Kind) (text : String) : Prop :=
  ∀ arn, parse? text = some arn → (namesOf k.name arn.resource).length = k.count

theorem WellFormed.names (h : WellFormed k (.str text)) : ∃ arn, parse? text = some arn ∧
    (namesOf k.name arn.resource).length = k.count ∧
      ∀ name ∈ namesOf k.name arn.resource, IsPlainName name := by
  obtain ⟨_, p, ⟨⟩, -, htext, hproper, hcount, hnames⟩ := h
  have hmissing {c : Char} (hc : c ∈ reserved) : ∀ name ∈ p.names, c ∉ name :=
    fun name hname => (hnames name hname).notMem (.inr hc)
  have hfound : namesOf k.name (String.ofList ([':'].intercalate p.names)) = p.names :=
    namesOf_intercalate (hcount ▸ k.takes_count) (hmissing (by decide))
  refine ⟨_, parse?_parts htext hproper (hmissing (by decide)), ?_⟩
  rw [hfound]
  exact ⟨hcount, hnames⟩

/-- What is valid is composed of parts, of which a line end may stand behind each name. Where none
does, and no name of the resource is missing or one too many, it is what is well-formed. -/
theorem isValid_iff_wellFormed (k : Kind) (v : Value) :
    (isValid v (.str k.name) = true ↔ Composed k k.Takes IsEndedName v) ∧
      ((∀ text, v = .str text → '\n' ∉ text.toList ∧ HasAllNames k text) →
        (isValid v (.str k.name) = true ↔ WellFormed k v)) := by
  refine ⟨isValid_iff_composed k v, fun h => ?_⟩
  rw [isValid_iff_composed]
  constructor
  · rintro ⟨text, p, rfl, hlength, htext, hproper, htakes, hnames⟩
    obtain ⟨hline, hall⟩ := h text rfl
    have hmissing {c : Char} (hc : c ∈ reserved) : ∀ name ∈ p.names, c ∉ name :=
      fun name hname => (hnames name hname).notMem hc
    refine ⟨text, p, rfl, hlength, htext, hproper, ?_, fun name hname => ?_⟩
    · have hcount := hall _ (parse?_parts htext hproper (hmissing (by decide)))
      rwa [namesOf_intercalate htakes (hmissing (by decide))] at hcount
    · refine (hnames name hname).plain fun hmem => hline ?_
      have hinside : '\n' ∈ [':'].intercalate p.names :=
        (mem_intercalate (by decide)).mpr ⟨name, hname, hmem⟩
      rw [htext]
      simp [Parts.text, behind, Parts.resource, hinside]
  · rintro ⟨text, p, hv, hlength, htext, hproper, hcount, hnames⟩
    exact ⟨text, p, hv, hlength, htext, hproper, hcount ▸ k.takes_count,
      fun name hname => ⟨name, hnames name hname, .inl rfl⟩⟩

theorem isValid_iff_wellFormed_execution :
    (∀ text, Value.str "arn:aws:states:local:0123:execution/m:e" = .str text →
        '\n' ∉ text.toList ∧ HasAllNames .execution text) ∧
      (isValid (.str "arn:aws:states:local:0123:execution/m:e") (.str "execution") = true ↔
        WellFormed .execution (.str "arn:aws:states:local:0123:execution/m:e")) := by
  have hall : ∀ text, Value.str "arn:aws:states:local:0123:execution/m:e" = .str text →
      '\n' ∉ text.toList ∧ HasAllNames .execution text := by
    rintro _ ⟨⟩
    refine ⟨by decide, fun arn hparse => ?_⟩
    have hknown : parse? "arn:aws:states:local:0123:execution/m:e" =
        some ⟨"arn", "aws", "states", "local", "0123", "m:e", some "execution"⟩ := by decide
    obtain rfl := Option.some.inj (hknown.symm.trans hparse)
    decide
  exact ⟨hall, (isValid_iff_wellFormed .execution _).2 hall⟩

/-- A line end behind a name and an execution without the name of its machine are let through. -/
theorem ill_formed_valid :
    (isValid (.str "arn:aws:states:r:a:activity:n\n") (.str "activity") = true ∧
      ¬WellFormed .activity (.str "arn:aws:states:r:a:activity:n\n")) ∧
    isValid (.str "arn:aws:states:r:a:execution:n") (.str "execution") = true ∧
      ¬WellFormed .execution (.str "arn:aws:states:r:a:execution:n") := by
  refine ⟨⟨by decide, fun h => ?_⟩, by decide, fun h => ?_⟩
  · have hparse : parse? "arn:aws:states:r:a:activity:n\n" =
        some ⟨"arn", "aws", "states", "r", "a", "n\n", some "activity"⟩ := by decide
    obtain ⟨arn, hread, -, hnames⟩ := h.names
    obtain rfl := Option.some.inj (hparse.symm.trans hread)
    have hblank : Text.isBlank '\n' = true := by decide
    exact (hnames ['n', '\n'] (by decide)).notMem (.inl hblank) (by decide)
  · have hparse : parse? "arn:aws:states:r:a:execution:n" =
        some ⟨"arn", "aws", "states", "r", "a", "n", some "execution"⟩ := by decide
    obtain ⟨arn, hread, hcount, -⟩ := h.names
    obtain rfl := Option.some.inj (hparse.symm.trans hread)
    exact absurd hcount (by decide)

end

end StatesLanguage.Arn
