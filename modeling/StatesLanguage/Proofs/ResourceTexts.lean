import StatesLanguage.Proofs.ResourceNames

/-!
# Texts of resource names

A text with five colons is taken apart into the parts of a resource name, and the parts make a text. The
text comes back unless its last part has a slash or begins with a colon; parts come back exactly if
their text cannot be divided anywhere else.
-/

namespace StatesLanguage.Arn

/-- What stands behind so many colons of a text. -/
def behindColons : Nat → List Char → List Char
  | 0, cs => cs
  | n + 1, cs => behindColons n ((cs.dropWhile (· != ':')).drop 1)

/-- The last part of a name, from a type that may be missing or empty and a resource. -/
def join : Option (List Char) → List Char → List Char
  | none, name | some [], name => name
  | some kind, name => kind ++ ':' :: name

/-- Parts whose text is divided between them and nowhere else. -/
structure Divisible (arn : Arn) : Prop where
  fields : ∀ field ∈ [arn.scheme, arn.partition, arn.service, arn.region, arn.account],
    ':' ∉ field.toList
  resource : '/' ∉ arn.resource.toList
  resourceType : match arn.resourceType with
    | none => ':' ∉ arn.resource.toList
    | some kind => kind ≠ "" ∧ ':' ∉ kind.toList ∧ '/' ∉ kind.toList

section

variable {cs kind name rest : List Char} {parts : List (List Char)} {text : String} {arn : Arn}

/-! ## Colons -/

theorem behind_cons (part : List Char) (parts : List (List Char)) (rest : List Char) :
    behind (part :: parts) rest = part ++ ':' :: behind parts rest := rfl

theorem behind_inj {rest' : List Char} : behind parts rest = behind parts rest' ↔ rest = rest' := by
  induction parts with
  | nil => rfl
  | cons part parts ih =>
    rw [behind_cons, behind_cons, List.append_cancel_left_eq, List.cons_inj_right, ih]

theorem count_behind (h : ∀ part ∈ parts, ':' ∉ part) :
    (behind parts rest).count ':' = parts.length + rest.count ':' := by
  induction parts with
  | nil => exact (Nat.zero_add _).symm
  | cons part parts ih =>
    obtain ⟨hpart, hparts⟩ := List.forall_mem_cons.mp h
    rw [behind_cons, List.count_append, List.count_eq_zero.mpr hpart, List.count_cons_self,
      ih hparts, List.length_cons]
    omega

theorem behindColons_behind (h : ∀ part ∈ parts, ':' ∉ part) :
    behindColons parts.length (behind parts rest) = rest := by
  induction parts with
  | nil => rfl
  | cons part parts ih =>
    obtain ⟨hpart, hparts⟩ := List.forall_mem_cons.mp h
    have hskip : ∀ c ∈ part, (c != ':') = true :=
      fun c hc => bne_iff_ne.mpr fun heq => hpart (heq ▸ hc)
    rw [List.length_cons, behindColons, behind_cons, List.dropWhile_append_of_pos hskip,
      List.dropWhile_cons_of_neg (by simp), List.drop_one, List.tail_cons, ih hparts]

theorem exists_behind {n : Nat} (h : n ≤ cs.count ':') : ∃ parts rest,
    parts.length = n ∧ (∀ part ∈ parts, ':' ∉ part) ∧ cs = behind parts rest := by
  -- By induction on the colons, of which the first ends the first part.
  induction n generalizing cs with
  | zero => exact ⟨[], cs, rfl, nofun, rfl⟩
  | succ n ih =>
    cases hcut : cut? ':' cs with
    | none =>
      rw [List.count_eq_zero.mpr (cut?_eq_none_iff.mp hcut)] at h
      omega
    | some cut =>
      obtain ⟨part, more⟩ := cut
      obtain ⟨hpart, rfl⟩ := cut?_eq_some_iff.mp hcut
      rw [List.count_append, List.count_eq_zero.mpr hpart, List.count_cons_self] at h
      have hmore : n ≤ more.count ':' := by omega
      obtain ⟨parts, rest, hlength, hparts, rfl⟩ := ih hmore
      exact ⟨part :: parts, rest, congrArg (· + 1) hlength,
        List.forall_mem_cons.mpr ⟨hpart, hparts⟩, rfl⟩

/-! ## The last part -/

theorem divide_eq_none_iff :
    divide cs = (none, name) ↔ ('/' ∉ cs ∧ ':' ∉ cs) ∧ name = cs := by
  unfold divide
  rw [← cut?_eq_none_iff, ← cut?_eq_none_iff]
  cases cut? '/' cs with
  | some => simp
  | none => cases cut? ':' cs <;> simp [eq_comm]

theorem join_of_ne_nil (h : kind ≠ []) : join (some kind) name = kind ++ ':' :: name := by
  cases kind with
  | nil => exact absurd rfl h
  | cons => rfl

/-- A last part is put together again from what it was divided into, unless it was divided at a slash,
which becomes a colon, or at a colon in front, which goes. -/
theorem join_divide_eq_iff (rest : List Char) :
    join (divide rest).1 (divide rest).2 = rest ↔ '/' ∉ rest ∧ rest.head? ≠ some ':' := by
  rcases hdivide : divide rest with ⟨kind?, name⟩
  cases kind? with
  | none =>
    obtain ⟨⟨hslash, hcolon⟩, rfl⟩ := divide_eq_none_iff.mp hdivide
    exact iff_of_true rfl ⟨hslash, fun hhead => hcolon (List.mem_of_mem_head? hhead)⟩
  | some kind =>
    rcases divide_eq_some_iff.mp hdivide with ⟨hslash, rfl⟩ | ⟨hslash, hcolon, rfl⟩
    · refine iff_of_false ?_ fun h => h.1 (by simp)
      cases kind with
      | nil => simp [join]
      | cons c kind => simp [join]
    · cases kind with
      | nil => simp [join]
      | cons c kind =>
        have hc : c ≠ ':' := fun heq => hcolon (by simp [heq])
        exact iff_of_true rfl ⟨hslash, by simpa using hc⟩

theorem divide_join_eq_iff (kind? : Option (List Char)) (name : List Char) :
    divide (join kind? name) = (kind?, name) ↔ '/' ∉ name ∧ match kind? with
      | none => ':' ∉ name
      | some kind => kind ≠ [] ∧ ':' ∉ kind ∧ '/' ∉ kind := by
  match kind? with
  | none => rw [divide_eq_none_iff, join, and_iff_left rfl]
  | some [] =>
    refine iff_of_false (fun h => ?_) fun h => h.2.1 rfl
    rcases divide_eq_some_iff.mp h with ⟨-, h⟩ | ⟨-, -, h⟩ <;> simp [join] at h
  | some (c :: kind) =>
    have hslash : '/' ∈ c :: kind ++ ':' :: name ↔ '/' ∈ c :: kind ∨ '/' ∈ name := by
      simp [or_assoc]
    have hcolon : c :: kind ++ ':' :: name ≠ c :: kind ++ '/' :: name := by simp
    rw [divide_eq_some_iff, join_of_ne_nil (List.cons_ne_nil c kind), hslash]
    grind

/-! ## Names -/

theorem toList_lastPart (arn : Arn) :
    arn.lastPart.toList = join (arn.resourceType.map String.toList) arn.resource.toList := by
  cases htype : arn.resourceType with
  | none => simp [lastPart, htype, join]
  | some kind =>
    by_cases hempty : kind = ""
    · simp [lastPart, htype, hempty, join]
    · rw [Option.map_some, join_of_ne_nil (by simpa using hempty)]
      simp [lastPart, htype, hempty]

theorem toList_render (arn : Arn) : arn.render.toList =
    behind ([arn.scheme, arn.partition, arn.service, arn.region, arn.account].map String.toList)
      (join (arn.resourceType.map String.toList) arn.resource.toList) := by
  have hrender : arn.render = arn.scheme ++ ":" ++ arn.partition ++ ":" ++ arn.service ++ ":" ++
      arn.region ++ ":" ++ arn.account ++ ":" ++ arn.lastPart := rfl
  rw [hrender, ← toList_lastPart]
  simp [behind]

theorem compose_toValue [Room] (arn : Arn) : compose arn.toValue = .ok arn.render := by
  have hlast : typedResource ((arn.resourceType.map Value.str).getD .null) (.str arn.resource) =
      .ok (.str arn.lastPart) := by
    cases htype : arn.resourceType with
    | none => simp [typedResource, lastPart, htype, Value.truthy]
    | some kind =>
      by_cases hempty : kind = "" <;> simp [typedResource, lastPart, htype, hempty, Value.truthy]
  have hcompose : compose arn.toValue = (do
      let last ← typedResource ((arn.resourceType.map Value.str).getD .null) (.str arn.resource)
      let parts := [arn.scheme, arn.partition, arn.service, arn.region, arn.account].map Value.str
      return ":".intercalate (← texts (parts ++ [last]))) := rfl
  rw [hcompose, hlast]
  rfl

/-! ## Reading -/

theorem parse?_eq_none_iff : parse? text = none ↔ text.toList.count ':' < 5 := by
  rw [Option.eq_none_iff_forall_ne_some, ← Nat.not_le]
  refine ⟨fun h hcount => ?_, fun h arn hparse => h ?_⟩
  · obtain ⟨parts, rest, hlength, hparts, htext⟩ := exists_behind hcount
    match parts, hlength with
    | [a, b, c, d, e], _ =>
      refine h ⟨.ofList a, .ofList b, .ofList c, .ofList d, .ofList e, .ofList (divide rest).2,
        (divide rest).1.map .ofList⟩ (parse?_eq_some_iff.mpr ⟨?_, rest, ?_, ?_⟩)
      · simpa using hparts
      · simpa using htext
      · cases hkind : (divide rest).1 <;> simp [Prod.ext_iff, hkind]
  · obtain ⟨hfields, rest, htext, -⟩ := parse?_eq_some_iff.mp hparse
    rw [htext, count_behind (by simpa using hfields)]
    simp

/-- The text of parts is what they were read in, unless its last part was divided at a slash or at a
colon in front. -/
theorem render_eq_iff (h : parse? text = some arn) : arn.render = text ↔
    '/' ∉ behindColons 5 text.toList ∧ (behindColons 5 text.toList).head? ≠ some ':' := by
  obtain ⟨hfields, rest, htext, hdivide⟩ := parse?_eq_some_iff.mp h
  have hbehind : behindColons 5 text.toList = rest := by
    rw [htext]
    have hparts : ∀ part ∈ [arn.scheme, arn.partition, arn.service, arn.region, arn.account].map
        String.toList, ':' ∉ part := List.forall_mem_map.mpr hfields
    exact behindColons_behind hparts
  rw [hbehind, ← join_divide_eq_iff, hdivide, ← String.toList_inj, toList_render, htext]
  simp [behind]

theorem parse?_render_iff : parse? arn.render = some arn ↔ arn.Divisible := by
  have hread : parse? arn.render = some arn ↔
      (∀ field ∈ [arn.scheme, arn.partition, arn.service, arn.region, arn.account],
        ':' ∉ field.toList) ∧
      divide (join (arn.resourceType.map String.toList) arn.resource.toList) =
        (arn.resourceType.map String.toList, arn.resource.toList) := by
    rw [parse?_eq_some_iff, toList_render]
    refine and_congr_right fun _ => ⟨?_, fun h => ⟨_, rfl, h⟩⟩
    rintro ⟨rest, htext, hdivide⟩
    rwa [behind_inj.mp htext]
  have htype : (match arn.resourceType.map String.toList with
        | none => ':' ∉ arn.resource.toList
        | some kind => kind ≠ [] ∧ ':' ∉ kind ∧ '/' ∉ kind) ↔
      match arn.resourceType with
        | none => ':' ∉ arn.resource.toList
        | some kind => kind ≠ "" ∧ ':' ∉ kind.toList ∧ '/' ∉ kind.toList := by
    cases arn.resourceType <;> simp
  rw [hread, divide_join_eq_iff, htype]
  exact ⟨fun ⟨hfields, hresource, hkind⟩ => ⟨hfields, hresource, hkind⟩,
    fun h => ⟨h.fields, h.resource, h.resourceType⟩⟩

/-- A text is refused exactly if it has fewer than five colons; if it is read, the parts compose it
again unless there is a slash behind the fifth colon or another colon right behind it. Parts are read
again in the text that they compose exactly if it cannot be divided anywhere else. -/
theorem compose_undoes_parse [Room] :
    (∀ text : String,
      text.toList.count ':' < 5 ∧
        parse text = .error (.fault .badValue (text ++ " is not a valid ARN")) ∨
      5 ≤ text.toList.count ':' ∧ ∃ arn, parse text = .ok arn ∧
        (compose arn.toValue = .ok text ↔
          '/' ∉ behindColons 5 text.toList ∧ (behindColons 5 text.toList).head? ≠ some ':')) ∧
    ∀ arn : Arn, ∃ text, compose arn.toValue = .ok text ∧
      (parse text = .ok arn ↔ arn.Divisible) := by
  refine ⟨fun text => ?_, fun arn => ⟨arn.render, compose_toValue arn, ?_⟩⟩
  · cases hparse : parse? text with
    | none => exact .inl ⟨parse?_eq_none_iff.mp hparse, by rw [parse, hparse]⟩
    | some arn =>
      have hcount : ¬text.toList.count ':' < 5 := by
        rw [← parse?_eq_none_iff, hparse]
        exact Option.some_ne_none arn
      refine .inr ⟨Nat.not_lt.mp hcount, arn, by rw [parse, hparse], ?_⟩
      rw [compose_toValue, Except.ok.injEq, render_eq_iff hparse]
  · rw [← parse?_render_iff, parse]
    cases parse? arn.render <;> simp

end

end StatesLanguage.Arn
