import StatesLanguage.Proofs.Policy
import StatesLanguage.Proofs.Table
import StatesLanguage.Task.Container

/-!
# Keys in lower case

What becomes of a value whose keys get a small first letter. Once they have it they keep it. The value
keeps its shape exactly if no two keys of one object become equal; otherwise the entries of these keys
are merged. The parameters of a container task never are.
-/

namespace StatesLanguage

/-! ## Letters -/

namespace Text

namespace CaseRun

/-- No letter that a run leads to is covered by another. Letters outside the span of the other run need
not be looked at one by one. -/
def avoids (run other : CaseRun) : Bool :=
  (run.small + (run.last - run.first)).blt other.first || other.last.blt run.small ||
    (List.range (run.last - run.first + 1)).all fun step =>
      step % run.stride != 0 || !other.covers (run.small + step)

def isValid (run : CaseRun) : Bool :=
  run.small + (run.last - run.first) < 0xd800 ||
    (0xdfff < run.small && run.small + (run.last - run.first) < 0x110000)

def dotted : CaseRun := ⟨0x130, 0x130, 1, 0x69⟩

theorem avoids_covers {run other : CaseRun} {code : Nat} (h : run.avoids other = true)
    (hcode : run.covers code = true) : other.covers (run.small + (code - run.first)) = false := by
  simp only [covers, Bool.and_eq_true, decide_eq_true_iff, beq_iff_eq] at hcode
  obtain ⟨⟨hfirst, hlast⟩, hstride⟩ := hcode
  simp only [avoids, Bool.or_eq_true, Nat.blt_eq, List.all_eq_true, List.mem_range] at h
  rcases h with (hbelow | habove) | heach
  · simp [covers]
    omega
  · simp [covers]
    omega
  · simpa [hstride] using heach (code - run.first) (by omega)

theorem isValid_covers {run : CaseRun} {code : Nat} (h : run.isValid = true)
    (hcode : run.covers code = true) : (run.small + (code - run.first)).isValidChar := by
  simp only [covers, Bool.and_eq_true, decide_eq_true_iff, beq_iff_eq] at hcode
  simp only [isValid, Bool.or_eq_true, Bool.and_eq_true, decide_eq_true_iff] at h
  unfold Nat.isValidChar
  omega

end CaseRun

theorem caseRuns_avoid : (caseRuns.all fun run =>
    run.isValid && (CaseRun.dotted :: caseRuns).all run.avoids) = true := by
  decide +kernel

theorem toNat_ofNat {code : Nat} (h : code.isValidChar) : (Char.ofNat code).toNat = code := by
  rw [Char.ofNat, dif_pos h]
  rfl

theorem lowerCase_eq_self {c : Char}
    (h : ∀ run ∈ CaseRun.dotted :: caseRuns, run.covers c.toNat = false) : lowerCase c = [c] := by
  obtain ⟨hdotted, hruns⟩ := List.forall_mem_cons.mp h
  have hne : c.toNat ≠ 0x130 := by
    rintro heq
    rw [heq] at hdotted
    cases hdotted
  have hnone : caseRuns.find? (·.covers c.toNat) = none := by
    rw [List.find?_eq_none]
    exact fun run hrun => by simp [hruns run hrun]
  rw [lowerCase, if_neg hne, hnone]

theorem exists_lowerCase (c : Char) : ∃ d rest, lowerCase c = d :: rest ∧ lowerCase d = [d] := by
  by_cases hdotted : c.toNat = 0x130
  · exact ⟨'i', [Char.ofNat 0x307], by rw [lowerCase, if_pos hdotted], by decide +kernel⟩
  · cases hfind : caseRuns.find? (·.covers c.toNat) with
    | none =>
      have hself : lowerCase c = [c] := by rw [lowerCase, if_neg hdotted, hfind]
      exact ⟨c, [], hself, hself⟩
    | some run =>
      refine ⟨_, [], by rw [lowerCase, if_neg hdotted, hfind], lowerCase_eq_self fun other hother => ?_⟩
      have hcovers := List.find?_some hfind
      have hrun := List.all_eq_true.mp caseRuns_avoid run (List.mem_of_find?_eq_some hfind)
      obtain ⟨hvalid, havoids⟩ := Bool.and_eq_true_iff.mp hrun
      have hcode := toNat_ofNat (CaseRun.isValid_covers hvalid hcovers)
      rw [hcode]
      exact CaseRun.avoids_covers (List.all_eq_true.mp havoids other hother) hcovers

theorem uncapitalize_uncapitalize (s : String) : uncapitalize (uncapitalize s) = uncapitalize s := by
  have hcons {s : String} {c : Char} {rest : List Char} (h : s.toList = c :: rest) :
      uncapitalize s = String.ofList (lowerCase c ++ rest) := by rw [uncapitalize, h]
  cases hs : s.toList with
  | nil =>
    have hself : uncapitalize s = s := by rw [uncapitalize, hs]
    rw [hself, hself]
  | cons c rest =>
    obtain ⟨d, more, hlower, hself⟩ := exists_lowerCase c
    have hnext : (uncapitalize s).toList = d :: (more ++ rest) := by
      rw [hcons hs, hlower, String.toList_ofList, List.cons_append]
    rw [hcons hnext, hself, hcons hs, hlower]
    rfl

end Text

/-! ## Shapes -/

/-- A key that differs from another in its first letter at most, which is in lower case. -/
def LowersFirst (key key' : String) : Prop :=
  key = "" ∧ key' = "" ∨
    ∃ first rest, key.toList = first :: rest ∧ key'.toList = Text.lowerCase first ++ rest

mutual

/-- The second value has the shape of the first: the same leaves, as many items in each array and as
many entries, in the same order, in each object, whose keys have their first letter in lower case. -/
inductive Recased : Value → Value → Prop
  | leaf {v : Value} (harr : ∀ items, v ≠ .arr items) (hobj : ∀ members, v ≠ .obj members) :
      Recased v v
  | arr {items items' : List Value} (h : RecasedItems items items') :
      Recased (.arr items) (.arr items')
  | obj {members members' : List (String × Value)} (h : RecasedMembers members members') :
      Recased (.obj members) (.obj members')

inductive RecasedItems : List Value → List Value → Prop
  | nil : RecasedItems [] []
  | cons {v v' : Value} {rest rest' : List Value} (item : Recased v v')
      (more : RecasedItems rest rest') : RecasedItems (v :: rest) (v' :: rest')

inductive RecasedMembers : List (String × Value) → List (String × Value) → Prop
  | nil : RecasedMembers [] []
  | cons {key key' : String} {v v' : Value} {rest rest' : List (String × Value)}
      (name : LowersFirst key key') (value : Recased v v') (more : RecasedMembers rest rest') :
      RecasedMembers ((key, v) :: rest) ((key', v') :: rest')

end

mutual

/-- No object anywhere in the value has two keys that are equal once their first letter is in lower
case. -/
def KeysApart : Value → Prop
  | .obj members => (members.map fun member => Text.uncapitalize member.1).Nodup ∧
      MembersApart members
  | .arr items => ItemsApart items
  | _ => True

def ItemsApart : List Value → Prop
  | [] => True
  | item :: rest => KeysApart item ∧ ItemsApart rest

def MembersApart : List (String × Value) → Prop
  | [] => True
  | (_, value) :: rest => KeysApart value ∧ MembersApart rest

end

section

variable {key key' : String} {v w : Value} {members members' : List (String × Value)}

theorem lowersFirst_iff : LowersFirst key key' ↔ key' = Text.uncapitalize key := by
  unfold LowersFirst Text.uncapitalize
  cases hkey : key.toList with
  | nil =>
    have hempty : key = "" := by simpa using hkey
    simp [hempty]
  | cons first rest =>
    constructor
    · rintro (⟨rfl, -⟩ | ⟨first', rest', heq, hkey'⟩)
      · cases hkey
      · obtain ⟨rfl, rfl⟩ := List.cons.inj heq
        exact String.toList_inj.mp (hkey'.trans (String.toList_ofList).symm)
    · rintro rfl
      exact .inr ⟨first, rest, rfl, String.toList_ofList⟩

theorem camelMembers_eq_map (members : List (String × Value)) : camelMembers members =
    members.map fun member => (Text.uncapitalize member.1, camelCase member.2) := by
  induction members with
  | nil => rfl
  | cons member rest ih => rw [camelMembers, ih, List.map_cons]

theorem keys_camelMembers (members : List (String × Value)) : Table.keys (camelMembers members) =
    members.map fun member => Text.uncapitalize member.1 := by
  rw [camelMembers_eq_map, Table.keys, List.map_map]
  rfl

theorem camelItems_eq_map (items : List Value) : camelItems items = items.map camelCase := by
  induction items with
  | nil => rfl
  | cons item rest ih => rw [camelItems, ih, List.map_cons]

/-! ## Once and again -/

mutual

theorem camelCase_camelCase : (v : Value) → camelCase (camelCase v) = camelCase v
  | .obj members => by
    have hfixed := camelMembers_fixed members
    have hentries : camelMembers (Table.ofList (camelMembers members)) =
        Table.ofList (camelMembers members) := by
  -- By induction on the value: what the entries of an object have become is kept, and they are
  -- merged already.
      rw [camelMembers_eq_map]
      refine (List.map_congr_left fun member hmember => ?_).trans (List.map_id _)
      obtain ⟨hkey, hvalue⟩ := hfixed member (Table.mem_of_mem_ofList hmember)
      exact Prod.ext hkey hvalue
    rw [camelCase, camelCase, hentries, Table.ofList_of_nodup (Table.nodup_keys_ofList _)]
  | .arr items => by
    rw [camelCase, camelCase, camelItems_eq_map (camelItems items)]
    exact congrArg Value.arr ((List.map_congr_left (camelItems_fixed items)).trans (List.map_id _))
  | .null | .bool _ | .int _ | .float _ | .str _ | .datum _ => rfl

theorem camelItems_fixed : (items : List Value) → ∀ item ∈ camelItems items, camelCase item = id item
  | [] => nofun
  | item :: rest => by
    rw [camelItems]
    exact List.forall_mem_cons.mpr ⟨camelCase_camelCase item, camelItems_fixed rest⟩

theorem camelMembers_fixed : (members : List (String × Value)) → ∀ member ∈ camelMembers members,
    Text.uncapitalize member.1 = member.1 ∧ camelCase member.2 = member.2
  | [] => nofun
  | (key, value) :: rest => by
    rw [camelMembers]
    exact List.forall_mem_cons.mpr ⟨⟨Text.uncapitalize_uncapitalize key, camelCase_camelCase value⟩,
      camelMembers_fixed rest⟩

end

/-! ## Merged keys -/

theorem RecasedMembers.keys_eq : {members members' : List (String × Value)} →
    RecasedMembers members members' →
      Table.keys members' = members.map fun member => Text.uncapitalize member.1
  | _, _, .nil => rfl
  | _, _, .cons name _ more => congrArg₂ List.cons (lowersFirst_iff.mp name) more.keys_eq

theorem recased_obj_iff :
    Recased (.obj members) (.obj members') ↔ RecasedMembers members members' := by
  refine ⟨fun h => ?_, .obj⟩
  cases h with
  | leaf _ hobj => exact absurd rfl (hobj members)
  | obj h => exact h

theorem recased_arr_iff {items items' : List Value} :
    Recased (.arr items) (.arr items') ↔ RecasedItems items items' := by
  refine ⟨fun h => ?_, .arr⟩
  cases h with
  | leaf harr _ => exact absurd rfl (harr items)
  | arr h => exact h

mutual

/-- By induction on the value. Entries of an object that are merged are fewer than they were, since no
two that are left have one key. -/
theorem recased_iff : (v : Value) → (Recased v (camelCase v) ↔ KeysApart v)
  | .obj members => by
    rw [camelCase, KeysApart, recased_obj_iff]
    have hmerge (h : (members.map fun member => Text.uncapitalize member.1).Nodup) :
        Table.ofList (camelMembers members) = camelMembers members :=
      Table.ofList_of_nodup (keys_camelMembers members ▸ h)
    constructor
    · intro h
      have hnodup := h.keys_eq ▸ Table.nodup_keys_ofList (camelMembers members)
      exact ⟨hnodup, (recasedMembers_iff members).mp (hmerge hnodup ▸ h)⟩
    · rintro ⟨hnodup, hmembers⟩
      exact (hmerge hnodup).symm ▸ (recasedMembers_iff members).mpr hmembers
  | .arr items => by rw [camelCase, KeysApart, recased_arr_iff, recasedItems_iff items]
  | .null | .bool _ | .int _ | .float _ | .str _ | .datum _ => iff_of_true (.leaf nofun nofun) trivial

theorem recasedItems_iff : (items : List Value) →
    (RecasedItems items (camelItems items) ↔ ItemsApart items)
  | [] => iff_of_true .nil trivial
  | item :: rest => by
    rw [camelItems, ItemsApart, ← recased_iff item, ← recasedItems_iff rest]
    exact ⟨fun (.cons item more) => ⟨item, more⟩, fun ⟨item, more⟩ => .cons item more⟩

theorem recasedMembers_iff : (members : List (String × Value)) →
    (RecasedMembers members (camelMembers members) ↔ MembersApart members)
  | [] => iff_of_true .nil trivial
  | (key, value) :: rest => by
    rw [camelMembers, MembersApart, ← recased_iff value, ← recasedMembers_iff rest]
    exact ⟨fun (.cons _ value more) => ⟨value, more⟩,
      fun ⟨value, more⟩ => .cons (lowersFirst_iff.mpr rfl) value more⟩

end

/-! ## Depth -/

theorem levelsOfMembers_le_iff {n : Nat} :
    Value.levelsOfMembers members ≤ n ↔ ∀ member ∈ members, member.2.levels ≤ n := by
  induction members with
  | nil => simp [Value.levelsOfMembers]
  | cons member rest ih => rw [Value.levelsOfMembers, Nat.max_le, ih, List.forall_mem_cons]

mutual

theorem levels_camelCase_le : (v : Value) → (camelCase v).levels ≤ v.levels
  | .obj members => by
    rw [camelCase, Value.levels, Value.levels]
    refine Nat.add_le_add_right (levelsOfMembers_le_iff.mpr fun member hmember => ?_) 2
    exact levelsOfMembers_le_iff.mp (levels_camelMembers_le members) member
      (Table.mem_of_mem_ofList hmember)
  | .arr items => by
    rw [camelCase, Value.levels, Value.levels]
    exact Nat.add_le_add_right (levels_camelItems_le items) 2
  | .null | .bool _ | .int _ | .float _ | .str _ | .datum _ => Nat.le_refl _

theorem levels_camelItems_le : (items : List Value) →
    Value.levelsOfItems (camelItems items) ≤ Value.levelsOfItems items
  | [] => Nat.le_refl _
  | item :: rest => by
    rw [camelItems, Value.levelsOfItems, Value.levelsOfItems]
    have hitem := levels_camelCase_le item
    have hrest := levels_camelItems_le rest
    omega

theorem levels_camelMembers_le : (members : List (String × Value)) →
    Value.levelsOfMembers (camelMembers members) ≤ Value.levelsOfMembers members
  | [] => Nat.le_refl _
  | (_, value) :: rest => by
    rw [camelMembers, Value.levelsOfMembers, Value.levelsOfMembers]
    have hvalue := levels_camelCase_le value
    have hrest := levels_camelMembers_le rest
    omega

end

/-! ## Parameters -/

namespace Task

/-- The parameters of a container task that are given and known to the service. -/
def given (members : Members) : Members :=
  containerParameters.filterMap fun key =>
    match Table.get? members key with
    | none | some .null => none
    | some v => some (key, v)

def passedOn (members : Members) : Members :=
  (given members).map fun (key, v) => (Text.uncapitalize key, camelCase v)

theorem keys_given_sublist (members : Members) :
    (Table.keys (given members)).Sublist containerParameters := by
  unfold given Table.keys
  induction containerParameters with
  | nil => exact List.Sublist.slnil
  | cons key rest ih =>
    rw [List.filterMap_cons]
    split
    · exact ih.cons key
    · rename_i entry hentry
      have hkey : entry.1 = key := by
        split at hentry
        · cases hentry
        · cases hentry
        · cases hentry
          rfl
      rw [List.map_cons, hkey]
      exact ih.cons_cons key

theorem nodup_keys_passedOn (members : Members) : (Table.keys (passedOn members)).Nodup := by
  have hkeys : Table.keys (passedOn members) = (Table.keys (given members)).map Text.uncapitalize := by
    simp [Table.keys, passedOn]
  have hall : (containerParameters.map Text.uncapitalize).Nodup := by decide +kernel
  rw [hkeys]
  exact hall.sublist ((keys_given_sublist members).map _)

theorem launchRequest_obj [Room] (members : Members) : launchRequest (.obj members) =
    Nesting.copied (fun _ => .obj (passedOn members)) (.obj (given members)) := by
  have hcamel : camelCase (.obj (given members)) = .obj (passedOn members) := by
    have hentries : camelMembers (given members) = passedOn members := camelMembers_eq_map _
    rw [camelCase, hentries, Table.ofList_of_nodup (nodup_keys_passedOn members)]
  change Nesting.copied camelCase (.obj (given members)) = _
  rw [Nesting.copied, Nesting.copied, hcamel]

end Task

/-- A value that is not nested too deep is given back with its keys in lower case, which a second time
changes nothing; it keeps its shape exactly if no object in it has two keys that become equal. Each
parameter of a container task that is given is an entry of its own in the request. -/
theorem camelParameters_keeps_shape [Room] (v : Value) (members : Members) :
    (Room.copies < v.levels ∧ camelParameters v = .error tooDeep ∨
      v.levels ≤ Room.copies ∧ ∃ w, camelParameters v = .ok w ∧ camelParameters w = .ok w ∧
        (Recased v w ↔ KeysApart v)) ∧
    Task.launchRequest (.obj members) =
      Nesting.copied (fun _ => .obj (Task.passedOn members)) (.obj (Task.given members)) ∧
    (Table.keys (Task.passedOn members)).Nodup ∧
    (RecasedMembers (Task.given members) (Task.passedOn members) ↔
      MembersApart (Task.given members)) := by
  refine ⟨?_, Task.launchRequest_obj members, Task.nodup_keys_passedOn members, ?_⟩
  · rcases Nat.lt_or_ge Room.copies v.levels with hdeep | hshallow
    · exact .inl ⟨hdeep, if_pos hdeep⟩
    · have hagain : (camelCase v).levels ≤ Room.copies :=
        (levels_camelCase_le v).trans hshallow
      refine .inr ⟨hshallow, camelCase v, Nesting.copied_of_levels_le hshallow, ?_, recased_iff v⟩
      rw [camelParameters, Nesting.copied_of_levels_le hagain, camelCase_camelCase]
  · have hentries : camelMembers (Task.given members) = Task.passedOn members :=
      camelMembers_eq_map _
    rw [← hentries, recasedMembers_iff]

theorem keysApart_nested (n : Nat) : KeysApart (RetryPolicy.nested n) := by
  induction n with
  | zero => trivial
  | succ n ih => exact ⟨List.pairwise_singleton _ _, ih, trivial⟩

/-- Of a value that is nested too deep nothing is given back. -/
theorem deep_value_not_recased :
    KeysApart (RetryPolicy.nested 600) ∧
      camelParameters (RetryPolicy.nested 600) = .error tooDeep := by
  have hdeep : Room.copies < (RetryPolicy.nested 600).levels := by
    rw [RetryPolicy.levels_nested]
    decide
  refine ⟨keysApart_nested 600, ?_⟩
  rw [camelParameters, Nesting.copied, if_pos hdeep]

end

end StatesLanguage
