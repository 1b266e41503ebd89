import StatesLanguage.Proofs.Chronicle
import StatesLanguage.Proofs.Permits

/-!
# Slots that are taken

Which threads have slots, beside what all threads have said of their iterations. Since an iteration says
that it has begun only while it has a slot, no more of a join are under way than there are slots for it,
but for those that have given their slots back and said nothing.
-/

namespace StatesLanguage

def Role.join? : Role → Option Nat
  | .part join _ => some join
  | _ => none

namespace Doing

def phase? : Doing → Option Phase
  | .effect e => e.phase?
  | .leave _ _ => none

/-- A slot is given back by one who has not just said that its iteration is over. -/
def Unsaid : Doing → Prop
  | .effect _ => False
  | .leave last _ => last.bind Effect.phase? ≠ some .over

instance : DecidablePred Unsaid
  | .effect _ => inferInstanceAs (Decidable False)
  | .leave last _ => inferInstanceAs (Decidable (last.bind Effect.phase? ≠ some .over))

/-- A slot is given back by one who ends at once with the error in place of a text that there is not. -/
def Wordless [Room] : Doing → Prop
  | .effect _ => False
  | .leave _ next => ∃ e : Failure, next = .ret (.error e) ∧ e.Wordless

end Doing

/-- How often parts of a join say this of their iterations. -/
def tally (phase : Phase) (join : Nat) (deeds : List Deed) : Nat :=
  deeds.countP fun d => d.1.join? = some join ∧ d.2.phase? = some phase

/-- How often parts of a join give slots back without saying that their iterations are over. -/
def unsaid (join : Nat) (deeds : List Deed) : Nat :=
  deeds.countP fun d => d.1.join? = some join ∧ d.2.Unsaid

theorem tally_concat (phase : Phase) (join : Nat) (deeds : List Deed) (role : Role) (a : Doing) :
    tally phase join (deeds ++ [(role, a)]) =
      tally phase join deeds + if role.join? = some join ∧ a.phase? = some phase then 1 else 0 := by
  simp [tally, List.countP_append, List.countP_singleton]

theorem unsaid_concat (join : Nat) (deeds : List Deed) (role : Role) (a : Doing) :
    unsaid join (deeds ++ [(role, a)]) =
      unsaid join deeds + if role.join? = some join ∧ a.Unsaid then 1 else 0 := by
  simp [unsaid, List.countP_append, List.countP_singleton]

def Permit.taken : Permit → Bool
  | .none | .lost => false
  | .held | .busy | .told => true

theorem Permit.ne_none_of_taken {permit : Permit} (h : permit.taken) : permit ≠ .none := by
  rintro rfl
  cases h

/-- A thread, by its role, and what it has to do with slots. -/
abbrev Member := Role × Stance

namespace Member

def Occupies (id : Nat) (x : Member) : Prop :=
  x.2.slots = some id ∧ x.2.permit.taken

/-- The thread is a part of the join, with an iteration that is under way. -/
def UnderWay (join : Nat) (x : Member) : Prop :=
  x.1.join? = some join ∧ x.2.permit = .busy

instance (id : Nat) : DecidablePred (Occupies id) :=
  fun x => inferInstanceAs (Decidable (x.2.slots = some id ∧ x.2.permit.taken))

instance (join : Nat) : DecidablePred (UnderWay join) :=
  fun x => inferInstanceAs (Decidable (x.1.join? = some join ∧ x.2.permit = .busy))

end Member

/-- Which slots the parts of each join need, and the capacities of slots. -/
structure Layout where
  plans : List (Option Nat)
  sizes : List (Option Nat)
  planned : ∀ join id : Nat, plans[join]? = some (some id) → id < sizes.length

namespace Layout

variable {m : Nat}

/-- No more of the slots, if they are any, can be taken at a time. -/
def Bounds (l : Layout) (slots : Option Nat) (c : Nat) : Prop :=
  ∀ id, slots = some id → l.sizes[id]? = some (some c)

/-- What is known of the slots that a thread has to do with. -/
structure Suits (l : Layout) (m : Nat) (x : Member) : Prop where
  part : ∀ join, x.1.join? = some join → l.plans[join]? = some x.2.slots
  slots : ∀ id, x.2.slots = some id → id < l.sizes.length
  taken : x.2.permit ≠ .none → x.2.slots.isSome
  made : ∀ id, x.2.made = some id → ∃ capacity, l.sizes[id]? = some capacity ∧ x.2.sized capacity
  main : x.1 = .main → ∀ capacity, x.2.sized capacity → capacity = some m

structure Extends (l l' : Layout) : Prop where
  plans : l.plans <+: l'.plans
  sizes : l.sizes <+: l'.sizes

def pushPlan (l : Layout) (slots : Option Nat) (h : ∀ id, slots = some id → id < l.sizes.length) :
    Layout where
  plans := l.plans ++ [slots]
  sizes := l.sizes
  planned join id hid := by
    rw [List.getElem?_append] at hid
    split at hid
    · exact l.planned join id hid
    · exact h id (List.mem_singleton.mp (List.mem_of_getElem? hid)).symm

def pushSize (l : Layout) (capacity : Option Nat) : Layout where
  plans := l.plans
  sizes := l.sizes ++ [capacity]
  planned join id hid := by
    have hold := l.planned join id hid
    rw [List.length_append]
    omega

variable {l l' : Layout} {x : Member}

theorem extends_pushPlan (l : Layout) {slots : Option Nat}
    (h : ∀ id, slots = some id → id < l.sizes.length) : l.Extends (l.pushPlan slots h) :=
  ⟨List.prefix_append _ _, List.prefix_rfl⟩

theorem extends_pushSize (l : Layout) (capacity : Option Nat) : l.Extends (l.pushSize capacity) :=
  ⟨List.prefix_rfl, List.prefix_append _ _⟩

theorem prefix_getElem?_eq {α : Type} {xs ys : List α} (h : xs <+: ys) {i : Nat}
    (hi : i < xs.length) : ys[i]? = xs[i]? := by
  obtain ⟨more, rfl⟩ := h
  exact List.getElem?_append_left hi

theorem prefix_getElem?_some {α : Type} {xs ys : List α} (h : xs <+: ys) {i : Nat} {a : α}
    (hi : xs[i]? = some a) : ys[i]? = some a :=
  (prefix_getElem?_eq h (List.getElem?_eq_some_iff.mp hi).1).trans hi

theorem Bounds.extend {slots : Option Nat} {c : Nat} (h : l.Bounds slots c) (hmore : l.Extends l') :
    l'.Bounds slots c :=
  fun id hid => prefix_getElem?_some hmore.sizes (h id hid)

theorem Suits.extend (h : l.Suits m x) (hmore : l.Extends l') : l'.Suits m x where
  part join hjoin := prefix_getElem?_some hmore.plans (h.part join hjoin)
  slots id hid := (h.slots id hid).trans_le hmore.sizes.length_le
  taken := h.taken
  made id hid := by
    obtain ⟨capacity, hcapacity, hsized⟩ := h.made id hid
    exact ⟨capacity, prefix_getElem?_some hmore.sizes hcapacity, hsized⟩
  main := h.main

theorem Suits.setPermit (h : l.Suits m x) (permit : Permit) (hslots : x.2.slots.isSome) :
    l.Suits m (x.1, x.2.setPermit permit) :=
  ⟨h.part, h.slots, fun _ => hslots, h.made, h.main⟩

theorem Suits.setMade (h : l.Suits m x) {made : Option Nat}
    (hmade : ∀ id, made = some id → ∃ capacity, l.sizes[id]? = some capacity ∧ x.2.sized capacity) :
    l.Suits m (x.1, x.2.setMade made) :=
  ⟨h.part, h.slots, h.taken, hmade, h.main⟩

theorem Suits.lt_of_made (h : l.Suits m x) {id : Nat} (hid : x.2.made = some id) :
    id < l.sizes.length := by
  obtain ⟨capacity, hcapacity, -⟩ := h.made id hid
  exact (List.getElem?_eq_some_iff.mp hcapacity).1

end Layout

/-- What threads have to do with slots fits the slots that there are. -/
structure Allotted (m : Nat) (l : Layout) (s : Scheduler) (members : Multiset Member) : Prop where
  plans : l.plans.length = s.joins.size
  sizes : l.sizes.length = s.slots.size
  suits : ∀ x ∈ members, l.Suits m x
  free : ∀ id c, l.sizes[id]? = some (some c) → ∃ slots n, s.slots[id]? = some slots ∧
    slots.free = some n ∧ n + members.countP (Member.Occupies id) ≤ c

/-- What has been said of iterations fits those that are under way, and no bound was ever exceeded. -/
structure Tallied [Room] (l : Layout) (members : Multiset Member) (deeds : List Deed) : Prop where
  known : ∀ d ∈ deeds, ∀ join, d.1.join? = some join → join < l.plans.length
  balance : ∀ join, tally .begun join deeds =
    tally .over join deeds + unsaid join deeds + members.countP (Member.UnderWay join)
  bounded : ∀ pre, pre <+: deeds → ∀ join slots c, l.plans[join]? = some slots →
    l.Bounds slots c → tally .begun join pre ≤ tally .over join pre + unsaid join pre + c
  wordless : ∀ d ∈ deeds, d.2.Unsaid → d.2.Wordless

section

variable [Room] {m : Nat} {l : Layout} {s : Scheduler} {members rest : Multiset Member} {x y : Member}
  {deeds : List Deed}

omit [Room] in
theorem countP_le_of_imp {α : Type} {p q : α → Prop} [DecidablePred p] [DecidablePred q]
    {xs : Multiset α} (h : ∀ a ∈ xs, p a → q a) : xs.countP p ≤ xs.countP q := by
  induction xs using Quotient.inductionOn
  exact List.countP_mono_left (by simpa using h)

omit [Room] in
theorem Allotted.underWay_le (h : Allotted m l s members) {join c : Nat} {slots : Option Nat}
    (hplan : l.plans[join]? = some slots) (hbounds : l.Bounds slots c) :
    members.countP (Member.UnderWay join) ≤ c := by
  have hslots : ∀ x ∈ members, x.UnderWay join → x.2.permit.taken ∧ x.2.slots = slots := by
    intro x hx hunder
    have hpart := (h.suits x hx).part join hunder.1
    refine ⟨?_, Option.some.inj (hpart.symm.trans hplan)⟩
    rw [hunder.2]
    rfl
  cases slots with
  | none =>
    rw [Multiset.countP_eq_zero.mpr]
    · exact Nat.zero_le c
    · intro x hx hunder
      obtain ⟨hpermit, hnone⟩ := hslots x hx hunder
      have hsome := (h.suits x hx).taken (Permit.ne_none_of_taken hpermit)
      simp [hnone] at hsome
  | some id =>
    obtain ⟨-, n, -, -, hcount⟩ := h.free id c (hbounds id rfl)
    have hle : members.countP (Member.UnderWay join) ≤ members.countP (Member.Occupies id) :=
      countP_le_of_imp fun x hx hunder => (hslots x hx hunder).symm
    omega

theorem Tallied.extend {l' : Layout} (h : Tallied l members deeds) (hmore : l.Extends l') :
    Tallied l' members deeds where
  known d hd join hjoin := (h.known d hd join hjoin).trans_le hmore.plans.length_le
  balance := h.balance
  bounded pre hpre join slots c hplan hbounds := by
    by_cases hold : join < l.plans.length
    · rw [Layout.prefix_getElem?_eq hmore.plans hold] at hplan
      refine h.bounded pre hpre join slots c hplan fun id hid => ?_
      rw [← Layout.prefix_getElem?_eq hmore.sizes (l.planned join id (hid ▸ hplan))]
      exact hbounds id hid
    · have hnone : tally .begun join pre = 0 := by
        refine List.countP_eq_zero.mpr fun d hd => ?_
        simp only [decide_eq_true_eq]
        exact fun hjoin => hold (h.known d (hpre.subset hd) join hjoin.1)
      omega
  wordless := h.wordless

theorem Tallied.add (h : Tallied l members deeds) {more : Multiset Member}
    (hmore : ∀ x ∈ more, x.2.permit ≠ .busy) : Tallied l (more + members) deeds where
  known := h.known
  balance join := by
    have hnone : more.countP (Member.UnderWay join) = 0 :=
      Multiset.countP_eq_zero.mpr fun x hx hunder => hmore x hx hunder.2
    rw [Multiset.countP_add, hnone, zero_add]
    exact h.balance join
  bounded := h.bounded
  wordless := h.wordless

theorem Tallied.drop (h : Tallied l (x ::ₘ rest) deeds) (hx : x.2.permit ≠ .busy) :
    Tallied l rest deeds where
  known := h.known
  balance join := by
    have hbefore := h.balance join
    rwa [Multiset.countP_cons_of_neg _ fun hunder => hx hunder.2] at hbefore
  bounded := h.bounded
  wordless := h.wordless

omit [Room] in
theorem Allotted.restock {s' : Scheduler} {members' : Multiset Member} (h : Allotted m l s members)
    (hjoins : s'.joins.size = s.joins.size) (hsize : s'.slots.size = s.slots.size)
    (hsuits : ∀ x ∈ members', l.Suits m x) (id : Nat)
    (hother : ∀ other ≠ id, s'.slots[other]? = s.slots[other]? ∧
      members'.countP (Member.Occupies other) ≤ members.countP (Member.Occupies other))
    (hid : ∀ c slots n, s.slots[id]? = some slots → slots.free = some n →
      n + members.countP (Member.Occupies id) ≤ c → ∃ slots' n', s'.slots[id]? = some slots' ∧
        slots'.free = some n' ∧ n' + members'.countP (Member.Occupies id) ≤ c) :
    Allotted m l s' members' where
  plans := h.plans.trans hjoins.symm
  sizes := h.sizes.trans hsize.symm
  suits := hsuits
  free other c hsizes := by
    obtain ⟨slots, n, hslots, hfree, hcount⟩ := h.free other c hsizes
    by_cases heq : other = id
    · subst heq
      exact hid c slots n hslots hfree hcount
    · obtain ⟨hsame, hle⟩ := hother other heq
      exact ⟨slots, n, hsame.trans hslots, hfree, by omega⟩

omit [Room] in
theorem Allotted.congr {s' : Scheduler} (h : Allotted m l s members) (hslots : s'.slots = s.slots)
    (hjoins : s'.joins.size = s.joins.size) : Allotted m l s' members :=
  ⟨h.plans.trans hjoins.symm, by rw [h.sizes, hslots], h.suits, by rw [hslots]; exact h.free⟩

omit [Room] in
theorem Allotted.drop (h : Allotted m l s (x ::ₘ rest)) : Allotted m l s rest where
  plans := h.plans
  sizes := h.sizes
  suits y hy := h.suits y (Multiset.mem_cons_of_mem hy)
  free id c hid := by
    obtain ⟨slots, n, hslots, hfree, hcount⟩ := h.free id c hid
    have hle := Multiset.countP_le_of_le (Member.Occupies id) (Multiset.le_cons_self rest x)
    exact ⟨slots, n, hslots, hfree, by omega⟩

omit [Room] in
theorem Allotted.add (h : Allotted m l s members) {more : Multiset Member}
    (hsuits : ∀ x ∈ more, l.Suits m x) (hmore : ∀ x ∈ more, x.2.permit = .none) :
    Allotted m l s (more + members) where
  plans := h.plans
  sizes := h.sizes
  suits x hx := (Multiset.mem_add.mp hx).elim (hsuits x) (h.suits x)
  free id c hid := by
    have hnone : more.countP (Member.Occupies id) = 0 :=
      Multiset.countP_eq_zero.mpr fun x hx hoccupies =>
        Permit.ne_none_of_taken hoccupies.2 (hmore x hx)
    rw [Multiset.countP_add, hnone, zero_add]
    exact h.free id c hid

omit [Room] in
theorem Allotted.pushPlan {s' : Scheduler} (h : Allotted m l s members) {slots : Option Nat}
    (hplan : ∀ id, slots = some id → id < l.sizes.length) (hslots : s'.slots = s.slots)
    (hjoins : s'.joins.size = s.joins.size + 1) : Allotted m (l.pushPlan slots hplan) s' members where
  plans := by simp [Layout.pushPlan, h.plans, hjoins]
  sizes := by rw [hslots]; exact h.sizes
  suits x hx := (h.suits x hx).extend (l.extends_pushPlan hplan)
  free := by rw [hslots]; exact h.free

omit [Room] in
theorem Allotted.pushSize (h : Allotted m l s members) (capacity : Option Nat) :
    Allotted m (l.pushSize capacity) { s with slots := s.slots.push ⟨capacity, []⟩ } members where
  plans := h.plans
  sizes := by simp [Layout.pushSize, h.sizes]
  suits x hx := (h.suits x hx).extend (l.extends_pushSize capacity)
  free id c hid := by
    rw [Layout.pushSize, List.getElem?_append] at hid
    split at hid
    · rename_i hold
      obtain ⟨slots, n, hslots, hrest⟩ := h.free id c hid
      rw [h.sizes] at hold
      exact ⟨slots, n, (Array.getElem?_push_lt hold).trans (Array.getElem?_eq_getElem hold ▸ hslots), hrest⟩
    · rename_i hnew
      have hlast : id = s.slots.size := by
        have hlt := (List.getElem?_eq_some_iff.mp hid).1
        have hlength := h.sizes
        simp only [List.length_singleton] at hlt
        omega
      subst hlast
      obtain rfl := List.mem_singleton.mp (List.mem_of_getElem? hid)
      have hnone : members.countP (Member.Occupies s.slots.size) = 0 := by
        refine Multiset.countP_eq_zero.mpr fun x hx hoccupies => ?_
        have hlt := (h.suits x hx).slots _ hoccupies.1
        rw [h.sizes] at hlt
        exact lt_irrefl _ hlt
      exact ⟨⟨some c, []⟩, c, Array.getElem?_push_size, rfl, by rw [hnone]; exact le_rfl⟩

/-! ## What a thread does -/

omit [Room] in
theorem countP_cons_le_succ {α : Type} (p : α → Prop) [DecidablePred p] (a : α) (rest : Multiset α) :
    (a ::ₘ rest).countP p ≤ rest.countP p + 1 := by
  rw [Multiset.countP_cons]
  split <;> omega

omit [Room] in
theorem countP_cons_le {α : Type} {p : α → Prop} [DecidablePred p] {a b : α} (rest : Multiset α)
    (h : p b → p a) : (b ::ₘ rest).countP p ≤ (a ::ₘ rest).countP p := by
  by_cases hb : p b
  · rw [Multiset.countP_cons_of_pos _ hb, Multiset.countP_cons_of_pos _ (h hb)]
  · rw [Multiset.countP_cons_of_neg _ hb]
    exact Multiset.countP_le_of_le p (Multiset.le_cons_self rest a)

omit [Room] in
theorem Allotted.replace (h : Allotted m l s (x ::ₘ rest)) (hsuits : l.Suits m y)
    (hoccupies : ∀ id, y.Occupies id → x.Occupies id) : Allotted m l s (y ::ₘ rest) where
  plans := h.plans
  sizes := h.sizes
  suits z hz := by
    rcases Multiset.mem_cons.mp hz with rfl | hrest
    · exact hsuits
    · exact h.suits z (Multiset.mem_cons_of_mem hrest)
  free id c hid := by
    obtain ⟨slots, n, hslots, hfree, hcount⟩ := h.free id c hid
    have hle := countP_cons_le rest (hoccupies id)
    exact ⟨slots, n, hslots, hfree, by omega⟩

theorem Tallied.replace (h : Tallied l (x ::ₘ rest) deeds)
    (hunder : ∀ join, y.UnderWay join ↔ x.UnderWay join) : Tallied l (y ::ₘ rest) deeds where
  known := h.known
  balance join := by
    have hbefore := h.balance join
    rw [Multiset.countP_cons] at hbefore ⊢
    simpa only [hunder join] using hbefore
  bounded := h.bounded
  wordless := h.wordless

variable {role : Role} {g g' : Stance} {e : Effect} {r : e.Reply}

omit [Room] in
theorem Allotted.does (h : Allotted m l s ((role, g) ::ₘ rest)) (hdoes : permits.does g e r g') :
    Allotted m l s ((role, g') ::ₘ rest) := by
  have hsuits := h.suits _ (Multiset.mem_cons_self _ _)
  have hreplace {permit permit' : Permit} (hpermit : g.permit = permit) (htaken : permit.taken) :
      Allotted m l s ((role, g.setPermit permit') ::ₘ rest) := by
    subst hpermit
    exact h.replace (hsuits.setPermit _ (hsuits.taken (Permit.ne_none_of_taken htaken)))
      fun id hid => ⟨hid.1, htaken⟩
  simp only [permits] at hdoes
  split at hdoes
  · exact hdoes.2 ▸ h
  · obtain ⟨hheld, rfl⟩ := hdoes
    exact hreplace hheld rfl
  · obtain ⟨hbusy, rfl⟩ := hdoes
    exact hreplace hbusy rfl

omit [Room] in
theorem Allotted.lt_plans (h : Allotted m l s ((role, g) ::ₘ rest)) {join : Nat}
    (hjoin : role.join? = some join) : join < l.plans.length := by
  have hpart := (h.suits _ (Multiset.mem_cons_self _ _)).part join hjoin
  exact (List.getElem?_eq_some_iff.mp hpart).1

theorem Tallied.does (h : Tallied l ((role, g) ::ₘ rest) deeds)
    (hallotted : Allotted m l s ((role, g') ::ₘ rest)) (hdoes : permits.does g e r g') :
    Tallied l ((role, g') ::ₘ rest) (deeds ++ [(role, .effect e)]) := by
  have hunsaid (join : Nat) : unsaid join (deeds ++ [(role, .effect e)]) = unsaid join deeds := by
    simp [unsaid_concat, Doing.Unsaid]
  have hbalance : ∀ join, tally .begun join (deeds ++ [(role, .effect e)]) =
      tally .over join (deeds ++ [(role, .effect e)]) + unsaid join (deeds ++ [(role, .effect e)]) +
        Multiset.countP (Member.UnderWay join) ((role, g') ::ₘ rest) := by
    intro join
    have hbefore := h.balance join
    rw [hunsaid, tally_concat, tally_concat]
    rw [Multiset.countP_cons] at hbefore ⊢
    simp only [permits] at hdoes
    split at hdoes
    · rename_i hphase
      obtain ⟨-, rfl⟩ := hdoes
      simpa [Doing.phase?, hphase] using hbefore
    · rename_i hphase
      obtain ⟨hheld, rfl⟩ := hdoes
      simp [Member.UnderWay, Stance.setPermit, Doing.phase?, hphase, hheld] at hbefore ⊢
      omega
    · rename_i hphase
      obtain ⟨hbusy, rfl⟩ := hdoes
      simp [Member.UnderWay, Stance.setPermit, Doing.phase?, hphase, hbusy] at hbefore ⊢
      omega
  refine ⟨fun d hd join hjoin => ?_, hbalance, fun pre hpre join slots c hplan hbounds => ?_,
    fun d hd hd' => ?_⟩
  · rcases List.mem_append.mp hd with hold | hnew
    · exact h.known d hold join hjoin
    · obtain rfl := List.mem_singleton.mp hnew
      exact hallotted.lt_plans hjoin
  · rcases List.prefix_concat_iff.mp hpre with rfl | hearlier
    · have hunder := hallotted.underWay_le hplan hbounds
      rw [hbalance join]
      omega
    · exact h.bounded pre hearlier join slots c hplan hbounds
  · rcases List.mem_append.mp hd with hold | hnew
    · exact h.wordless d hold hd'
    · obtain rfl := List.mem_singleton.mp hnew
      exact hd'.elim

/-- How a thread ends: without a slot, and having said that its iteration is over unless there is no
text of the error. -/
def Ends (o : Outcome Value) (g : Stance) : Prop :=
  g.permit = .none ∨ g.permit = .lost ∧ ∃ e : Failure, o = .error e ∧ e.Wordless

/-- The process honours the pact from a stance on in which a thread can be between its turns. -/
structure Obliged (p : Process (Outcome Value)) (g : Stance) : Prop where
  settled : g.permit ≠ .told
  honours : p.Honours permits Ends g

/-- Where a thread stops that honours the pact. -/
def Stops (g : Stance) : Pause (Outcome Value) → Prop
  | .done o => Ends o g
  | .waiting wt next => permits.mayWait g wt ∧ ∀ r, Obliged (next r) (permits.after g wt r)

omit [Room] in
theorem permit_after_ne_told {wt : Wait} (h : permits.mayWait g wt) (r : wt.Reply) :
    (permits.after g wt r).permit ≠ .told := by
  cases wt with
  | sleep | call => exact Stance.Free.ne_told h
  | join | makeSlots => exact Stance.Free.ne_told h.1
  | takeSlot =>
    intro h
    cases h
  | freeSlot =>
    simp only [permits, Stance.setPermit]
    split
    · intro h
      cases h
    · intro h
      cases h

/-- Having given its slot back without a word, a thread ends at once. -/
theorem eq_ret_of_lost {p : Process (Outcome Value)} (h : p.Honours permits Ends g)
    (hlost : g.permit = .lost) : ∃ e : Failure, p = .ret (.error e) ∧ e.Wordless := by
  have hfree : ¬g.Free := by simp [Stance.Free, hlost]
  cases p with
  | ret o =>
    obtain hnone | ⟨-, e, rfl, he⟩ := h
    · simp [hlost] at hnone
    · exact ⟨e, rfl, he⟩
  | effect e next =>
    obtain ⟨g', hdoes, -⟩ := h ((default : World).perform e).1 trivial
    simp only [permits] at hdoes
    split at hdoes
    · exact absurd hdoes.1 hfree
    · simp [hlost] at hdoes
    · simp [hlost] at hdoes
  | wait wt next =>
    have hmay := h.1
    cases wt with
    | sleep | call => exact absurd hmay hfree
    | join | makeSlots => exact absurd hmay.1 hfree
    | takeSlot => simp [permits, hlost] at hmay
    | freeSlot => simp [permits, hlost] at hmay

/-- The thread has just said that its iteration is over. -/
def JustTold (g : Stance) (last : Option Effect) : Prop :=
  g.permit = .told ↔ last.bind Effect.phase? = some .over

omit [Room] in
theorem justTold_of_does {g g' : Stance} {e : Effect} {r : e.Reply} (h : permits.does g e r g') :
    JustTold g' (some e) := by
  simp only [permits] at h
  split at h
  · rename_i hphase
    obtain ⟨hfree, rfl⟩ := h
    simp [JustTold, hphase, hfree.ne_told]
  · rename_i hphase
    obtain ⟨-, rfl⟩ := h
    simp [JustTold, hphase, Stance.setPermit]
  · rename_i hphase
    obtain ⟨-, rfl⟩ := h
    simp [JustTold, hphase, Stance.setPermit]

/-- Who gives its slot back has just said that its iteration is over, or has no words for its error. -/
theorem Tallied.leave {permit : Permit} (h : Tallied l ((role, g) ::ₘ rest) deeds)
    (hallotted : Allotted m l s ((role, g) ::ₘ rest)) {last : Option Effect} (hlast : JustTold g last)
    {next : Process (Outcome Value)}
    (hpermit : g.permit = .told ∧ permit = .none ∨
      g.permit = .busy ∧ permit = .lost ∧ (Doing.leave last next).Wordless) :
    Tallied l ((role, g.setPermit permit) ::ₘ rest) (deeds ++ [(role, .leave last next)]) := by
  have htally (phase : Phase) (join : Nat) :
      tally phase join (deeds ++ [(role, .leave last next)]) = tally phase join deeds := by
    simp [tally_concat, Doing.phase?]
  have hbalance (join : Nat) : unsaid join (deeds ++ [(role, .leave last next)]) +
      Multiset.countP (Member.UnderWay join) ((role, g.setPermit permit) ::ₘ rest) =
        unsaid join deeds + Multiset.countP (Member.UnderWay join) ((role, g) ::ₘ rest) := by
    rw [unsaid_concat, Multiset.countP_cons, Multiset.countP_cons]
    rcases hpermit with ⟨htold, rfl⟩ | ⟨hbusy, rfl, -⟩
    · simp [Doing.Unsaid, Member.UnderWay, Stance.setPermit, hlast.mp htold, htold]
    · have hunsaid : (Doing.leave last next).Unsaid := fun hover => by simp [hlast.mpr hover] at hbusy
      simp [hunsaid, Member.UnderWay, Stance.setPermit, hbusy]
      omega
  refine ⟨fun d hd join hjoin => ?_, fun join => ?_, fun pre hpre join slots c hplan hbounds => ?_,
    fun d hd hunsaid => ?_⟩
  · rcases List.mem_append.mp hd with hold | hnew
    · exact h.known d hold join hjoin
    · obtain rfl := List.mem_singleton.mp hnew
      exact hallotted.lt_plans hjoin
  · have hbefore := h.balance join
    have hsame := hbalance join
    rw [htally, htally]
    omega
  · rcases List.prefix_concat_iff.mp hpre with rfl | hearlier
    · have hbefore := h.bounded deeds List.prefix_rfl join slots c hplan hbounds
      rw [htally, htally, unsaid_concat]
      omega
    · exact h.bounded pre hearlier join slots c hplan hbounds
  · rcases List.mem_append.mp hd with hold | hnew
    · exact h.wordless d hold hunsaid
    · obtain rfl := List.mem_singleton.mp hnew
      rcases hpermit with ⟨htold, -⟩ | ⟨-, -, hwordless⟩
      · exact absurd (hlast.mp htold) hunsaid
      · exact hwordless

theorem Allotted.advance {p : Process (Outcome Value)} (hp : p.Honours permits Ends g) (w : World)
    {last : Option Effect} (hlast : JustTold g last)
    (hallotted : Allotted m l s ((role, g) ::ₘ rest)) (htallied : Tallied l ((role, g) ::ₘ rest) deeds) :
    ∃ g', Stops g' (p.advance w).1 ∧ JustTold g' ((p.effects w).getLast?.or last) ∧
      Allotted m l s ((role, g') ::ₘ rest) ∧
      Tallied l ((role, g') ::ₘ rest) (deeds ++ (p.effects w).map fun e => (role, .effect e)) := by
  induction p generalizing g deeds w last with
  | ret o => exact ⟨g, hp, hlast, hallotted, by simpa [Process.effects] using htallied⟩
  | wait wt next _ =>
    have hstops : Stops g (.waiting wt next) :=
      ⟨hp.1, fun r => ⟨permit_after_ne_told hp.1 r, hp.2 r trivial⟩⟩
    exact ⟨g, hstops, hlast, hallotted, by simpa [Process.effects] using htallied⟩
  | effect e next ih =>
    obtain ⟨g', hdoes, hrest⟩ := hp _ trivial
    have hallotted' := hallotted.does hdoes
    obtain ⟨g'', hstops, hlast'', hallotted'', htallied''⟩ :=
      ih _ hrest _ (justTold_of_does hdoes) hallotted' (htallied.does hallotted' hdoes)
    refine ⟨g'', hstops, ?_, hallotted'', ?_⟩
    · rw [Process.effects, List.getLast?_cons, Option.some_or]
      rwa [Option.or_some] at hlast''
    · rw [List.append_assoc] at htallied''
      exact htallied''

/-! ## Slots of a scheduler -/

def Scheduler.owner? (s : Scheduler) (join : Nat) : Option Role :=
  s.joins[join]?.map (·.role)

/-- The thread waits for one of the slots, to go on with it. -/
def Thread.Waits (m : Nat) (l : Layout) (id : Nat) (t : Thread) : Prop :=
  ∃ g, g.slots = some id ∧ g.permit = .held ∧ l.Suits m (t.role, g) ∧ Obliged t.process g

theorem Thread.Waits.extend {id : Nat} {l' : Layout} {t : Thread} (h : t.Waits m l id)
    (hmore : l.Extends l') : t.Waits m l' id := by
  obtain ⟨g, hid, hpermit, hsuits, hp⟩ := h
  exact ⟨g, hid, hpermit, hsuits.extend hmore, hp⟩

/-- All that is known of slots, given the threads that do not wait for one. -/
structure Stocked (m : Nat) (l : Layout) (s : Scheduler) (members : Multiset Member)
    (deeds : List Deed) : Prop where
  allotted : Allotted m l s members
  tallied : Tallied l members deeds
  queued : ∀ (id : Nat) (slots : Slots), s.slots[id]? = some slots →
    ∀ t ∈ slots.waiting, t.Waits m l id
  attempts : ∀ join slots, s.owner? join = some .main → l.plans[join]? = some slots →
    l.Bounds slots m

namespace Stocked

variable {s' : Scheduler} {members' : Multiset Member} {id : Nat}

theorem congr (h : Stocked m l s members deeds) (hslots : s'.slots = s.slots)
    (hjoins : s'.joins.size = s.joins.size) (howner : ∀ join, s'.owner? join = s.owner? join) :
    Stocked m l s' members deeds where
  allotted := h.allotted.congr hslots hjoins
  tallied := h.tallied
  queued := by rw [hslots]; exact h.queued
  attempts := by simp only [howner]; exact h.attempts

theorem of_eq (h : Stocked m l s members deeds) (hslots : s'.slots = s.slots)
    (hjoins : s'.joins = s.joins) : Stocked m l s' members deeds :=
  h.congr hslots (by rw [hjoins]) fun join => by rw [Scheduler.owner?, Scheduler.owner?, hjoins]

theorem suits (h : Stocked m l s (x ::ₘ rest) deeds) : l.Suits m x :=
  h.allotted.suits x (Multiset.mem_cons_self x rest)

theorem drop (h : Stocked m l s (x ::ₘ rest) deeds) (hx : x.2.permit ≠ .busy) :
    Stocked m l s rest deeds :=
  ⟨h.allotted.drop, h.tallied.drop hx, h.queued, h.attempts⟩

theorem replace (h : Stocked m l s ((role, g) ::ₘ rest) deeds) (hsuits : l.Suits m (role, g'))
    (hoccupies : ∀ id, Member.Occupies id (role, g') → Member.Occupies id (role, g))
    (hbusy : g'.permit = .busy ↔ g.permit = .busy) : Stocked m l s ((role, g') ::ₘ rest) deeds :=
  ⟨h.allotted.replace hsuits hoccupies, h.tallied.replace fun _ => and_congr_right' hbusy, h.queued,
    h.attempts⟩

theorem forget (h : Stocked m l s ((role, g) ::ₘ rest) deeds) :
    Stocked m l s ((role, g.setMade none) ::ₘ rest) deeds :=
  h.replace (h.suits.setMade nofun) (fun _ hoccupies => hoccupies) Iff.rfl

theorem makeSlots (h : Stocked m l s ((role, g) ::ₘ rest) deeds) {capacity : Option Nat}
    (hsized : g.sized capacity) :
    Stocked m (l.pushSize capacity) { s with slots := s.slots.push ⟨capacity, []⟩ }
      ((role, g.setMade (some s.slots.size)) ::ₘ rest) deeds := by
  have hmore := l.extends_pushSize capacity
  have hpushed : Stocked m (l.pushSize capacity) { s with slots := s.slots.push ⟨capacity, []⟩ }
      ((role, g) ::ₘ rest) deeds := by
    refine ⟨h.allotted.pushSize capacity, h.tallied.extend hmore, fun id slots hslots t ht => ?_,
      fun join slots howner hplan => (h.attempts join slots howner hplan).extend hmore⟩
    rw [Array.getElem?_push] at hslots
    split at hslots
    · cases hslots
      cases ht
    · exact (h.queued id slots hslots t ht).extend hmore
  refine hpushed.replace (hpushed.suits.setMade fun id hid => ⟨capacity, ?_, hsized⟩)
    (fun _ hoccupies => hoccupies) Iff.rfl
  rw [← Option.some.inj hid, ← h.allotted.sizes]
  exact List.getElem?_concat_length

theorem pushJoin (h : Stocked m l s ((role, g) ::ₘ rest) deeds) {slots : Option Nat}
    (hmade : ∀ id, slots = some id → g.made = some id)
    (hplan : ∀ id, slots = some id → id < l.sizes.length) (hslots : s'.slots = s.slots) {j : Join}
    (hjoins : s'.joins = s.joins.push j) (hrole : j.role = role) :
    Stocked m (l.pushPlan slots hplan) s' ((role, g) ::ₘ rest) deeds := by
  have hmore := l.extends_pushPlan hplan
  refine ⟨h.allotted.pushPlan hplan hslots (by rw [hjoins, Array.size_push]), h.tallied.extend hmore,
    fun id slots' hat t ht => ?_, fun join slots' howner hjoin => ?_⟩
  · rw [hslots] at hat
    exact (h.queued id slots' hat t ht).extend hmore
  · rw [Layout.pushPlan, List.getElem?_append] at hjoin
    rw [Scheduler.owner?, hjoins, Array.getElem?_push, ← h.allotted.plans] at howner
    split at hjoin
    · rename_i hold
      rw [if_neg (by omega)] at howner
      exact (h.attempts join slots' howner hjoin).extend hmore
    · -- The main thread has just made the slots of a new attempt.
      rename_i hnew
      have hlast : join = l.plans.length := by
        have hlt := (List.getElem?_eq_some_iff.mp hjoin).1
        rw [List.length_singleton] at hlt
        omega
      rw [if_pos hlast] at howner
      obtain rfl := List.mem_singleton.mp (List.mem_of_getElem? hjoin)
      intro id hid
      obtain ⟨capacity, hcapacity, hsized⟩ := h.suits.made id (hmade id hid)
      have hmain : role = .main := hrole.symm.trans (Option.some.inj howner)
      exact h.suits.main hmain capacity hsized ▸ hcapacity

theorem add (h : Stocked m l s members deeds) {more : Multiset Member}
    (hmore : ∀ x ∈ more, l.Suits m x ∧ x.2.permit = .none) : Stocked m l s (more + members) deeds :=
  ⟨h.allotted.add (fun x hx => (hmore x hx).1) fun x hx => (hmore x hx).2,
    h.tallied.add fun x hx => by simp [(hmore x hx).2], h.queued, h.attempts⟩

theorem restock {old new : Slots} {deeds' : List Deed} (h : Stocked m l s members deeds) (hold : s.slots[id]? = some old)
    (hwaiting : ∀ t ∈ new.waiting, t.Waits m l id) (hsuits : ∀ x ∈ members', l.Suits m x)
    (hother : ∀ other ≠ id,
      members'.countP (Member.Occupies other) ≤ members.countP (Member.Occupies other))
    (hfree : ∀ c n, old.free = some n → n + members.countP (Member.Occupies id) ≤ c →
      ∃ n', new.free = some n' ∧ n' + members'.countP (Member.Occupies id) ≤ c)
    (htallied : Tallied l members' deeds') :
    Stocked m l { s with slots := s.slots.setIfInBounds id new } members' deeds' := by
  have hat : (s.slots.setIfInBounds id new)[id]? = some new :=
    Array.getElem?_setIfInBounds_self_of_lt (Array.getElem?_eq_some_iff.mp hold).1
  have hsame {other : Nat} (hne : other ≠ id) :
      (s.slots.setIfInBounds id new)[other]? = s.slots[other]? :=
    Array.getElem?_setIfInBounds_ne (Ne.symm hne)
  refine ⟨?_, htallied, fun other slots hslots t ht => ?_, h.attempts⟩
  · refine h.allotted.restock rfl Array.size_setIfInBounds hsuits id
      (fun other hne => ⟨hsame hne, hother other hne⟩) fun c slots n hslots hn hcount => ?_
    obtain rfl := Option.some.inj (hold.symm.trans hslots)
    obtain ⟨n', hn', hcount'⟩ := hfree c n hn hcount
    exact ⟨new, n', hat, hn', hcount'⟩
  · by_cases hid : other = id
    · subst hid
      obtain rfl := Option.some.inj (hat.symm.trans hslots)
      exact hwaiting t ht
    · exact h.queued other slots ((hsame hid).symm.trans hslots) t ht

section Holding

variable (h : Stocked m l s ((role, g) ::ₘ rest) deeds) (hslots : g.slots = some id)

include hslots

omit [Room] in
theorem countP_setPermit_le (permit : Permit) {other : Nat} (hother : other ≠ id) :
    ((role, g.setPermit permit) ::ₘ rest).countP (Member.Occupies other) ≤
      ((role, g) ::ₘ rest).countP (Member.Occupies other) := by
  refine countP_cons_le rest fun hoccupies => absurd ?_ hother
  exact Option.some.inj (hoccupies.1.symm.trans hslots)

include h

theorem suits_setPermit (permit : Permit) :
    ∀ x ∈ (role, g.setPermit permit) ::ₘ rest, l.Suits m x := by
  intro x hx
  rcases Multiset.mem_cons.mp hx with rfl | hrest
  · exact h.suits.setPermit permit (by simp [hslots])
  · exact h.allotted.suits x (Multiset.mem_cons_of_mem hrest)

theorem hold_unbounded (hpermit : g.permit = .none)
    (hnone : ∀ slots n, s.slots[id]? = some slots → slots.free ≠ some n) :
    Stocked m l s ((role, g.setPermit .held) ::ₘ rest) deeds where
  allotted := h.allotted.restock rfl rfl (h.suits_setPermit hslots .held) id
    (fun other hne => ⟨rfl, countP_setPermit_le hslots .held hne⟩)
    fun c slots n hat hfree => absurd hfree (hnone slots n hat)
  tallied := h.tallied.replace fun _ => and_congr_right' (by simp [Stance.setPermit, hpermit])
  queued := h.queued
  attempts := h.attempts

theorem hold (hpermit : g.permit = .none) {slots : Slots} {n : Nat} (hat : s.slots[id]? = some slots)
    (hfree : slots.free = some (n + 1)) :
    Stocked m l { s with slots := s.slots.setIfInBounds id ⟨some n, []⟩ }
      ((role, g.setPermit .held) ::ₘ rest) deeds := by
  refine h.restock hat nofun (h.suits_setPermit hslots .held)
    (fun other hne => countP_setPermit_le hslots .held hne) (fun c n' hn' hcount => ?_)
    (h.tallied.replace fun _ => and_congr_right' (by simp [Stance.setPermit, hpermit]))
  rw [hfree] at hn'
  cases hn'
  refine ⟨n, rfl, ?_⟩
  rw [Multiset.countP_cons_of_neg _ fun hoccupies =>
    Permit.ne_none_of_taken hoccupies.2 hpermit] at hcount
  have hone := countP_cons_le_succ (Member.Occupies id) (role, g.setPermit .held) rest
  omega

theorem queue (hpermit : g.permit = .none) {slots : Slots} (hat : s.slots[id]? = some slots)
    {p : Process (Outcome Value)} (hp : Obliged p (g.setPermit .held)) :
    Stocked m l
      { s with slots := s.slots.setIfInBounds id ⟨slots.free, slots.waiting ++ [⟨role, p⟩]⟩ } rest
      deeds := by
  have hle (other : Nat) := Multiset.countP_le_of_le (Member.Occupies other)
    (Multiset.le_cons_self rest (role, g))
  refine h.restock hat (fun t ht => ?_) h.allotted.drop.suits (fun other _ => hle other)
    (fun c n hn hcount => ⟨n, hn, (Nat.add_le_add_left (hle id) n).trans hcount⟩)
    (h.tallied.drop (by simp [hpermit]))
  rcases List.mem_append.mp ht with hold | hnew
  · exact h.queued id slots hat t hold
  · obtain rfl := List.mem_singleton.mp hnew
    exact ⟨g.setPermit .held, hslots, rfl,
      h.suits_setPermit hslots .held _ (Multiset.mem_cons_self _ _), hp⟩

variable {deeds' : List Deed} {permit : Permit} (htaken : g.permit.taken) (hback : permit.taken = false)
  (htallied : Tallied l ((role, g.setPermit permit) ::ₘ rest) deeds')

include hback htallied

theorem release : Stocked m l s ((role, g.setPermit permit) ::ₘ rest) deeds' :=
  ⟨h.allotted.replace (h.suits_setPermit hslots permit _ (Multiset.mem_cons_self _ _))
    fun _ hoccupies => absurd (hback.symm.trans hoccupies.2) Bool.false_ne_true, htallied, h.queued,
    h.attempts⟩

include htaken

omit h htallied in
omit [Room] in
theorem countP_release :
    ((role, g) ::ₘ rest).countP (Member.Occupies id) =
      ((role, g.setPermit permit) ::ₘ rest).countP (Member.Occupies id) + 1 := by
  rw [Multiset.countP_cons_of_pos _ ⟨hslots, htaken⟩,
    Multiset.countP_cons_of_neg _ fun hoccupies => Bool.false_ne_true (hback.symm.trans hoccupies.2)]

theorem release_counted {slots : Slots} {n : Nat} (hat : s.slots[id]? = some slots)
    (hfree : slots.free = some n) :
    Stocked m l { s with slots := s.slots.setIfInBounds id ⟨some (n + 1), []⟩ }
      ((role, g.setPermit permit) ::ₘ rest) deeds' := by
  refine h.restock hat nofun (h.suits_setPermit hslots permit)
    (fun other hne => countP_setPermit_le hslots permit hne) (fun c n' hn' hcount => ?_) htallied
  rw [hfree] at hn'
  cases hn'
  rw [countP_release hslots htaken hback] at hcount
  exact ⟨n + 1, rfl, by omega⟩

theorem pass {slots : Slots} {t : Thread} {waiting : List Thread} (hat : s.slots[id]? = some slots)
    (hwaiting : slots.waiting = t :: waiting) :
    ∃ g', Obliged t.process g' ∧
      Stocked m l { s with slots := s.slots.setIfInBounds id ⟨slots.free, waiting⟩ }
        ((t.role, g') ::ₘ (role, g.setPermit permit) ::ₘ rest) deeds' := by
  have hwaits := h.queued id slots hat
  rw [hwaiting] at hwaits
  obtain ⟨g', hid, hheld, hsuits, hp⟩ := hwaits t List.mem_cons_self
  have hnew : ∀ x ∈ ({(t.role, g')} : Multiset Member), x.2.permit ≠ .busy := by simp [hheld]
  refine ⟨g', hp, h.restock hat (fun t' ht' => hwaits t' (List.mem_cons_of_mem t ht'))
    (Multiset.forall_mem_cons.mpr ⟨hsuits, h.suits_setPermit hslots permit⟩) (fun other hne => ?_)
    (fun c n hn hcount => ⟨n, hn, ?_⟩) (htallied.add hnew)⟩
  · rw [Multiset.countP_cons_of_neg _ fun hoccupies =>
      hne (Option.some.inj (hoccupies.1.symm.trans hid))]
    exact countP_setPermit_le hslots permit hne
  · rw [countP_release hslots htaken hback] at hcount
    rw [Multiset.countP_cons_of_pos _ ⟨hid, by simp [hheld, Permit.taken]⟩]
    exact hcount

end Holding

end Stocked

end

end StatesLanguage
