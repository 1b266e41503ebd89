import StatesLanguage.Json.Writer
import StatesLanguage.Proofs.Texts
import StatesLanguage.Text.Utf8

/-!
# Faults of data

What has no JSON text, no members or no characters is data of a wrong kind, and so the errors that say
so are faults.
-/

namespace StatesLanguage

namespace Json

mutual

theorem write_fault {style : Style} {level : Nat} {e : Failure} :
    ∀ {v : Value}, write style level v = .error e → e.isFault = true
  | v, h => by
    unfold write at h
    split at h
    · cases h
      rfl
    · split at h
      · cases h
      · cases h
      · exact Value.integerText_fault h
      · cases h
      · cases h
      · rename_i items
        split at h <;> cases h
        exact writeItems_fault ‹_›
      · rename_i members
        split at h <;> cases h
        exact writeMembers_fault ‹_›
      · cases h
        rfl

theorem writeItems_fault {style : Style} {level : Nat} {e : Failure} :
    ∀ {items : List Value}, writeItems style level items = .error e → e.isFault = true
  | [], h => by cases h
  | item :: rest, h => by
    unfold writeItems at h
    split at h
    · cases h
      exact write_fault ‹_›
    · split at h <;> cases h
      exact writeItems_fault ‹_›

theorem writeMembers_fault {style : Style} {level : Nat} {e : Failure} :
    ∀ {members : List (String × Value)}, writeMembers style level members = .error e →
      e.isFault = true
  | [], h => by cases h
  | (_, value) :: rest, h => by
    unfold writeMembers at h
    split at h
    · cases h
      exact write_fault ‹_›
    · split at h <;> cases h
      exact writeMembers_fault ‹_›

end

end Json

theorem Value.memberOr_fault {v default : Value} {key : String} {e : Failure}
    (h : v.memberOr key default = .error e) : e.isFault = true := by
  cases v with
  | obj members => cases h
  | _ =>
    cases h
    rfl

namespace Text

theorem characters_fault {fuel position : Nat} {bytes : List UInt8} {e : Failure}
    (h : characters fuel position bytes = .error e) : e.isFault = true := by
  induction fuel, position, bytes using characters.induct with
  | case1 => simp [characters] at h
  | case2 => simp [characters] at h
  | case3 fuel position lead rest fault hfault =>
    simp only [characters, hfault] at h
    cases h
    rfl
  | case4 fuel position lead rest code more hmore ih =>
    simp only [characters, hmore] at h
    rcases Outcome.bind_eq_error.mp h with hrest | ⟨cs, -, hcs⟩
    · exact ih hrest
    · cases hcs

theorem ofUtf8_fault {bytes : List UInt8} {e : Failure} (h : ofUtf8 bytes = .error e) :
    e.isFault = true := by
  unfold ofUtf8 at h
  cases hcs : characters bytes.length 0 bytes with
  | error e' =>
    rw [hcs] at h
    cases h
    exact characters_fault hcs
  | ok cs =>
    rw [hcs] at h
    cases h

end Text

end StatesLanguage
