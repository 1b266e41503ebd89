import Mathlib.Algebra.BigOperators.Intervals
import StatesLanguage.Instant

/-!
# The calendar

The number of a day counts the days before it, year by year and month by month, and the date of
a number is the one day of the years 1 to 9999 that has it.
-/

namespace StatesLanguage.Calendar

def daysInYear (year : Nat) : Nat :=
  if isLeap year then 366 else 365

/-- The days before a date, from 1 January of the year 1 on. -/
def daysBefore (year month day : Nat) : Nat :=
  ∑ y ∈ Finset.Ico 1 year, daysInYear y + ∑ m ∈ Finset.Ico 1 month, daysInMonth year m + (day - 1)

section

variable {year month day number : Nat}

/-! ## Years -/

theorem daysInYear_pos (year : Nat) : 0 < daysInYear year := by
  rw [daysInYear]
  split <;> decide

theorem isLeap_iff (year : Nat) :
    isLeap year = true ↔ 4 ∣ year ∧ (¬100 ∣ year ∨ 400 ∣ year) := by
  simp only [isLeap, Bool.and_eq_true, Bool.or_eq_true, beq_iff_eq, bne_iff_ne,
    Nat.dvd_iff_mod_eq_zero, ne_eq]

theorem daysBeforeYear_succ (hyear : 1 ≤ year) :
    daysBeforeYear (year + 1) = daysBeforeYear year + daysInYear year := by
  obtain ⟨y, rfl⟩ := Nat.exists_eq_add_of_le' hyear
  have hcentury : y / 100 ≤ y / 4 := Nat.div_le_div_left (by decide) (by decide)
  have h100 : 100 ∣ y + 1 → 4 ∣ y + 1 := Nat.dvd_trans (by decide)
  have h400 : 400 ∣ y + 1 → 100 ∣ y + 1 := Nat.dvd_trans (by decide)
  -- Each quotient grows by one if its divisor divides the year, and else stays.
  simp only [daysBeforeYear, daysInYear, isLeap_iff, Nat.add_sub_cancel, Nat.succ_div, Nat.mul_succ]
  generalize y / 4 = fourths, y / 100 = centuries, y / 400 = cycles at hcentury ⊢
  split_ifs <;> omega

theorem daysBeforeYear_eq_sum (year : Nat) :
    daysBeforeYear year = ∑ y ∈ Finset.Ico 1 year, daysInYear y := by
  rcases Nat.eq_zero_or_pos year with rfl | hyear
  · rfl
  · induction year, hyear using Nat.le_induction with
    | base => rfl
    | succ year hyear ih => rw [Finset.sum_Ico_succ_top hyear, ← ih, daysBeforeYear_succ hyear]

theorem daysBeforeYear_mono {y y' : Nat} (hy : 1 ≤ y) (h : y ≤ y') :
    daysBeforeYear y ≤ daysBeforeYear y' := by
  induction y', h using Nat.le_induction with
  | base => exact Nat.le_refl _
  | succ y' h ih =>
    rw [daysBeforeYear_succ (Nat.le_trans hy h)]
    exact Nat.le_add_right_of_le ih

theorem exists_year (number : Nat) :
    ∃ year, 1 ≤ year ∧ daysBeforeYear year ≤ number ∧ number < daysBeforeYear (year + 1) := by
  induction number with
  | zero => exact ⟨1, by decide, by decide, by decide⟩
  | succ number ih =>
    obtain ⟨year, hyear, hle, hlt⟩ := ih
    by_cases hsame : number + 1 < daysBeforeYear (year + 1)
    · exact ⟨year, hyear, Nat.le_succ_of_le hle, hsame⟩
    · have hnext := daysBeforeYear_succ (show 1 ≤ year + 1 by omega)
      have hpos := daysInYear_pos (year + 1)
      exact ⟨year + 1, by omega, by omega, by omega⟩

/-- The search backwards stops at the year of the day, if it starts near enough behind it. -/
theorem startedBy_eq {fuel start : Nat} (hyear : 1 ≤ year) (hle : daysBeforeYear year ≤ number)
    (hlt : number < daysBeforeYear (year + 1)) (hstart : year ≤ start)
    (hfuel : start ≤ year + fuel) : startedBy number fuel start = year := by
  induction fuel generalizing start with
  | zero => exact Nat.le_antisymm hfuel hstart
  | succ fuel ih =>
    rw [startedBy]
    rcases Nat.eq_or_lt_of_le hstart with rfl | hlater
    · rw [if_pos hle]
    · have hmono := daysBeforeYear_mono (show 1 ≤ year + 1 by omega) hlater
      rw [if_neg (by omega)]
      exact ih (by omega) (by omega)

theorem yearOf_eq (hyear : 1 ≤ year) (hlast : year ≤ 9999) (hle : daysBeforeYear year ≤ number)
    (hlt : number < daysBeforeYear (year + 1)) : yearOf number = year := by
  refine startedBy_eq hyear hle hlt ?_ ?_
  all_goals
    simp only [daysBeforeYear, Nat.add_sub_cancel] at hle hlt
    omega

/-! ## Months -/

theorem daysBeforeMonth_succ (hmonth : 1 ≤ month) :
    daysBeforeMonth year (month + 1) = daysBeforeMonth year month + daysInMonth year month := by
  obtain ⟨m, rfl⟩ := Nat.exists_eq_add_of_le' hmonth
  rw [daysBeforeMonth, daysBeforeMonth, Nat.add_sub_cancel, Nat.add_sub_cancel, List.range_succ,
    List.foldl_append]
  rfl

theorem daysBeforeMonth_eq_sum (year month : Nat) :
    daysBeforeMonth year month = ∑ m ∈ Finset.Ico 1 month, daysInMonth year m := by
  rcases Nat.eq_zero_or_pos month with rfl | hmonth
  · rfl
  · induction month, hmonth using Nat.le_induction with
    | base => rfl
    | succ month hmonth ih => rw [Finset.sum_Ico_succ_top hmonth, ← ih, daysBeforeMonth_succ hmonth]

theorem daysBeforeMonth_thirteen (year : Nat) : daysBeforeMonth year 13 = daysInYear year := by
  rw [daysInYear]
  cases hleap : isLeap year <;> simp [daysBeforeMonth, List.range_succ, daysInMonth, hleap]

theorem monthOf_spec {fuel rest : Nat} (hmonth : 1 ≤ month) (hfuel : month + fuel = 12)
    (hrest : daysBeforeMonth year month + rest < daysInYear year) :
    ∃ m d, monthOf year fuel month rest = (m, d) ∧ 1 ≤ m ∧ m ≤ 12 ∧ 1 ≤ d ∧ d ≤ daysInMonth year m ∧
      daysBeforeMonth year m + (d - 1) = daysBeforeMonth year month + rest := by
  -- By induction on the months that are left; those before the month are behind.
  induction fuel generalizing month rest with
  | zero =>
    obtain rfl : month = 12 := hfuel
    have hlast : daysBeforeMonth year 13 = daysBeforeMonth year 12 + daysInMonth year 12 :=
      daysBeforeMonth_succ (by decide)
    have hall := daysBeforeMonth_thirteen year
    exact ⟨12, rest + 1, rfl, by decide, by decide, by omega, by omega, rfl⟩
  | succ fuel ih =>
    rw [monthOf]
    split
    · exact ⟨month, rest + 1, rfl, hmonth, by omega, by omega, by omega, rfl⟩
    · have hnext : daysBeforeMonth year (month + 1) = _ := daysBeforeMonth_succ hmonth
      obtain ⟨m, d, heq, hm, hm', hd, hd', hsame⟩ := ih (show 1 ≤ month + 1 by omega) (by omega)
        (show daysBeforeMonth year (month + 1) + (rest - daysInMonth year month) < _ by omega)
      exact ⟨m, d, heq, hm, hm', hd, hd', by omega⟩

theorem daysInMonth_le (year month : Nat) : daysInMonth year month ≤ 31 := by
  rw [daysInMonth]
  split_ifs <;> decide

/-! ## Days -/

theorem isDate_iff : isDate year month day = true ↔ 1 ≤ year ∧ year ≤ 9999 ∧ 1 ≤ month ∧
    month ≤ 12 ∧ 1 ≤ day ∧ day ≤ daysInMonth year month := by
  simp only [isDate, Bool.and_eq_true, decide_eq_true_eq, and_assoc]

theorem dayNumber_eq (year month day : Nat) :
    dayNumber year month day = daysBefore year month day := by
  rw [dayNumber, daysBefore, daysBeforeYear_eq_sum, daysBeforeMonth_eq_sum]

theorem epoch_eq : epoch = daysBefore 1970 1 1 := by
  rw [← dayNumber_eq]
  decide

theorem ofDayNumber_spec (h : number < daysBefore 10000 1 1) :
    ∃ year month day, ofDayNumber number = (year, month, day) ∧ isDate year month day = true ∧
      daysBefore year month day = number := by
  replace h : number < daysBeforeYear 10000 := by rwa [← dayNumber_eq] at h
  obtain ⟨year, hyear, hle, hlt⟩ := exists_year number
  have hlast : year ≤ 9999 := by
    by_contra hlater
    have := daysBeforeYear_mono (show 1 ≤ 10000 by decide) (show 10000 ≤ year by omega)
    omega
  have hnext := daysBeforeYear_succ hyear
  obtain ⟨month, day, heq, hmonth, hmonth', hday, hday', hsame⟩ :=
    monthOf_spec (Nat.le_refl 1) (show 1 + 11 = 12 from rfl)
      (show 0 + (number - daysBeforeYear year) < daysInYear year by omega)
  refine ⟨year, month, day, ?_, isDate_iff.mpr ⟨hyear, hlast, hmonth, hmonth', hday, hday'⟩, ?_⟩
  · rw [ofDayNumber, yearOf_eq hyear hlast hle hlt, heq]
  · have hsum : daysBeforeMonth year month + (day - 1) = 0 + (number - daysBeforeYear year) := hsame
    rw [← dayNumber_eq, dayNumber]
    omega

end

end StatesLanguage.Calendar
