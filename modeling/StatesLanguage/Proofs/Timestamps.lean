import Mathlib.Data.Nat.Digits.Defs
import StatesLanguage.Choice.Comparison
import StatesLanguage.Proofs.Calendar
import StatesLanguage.Proofs.Numerals
import StatesLanguage.Proofs.Scanning

/-!
# Timestamps

A timestamp is a date, a time of day and a zone as people write them. It is read as the instant that
it stands for, so that what a clock writes is read as what the clock told, and two timestamps compare
as their instants do, however they are written.
-/

namespace StatesLanguage

open Text Decimal

def Text.figures : Nat → Nat → List Char
  | 0, _ => []
  | width + 1, n => figures width (n / 10) ++ [Nat.digitChar (n % 10)]

/-- The fraction of a second: the digits behind the point. There is no point if there are none. -/
structure Fraction where
  digits : List (Fin 10)
  short : digits.length ≤ 6

namespace Fraction

def chars (f : Fraction) : List Char :=
  if f.digits = [] then [] else '.' :: (f.digits.map Fin.val).map Nat.digitChar

/-- The digits with zeros behind them up to six, as a number. -/
def micros (f : Fraction) : Nat :=
  Nat.ofDigits 10 (f.digits.map Fin.val ++ List.replicate (6 - f.digits.length) 0).reverse

end Fraction

/-- What ends a timestamp: the letter of universal time, or the hours and minutes by which the time
written is ahead of it or behind it. -/
inductive Zone where
  | universal (isCapital : Bool)
  | offset (isBehind : Bool) (hours : Fin 24) (minutes : Fin 60)

namespace Zone

def chars : Zone → List Char
  | universal isCapital => [if isCapital then 'Z' else 'z']
  | offset isBehind hours minutes =>
    (if isBehind then '-' else '+') :: figures 2 hours ++ ':' :: figures 2 minutes

def seconds : Zone → Int
  | universal _ => 0
  | offset isBehind hours minutes =>
    let size : Int := hours * 3600 + minutes * 60
    if isBehind then -size else size

end Zone

/-- A date of the years 1 to 9999 and a time of day, written in a zone. -/
structure Timestamp where
  year : Nat
  month : Nat
  day : Nat
  isDate : Calendar.isDate year month day = true
  hour : Fin 24
  minute : Fin 60
  second : Fin 60
  fraction : Fraction
  zone : Zone

namespace Timestamp

def whole (t : Timestamp) : List Char :=
  figures 4 t.year ++ '-' :: figures 2 t.month ++ '-' :: figures 2 t.day ++ 'T' ::
    figures 2 t.hour ++ ':' :: figures 2 t.minute ++ ':' :: figures 2 t.second

def text (t : Timestamp) : String :=
  String.ofList (t.whole ++ t.fraction.chars ++ t.zone.chars)

/-- The microseconds from the start of 1970 in universal time. -/
def micros (t : Timestamp) : Int :=
  let days : Int := Calendar.daysBefore t.year t.month t.day - Calendar.daysBefore 1970 1 1
  (days * 86400 + t.hour * 3600 + t.minute * 60 + t.second - t.zone.seconds) * 1000000 +
    t.fraction.micros

end Timestamp

/-- An instant that a clock tells: its offset is less than a day, and its date at that offset is one of
the years 1 to 9999. -/
structure Instant.OnClock (i : Instant) : Prop where
  ahead : i.offset < 86400
  behind : -86400 < i.offset
  first : -(Calendar.daysBefore 1970 1 1 : Int) * 86400000000 ≤ i.micros + i.offset * 1000000
  last : i.micros + i.offset * 1000000 <
    ((Calendar.daysBefore 10000 1 1 : Int) - Calendar.daysBefore 1970 1 1) * 86400000000

/-- The order that a relation asks of two points in time. -/
def Choice.Relation.Orders : Choice.Relation → Int → Int → Prop
  | .equals, a, b => a = b
  | .greater, a, b => b < a
  | .greaterEquals, a, b => b ≤ a
  | .less, a, b => a < b
  | .lessEquals, a, b => a ≤ b

/-! ## Figures -/

section

variable {n width : Nat} {c : Char} {cs rest : List Char}

theorem digitChar_facts : ∀ d < 10, isAsciiDigit (Nat.digitChar d) = true ∧
    asciiDigit? (Nat.digitChar d) = some d ∧ decimalDigit? (Nat.digitChar d) = some d ∧
      isBlank (Nat.digitChar d) = false := by
  decide +kernel

theorem digitChar_mod_facts (n : Nat) : isAsciiDigit (Nat.digitChar (n % 10)) = true ∧
    asciiDigit? (Nat.digitChar (n % 10)) = some (n % 10) ∧
      decimalDigit? (Nat.digitChar (n % 10)) = some (n % 10) ∧
        isBlank (Nat.digitChar (n % 10)) = false :=
  digitChar_facts _ (Nat.mod_lt n (by decide))

theorem digitsOf_map_digitChar {ds : List Nat} (h : ∀ d ∈ ds, d < 10) :
    digitsOf (ds.map Nat.digitChar) = ds := by
  rw [digitsOf, List.filterMap_map]
  exact (List.filterMap_congr fun d hd => (digitChar_facts d (h d hd)).2.1).trans
    List.filterMap_some

theorem ofDigits_concat (ds : List Nat) (d : Nat) : ofDigits (ds ++ [d]) = 10 * ofDigits ds + d := by
  rw [ofDigits, List.foldl_append]
  rfl

theorem ofDigits_eq (ds : List Nat) : ofDigits ds = Nat.ofDigits 10 ds.reverse := by
  induction ds using List.reverseRecOn with
  | nil => rfl
  | append_singleton ds d ih =>
    rw [ofDigits_concat, ih, List.reverse_append, List.reverse_singleton, List.singleton_append,
      Nat.ofDigits_cons, Nat.add_comm]

theorem exists_digits (width n : Nat) : ∃ ds : List (Fin 10),
    figures width n = (ds.map Fin.val).map Nat.digitChar ∧ ds.length = width := by
  induction width generalizing n with
  | zero => exact ⟨[], rfl, rfl⟩
  | succ width ih =>
    obtain ⟨ds, hds, hlength⟩ := ih (n / 10)
    refine ⟨ds ++ [⟨n % 10, Nat.mod_lt n (by decide)⟩], ?_, ?_⟩
    · rw [figures, hds, List.map_append, List.map_append]
      rfl
    · rw [List.length_append, hlength]
      rfl

theorem mem_figures (h : c ∈ figures width n) : ∃ d < 10, c = Nat.digitChar d := by
  obtain ⟨ds, hds, -⟩ := exists_digits width n
  rw [hds, List.map_map, List.mem_map] at h
  obtain ⟨d, -, rfl⟩ := h
  exact ⟨d, d.isLt, rfl⟩

theorem isAsciiDigit_of_mem_figures (h : c ∈ figures width n) : isAsciiDigit c = true := by
  obtain ⟨d, hd, rfl⟩ := mem_figures h
  exact (digitChar_facts d hd).1

theorem length_figures (width n : Nat) : (figures width n).length = width := by
  obtain ⟨ds, hds, hlength⟩ := exists_digits width n
  rw [hds, List.length_map, List.length_map, hlength]

theorem figures_two (n : Nat) :
    figures 2 n = [Nat.digitChar (n / 10 % 10), Nat.digitChar (n % 10)] := rfl

theorem figures_zero (width : Nat) : figures width 0 = List.replicate width '0' := by
  induction width with
  | zero => rfl
  | succ width ih => rw [figures, ih, List.replicate_succ']; rfl

theorem ofDigits_figures (h : n < 10 ^ width) : ofDigits (digitsOf (figures width n)) = n := by
  induction width generalizing n with
  | zero =>
    obtain rfl : n = 0 := Nat.lt_one_iff.mp h
    rfl
  | succ width ih =>
    have hlast : digitsOf [Nat.digitChar (n % 10)] = [n % 10] := by
      rw [digitsOf, List.filterMap_cons, (digitChar_mod_facts n).2.1, List.filterMap_nil]
    rw [figures, digitsOf, List.filterMap_append, ← digitsOf, ← digitsOf, hlast, ofDigits_concat,
      ih (by omega), Nat.div_add_mod]

theorem padded_eq_figures (hwidth : 0 < width) (h : n < 10 ^ width) :
    Instant.padded width n = figures width n := by
  -- By induction on the places, of which the last holds the last digit.
  induction width, hwidth using Nat.le_induction generalizing n with
  | base =>
    have hsmall : n < 10 := h
    rw [Instant.padded, Nat.toDigits_of_lt_base hsmall, figures, Nat.mod_eq_of_lt hsmall]
    rfl
  | succ width hwidth ih =>
    by_cases hsmall : n < 10
    · rw [Instant.padded, Nat.toDigits_of_lt_base hsmall, figures, Nat.div_eq_of_lt hsmall,
        Nat.mod_eq_of_lt hsmall, figures_zero]
      rfl
    · rw [figures, ← ih (by omega), Instant.padded, Instant.padded,
        Nat.toDigits_of_base_le (by decide) (by omega), List.length_append, List.length_singleton,
        Nat.add_sub_add_right, List.append_assoc]

theorem readInt?_figures (hwidth : width < maxDigits) (h : n < 10 ^ (width + 1)) :
    readInt? (figures (width + 1) n) = some (n : Int) := by
  have hlength := length_figures (width + 1) n
  have hne : figures (width + 1) n ≠ [] := List.ne_nil_of_length_eq_add_one hlength
  rw [readInt?, parseInt_digits hne fun c => isAsciiDigit_of_mem_figures, if_pos (by omega),
    ofDigits_figures h]
  rfl

/-! ## Fields -/

namespace Instant

theorem bind_eq_some {α β : Type} {x : Option α} {f : α → Option β} {a : α} {b : β}
    (hx : x = some a) (hf : f a = some b) : (x >>= f) = some b := by
  rw [hx]
  exact hf

theorem upTo?_figures {isEnd : Char → Bool} (hfield : ∀ d < 10, isEnd (Nat.digitChar d) = false)
    (hend : isEnd c = true) (width n : Nat) (rest : List Char) :
    upTo? isEnd (figures width n ++ c :: rest) = some (figures width n, rest) := by
  have hkept : ∀ c ∈ figures width n, (!isEnd c) = true := by
    intro c hc
    obtain ⟨d, hd, rfl⟩ := mem_figures hc
    rw [hfield d hd]
    rfl
  rw [upTo?, List.dropWhile_append_of_pos hkept, List.takeWhile_append_of_pos hkept]
  simp [hend]

theorem year?_figures (h : n < 10000) : year? (figures 4 n) = some n := by
  have hfigures : (figures 4 n).map decimalDigit? =
      [some (n / 10 / 10 / 10 % 10), some (n / 10 / 10 % 10), some (n / 10 % 10), some (n % 10)] := by
    have hdigit (m : Nat) := (digitChar_mod_facts m).2.2.1
    simp only [figures, List.nil_append, List.cons_append, List.map_cons, List.map_nil, hdigit]
  simp only [year?, hfigures, ofDigits, List.foldl_cons, List.foldl_nil, Option.some.injEq]
  omega

theorem month?_figures : ∀ n < 13, 1 ≤ n → month? (figures 2 n) = some n := by
  decide +kernel

theorem day?_figures : ∀ n < 32, 1 ≤ n → day? (figures 2 n) = some n := by
  decide +kernel

theorem hour?_figures : ∀ n < 24, hour? (figures 2 n) = some n := by
  decide +kernel

theorem sixtieth?_figures : ∀ n < 60, sixtieth? (figures 2 n) = some n := by
  decide +kernel

theorem fraction?_digits {ds : List Nat} (hne : ds ≠ []) (hshort : ds.length ≤ 6)
    (h : ∀ d ∈ ds, d < 10) :
    fraction? (ds.map Nat.digitChar) = some (ofDigits ds * Nat.pow 10 (6 - ds.length)) := by
  have hdigits : (ds.map Nat.digitChar).all isAsciiDigit = true := by
    rw [List.all_map]
    exact List.all_eq_true.mpr fun d hd => (digitChar_facts d (h d hd)).1
  rw [fraction?, digitsOf_map_digitChar h, List.length_map, hdigits]
  simp [hne, hshort]

end Instant

end

/-! ## Fractions -/

namespace Fraction

variable (f : Fraction)

def read : List Nat :=
  if f.digits = [] then [0] else f.digits.map Fin.val

theorem fraction?_read : Instant.fraction? (f.read.map Nat.digitChar) = some f.micros := by
  have hread : f.read ≠ [] ∧ f.read.length ≤ 6 ∧ (∀ d ∈ f.read, d < 10) ∧
      ofDigits f.read * Nat.pow 10 (6 - f.read.length) = f.micros := by
    rw [micros, List.reverse_append, List.reverse_replicate, Nat.ofDigits_append,
      Nat.ofDigits_replicate_zero, List.length_replicate, Nat.zero_add, Nat.mul_comm, read]
    split
    next hnone =>
      rw [hnone]
      decide
    next =>
      rw [← ofDigits_eq, List.length_map]
      refine ⟨by simpa, f.short, fun d hd => ?_, rfl⟩
      obtain ⟨d, -, rfl⟩ := List.mem_map.mp hd
      exact d.isLt
  obtain ⟨hne, hshort, hdigits, hvalue⟩ := hread
  rw [Instant.fraction?_digits hne hshort hdigits, hvalue]

theorem completed {cs : List Char} (h : '.' ∉ cs) :
    (if (cs ++ f.chars).contains '.' then cs ++ f.chars else cs ++ f.chars ++ ['.', '0']) =
      cs ++ '.' :: f.read.map Nat.digitChar := by
  rw [chars, read]
  split
  next =>
    rw [List.append_nil, if_neg (by simpa using h)]
    rfl
  next => rw [if_pos (by simp)]

theorem exists_of_micros {n : Nat} (h : n < 1000000) : ∃ f : Fraction,
    f.chars = (if n = 0 then [] else '.' :: Instant.padded 6 n) ∧ f.micros = n := by
  by_cases hzero : n = 0
  · exact ⟨⟨[], by decide⟩, by rw [if_pos hzero]; rfl, hzero.symm⟩
  · obtain ⟨ds, hds, hlength⟩ := exists_digits 6 n
    have hvalue : ofDigits (ds.map Fin.val) = n := by
      have hfigures := ofDigits_figures (show n < 10 ^ 6 from h)
      rwa [hds, digitsOf_map_digitChar (by simp)] at hfigures
    have hne : ds ≠ [] := List.ne_nil_of_length_eq_add_one hlength
    refine ⟨⟨ds, Nat.le_of_eq hlength⟩, ?_, ?_⟩
    · rw [chars, if_neg hne, if_neg hzero, padded_eq_figures (by decide) h, hds]
    · simp only [micros, hlength, Nat.sub_self, List.replicate_zero, List.append_nil, ← ofDigits_eq,
        hvalue]

end Fraction

/-! ## Zones -/

namespace Zone

theorem seconds_lt (z : Zone) : -86400 < z.seconds ∧ z.seconds < 86400 := by
  cases z with
  | universal => decide +revert
  | offset isBehind hours minutes =>
    simp only [seconds]
    split <;> omega

theorem offsetOf_chars (text : List Char) (isBehind : Bool) (hours : Fin 24) (minutes : Fin 60) :
    Instant.offsetOf text (offset isBehind hours minutes).chars =
      .ok (some (offset isBehind hours minutes).seconds) := by
  have hhours : readInt? (figures 2 hours) = some (hours : Int) :=
    readInt?_figures (by decide) (by omega)
  have hminutes : readInt? (figures 2 minutes) = some (minutes : Int) :=
    readInt?_figures (by decide) (by omega)
  rw [figures_two] at hhours hminutes
  cases isBehind <;>
    simp [chars, seconds, Instant.offsetOf, figures_two, hhours, hminutes]

theorem divide_append (cs : List Char) (z : Zone) :
    Instant.divide (cs ++ z.chars) = .ok (cs, some z.seconds) := by
  unfold Instant.divide
  cases z with
  | universal isCapital =>
    rw [List.reverse_append]
    cases isCapital <;> exact congrArg (fun cs => Except.ok (cs, some 0)) (List.reverse_reverse cs)
  | offset isBehind hours minutes =>
    -- A figure stands at the end, and neither letter is one.
    have hfigure {c : Char} {rest : List Char} (hc : isAsciiDigit c = false) :
        (cs ++ (offset isBehind hours minutes).chars).reverse ≠ c :: rest := by
      rw [List.reverse_append]
      rintro ⟨⟩
      exact Bool.false_ne_true (hc.symm.trans (digitChar_mod_facts minutes).1)
    split
    next hreverse => exact absurd hreverse (hfigure (by decide))
    next hreverse => exact absurd hreverse (hfigure (by decide))
    next =>
      have hlength : (cs ++ (offset isBehind hours minutes).chars).length - 6 = cs.length := by
        rw [List.length_append]
        exact Nat.add_sub_cancel _ 6
      dsimp only
      rw [hlength, List.drop_left, List.take_left, offsetOf_chars]
      rfl

theorem exists_last (z : Zone) : ∃ cs c, z.chars = cs ++ [c] ∧ isBlank c = false := by
  cases z with
  | universal isCapital => exact ⟨[], _, rfl, by cases isCapital <;> decide⟩
  | offset isBehind hours minutes =>
    exact ⟨[_, _, _, _, _], _, rfl, (digitChar_mod_facts minutes).2.2.2⟩

theorem exists_of_offset {offset : Int} (h : 60 ∣ offset) (hahead : offset < 86400)
    (hbehind : -86400 < offset) :
    ∃ z : Zone, z.chars = Instant.zone offset ∧ z.seconds = offset := by
  have hminutes : offset.natAbs % 60 = 0 := by omega
  refine ⟨.offset (offset < 0) ⟨offset.natAbs / 3600, by omega⟩
    ⟨offset.natAbs / 60 % 60, Nat.mod_lt _ (by decide)⟩, ?_, ?_⟩
  · rw [Instant.zone, if_pos hminutes, padded_eq_figures (by decide) (by omega),
      padded_eq_figures (by decide) (by omega), List.append_nil]
    simp only [chars, decide_eq_true_eq]
  · simp only [seconds, decide_eq_true_eq]
    split <;> omega

end Zone

/-! ## Reading -/

namespace Timestamp

variable (t : Timestamp)

theorem not_mem_whole : '.' ∉ t.whole := by
  have hfigures (width n : Nat) : '.' ∉ figures width n := fun hmem =>
    absurd (isAsciiDigit_of_mem_figures hmem) (by decide)
  simp [whole, hfigures]

theorem trim_shown (cs : List Char) {c : Char} (hc : isBlank c = false) :
    trim (t.whole ++ t.fraction.chars ++ (cs ++ [c])) =
      t.whole ++ t.fraction.chars ++ (cs ++ [c]) := by
  have htrimmed : Intrinsic.Trimmed (t.whole ++ t.fraction.chars ++ (cs ++ [c])) := by
    rw [← List.append_assoc]
    exact Intrinsic.trimmed_of_ends _ (digitChar_mod_facts _).2.2.2 hc
  exact htrimmed.trim_spaces 0

open Instant in
theorem clock?_whole : clock? (t.whole ++ '.' :: t.fraction.read.map Nat.digitChar) =
    some ((((((Calendar.dayNumber t.year t.month t.day : Int) - Calendar.epoch) * 24 + t.hour) * 60 +
      t.minute) * 60 + t.second) * 1000000 + t.fraction.micros) := by
  obtain ⟨-, hyear, hmonth, hmonth', hday, hday'⟩ := Calendar.isDate_iff.mp t.isDate
  have hlast := Calendar.daysInMonth_le t.year t.month
  simp only [whole, List.append_assoc, List.cons_append]
  rw [clock?]
  -- First the text is divided into its fields, then each is read within its range.
  refine bind_eq_some (upTo?_figures (by decide) (by decide) 4 t.year _) ?_
  refine bind_eq_some (upTo?_figures (by decide) (by decide) 2 t.month _) ?_
  refine bind_eq_some (upTo?_figures (by decide) (by decide) 2 t.day _) ?_
  refine bind_eq_some (upTo?_figures (by decide) (by decide) 2 t.hour _) ?_
  refine bind_eq_some (upTo?_figures (by decide) (by decide) 2 t.minute _) ?_
  refine bind_eq_some (upTo?_figures (by decide) (by decide) 2 t.second _) ?_
  refine bind_eq_some (year?_figures (by omega)) ?_
  refine bind_eq_some (month?_figures t.month (by omega) hmonth) ?_
  refine bind_eq_some (day?_figures t.day (by omega) hday) ?_
  refine bind_eq_some (hour?_figures t.hour t.hour.isLt) ?_
  refine bind_eq_some (sixtieth?_figures t.minute t.minute.isLt) ?_
  refine bind_eq_some (sixtieth?_figures t.second t.second.isLt) ?_
  refine bind_eq_some t.fraction.fraction?_read ?_
  rw [if_pos t.isDate]
  rfl

theorem parse_text : Instant.parse t.text = .ok ⟨t.micros, t.zone.seconds⟩ := by
  have hmicros : (((((Calendar.dayNumber t.year t.month t.day : Int) - Calendar.epoch) * 24 +
      t.hour) * 60 + t.minute) * 60 + t.second) * 1000000 + t.fraction.micros -
        t.zone.seconds * 1000000 = t.micros := by
    rw [micros, Calendar.dayNumber_eq, Calendar.epoch_eq]
    omega
  obtain ⟨cs, c, hzone, hc⟩ := t.zone.exists_last
  have htrim := t.trim_shown cs hc
  rw [← hzone] at htrim
  rw [Instant.parse, text, String.toList_ofList, htrim, Zone.divide_append, Outcome.ok_bind]
  dsimp only
  rw [Fraction.completed _ t.not_mem_whole, clock?_whole]
  dsimp only
  rw [if_pos t.zone.seconds_lt, hmicros]
  rfl

end Timestamp

/-! ## Clocks -/

namespace Instant

theorem OnClock.exists_shown {i : Instant} (h : i.OnClock) (zone : Zone) : ∃ t : Timestamp,
    t.zone = zone ∧ i.write = String.ofList (t.whole ++ t.fraction.chars ++ Instant.zone i.offset) ∧
      t.micros + zone.seconds * 1000000 = i.micros + i.offset * 1000000 := by
  obtain ⟨-, -, hfirst, hlast⟩ := h
  rw [← Calendar.epoch_eq] at hfirst hlast
  rw [write]
  generalize hnow : i.micros + i.offset * 1000000 = now at hfirst hlast ⊢
  generalize hrest : (now / 1000000 % 86400).toNat = rest
  have hrest' : rest < 86400 := by omega
  -- The bounds on the local time keep the day among those that have a date.
  obtain ⟨year, month, day, hdate, his, hnumber⟩ := Calendar.ofDayNumber_spec
    (show (now / 1000000 / 86400 + Calendar.epoch).toNat < _ by omega)
  obtain ⟨fraction, hfraction, hpart⟩ :=
    Fraction.exists_of_micros (n := (now % 1000000).toNat) (by omega)
  obtain ⟨-, hyear, -, hmonth, -, hday⟩ := Calendar.isDate_iff.mp his
  have hlong := Calendar.daysInMonth_le year month
  refine ⟨⟨year, month, day, his, ⟨rest / 3600, by omega⟩, ⟨rest / 60 % 60, by omega⟩,
    ⟨rest % 60, by omega⟩, fraction, zone⟩, rfl, ?_, ?_⟩
  · dsimp only
    rw [hdate, Timestamp.whole, hfraction]
    dsimp only
    simp (disch := omega) only [padded_eq_figures, List.append_assoc, List.cons_append]
  · rw [Timestamp.micros]
    dsimp only
    rw [hpart, hnumber, ← Calendar.epoch_eq]
    omega

theorem OnClock.parse_write {i : Instant} (h : i.OnClock) (hminutes : 60 ∣ i.offset) :
    parse i.write = .ok i := by
  obtain ⟨zone, hzone, hseconds⟩ := Zone.exists_of_offset hminutes h.ahead h.behind
  obtain ⟨t, rfl, hwrite, hmicros⟩ := h.exists_shown zone
  have htext : i.write = t.text := by rw [hwrite, ← hzone, Timestamp.text]
  have hsame : t.micros = i.micros := by omega
  rw [htext, t.parse_text, hsame, hseconds]

/-- The seconds of an offset push its sign out of the place where it is looked for. -/
theorem divide_seconds (cs : List Char) (minutes seconds : Nat) :
    divide (cs ++ ':' :: (figures 2 minutes ++ ':' :: figures 2 seconds)) =
      .error (malformed (cs ++ ':' :: (figures 2 minutes ++ ':' :: figures 2 seconds))) := by
  have hfigure {c : Char} {rest : List Char} (hc : isAsciiDigit c = false) :
      (cs ++ ':' :: (figures 2 minutes ++ ':' :: figures 2 seconds)).reverse ≠ c :: rest := by
    rw [List.reverse_append]
    rintro ⟨⟩
    exact Bool.false_ne_true (hc.symm.trans (digitChar_mod_facts seconds).1)
  unfold divide
  split
  next hreverse => exact absurd hreverse (hfigure (by decide))
  next hreverse => exact absurd hreverse (hfigure (by decide))
  next =>
    have hlength :
        (cs ++ ':' :: (figures 2 minutes ++ ':' :: figures 2 seconds)).length - 6 = cs.length := by
      rw [List.length_append]
      exact Nat.add_sub_cancel _ 6
    dsimp only
    rw [hlength, List.drop_left]
    rfl

theorem zone_seconds {offset : Int} (h : ¬60 ∣ offset) (hahead : offset < 86400)
    (hbehind : -86400 < offset) :
    zone offset = (if offset < 0 then '-' else '+') :: figures 2 (offset.natAbs / 3600) ++
      ':' :: (figures 2 (offset.natAbs / 60 % 60) ++ ':' :: figures 2 (offset.natAbs % 60)) := by
  have hseconds : offset.natAbs % 60 ≠ 0 := fun hzero =>
    h (Int.natCast_dvd.mpr (Nat.dvd_of_mod_eq_zero hzero))
  rw [zone, if_neg hseconds]
  simp (disch := omega) only [padded_eq_figures, List.append_assoc, List.cons_append]

/-- An offset that is not of whole minutes is written with its seconds, and not read again. -/
theorem OnClock.parse_write_ne {i j : Instant} (h : i.OnClock) (hminutes : ¬60 ∣ i.offset) :
    parse i.write ≠ .ok j := by
  obtain ⟨t, -, hwrite, -⟩ := h.exists_shown (.universal true)
  have hzone := zone_seconds hminutes h.ahead h.behind
  have hfigure : [Nat.digitChar (i.offset.natAbs % 60 % 10)] <:+ figures 2 (i.offset.natAbs % 60) :=
    List.suffix_append _ _
  have hlast : [Nat.digitChar (i.offset.natAbs % 60 % 10)] <:+ zone i.offset := by
    rw [hzone]
    exact ((hfigure.trans (List.suffix_cons ':' _)).trans (List.suffix_append _ _)).trans
      ((List.suffix_cons ':' _).trans (List.suffix_append _ _))
  have htrim : trim (t.whole ++ t.fraction.chars ++ zone i.offset) =
      t.whole ++ t.fraction.chars ++ zone i.offset := by
    obtain ⟨cs, hcs⟩ := hlast
    rw [← hcs]
    exact t.trim_shown cs (digitChar_mod_facts _).2.2.2
  rw [parse, hwrite, String.toList_ofList, htrim, hzone, ← List.append_assoc, divide_seconds]
  exact nofun

end Instant

/-! ## Order -/

theorem Choice.Relation.admits_compare (r : Choice.Relation) (a b : Int) :
    r.admits (some (compare a b)) = true ↔ r.Orders a b := by
  rcases Int.lt_trichotomy a b with hlt | rfl | hgt
  · rw [compare_lt_iff_lt.mpr hlt]
    cases r <;> simp [admits, Orders] <;> omega
  · rw [compare_eq_iff_eq.mpr rfl]
    cases r <;> simp [admits, Orders]
  · rw [compare_gt_iff_gt.mpr hgt]
    cases r <;> simp [admits, Orders] <;> omega

/-- Timestamps are read as the instants that they stand for, clocks write the instants that they tell,
and timestamps are compared as their instants. -/
theorem Timestamp.read_as_instants (s t : Timestamp) (r : Choice.Relation) (i : Instant) :
    Instant.parse t.text = .ok ⟨t.micros, t.zone.seconds⟩ ∧
      (i.OnClock → (Instant.parse i.write = .ok i ↔ 60 ∣ i.offset)) ∧
      ((Choice.Comparison.timestamp r).holds (.str s.text) (.str t.text) = true ↔
        r.Orders s.micros t.micros) := by
  have hvalue (t : Timestamp) :
      Instant.ofValue? (.str t.text) = some ⟨t.micros, t.zone.seconds⟩ := by
    rw [Instant.ofValue?, t.parse_text]
    rfl
  refine ⟨t.parse_text, fun h => ⟨fun hread => ?_, h.parse_write⟩, ?_⟩
  · by_contra hminutes
    exact h.parse_write_ne hminutes hread
  · rw [← Choice.Relation.admits_compare, Choice.Comparison.holds, hvalue, hvalue]

/-- Late on a leap day in a zone behind universal time, where the next month has begun. -/
def Timestamp.leapDay : Timestamp :=
  ⟨2020, 2, 29, rfl, 23, 59, 59, ⟨[2, 5], by decide⟩, .offset true 1 30⟩

def Timestamp.nextMonth : Timestamp :=
  ⟨2020, 3, 1, rfl, 1, 29, 59, ⟨[2, 5, 0], by decide⟩, .universal true⟩

theorem Timestamp.read_as_instants_leapDay :
    (⟨1583026199250000, -5400⟩ : Instant).OnClock ∧
      leapDay.text = "2020-02-29T23:59:59.25-01:30" ∧
      nextMonth.text = "2020-03-01T01:29:59.250Z" ∧
      Instant.parse leapDay.text = .ok ⟨1583026199250000, -5400⟩ ∧
      Instant.parse (Instant.write ⟨1583026199250000, -5400⟩) = .ok ⟨1583026199250000, -5400⟩ ∧
      (Choice.Comparison.timestamp .equals).holds (.str nextMonth.text) (.str leapDay.text) =
        true := by
  have hclock : (⟨1583026199250000, -5400⟩ : Instant).OnClock := by
    constructor
    all_goals simp only [← Calendar.dayNumber_eq]; decide
  have hleapDay : leapDay.micros = 1583026199250000 := by
    simp only [micros, ← Calendar.dayNumber_eq]
    decide
  have hnextMonth : nextMonth.micros = 1583026199250000 := by
    simp only [micros, ← Calendar.dayNumber_eq]
    decide
  obtain ⟨hparse, hwrite, hequal⟩ := read_as_instants nextMonth leapDay .equals
    ⟨1583026199250000, -5400⟩
  rw [hleapDay] at hparse hequal
  exact ⟨hclock, by decide, by decide, hparse, (hwrite hclock).mpr (by decide),
    hequal.mpr hnextMonth⟩

/-- A clock in a zone of local mean time writes what is not read again. -/
theorem Timestamp.mean_time_unread :
    (⟨1704067200000000, 5025⟩ : Instant).OnClock ∧
      Instant.write ⟨1704067200000000, 5025⟩ = "2024-01-01T01:23:45+01:23:45" ∧
      (Instant.parse (Instant.write ⟨1704067200000000, 5025⟩)).toOption = none := by
  refine ⟨?_, by decide +kernel⟩
  constructor
  all_goals simp only [← Calendar.dayNumber_eq]; decide

end StatesLanguage
