/-
  Dates are those of the Gregorian calendar, and are read back from their texts.

  * `Date.Valid` are the dates of the calendar, `Date.number` counts the days up to one by the lengths
    of years and months;
  * `number_ofDay` and `valid_ofDay`: the date of a day is a valid one, and counting gives the day
    again; the days of 400 years are taken apart into centuries, cycles of four years, and years
    that start in March (`exists_era`, `ofDay_eq`);
  * `Date.ofText?` reads a date from its text;
  * `ofText?_text`: every valid date is read back, whatever the sign and the digits of its year.
-/
import Mathlib.Tactic.IntervalCases
import Merchandising.Calendar
import Merchandising.Proofs.Text.Dotted
import Merchandising.Text.Integer

namespace Merchandising

namespace Date

/-! ## The calendar -/

/-- The leap days of a year: one in every fourth year, but not in a hundredth one that is no four
    hundredth one. -/
def leapDays (y : Int) : Nat := if y % 4 = 0 ∧ (y % 100 ≠ 0 ∨ y % 400 = 0) then 1 else 0

/-- The number of days of a month. -/
def monthLength (y : Int) : Nat → Nat
  | 2 => 28 + leapDays y
  | 4 | 6 | 9 | 11 => 30
  | _ => 31

/-- A day that the calendar has. -/
structure Valid (date : Date) : Prop where
  month_pos : 1 ≤ date.month
  month_le : date.month ≤ 12
  day_pos : 1 ≤ date.day
  day_le : date.day ≤ monthLength date.year date.month

/-- The days before the first one of a year, from the year 1. -/
def daysBeforeYear (y : Int) : Int :=
  365 * (y - 1) + (y - 1) / 4 - (y - 1) / 100 + (y - 1) / 400

/-- The days of a year before the first one of a month. -/
def daysBeforeMonth (y : Int) (month : Nat) : Nat :=
  ((List.range' 1 (month - 1)).map (monthLength y)).sum

/-- The days from 1970-01-01, which is day 719163 of the year 1, to a date. -/
def number (date : Date) : Int :=
  daysBeforeYear date.year + daysBeforeMonth date.year date.month + date.day - 719163

/-! ## Days and dates -/

/-- The years of an era. -/
theorem exists_year {doe : Nat} (h : doe < 146097) : ∃ c q y s : Nat,
    c ≤ 3 ∧ q ≤ 24 ∧ y ≤ 3 ∧ s ≤ 365 ∧ (s = 365 → y = 3 ∧ (q = 24 → c = 3)) ∧
      doe = 36524 * c + 1461 * q + 365 * y + s := by
  have hcentury : ∃ c n, c ≤ 3 ∧ n ≤ 36524 ∧ (n = 36524 → c = 3) ∧ doe = 36524 * c + n :=
    ⟨min (doe / 36524) 3, doe - 36524 * min (doe / 36524) 3, by omega⟩
  obtain ⟨c, n, hc, hn, hlast, rfl⟩ := hcentury
  have hyear : ∃ y s, y ≤ 3 ∧ s ≤ 365 ∧ (s = 365 → y = 3) ∧ n % 1461 = 365 * y + s :=
    ⟨min (n % 1461 / 365) 3, n % 1461 - 365 * min (n % 1461 / 365) 3, by omega⟩
  obtain ⟨y, s, hy, hs, hleap, hrest⟩ := hyear
  exact ⟨c, n / 1461, y, s, hc, by omega, hy, hs, fun h => ⟨hleap h, by omega⟩, by omega⟩

theorem yearOfEra_eq {doe c q y s : Nat} (hc : c ≤ 3) (hq : q ≤ 24) (hy : y ≤ 3) (hs : s ≤ 365)
    (hleap : s = 365 → y = 3 ∧ (q = 24 → c = 3))
    (hdoe : doe = 36524 * c + 1461 * q + 365 * y + s) :
    (doe - doe / 1460 + doe / 36524 - doe / 146096) / 365 = 100 * c + 4 * q + y := by
  -- the quotients are exact but for the end of a cycle, and for the last day of the era
  have hcycles : ∃ e, doe / 1460 = 25 * c + q + e ∧ e ≤ s ∧ s ≤ 364 + e := by
    refine ⟨(24 * c + q + 365 * y + s) / 1460, by omega, by omega, ?_⟩
    by_cases h : s = 365
    · obtain ⟨rfl, -⟩ := hleap h
      omega
    · omega
  have hcenturies : doe / 36524 = c + doe / 146096 := by
    by_cases h : s = 365 ∧ q = 24
    · obtain ⟨rfl, hc⟩ := hleap h.1
      obtain rfl := hc h.2
      obtain ⟨rfl, rfl⟩ := h
      rw [hdoe]
    · clear hleap hcycles
      have hcentury : doe / 36524 = c := Nat.div_eq_of_lt_le (by omega) (by omega)
      have hera : doe / 146096 = 0 := Nat.div_eq_of_lt (by omega)
      rw [hcentury, hera, Nat.add_zero]
  obtain ⟨e, hcycles, he, hs⟩ := hcycles
  rw [hcycles, hcenturies]
  generalize doe / 146096 = k
  clear hleap hcycles hcenturies
  have hsum : doe - (25 * c + q + e) + (c + k) - k =
      365 * (100 * c + 4 * q + y) + (s - e) := by omega
  rw [hsum]
  omega

/-- The days before a year, if years start in March. -/
theorem daysBeforeYear_succ (y : Int) :
    daysBeforeYear (y + 1) = daysBeforeYear y + 365 + leapDays y := by
  unfold daysBeforeYear leapDays
  split <;> omega

theorem daysBeforeYear_era (era : Int) {c q y : Nat} (hc : c ≤ 3) (hq : q ≤ 24) (hy : y ≤ 3) :
    daysBeforeYear ((100 * c + 4 * q + y : Nat) + 400 * era + 1) =
      146097 * era + (36524 * c + 1461 * q + 365 * y : Nat) := by
  unfold daysBeforeYear
  omega

/-- The days before a month from March on. -/
theorem daysBeforeMonth_shifted (y : Int) {k : Nat} (hk : k < 10) :
    daysBeforeMonth y (k + 3) = (153 * k + 2) / 5 + 59 + leapDays y := by
  interval_cases k <;> simp [daysBeforeMonth, monthLength, List.range'] <;> omega

/-- The date of a day, by the years since March of a year 400 · era. -/
theorem ofDay_eq {era : Int} {c q y s : Nat} (hc : c ≤ 3) (hq : q ≤ 24) (hy : y ≤ 3) (hs : s ≤ 365)
    (hleap : s = 365 → y = 3 ∧ (q = 24 → c = 3)) :
    ofDay (146097 * era + (36524 * c + 1461 * q + 365 * y + s : Nat) - 719468) =
      let k := (5 * s + 2) / 153
      let month := if k < 10 then k + 3 else k - 9
      ⟨(100 * c + 4 * q + y : Nat) + 400 * era + (if month ≤ 2 then 1 else 0), month,
        s - (153 * k + 2) / 5 + 1⟩ := by
  obtain ⟨doe, hdoe⟩ : ∃ doe, doe = 36524 * c + 1461 * q + 365 * y + s := ⟨_, rfl⟩
  have hyear := yearOfEra_eq hc hq hy hs hleap hdoe
  have hday : doe - (365 * (100 * c + 4 * q + y) + (100 * c + 4 * q + y) / 4 -
      (100 * c + 4 * q + y) / 100) = s := by
    have hcycle : (100 * c + 4 * q + y) / 4 = 25 * c + q := by omega
    have hcentury : (100 * c + 4 * q + y) / 100 = c := by omega
    omega
  have hera : (146097 * era + doe).fdiv 146097 = era := by
    rw [Int.fdiv_eq_ediv_of_nonneg _ (by omega)]
    omega
  have hrest : (146097 * era + doe).fmod 146097 = doe := by
    rw [Int.fmod_eq_emod_of_nonneg _ (by omega)]
    omega
  rw [← hdoe]
  simp only [ofDay, Int.sub_add_cancel, hera, hrest, Int.toNat_natCast, hyear, hday]

/-- Every day is one of an era of 400 years. -/
theorem exists_era (d : Int) : ∃ (era : Int) (c q y s : Nat), c ≤ 3 ∧ q ≤ 24 ∧ y ≤ 3 ∧ s ≤ 365 ∧
    (s = 365 → y = 3 ∧ (q = 24 → c = 3)) ∧
    d = 146097 * era + (36524 * c + 1461 * q + 365 * y + s : Nat) - 719468 := by
  obtain ⟨doe, hdoe⟩ := Int.eq_ofNat_of_zero_le
    (Int.emod_nonneg (d + 719468) (show (146097 : Int) ≠ 0 by decide))
  have hlt : doe < 146097 := by omega
  obtain ⟨c, q, y, s, hc, hq, hy, hs, hleap, hsum⟩ := exists_year hlt
  refine ⟨(d + 719468) / 146097, c, q, y, s, hc, hq, hy, hs, hleap, ?_⟩
  rw [← hsum]
  omega

/-- **Counting the days up to the date of a day gives the day.** -/
theorem number_ofDay (d : Day) : (ofDay d).number = d := by
  obtain ⟨era, c, q, y, s, hc, hq, hy, hs, hleap, rfl⟩ := exists_era d
  have hyear := daysBeforeYear_era era hc hq hy
  obtain ⟨k, hk⟩ : ∃ k, k = (5 * s + 2) / 153 := ⟨_, rfl⟩
  have hstart : (153 * k + 2) / 5 ≤ s := by omega
  have hk' : k ≤ 11 := by omega
  rw [ofDay_eq hc hq hy hs hleap, ← hk]
  generalize ((100 * c + 4 * q + y : Nat) + 400 * era : Int) = year at hyear ⊢
  dsimp only [number]
  by_cases hmarch : k < 10
  · have hlate : ¬ k + 3 ≤ 2 := by omega
    simp only [hmarch, hlate, if_true, if_false, Int.add_zero]
    rw [daysBeforeMonth_shifted _ hmarch]
    have hsucc := daysBeforeYear_succ year
    omega
  · have hearly : k - 9 ≤ 2 := by omega
    simp only [hmarch, hearly, if_true, if_false]
    have hmonth : daysBeforeMonth (year + 1) (k - 9) + 306 = (153 * k + 2) / 5 := by
      obtain rfl | rfl : k = 10 ∨ k = 11 := by omega
      · rfl
      · rfl
    omega

/-- A 29th of February is the 366th day of a year that ends a cycle. -/
theorem leapDays_era {era : Int} {c q : Nat} (hq : q ≤ 24) (hlast : q = 24 → c = 3) :
    leapDays ((100 * c + 4 * q + 3 : Nat) + 400 * era + 1) = 1 := by
  unfold leapDays
  rw [if_pos]
  omega

/-- A day has a date of the calendar. -/
theorem valid_ofDay (d : Day) : (ofDay d).Valid := by
  obtain ⟨era, c, q, y, s, hc, hq, hy, hs, hleap, rfl⟩ := exists_era d
  obtain ⟨k, hk⟩ : ∃ k, k = (5 * s + 2) / 153 := ⟨_, rfl⟩
  have hk' : k ≤ 11 := by omega
  have hlength : s - (153 * k + 2) / 5 + 1 ≤ 31 := by omega
  rw [ofDay_eq hc hq hy hs hleap, ← hk]
  by_cases hmarch : k < 10
  · have hlate : ¬ k + 3 ≤ 2 := by omega
    simp only [hmarch, hlate, if_true, if_false, Int.add_zero]
    refine ⟨Nat.le_add_left 1 _, by simp; omega, Nat.le_add_left 1 _, ?_⟩
    dsimp only
    clear hleap
    interval_cases k <;> simp only [monthLength] <;> omega
  · have hearly : k - 9 ≤ 2 := by omega
    simp only [hmarch, hearly, if_true, if_false]
    obtain rfl | rfl : k = 10 ∨ k = 11 := by omega
    · exact ⟨Nat.le_refl 1, by simp, Nat.le_add_left 1 _, hlength⟩
    · refine ⟨by simp, by simp, Nat.le_add_left 1 _, ?_⟩
      show s - 337 + 1 ≤ 28 + leapDays _
      by_cases hlast : s = 365
      · obtain ⟨rfl, hlast⟩ := hleap hlast
        rw [leapDays_era hq hlast]
        omega
      · omega

end Date

/-! ## Numbers in decimal -/

namespace Text

theorem digit?_of_isDigit {c : Char} (h : c.isDigit = true) :
    digit? c = some (c.toNat - '0'.toNat) := by
  simp only [Char.isDigit, Bool.and_eq_true, decide_eq_true_eq] at h
  exact if_pos h

/-- One or more digits are read as the number that they spell. -/
theorem natural?_of_isDigit {cs : List Char} (hne : cs ≠ []) (h : ∀ c ∈ cs, c.isDigit = true) :
    natural? cs = some (Nat.ofDigitChars 10 cs 0) := by
  have hdigits : cs.mapM digit? = some (cs.map fun c => c.toNat - '0'.toNat) := by
    clear hne
    induction cs with
    | nil => rfl
    | cons c cs ih =>
      rw [List.mapM_cons, digit?_of_isDigit (h c (by simp)), ih fun c hc => h c (by simp [hc])]
      rfl
  have hempty : cs.isEmpty = false := by simpa using hne
  rw [natural?, hempty, hdigits]
  simp [ofDigits, List.foldl_map, Nat.ofDigitChars]

end Text

namespace Date

theorem isDigit_padded {width n : Nat} {c : Char} (h : c ∈ padded width n) : c.isDigit = true := by
  rcases List.mem_append.1 h with h | h
  · rw [List.eq_of_mem_replicate h]
    rfl
  · exact Nat.isDigit_of_mem_toDigits (by decide) (by decide) h

theorem padded_ne_nil (width n : Nat) : padded width n ≠ [] := by
  simp [padded, Nat.toDigits_ne_nil]

theorem natural?_padded (width n : Nat) : Text.natural? (padded width n) = some n := by
  rw [Text.natural?_of_isDigit (padded_ne_nil width n) fun c hc => isDigit_padded hc, padded,
    Nat.ofDigitChars_append, Nat.ofDigitChars_replicate_zero, Nat.mul_zero,
    Nat.ofDigitChars_ten_toDigits]

theorem notMem_padded {c : Char} (hc : c.isDigit = false) (width n : Nat) : c ∉ padded width n := by
  intro h
  rw [isDigit_padded h] at hc
  cases hc

/-! ## Dates in text -/

instance (date : Date) : Decidable date.Valid :=
  decidable_of_iff (1 ≤ date.month ∧ date.month ≤ 12 ∧ 1 ≤ date.day ∧
      date.day ≤ monthLength date.year date.month)
    ⟨fun ⟨h₁, h₂, h₃, h₄⟩ => ⟨h₁, h₂, h₃, h₄⟩, fun ⟨h₁, h₂, h₃, h₄⟩ => ⟨h₁, h₂, h₃, h₄⟩⟩

/-- Three numbers between hyphens, as year, month and day. -/
def ofParts? (cs : List Char) : Option Date :=
  match Text.splitChars '-' cs with
  | [year, month, day] => do
    return ⟨← Text.natural? year, ← Text.natural? month, ← Text.natural? day⟩
  | _ => none

/-- The same, after a sign that belongs to the year. -/
def ofSigned? : List Char → Option Date
  | '-' :: cs => (ofParts? cs).map fun date => { date with year := -date.year }
  | '+' :: cs => ofParts? cs
  | cs => ofParts? cs

/-- The valid date that a text spells. -/
def ofText? (s : String) : Option Date :=
  (ofSigned? s.toList).filter fun date => date.Valid

theorem ofParts?_padded (width year month day : Nat) :
    ofParts? (padded width year ++ '-' :: padded 2 month ++ '-' :: padded 2 day) =
      some ⟨year, month, day⟩ := by
  have hsplit : Text.splitChars '-' (padded width year ++ '-' :: padded 2 month ++
      '-' :: padded 2 day) = [padded width year, padded 2 month, padded 2 day] := by
    rw [Text.splitChars_append, Text.splitChars_append,
      Text.splitChars_of_notMem (notMem_padded rfl _ _),
      Text.splitChars_of_notMem (notMem_padded rfl _ _),
      Text.splitChars_of_notMem (notMem_padded rfl _ _)]
    rfl
  rw [ofParts?, hsplit]
  simp only [natural?_padded]
  rfl

/-- A digit is no sign. -/
theorem ofSigned?_padded (width n : Nat) (r : List Char) :
    ofSigned? (padded width n ++ r) = ofParts? (padded width n ++ r) := by
  obtain ⟨c, cs, hcs⟩ := List.exists_cons_of_ne_nil (padded_ne_nil width n)
  have hc : c.isDigit = true := isDigit_padded (hcs ▸ List.mem_cons_self)
  rw [hcs, List.cons_append]
  unfold ofSigned?
  split
  · rename_i heq
    rw [(List.cons.inj heq).1] at hc
    cases hc
  · rename_i heq
    rw [(List.cons.inj heq).1] at hc
    cases hc
  · rfl

/-- **A valid date is read back from its text.** -/
theorem ofText?_text {date : Date} (h : date.Valid) : ofText? date.text = some date := by
  have hsigned : ofSigned? date.text.toList = some date := by
    obtain ⟨year, month, day⟩ := date
    simp only [text, String.toList_ofList, yearText]
    split
    · -- a sign, and the digits without it
      have hyear : -(year.natAbs : Int) = year := by omega
      simp only [List.cons_append, ofSigned?, ofParts?_padded, Option.map_some, hyear]
    · have hyear : (year.natAbs : Int) = year := by omega
      split
      · rw [List.append_assoc, ofSigned?_padded, ← List.append_assoc, ofParts?_padded, hyear]
      · simp only [List.cons_append, ofSigned?, ofParts?_padded, hyear]
  rw [ofText?, hsigned, Option.filter_some, if_pos (decide_eq_true h)]

end Date

end Merchandising
