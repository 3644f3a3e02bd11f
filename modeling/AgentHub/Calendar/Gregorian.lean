import Mathlib.Data.Nat.Basic
import Mathlib.Tactic.Common

namespace Gregorian

/-!
# The proleptic Gregorian calendar

Days counted from January 1 of year 1, which is day 1, and the dates they are.

* `Date` — a date, with a month and a day that exist as fields;
* `Date.toOrdinal`, `ofOrdinal` — the number of a date and the date of a number;
* `toOrdinal_ofOrdinal` — the number of the date of a number is the number;
* `toOrdinal_lt_iff` — the numbers order the dates by year, month and day.
-/

/-! ### Years -/

/-- Every fourth year, but of the centuries every fourth only. -/
def isLeap (year : ℕ) : Bool := year % 4 = 0 && (year % 100 ≠ 0 || year % 400 = 0)

/-- The days of a year. -/
def daysInYear (year : ℕ) : ℕ := if isLeap year then 366 else 365

/-- The days before January 1 of a year. -/
def daysBeforeYear (year : ℕ) : ℕ :=
  (year - 1) * 365 + (year - 1) / 4 - (year - 1) / 100 + (year - 1) / 400

/-- The rule of the leap years, as a proposition. -/
theorem isLeap_iff {year : ℕ} :
    isLeap year = true ↔ year % 4 = 0 ∧ (year % 100 ≠ 0 ∨ year % 400 = 0) := by
  simp [isLeap]

/-- The years before the next one. -/
theorem daysBeforeYear_succ {year : ℕ} (h : 1 ≤ year) :
    daysBeforeYear (year + 1) = daysBeforeYear year + daysInYear year := by
  obtain ⟨y, rfl⟩ := Nat.exists_eq_add_of_le' h
  have h4 : (y + 1) / 4 = y / 4 + if (y + 1) % 4 = 0 then 1 else 0 := by split <;> omega
  have h100 : (y + 1) / 100 = y / 100 + if (y + 1) % 100 = 0 then 1 else 0 := by split <;> omega
  have h400 : (y + 1) / 400 = y / 400 + if (y + 1) % 400 = 0 then 1 else 0 := by split <;> omega
  have hle : y / 100 ≤ y / 4 := by omega
  simp only [daysBeforeYear, daysInYear, isLeap_iff, Nat.add_sub_cancel, h4, h100, h400]
  -- every 400th year is a 100th one, and every 100th a 4th
  by_cases hfour : (y + 1) % 4 = 0
  · by_cases hhundred : (y + 1) % 100 = 0
    · by_cases hfourHundred : (y + 1) % 400 = 0
      · simp [hfour, hhundred, hfourHundred]
        omega
      · simp [hfour, hhundred, hfourHundred]
        omega
    · have hfourHundred : (y + 1) % 400 ≠ 0 := by omega
      simp [hfour, hhundred, hfourHundred]
      omega
  · have hhundred : (y + 1) % 100 ≠ 0 := by omega
    have hfourHundred : (y + 1) % 400 ≠ 0 := by omega
    simp [hfour, hhundred, hfourHundred]
    omega

/-- A later year begins after the whole of an earlier one. -/
theorem daysBeforeYear_le {year later : ℕ} (h : 1 ≤ year) (hlt : year < later) :
    daysBeforeYear year + daysInYear year ≤ daysBeforeYear later := by
  induction later, hlt using Nat.le_induction with
  | base => rw [daysBeforeYear_succ h]
  | succ later hle ih =>
    have hstep : daysBeforeYear (later + 1) = daysBeforeYear later + daysInYear later :=
      daysBeforeYear_succ (by omega)
    omega

/-! ### Months -/

/-- The days of a month of a leap year or of another one. -/
def daysInMonth (leap : Bool) (month : ℕ) : ℕ :=
  if month = 2 ∧ leap = true then 29
  else [0, 31, 28, 31, 30, 31, 30, 31, 31, 30, 31, 30, 31].getD month 0

/-- The days of the year before a month. -/
def daysBeforeMonth (leap : Bool) (month : ℕ) : ℕ :=
  [0, 0, 31, 59, 90, 120, 151, 181, 212, 243, 273, 304, 334].getD month 0 +
    if 2 < month ∧ leap = true then 1 else 0

/-- A later month begins after the whole of an earlier one. -/
theorem daysBeforeMonth_le (leap : Bool) {month later : ℕ} (h : month < later)
    (hlater : later ≤ 12) :
    daysBeforeMonth leap month + daysInMonth leap month ≤ daysBeforeMonth leap later := by
  have hall : ∀ leap : Bool, ∀ later < 13, ∀ month < later,
      daysBeforeMonth leap month + daysInMonth leap month ≤ daysBeforeMonth leap later := by
    decide
  exact hall leap later (by omega) month h

/-- The months fit into the year. -/
theorem daysBeforeMonth_add_le (year : ℕ) {month : ℕ} (h : month ≤ 12) :
    daysBeforeMonth (isLeap year) month + daysInMonth (isLeap year) month ≤ daysInYear year := by
  have hall : ∀ leap : Bool, ∀ month < 13,
      daysBeforeMonth leap month + daysInMonth leap month ≤ if leap then 366 else 365 := by
    decide
  exact hall (isLeap year) month (by omega)

/-- The month of a day of the year, counted from 0: an estimate from above, corrected. -/
def monthOf (leap : Bool) (n : ℕ) : ℕ :=
  if n < daysBeforeMonth leap ((n + 50) / 32) then (n + 50) / 32 - 1 else (n + 50) / 32

/-- The month found for a day of the year is the one the day falls in. -/
theorem monthOf_spec (leap : Bool) {n : ℕ} (h : n < if leap then 366 else 365) :
    (1 ≤ monthOf leap n ∧ monthOf leap n ≤ 12) ∧ daysBeforeMonth leap (monthOf leap n) ≤ n ∧
      n < daysBeforeMonth leap (monthOf leap n) + daysInMonth leap (monthOf leap n) := by
  have hall : ∀ leap : Bool, ∀ n < if leap then 366 else 365,
      (1 ≤ monthOf leap n ∧ monthOf leap n ≤ 12) ∧ daysBeforeMonth leap (monthOf leap n) ≤ n ∧
        n < daysBeforeMonth leap (monthOf leap n) + daysInMonth leap (monthOf leap n) := by
    decide +kernel
  exact hall leap n h

/-! ### Dates -/

/-- A date. -/
@[ext] structure Date where
  year : ℕ
  month : ℕ
  day : ℕ
  year_pos : 1 ≤ year
  month_mem : 1 ≤ month ∧ month ≤ 12
  day_mem : 1 ≤ day ∧ day ≤ daysInMonth (isLeap year) month
deriving DecidableEq

namespace Date

/-- The proleptic ordinal of a date: 1 for the first of January of year 1. -/
def toOrdinal (d : Date) : ℕ :=
  daysBeforeYear d.year + daysBeforeMonth (isLeap d.year) d.month + d.day

/-- One date comes before another one in the calendar. -/
def Before (d d' : Date) : Prop :=
  d.year < d'.year ∨ d.year = d'.year ∧
    (d.month < d'.month ∨ d.month = d'.month ∧ d.day < d'.day)

/-- The day of the year is at most the last one. -/
theorem dayOfYear_le (d : Date) :
    daysBeforeMonth (isLeap d.year) d.month + d.day ≤ daysInYear d.year := by
  have hfits := daysBeforeMonth_add_le d.year d.month_mem.2
  have hday := d.day_mem.2
  omega

/-- An earlier date has a smaller ordinal. -/
theorem Before.toOrdinal_lt {d d' : Date} (h : d.Before d') : d.toOrdinal < d'.toOrdinal := by
  have hday := d.day_mem.2
  have hday' := d'.day_mem.1
  unfold toOrdinal
  rcases h with hyear | ⟨hyear, hmonth | ⟨hmonth, hlt⟩⟩
  · have hbegin := daysBeforeYear_le d.year_pos hyear
    have hend := d.dayOfYear_le
    omega
  · have hbegin := daysBeforeMonth_le (isLeap d.year) hmonth d'.month_mem.2
    rw [hyear] at hbegin hday ⊢
    omega
  · rw [hyear, hmonth]
    omega

/-- Two dates are equal or one is before the other. -/
theorem before_total (d d' : Date) : d.Before d' ∨ d = d' ∨ d'.Before d := by
  unfold Before
  by_cases heq : d.year = d'.year ∧ d.month = d'.month ∧ d.day = d'.day
  · exact .inr (.inl (Date.ext heq.1 heq.2.1 heq.2.2))
  · omega

/-- **Numbers order dates.** -/
theorem toOrdinal_lt_iff {d d' : Date} : d.toOrdinal < d'.toOrdinal ↔ d.Before d' := by
  refine ⟨fun hlt => ?_, Before.toOrdinal_lt⟩
  rcases before_total d d' with h | rfl | h
  · exact h
  · exact absurd hlt (Nat.lt_irrefl _)
  · exact absurd hlt (Nat.lt_asymm h.toOrdinal_lt)

end Date

/-! ### From numbers to dates -/

/-- The year of a day, counted from 0: whole cycles of 400, 100, 4 and 1 years.  On the last day of
    a cycle of 400 or 4 years the quotient is one year too large. -/
def yearOf (n : ℕ) : ℕ :=
  let n400 := n / 146097
  let n100 := n % 146097 / 36524
  let n4 := n % 146097 % 36524 / 1461
  let n1 := n % 146097 % 36524 % 1461 / 365
  let year := n400 * 400 + n100 * 100 + n4 * 4 + n1 + 1
  if n1 = 4 ∨ n100 = 4 then year - 1 else year

/-- The days before a year, by the cycles before it. -/
theorem daysBeforeYear_cycles {a b c d : ℕ} (hb : b ≤ 3) (hc : c ≤ 24) (hd : d ≤ 3) :
    daysBeforeYear (a * 400 + b * 100 + c * 4 + d + 1) =
      a * 146097 + b * 36524 + c * 1461 + d * 365 := by
  have h4 : (a * 400 + b * 100 + c * 4 + d) / 4 = a * 100 + b * 25 + c := by omega
  have h100 : (a * 400 + b * 100 + c * 4 + d) / 100 = a * 4 + b := by omega
  have h400 : (a * 400 + b * 100 + c * 4 + d) / 400 = a := by omega
  rw [daysBeforeYear, Nat.add_sub_cancel, h4, h100, h400]
  omega

/-- Of the years counted by cycles, the last of four is leap, except the last of a hundred. -/
theorem isLeap_cycles {a b c d : ℕ} (hb : b ≤ 3) (hc : c ≤ 24) (hd : d ≤ 3) :
    isLeap (a * 400 + b * 100 + c * 4 + d + 1) = true ↔ d = 3 ∧ (c ≠ 24 ∨ b = 3) := by
  rw [isLeap_iff]
  omega

/-- Quotient and remainder of a number given by both. -/
theorem div_mod_of_lt {m r : ℕ} (k : ℕ) (h : r < m) :
    (k * m + r) / m = k ∧ (k * m + r) % m = r := by
  rw [Nat.mul_comm k m]
  refine ⟨?_, by rw [Nat.mul_add_mod, Nat.mod_eq_of_lt h]⟩
  rw [Nat.mul_add_div (by omega), Nat.div_eq_of_lt h, Nat.add_zero]

/-- The day is in the year. -/
theorem yearOf_spec (n : ℕ) : 1 ≤ yearOf n ∧ daysBeforeYear (yearOf n) ≤ n ∧
    n < daysBeforeYear (yearOf n) + daysInYear (yearOf n) := by
  obtain ⟨a, r, rfl, hr⟩ : ∃ a r, n = a * 146097 + r ∧ r < 146097 :=
    ⟨n / 146097, n % 146097, by omega, by omega⟩
  obtain ⟨b, s, rfl, hs⟩ : ∃ b s, r = b * 36524 + s ∧ s < 36524 :=
    ⟨r / 36524, r % 36524, by omega, by omega⟩
  obtain ⟨c, t, rfl, ht⟩ : ∃ c t, s = c * 1461 + t ∧ t < 1461 :=
    ⟨s / 1461, s % 1461, by omega, by omega⟩
  obtain ⟨d, u, rfl, hu⟩ : ∃ d u, t = d * 365 + u ∧ u < 365 :=
    ⟨t / 365, t % 365, by omega, by omega⟩
  obtain ⟨h400, hrest⟩ := div_mod_of_lt a hr
  obtain ⟨h100, hrest'⟩ := div_mod_of_lt b hs
  obtain ⟨h4, hrest''⟩ := div_mod_of_lt c ht
  obtain ⟨h1, -⟩ := div_mod_of_lt d hu
  have hc : c ≤ 24 := by omega
  simp only [yearOf, h400, hrest, h100, hrest', h4, hrest'', h1]
  split
  · next hlast =>
    rcases hlast with rfl | rfl
    · -- the 366th day of a leap year that ends a cycle of 4 years
      have hb : b ≤ 3 := by omega
      have hleap := (isLeap_cycles (a := a) hb hc (d := 3) (Nat.le_refl _)).mpr (by omega)
      have hbefore := daysBeforeYear_cycles (a := a) hb hc (d := 3) (Nat.le_refl _)
      have hyear : a * 400 + b * 100 + c * 4 + 4 + 1 - 1 = a * 400 + b * 100 + c * 4 + 3 + 1 := by
        omega
      rw [hyear, daysInYear, if_pos hleap, hbefore]
      omega
    · -- the last day of a cycle of 400 years
      obtain ⟨rfl, rfl, rfl⟩ : c = 0 ∧ d = 0 ∧ u = 0 := by omega
      have hleap := (isLeap_cycles (a := a) (b := 3) (c := 24) (d := 3) (by omega) (by omega)
        (by omega)).mpr (by omega)
      have hbefore := daysBeforeYear_cycles (a := a) (b := 3) (c := 24) (d := 3) (by omega)
        (by omega) (by omega)
      have hyear : a * 400 + 4 * 100 + 0 * 4 + 0 + 1 - 1 = a * 400 + 3 * 100 + 24 * 4 + 3 + 1 := by
        omega
      rw [hyear, daysInYear, if_pos hleap, hbefore]
      omega
  · next hlast =>
    have hb : b ≤ 3 := by omega
    have hd : d ≤ 3 := by omega
    have hbefore := daysBeforeYear_cycles (a := a) hb hc hd
    have hlong : 365 ≤ daysInYear (a * 400 + b * 100 + c * 4 + d + 1) := by
      unfold daysInYear
      split <;> omega
    rw [hbefore]
    omega

/-- The day of its year, counted from 0. -/
def dayOfYear (n : ℕ) : ℕ := n - daysBeforeYear (yearOf n)

/-- The day of the year is within the year. -/
theorem dayOfYear_lt (n : ℕ) : dayOfYear n < daysInYear (yearOf n) := by
  have hyear := yearOf_spec n
  unfold dayOfYear
  omega

/-- The date of a day, counted from 1. -/
def ofOrdinal (n : ℕ) : Date where
  year := yearOf (n - 1)
  month := monthOf (isLeap (yearOf (n - 1))) (dayOfYear (n - 1))
  day := dayOfYear (n - 1) -
    daysBeforeMonth (isLeap (yearOf (n - 1))) (monthOf (isLeap (yearOf (n - 1)))
      (dayOfYear (n - 1))) + 1
  year_pos := (yearOf_spec (n - 1)).1
  month_mem := (monthOf_spec _ (dayOfYear_lt (n - 1))).1
  day_mem := by
    have hmonth := monthOf_spec _ (dayOfYear_lt (n - 1))
    omega

/-- **The date of a number has that number.** -/
theorem toOrdinal_ofOrdinal {n : ℕ} (h : 1 ≤ n) : (ofOrdinal n).toOrdinal = n := by
  have hyear := yearOf_spec (n - 1)
  have hmonth := monthOf_spec _ (dayOfYear_lt (n - 1))
  have hday : dayOfYear (n - 1) = n - 1 - daysBeforeYear (yearOf (n - 1)) := rfl
  simp only [ofOrdinal, Date.toOrdinal]
  omega

/-- An earlier day has an earlier date. -/
theorem ofOrdinal_before {n n' : ℕ} (h : 1 ≤ n) (hlt : n < n') :
    (ofOrdinal n).Before (ofOrdinal n') := by
  rw [← Date.toOrdinal_lt_iff, toOrdinal_ofOrdinal h, toOrdinal_ofOrdinal (by omega)]
  exact hlt

example : ((ofOrdinal 738945).year, (ofOrdinal 738945).month, (ofOrdinal 738945).day) =
    (2024, 2, 29) := by decide

end Gregorian
