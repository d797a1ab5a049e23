/-
**The proleptic Gregorian calendar.**

Every fourth year is a leap year, except for the hundredth ones that are not four-hundredth ones,
in both directions without end.  A date carries the proof that its month has its day.  Dates are
ordered by year, month and day, and counted in days from the first of January 1970.

Main definitions:

* `Calendar.IsLeap`, `Calendar.daysInMonth` — leap years, and the lengths of the months;
* `Calendar.Date`, `Calendar.Date.next` — dates, and the day after;
* `Calendar.Date.dayCount` — the day count.

Main results:

* `Calendar.daysBeforeYear_succ` — how long a year is;
* `Calendar.Date.dayCount_next` — **the day after has the next count**;
* `Calendar.Date.dayCount_strictMono` — **the day count keeps the order**.
-/

import Mathlib

set_option relaxedAutoImplicit false
set_option autoImplicit false

namespace Calendar

/-! ### Years -/

def IsLeap (y : ℤ) : Prop := 4 ∣ y ∧ (¬ 100 ∣ y ∨ 400 ∣ y)

instance (y : ℤ) : Decidable (IsLeap y) :=
  inferInstanceAs (Decidable (4 ∣ y ∧ (¬ 100 ∣ y ∨ 400 ∣ y)))

/-- The number of leap years from year 1 to year `y`, negative before year 1. -/
def leapYears (y : ℤ) : ℤ := y / 4 - y / 100 + y / 400

def yearLength (y : ℤ) : ℕ := if IsLeap y then 366 else 365

/-- The number of days between the first days of year 1 and of year `y`. -/
def daysBeforeYear (y : ℤ) : ℤ := 365 * (y - 1) + leapYears (y - 1)

theorem leapYears_succ (y : ℤ) :
    leapYears (y + 1) = leapYears y + if IsLeap (y + 1) then 1 else 0 := by
  rw [leapYears, leapYears]
  by_cases h : IsLeap (y + 1)
  · rw [if_pos h]
    obtain ⟨h4, h100⟩ := h
    omega
  · rw [if_neg h]
    rw [IsLeap] at h
    omega

theorem leapYears_pred (y : ℤ) : leapYears y = leapYears (y - 1) + if IsLeap y then 1 else 0 := by
  have h := leapYears_succ (y - 1)
  rwa [Int.sub_add_cancel] at h

/-- **The length of a year.** -/
theorem daysBeforeYear_succ (y : ℤ) : daysBeforeYear (y + 1) = daysBeforeYear y + yearLength y := by
  have h := leapYears_pred y
  rw [daysBeforeYear, daysBeforeYear, yearLength, Int.add_sub_cancel, h]
  split
  · push_cast
    omega
  · push_cast
    omega

theorem yearLength_le (y : ℤ) : yearLength y ≤ 366 := by
  rw [yearLength]
  split <;> omega

theorem daysBeforeYear_mono : Monotone daysBeforeYear := by
  refine monotone_int_of_le_succ ?_
  intro y
  rw [daysBeforeYear_succ]
  omega

/-! ### Months -/

/-- The length of a month, counted from 1. -/
def daysInMonth (y : ℤ) : ℕ → ℕ
  | 2 => if IsLeap y then 29 else 28
  | 4 | 6 | 9 | 11 => 30
  | _ => 31

theorem daysInMonth_pos (y : ℤ) (m : ℕ) : 1 ≤ daysInMonth y m := by
  unfold daysInMonth
  split
  · split <;> omega
  all_goals omega

/-- The number of days between the first days of the year and of its month `m`. -/
def daysBeforeMonth (y : ℤ) (m : ℕ) : ℕ := ∑ i ∈ Finset.Ico 1 m, daysInMonth y i

theorem daysBeforeMonth_one (y : ℤ) : daysBeforeMonth y 1 = 0 := rfl

theorem daysBeforeMonth_succ (y : ℤ) {m : ℕ} (h : 1 ≤ m) :
    daysBeforeMonth y (m + 1) = daysBeforeMonth y m + daysInMonth y m :=
  Finset.sum_Ico_succ_top h _

theorem daysBeforeMonth_mono (y : ℤ) : Monotone (daysBeforeMonth y) := by
  intro m m' h
  exact Finset.sum_le_sum_of_subset (Finset.Ico_subset_Ico_right h)

/-- The twelve months are the year. -/
theorem daysBeforeMonth_thirteen (y : ℤ) : daysBeforeMonth y 13 = yearLength y := by
  rw [daysBeforeMonth, yearLength]
  simp only [Finset.sum_Ico_succ_top, Nat.reduceLeDiff, Nat.reduceAdd, Finset.Ico_self,
    Finset.sum_empty, daysInMonth]
  split <;> rfl

/-! ### Dates -/

/-- A day of a month of a year. -/
@[ext] structure Date where
  year : ℤ
  month : ℕ
  day : ℕ
  month_pos : 1 ≤ month
  month_le : month ≤ 12
  day_pos : 1 ≤ day
  day_le : day ≤ daysInMonth year month
  deriving DecidableEq

namespace Date

/-- The year, the month and the day. -/
def ymd (d : Date) : ℤ × ℕ × ℕ := (d.year, d.month, d.day)

/-- The place of a date in the lexicographic order. -/
def lex (d : Date) : ℤ ×ₗ ℕ ×ₗ ℕ := toLex (d.year, toLex (d.month, d.day))

theorem lex_injective : Function.Injective lex := by
  intro a b h
  obtain ⟨hy, hmd⟩ := Prod.ext_iff.1 (toLex_inj.1 h)
  obtain ⟨hm, hd⟩ := Prod.ext_iff.1 (toLex_inj.1 hmd)
  exact Date.ext hy hm hd

theorem ymd_injective : Function.Injective ymd := by
  intro a b h
  obtain ⟨hy, hmd⟩ := Prod.ext_iff.1 h
  obtain ⟨hm, hd⟩ := Prod.ext_iff.1 hmd
  exact Date.ext hy hm hd

/-- Dates are ordered by year, month and day. -/
instance : LinearOrder Date := LinearOrder.lift' lex lex_injective

theorem lt_iff_lex (a b : Date) : a < b ↔ a.lex < b.lex := Iff.rfl

theorem lt_iff (a b : Date) : a < b ↔ a.year < b.year ∨ a.year = b.year ∧
    (a.month < b.month ∨ a.month = b.month ∧ a.day < b.day) := by
  rw [lt_iff_lex, lex, lex, Prod.Lex.toLex_lt_toLex, Prod.Lex.toLex_lt_toLex]

/-- The number of days before `d` in its year. -/
def dayOfYear (d : Date) : ℕ := daysBeforeMonth d.year d.month + (d.day - 1)

/-- The number of days from the first of January 1970 to `d`. -/
def dayCount (d : Date) : ℤ := daysBeforeYear d.year + d.dayOfYear - daysBeforeYear 1970

example : Date.dayCount ⟨1970, 1, 1, by decide, by decide, by decide, by decide⟩ = 0 := rfl

/-- The day after. -/
def next (d : Date) : Date :=
  if h : d.day < daysInMonth d.year d.month then
    { d with day := d.day + 1, day_pos := Nat.le_add_left _ _, day_le := h }
  else if hm : d.month < 12 then
    { year := d.year, month := d.month + 1, day := 1
      month_pos := Nat.le_add_left _ _, month_le := hm, day_pos := le_rfl
      day_le := daysInMonth_pos d.year (d.month + 1) }
  else
    { year := d.year + 1, month := 1, day := 1
      month_pos := le_rfl, month_le := by decide, day_pos := le_rfl
      day_le := daysInMonth_pos (d.year + 1) 1 }

theorem dayOfYear_lt (d : Date) : d.dayOfYear < yearLength d.year := by
  have hmonth := daysBeforeMonth_succ d.year d.month_pos
  have hle := daysBeforeMonth_mono d.year (Nat.add_le_add_right d.month_le 1)
  rw [show 12 + 1 = 13 from rfl, daysBeforeMonth_thirteen] at hle
  have hpos := d.day_pos
  have hday := d.day_le
  rw [dayOfYear]
  omega

/-- **The day after has the next count.** -/
theorem dayCount_next (d : Date) : d.next.dayCount = d.dayCount + 1 := by
  have hpos := d.day_pos
  have hday := d.day_le
  have hmonth := daysBeforeMonth_succ d.year d.month_pos
  rw [dayCount, dayCount, dayOfYear, dayOfYear, next]
  split
  · simp only
    omega
  · next hday' =>
    split
    · -- the last day of a month
      simp only
      omega
    · -- the last day of a year
      have hlast : d.month = 12 := by
        have := d.month_le
        omega
      have hyear : daysBeforeMonth d.year (12 + 1) = _ := daysBeforeMonth_thirteen d.year
      rw [hlast] at hday hday' hmonth
      simp only [daysBeforeMonth_one, daysBeforeYear_succ, hlast]
      omega

/-- **The day count keeps the order.** -/
theorem dayCount_strictMono : StrictMono dayCount := by
  intro a b h
  have hpos := a.day_pos
  have hpos' := b.day_pos
  rw [dayCount, dayCount]
  rcases (lt_iff a b).1 h with hyear | ⟨hyear, hmonth | ⟨hmonth, hday⟩⟩
  · have ha := a.dayOfYear_lt
    have hle := daysBeforeYear_mono (Int.add_one_le_iff.2 hyear)
    rw [daysBeforeYear_succ] at hle
    omega
  · have ha := a.day_le
    have hsucc := daysBeforeMonth_succ a.year a.month_pos
    have hle := daysBeforeMonth_mono a.year (Nat.add_one_le_iff.2 hmonth)
    rw [dayOfYear, dayOfYear, ← hyear]
    omega
  · rw [dayOfYear, dayOfYear, ← hyear, ← hmonth]
    omega

theorem dayCount_injective : Function.Injective dayCount := dayCount_strictMono.injective

end Date

end Calendar
