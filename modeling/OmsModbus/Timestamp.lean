/-
**The dates of captured packets.**

The time of a packet is printed as a date and a time of the day.  The date comes from a chain of
divisions on eras of 400 years that begin with March, so that the leap day is the last of its year;
within an era the steps are on unsigned words, and the subtractions may not go below zero.

Main definitions:

* `OmsModbus.daysToYmd` — the date of a day number, with every check of its arithmetic;
* `OmsModbus.formatTimestamp` — a time in microseconds as it is printed.

Main results:

* `OmsModbus.yearOfEra_bounds`, `OmsModbus.monthFromMarch_bounds` — the two quotient estimates;
* `OmsModbus.dayCount_ofMarchYear` — the date of a day of a year that begins with March;
* `OmsModbus.daysToYmd_eq` — the date of a day number, and no overflow;
* `OmsModbus.formatTimestamp_eq` — the date and the time of the day that are printed;
* `OmsModbus.daysToYmd_calendar` — **the conversion is that of the calendar**.
-/

import OmsModbus.Calendar
import OmsModbus.PanicChecks

set_option relaxedAutoImplicit false
set_option autoImplicit false

namespace OmsModbus

open PanicChecks Calendar

/-! ### The conversion -/

/-- `x as u32`. -/
def asU32 (x : ℤ) : ℕ := (x % 2 ^ 32).toNat

/-- Days since 1970-01-01 to (year, month, day).  Signed divisions round towards zero. -/
def daysToYmd (z : ℤ) : Checked (ℤ × ℕ × ℕ) := do
  let z ← signed 64 (z + 719468)
  let n ← (if z ≥ 0 then .ok z else signed 64 (z - 146096))
  let era := n.tdiv 146097
  let doe := asU32 (← signed 64 (z - (← signed 64 (era * 146097))))
  let yoe := (← sub (← add 32 (← sub doe (doe / 1460)) (doe / 36524)) (doe / 146096)) / 365
  let y ← signed 64 (yoe + (← signed 64 (era * 400)))
  let doy ← sub doe (← sub (← add 32 (← mul 32 365 yoe) (yoe / 4)) (yoe / 100))
  let mp := (← add 32 (← mul 32 5 doy) 2) / 153
  let d ← add 32 (← sub doy ((← add 32 (← mul 32 153 mp) 2) / 5)) 1
  let m ← (if mp < 10 then add 32 mp 3 else sub mp 9)
  let y ← (if m ≤ 2 then signed 64 (y + 1) else .ok y)
  pure (y, m, d)

/-! ### Eras -/

/-- The number of days before year `y` of an era. -/
def daysBeforeYearOfEra (y : ℕ) : ℕ := 365 * y + y / 4 - y / 100 + y / 400

/-- The year of an era that the source computes from the day of the era. -/
def yearOfEra (doe : ℕ) : ℕ := (doe - doe / 1460 + doe / 36524 - doe / 146096) / 365

theorem yearOfEra_mono : Monotone yearOfEra := by
  refine monotone_nat_of_le_succ ?_
  intro doe
  refine Nat.div_le_div_right ?_
  omega

/-- The estimate is right on the first and on the last day of a year. -/
theorem yearOfEra_first_last : ∀ y < 400, yearOfEra (daysBeforeYearOfEra y) = y ∧
    yearOfEra (daysBeforeYearOfEra (y + 1) - 1) = y := by
  decide +kernel

/-- **The year of a day of an era.** -/
theorem yearOfEra_bounds {doe : ℕ} (h : doe < 146097) :
    yearOfEra doe < 400 ∧ daysBeforeYearOfEra (yearOfEra doe) ≤ doe ∧
      doe < daysBeforeYearOfEra (yearOfEra doe + 1) := by
  have hlt : yearOfEra doe < 400 := by
    have hmono := yearOfEra_mono (Nat.le_sub_one_of_lt h)
    have hlast := (yearOfEra_first_last 399 (by omega)).2
    exact Nat.lt_succ_of_le (hmono.trans hlast.le)
  refine ⟨hlt, ?_, ?_⟩
  · -- a day before the year is at most the last day of the year before
    by_contra hbefore
    obtain ⟨y, hy⟩ : ∃ y, yearOfEra doe = y + 1 := by
      refine Nat.exists_eq_add_one.2 (Nat.pos_of_ne_zero ?_)
      intro hzero
      rw [hzero] at hbefore
      exact hbefore (Nat.zero_le doe)
    rw [hy] at hlt hbefore
    have hmono := yearOfEra_mono (Nat.le_sub_one_of_lt (Nat.lt_of_not_le hbefore))
    rw [(yearOfEra_first_last y (by omega)).2, hy] at hmono
    omega
  · by_contra hafter
    rcases Nat.lt_or_ge (yearOfEra doe + 1) 400 with hnext | hnext
    · have hmono := yearOfEra_mono (Nat.le_of_not_lt hafter)
      rw [(yearOfEra_first_last _ hnext).1] at hmono
      omega
    · have hlast : yearOfEra doe = 399 := by omega
      rw [hlast] at hafter
      exact hafter h

/-! ### Months -/

/-- The month, counted from March, that the source computes from the day of the year. -/
def monthFromMarch (doy : ℕ) : ℕ := (5 * doy + 2) / 153

/-- The number of days before a month, counted from March. -/
def daysBeforeMonthFromMarch (mp : ℕ) : ℕ := (153 * mp + 2) / 5

theorem monthFromMarch_bounds {doy : ℕ} (h : doy < 366) :
    monthFromMarch doy < 12 ∧ daysBeforeMonthFromMarch (monthFromMarch doy) ≤ doy ∧
      doy < daysBeforeMonthFromMarch (monthFromMarch doy + 1) := by
  unfold monthFromMarch daysBeforeMonthFromMarch
  omega

/-- The calendar month of a month counted from March. -/
def monthOfYear (mp : ℕ) : ℕ := if mp < 10 then mp + 3 else mp - 9

theorem monthOfYear_mem {mp : ℕ} (h : mp < 12) : 1 ≤ monthOfYear mp ∧ monthOfYear mp ≤ 12 := by
  rw [monthOfYear]
  split <;> omega

/-- Only the last month, which is February, depends on the year. -/
theorem daysInMonth_monthOfYear (y : ℤ) {mp : ℕ} (h : mp < 11) :
    daysBeforeMonthFromMarch mp + daysInMonth y (monthOfYear mp)
      = daysBeforeMonthFromMarch (mp + 1) := by
  interval_cases mp <;> rfl

theorem daysInMonth_february (y : ℤ) :
    daysInMonth y (monthOfYear 11) = 28 + if IsLeap y then 1 else 0 := by
  change (if IsLeap y then 29 else 28) = _
  split <;> rfl

/-- From March on, the months before are January, February, and those from March on. -/
theorem daysBeforeMonth_add_three (y : ℤ) {mp : ℕ} (h : mp < 10) :
    daysBeforeMonth y (mp + 3)
      = daysBeforeMonthFromMarch mp + 59 + if IsLeap y then 1 else 0 := by
  induction mp with
  | zero =>
      have hjanuary : daysBeforeMonth y 2 = 31 := rfl
      have hfebruary := daysBeforeMonth_succ y (m := 2) (by omega)
      have hlength := daysInMonth_february y
      change daysInMonth y 2 = _ at hlength
      change daysBeforeMonth y (2 + 1) = 0 + 59 + _
      omega
  | succ mp ih =>
      have hsucc := daysBeforeMonth_succ y (m := mp + 3) (by omega)
      have hlength := daysInMonth_monthOfYear y (show mp < 11 by omega)
      rw [monthOfYear, if_pos (by omega)] at hlength
      rw [show mp + 1 + 3 = mp + 3 + 1 by omega, hsucc, ih (by omega)]
      omega

/-- The months before January and February are those of the year that began with March. -/
theorem daysBeforeMonth_sub_nine (y : ℤ) {mp : ℕ} (h : 10 ≤ mp) (hmp : mp < 12) :
    daysBeforeMonth y (mp - 9) + 306 = daysBeforeMonthFromMarch mp := by
  interval_cases mp <;> rfl

/-! ### Years that begin with March -/

/-- The length of the year that begins with the March of year `y`. -/
def marchYearLength (y : ℤ) : ℕ := yearLength (y + 1)

theorem lt_of_lt_marchYearLength {y : ℤ} {doy : ℕ} (h : doy < marchYearLength y) : doy < 366 :=
  lt_of_lt_of_le h (yearLength_le (y + 1))

/-- The month has the day: February, which is the last, ends with the year. -/
theorem dayOfMonth_le {y : ℤ} {doy : ℕ} (h : doy < marchYearLength y) :
    doy - daysBeforeMonthFromMarch (monthFromMarch doy) + 1
      ≤ daysInMonth (if monthFromMarch doy < 10 then y else y + 1)
          (monthOfYear (monthFromMarch doy)) := by
  obtain ⟨hmp, hfirst, hlast⟩ := monthFromMarch_bounds (lt_of_lt_marchYearLength h)
  rcases Nat.lt_or_ge (monthFromMarch doy) 11 with hmonth | hmonth
  · rw [← daysInMonth_monthOfYear (if monthFromMarch doy < 10 then y else y + 1) hmonth] at hlast
    omega
  · have hfebruary : monthFromMarch doy = 11 := by omega
    rw [hfebruary] at hfirst ⊢
    rw [if_neg (by omega), daysInMonth_february]
    rw [marchYearLength, yearLength] at h
    have hbefore : daysBeforeMonthFromMarch 11 = 337 := rfl
    split at h <;> split <;> omega

/-- The date of the day `doy` of the year that begins with the March of year `y`. -/
def ofMarchYear (y : ℤ) (doy : ℕ) (h : doy < marchYearLength y) : Date where
  year := if monthFromMarch doy < 10 then y else y + 1
  month := monthOfYear (monthFromMarch doy)
  day := doy - daysBeforeMonthFromMarch (monthFromMarch doy) + 1
  month_pos := (monthOfYear_mem (monthFromMarch_bounds (lt_of_lt_marchYearLength h)).1).1
  month_le := (monthOfYear_mem (monthFromMarch_bounds (lt_of_lt_marchYearLength h)).1).2
  day_pos := Nat.le_add_left _ _
  day_le := dayOfMonth_le h

theorem dayCount_ofMarchYear {y : ℤ} {doy : ℕ} (h : doy < marchYearLength y) :
    (ofMarchYear y doy h).dayCount = 365 * y + leapYears y + doy - 719468 := by
  obtain ⟨hmp, hfirst, -⟩ := monthFromMarch_bounds (lt_of_lt_marchYearLength h)
  have hepoch : daysBeforeYear 1970 = 719162 := rfl
  rw [Date.dayCount, Date.dayOfYear, ofMarchYear, hepoch]
  simp only [monthOfYear, Nat.add_sub_cancel]
  by_cases hmonth : monthFromMarch doy < 10
  · have hleap := leapYears_pred y
    rw [if_pos hmonth, if_pos hmonth, daysBeforeMonth_add_three y hmonth, daysBeforeYear]
    by_cases hleapYear : IsLeap y
    · rw [if_pos hleapYear] at hleap ⊢
      omega
    · rw [if_neg hleapYear] at hleap ⊢
      omega
  · have hbefore := daysBeforeMonth_sub_nine (y + 1) (Nat.le_of_not_lt hmonth) hmp
    rw [if_neg hmonth, if_neg hmonth, daysBeforeYear, Int.add_sub_cancel]
    omega

/-! ### The date of a day number -/

/-- The division of the source, which rounds towards zero, is made one that rounds down. -/
theorem tdiv_era (n : ℤ) : (if n ≥ 0 then n else n - 146096).tdiv 146097 = n / 146097 := by
  split
  · next hn => exact Int.tdiv_eq_ediv_of_nonneg hn
  · next hn =>
    rw [← Int.neg_sub, Int.neg_tdiv, Int.tdiv_eq_ediv_of_nonneg (by omega)]
    omega

/-- The calendar repeats itself after an era. -/
theorem daysBeforeYear_era (era : ℤ) (yoe : ℕ) :
    daysBeforeYear (yoe + era * 400 + 1) = daysBeforeYearOfEra yoe + era * 146097 := by
  rw [daysBeforeYear, leapYears, daysBeforeYearOfEra]
  omega

theorem daysBeforeYearOfEra_succ (era : ℤ) (yoe : ℕ) :
    daysBeforeYearOfEra (yoe + 1)
      = daysBeforeYearOfEra yoe + marchYearLength (yoe + era * 400) := by
  have hsucc := daysBeforeYear_succ (yoe + era * 400 + 1)
  have hera := daysBeforeYear_era era (yoe + 1)
  rw [Nat.cast_add_one, add_right_comm (yoe : ℤ), hsucc, daysBeforeYear_era] at hera
  rw [marchYearLength]
  omega

/-- The day of the year that the source computes from the day of the era and its year. -/
def dayOfMarchYear (doe yoe : ℕ) : ℕ := doe - (365 * yoe + yoe / 4 - yoe / 100)

theorem dayOfMarchYear_add {doe yoe : ℕ} (hyoe : yoe < 400) (h : daysBeforeYearOfEra yoe ≤ doe) :
    daysBeforeYearOfEra yoe + dayOfMarchYear doe yoe = doe := by
  rw [dayOfMarchYear]
  unfold daysBeforeYearOfEra at h ⊢
  omega

/-- **The date of a day of an era.** -/
theorem exists_ofMarchYear (era : ℤ) {doe : ℕ} (hdoe : doe < 146097) :
    ∃ h : dayOfMarchYear doe (yearOfEra doe) < marchYearLength (yearOfEra doe + era * 400),
      (ofMarchYear (yearOfEra doe + era * 400) _ h).dayCount = era * 146097 + doe - 719468 := by
  obtain ⟨hyoe, hfirst, hlast⟩ := yearOfEra_bounds hdoe
  have hday := dayOfMarchYear_add hyoe hfirst
  rw [daysBeforeYearOfEra_succ era] at hlast
  refine ⟨by omega, ?_⟩
  have hera := daysBeforeYear_era era (yearOfEra doe)
  rw [daysBeforeYear, Int.add_sub_cancel] at hera
  rw [dayCount_ofMarchYear, hera]
  omega

/-- **The date of a day number**; no step leaves the range of its words. -/
theorem daysToYmd_eq {z : ℤ} (hmin : -2 ^ 63 ≤ z) (hmax : z + 719468 < 2 ^ 63) :
    ∃ d : Date, daysToYmd z = .ok d.ymd ∧ d.dayCount = z := by
  obtain ⟨n, hn⟩ : ∃ n, n = z + 719468 := ⟨_, rfl⟩
  obtain ⟨era, hera⟩ : ∃ era, era = n / 146097 := ⟨_, rfl⟩
  obtain ⟨doe, hdoe⟩ : ∃ doe : ℕ, (doe : ℤ) = n - era * 146097 := ⟨(n % 146097).toNat, by omega⟩
  have hlt : doe < 146097 := by omega
  obtain ⟨hyoe, hfirst, hlast⟩ := yearOfEra_bounds hlt
  obtain ⟨hdoy, hcount⟩ := exists_ofMarchYear era hlt
  have hadd := dayOfMarchYear_add hyoe hfirst
  have hdoy' := lt_of_lt_marchYearLength hdoy
  obtain ⟨hmp, hmonth, -⟩ := monthFromMarch_bounds hdoy'
  refine ⟨_, ?_, hcount.trans (by omega)⟩
  rw [daysToYmd, ← hn]
  -- the era, and its day
  refine bind_eq (signed_eq (by omega) (by omega)) ?_
  refine bind_eq (a := if n ≥ 0 then n else n - 146096) ?_ ?_
  · split
    · rfl
    · exact signed_eq (by omega) (by omega)
  simp only [tdiv_era, ← hera]
  refine bind_eq (signed_eq (by omega) (by omega)) ?_
  refine bind_eq (signed_eq (by omega) (by omega)) ?_
  rw [← hdoe]
  have hword : asU32 doe = doe := by
    rw [asU32]
    omega
  simp only [hword]
  -- the year of the era
  refine bind_eq (sub_eq (by omega)) ?_
  refine bind_eq (add_eq (by omega)) ?_
  refine bind_eq (sub_eq (by omega)) ?_
  simp only [show (doe - doe / 1460 + doe / 36524 - doe / 146096) / 365 = yearOfEra doe from rfl]
  refine bind_eq (signed_eq (by omega) (by omega)) ?_
  refine bind_eq (signed_eq (by omega) (by omega)) ?_
  -- the day of the year
  refine bind_eq (mul_eq (by omega)) ?_
  refine bind_eq (add_eq (by omega)) ?_
  refine bind_eq (sub_eq (by omega)) ?_
  refine bind_eq (sub_eq ?_) ?_
  · unfold daysBeforeYearOfEra at hfirst
    omega
  simp only [show doe - (365 * yearOfEra doe + yearOfEra doe / 4 - yearOfEra doe / 100)
    = dayOfMarchYear doe (yearOfEra doe) from rfl]
  -- the month, and its day
  refine bind_eq (mul_eq (by omega)) ?_
  refine bind_eq (add_eq (by omega)) ?_
  simp only [show (5 * dayOfMarchYear doe (yearOfEra doe) + 2) / 153
    = monthFromMarch (dayOfMarchYear doe (yearOfEra doe)) from rfl]
  refine bind_eq (mul_eq (by omega)) ?_
  refine bind_eq (add_eq (by omega)) ?_
  refine bind_eq (sub_eq hmonth) ?_
  refine bind_eq (add_eq (by omega)) ?_
  refine bind_eq (a := monthOfYear (monthFromMarch (dayOfMarchYear doe (yearOfEra doe)))) ?_ ?_
  · rw [monthOfYear]
    split
    · exact add_eq (by omega)
    · exact sub_eq (by omega)
  -- January and February are of the next year
  refine bind_eq (a := (ofMarchYear _ _ hdoy).year) ?_ rfl
  rw [monthOfYear, ofMarchYear]
  by_cases hmarch : monthFromMarch (dayOfMarchYear doe (yearOfEra doe)) < 10
  · simp only [if_pos hmarch]
    rw [if_neg (by omega)]
  · simp only [if_neg hmarch]
    rw [if_pos (by omega)]
    exact signed_eq (by omega) (by omega)

theorem dayCount_of_daysToYmd {z : ℤ} {d : Date} (hmin : -2 ^ 63 ≤ z) (hmax : z + 719468 < 2 ^ 63)
    (h : daysToYmd z = .ok d.ymd) : d.dayCount = z := by
  obtain ⟨d', hymd, hcount⟩ := daysToYmd_eq hmin hmax
  have hd : d' = d := Date.ymd_injective (Except.ok.inj (hymd.symm.trans h))
  rw [← hd, hcount]

/-! ### Times -/

/-- A number with zeros in front, of at least `width` digits. -/
def zeroPadded (width n : ℕ) : String :=
  String.ofList (List.replicate (width - (Nat.repr n).length) '0') ++ Nat.repr n

/-- A signed number likewise; its sign counts as a digit. -/
def zeroPaddedInt (width : ℕ) (n : ℤ) : String :=
  if n < 0 then "-" ++ zeroPadded (width - 1) n.natAbs else zeroPadded width n.natAbs

/-- `YYYY-MM-DDTHH:MM:SS.uuuuuu`. -/
def isoFormat : ℤ × ℕ × ℕ → (hour min sec : ℤ) → (us : ℕ) → String
  | (y, m, d), hour, min, sec, us =>
    zeroPaddedInt 4 y ++ "-" ++ zeroPadded 2 m ++ "-" ++ zeroPadded 2 d ++ "T" ++
      zeroPaddedInt 2 hour ++ ":" ++ zeroPaddedInt 2 min ++ ":" ++ zeroPaddedInt 2 sec ++ "." ++
      zeroPadded 6 us

/-- `x as i64`. -/
def asI64 (x : ℕ) : ℤ := Int.bmod x (2 ^ 64)

/-- A time in microseconds since the epoch in the format of ISO 8601. -/
def formatTimestamp (timestampUs : UInt64) : Checked String := do
  let secs := asI64 (timestampUs.toNat / 1000000)
  let us := timestampUs.toNat % 1000000
  let days := secs.tdiv 86400
  let timeOfDay := secs.tmod 86400
  let hour := timeOfDay.tdiv 3600
  let min := (timeOfDay.tmod 3600).tdiv 60
  let sec := timeOfDay.tmod 60
  let ymd ← daysToYmd days
  pure (isoFormat ymd hour min sec us)

theorem asI64_eq {x : ℕ} (h : x < 2 ^ 63) : asI64 x = x := by
  refine Int.bmod_eq_of_le_mul_two ?_ ?_
  · push_cast
    omega
  · push_cast
    omega

theorem secs_lt (timestampUs : UInt64) : timestampUs.toNat / 1000000 < 2 ^ 63 := by
  have hlt := timestampUs.toNat_lt
  omega

/-- The day number of a time is one that the conversion takes. -/
theorem days_bounds (timestampUs : UInt64) :
    (asI64 (timestampUs.toNat / 1000000)).tdiv 86400 = (timestampUs.toNat / 86400000000 : ℕ) ∧
      (timestampUs.toNat / 86400000000 : ℕ) + 719468 < 2 ^ 63 := by
  have hlt := timestampUs.toNat_lt
  rw [asI64_eq (secs_lt timestampUs), Int.tdiv_eq_ediv_of_nonneg (by omega)]
  omega

/-- The time of the day, by the units of a day. -/
theorem formatTimestamp_eq (timestampUs : UInt64) :
    let t := timestampUs.toNat
    ∃ d : Date, d.dayCount = (t / 86400000000 : ℕ) ∧ formatTimestamp timestampUs
      = .ok (isoFormat d.ymd (t / 3600000000 % 24 : ℕ) (t / 60000000 % 60 : ℕ)
        (t / 1000000 % 60 : ℕ) (t % 1000000)) := by
  intro t
  obtain ⟨hdays, hmax⟩ := days_bounds timestampUs
  obtain ⟨d, hymd, hcount⟩ := daysToYmd_eq (z := (t / 86400000000 : ℕ)) (by omega) (by omega)
  refine ⟨d, hcount, ?_⟩
  rw [formatTimestamp]
  refine bind_eq (hdays ▸ hymd) ?_
  rw [asI64_eq (secs_lt timestampUs)]
  have htime : ((t / 1000000 : ℕ) : ℤ).tmod 86400 = (t / 1000000 % 86400 : ℕ) := by
    rw [Int.tmod_eq_emod_of_nonneg (by omega)]
    omega
  have hhour : ((t / 1000000 % 86400 : ℕ) : ℤ).tdiv 3600 = (t / 3600000000 % 24 : ℕ) := by
    rw [Int.tdiv_eq_ediv_of_nonneg (by omega)]
    omega
  have hmin : (((t / 1000000 % 86400 : ℕ) : ℤ).tmod 3600).tdiv 60 = (t / 60000000 % 60 : ℕ) := by
    rw [Int.tmod_eq_emod_of_nonneg (by omega), Int.tdiv_eq_ediv_of_nonneg (by omega)]
    omega
  have hsec : ((t / 1000000 % 86400 : ℕ) : ℤ).tmod 60 = (t / 1000000 % 60 : ℕ) := by
    rw [Int.tmod_eq_emod_of_nonneg (by omega)]
    omega
  change pure (isoFormat d.ymd ((((t / 1000000 : ℕ) : ℤ).tmod 86400).tdiv 3600) _ _ _) = _
  rw [htime, hhour, hmin, hsec]
  rfl

/-! ### The conversion is that of the calendar -/

/-- **The conversion is that of the calendar.**  Every day number from the least word up to where
the epoch of the eras can still be added is that of the date it is converted to, with no overflow;
this takes in the year 0 and every time in microseconds.  The next day number is converted to the
next day, and later day numbers to later dates. -/
theorem daysToYmd_calendar :
    (∀ z : ℤ, -2 ^ 63 ≤ z → z + 719468 < 2 ^ 63 →
      ∃ d : Date, daysToYmd z = .ok d.ymd ∧ d.dayCount = z) ∧
    (∀ (z : ℤ) (d : Date), -2 ^ 63 ≤ z → z + 1 + 719468 < 2 ^ 63 → daysToYmd z = .ok d.ymd →
      daysToYmd (z + 1) = .ok d.next.ymd) ∧
    (∀ (z z' : ℤ) (d d' : Date), -2 ^ 63 ≤ z → z < z' → z' + 719468 < 2 ^ 63 →
      daysToYmd z = .ok d.ymd → daysToYmd z' = .ok d'.ymd → d.lex < d'.lex) ∧
    ∀ timestampUs : UInt64, ∃ d : Date,
      daysToYmd ((asI64 (timestampUs.toNat / 1000000)).tdiv 86400) = .ok d.ymd ∧
        d.dayCount = (timestampUs.toNat / 86400000000 : ℕ) := by
  refine ⟨fun z hmin hmax => daysToYmd_eq hmin hmax, ?_, ?_, ?_⟩
  · intro z d hmin hmax hz
    have hcount := dayCount_of_daysToYmd hmin (by omega) hz
    obtain ⟨d', hymd, hcount'⟩ := daysToYmd_eq (z := z + 1) (by omega) hmax
    have hnext : d' = d.next := by
      refine Date.dayCount_injective ?_
      rw [Date.dayCount_next, hcount', hcount]
    rw [hymd, hnext]
  · intro z z' d d' hmin hlt hmax hz hz'
    have hcount := dayCount_of_daysToYmd hmin (by omega) hz
    have hcount' := dayCount_of_daysToYmd (by omega) hmax hz'
    exact Date.dayCount_strictMono.lt_iff_lt.1 (by omega)
  · intro timestampUs
    obtain ⟨hdays, hmax⟩ := days_bounds timestampUs
    rw [hdays]
    exact daysToYmd_eq (by omega) (by omega)

/-- The day after the 28th of February 2000. -/
theorem daysToYmd_calendar_leapDay : daysToYmd (11015 + 1) = .ok (2000, 2, 29) :=
  (daysToYmd_calendar.2.1 11015 ⟨2000, 2, 28, by decide, by decide, by decide, by decide⟩
    (by decide) (by decide) (by decide)).trans rfl

/-- The first day of the year 0, and a day after a year that is not a leap year. -/
example : daysToYmd (-719528) = .ok (0, 1, 1) ∧ daysToYmd 47482 = .ok (2100, 1, 1) := by decide

end OmsModbus
