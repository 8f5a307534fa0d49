import Mathlib.Tactic.IntervalCases
import Muduo.Support.CInt
import Muduo.Support.Staircase

/-! # `Date`

The Julian day number of `base/Date.cpp`, with the arithmetic of `int`. The calendar is counted in months
from March -4800 on: `monthStart k` days are before the month `k`, and each month is followed by the next
after its own number of days (`monthStart_add_one`). So the day numbers of the code are in the order of
the calendar, and those of a date and of its successor differ by one (`julianDayNumber_successor`).

Going back, the code finds the century, the year in the century and the month in the year, each by one
division (`Support.step`). Where nothing overflows the two conversions are inverse
(`julianDayNumber_bijection`). -/

namespace Muduo

open Support
open Support.CInt (add sub mul div mod)

/-- `Date::YearMonthDay`. -/
structure YearMonthDay where
  year : Int
  month : Int
  day : Int
  deriving DecidableEq, Repr

/-- `detail::getJulianDayNumber(year, month, day)`. -/
def getJulianDayNumber (year month day : Int) : Checked Int := do
  let a ← div (← sub 14 month) 12
  let y ← sub (← add year 4800) a
  let m ← sub (← add month (← mul 12 a)) 3
  sub (← add (← sub (← add (← add (← add day (← div (← add (← mul 153 m) 2) 5)) (← mul y 365))
    (← div y 4)) (← div y 100)) (← div y 400)) 32045

/-- `detail::getYearMonthDay(julianDayNumber)`. -/
def getYearMonthDay (julianDayNumber : Int) : Checked YearMonthDay := do
  let a ← add julianDayNumber 32044
  let b ← div (← add (← mul 4 a) 3) 146097
  let c ← sub a (← div (← mul b 146097) 4)
  let d ← div (← add (← mul 4 c) 3) 1461
  let e ← sub c (← div (← mul 1461 d) 4)
  let m ← div (← add (← mul 5 e) 2) 153
  let day ← add (← sub e (← div (← add (← mul 153 m) 2) 5)) 1
  let month ← sub (← add m 3) (← mul 12 (← div m 10))
  let year ← add (← sub (← add (← mul b 100) d) 4800) (← div m 10)
  return ⟨year, month, day⟩

/-- `Date`. -/
structure Date where
  julianDayNumber : Int
  deriving DecidableEq, Repr

namespace Date

/-- `Date::kDaysPerWeek`. -/
def kDaysPerWeek : Int := 7

/-- `Date(y, m, d)`. -/
def ofYearMonthDay (y m d : Int) : Checked Date := do
  return ⟨← getJulianDayNumber y m d⟩

/-- A date is made from its Julian day number. -/
theorem ofYearMonthDay_eq_ok {y m d : Int} {date : Date} :
    ofYearMonthDay y m d = .ok date ↔ getJulianDayNumber y m d = .ok date.julianDayNumber := by
  obtain ⟨j⟩ := date
  simp [ofYearMonthDay, Checked.bind_eq_ok]

/-- `Date::valid`. -/
def valid (date : Date) : Bool := date.julianDayNumber > 0

/-- `Date::yearMonthDay`. -/
def yearMonthDay (date : Date) : Checked YearMonthDay := getYearMonthDay date.julianDayNumber

/-- `Date::weekDay`: 0 is Sunday. -/
def weekDay (date : Date) : Checked Int := do
  mod (← add date.julianDayNumber 1) kDaysPerWeek

/-- `operator<`. -/
def less (x y : Date) : Bool := x.julianDayNumber < y.julianDayNumber

/-- `operator==`. -/
def equal (x y : Date) : Bool := x.julianDayNumber == y.julianDayNumber

end Date

/-! ## The calendar -/

/-- The leap rule of the proleptic Gregorian calendar. -/
def IsLeapYear (year : Int) : Prop := year % 4 = 0 ∧ (year % 100 ≠ 0 ∨ year % 400 = 0)

/-- A leap year can be told by computation. -/
instance (year : Int) : Decidable (IsLeapYear year) := inferInstanceAs (Decidable (_ ∧ _))

/-- The days of a month in the Gregorian calendar. -/
def daysOfMonth (year month : Int) : Int :=
  if month = 2 then if IsLeapYear year then 29 else 28
  else if month = 4 ∨ month = 6 ∨ month = 9 ∨ month = 11 then 30
  else 31

/-- A month has a day. -/
theorem daysOfMonth_pos (year month : Int) : 0 < daysOfMonth year month := by
  unfold daysOfMonth
  split_ifs <;> omega

/-- A month has at most 31 days. -/
theorem daysOfMonth_le (year month : Int) : daysOfMonth year month ≤ 31 := by
  unfold daysOfMonth
  split_ifs <;> omega

/-- The number of the month, March -4800 being `0`. -/
def monthIndex (year month : Int) : Int := 12 * (year + 4800) + (month - 3)

/-- The number of days from 1 March -4800 to the first day of the month `k`. -/
def monthStart (k : Int) : Int :=
  365 * (k / 12) + k / 12 / 4 - k / 12 / 100 + k / 12 / 400 + stair 153 5 2 (k % 12)

/-- A month is followed by the next after the number of its days. -/
theorem monthStart_add_one (year : Int) {month : Int} (h1 : 1 ≤ month) (h12 : month ≤ 12) :
    monthStart (monthIndex year month + 1)
      = monthStart (monthIndex year month) + daysOfMonth year month := by
  unfold monthStart stair monthIndex daysOfMonth IsLeapYear
  interval_cases month <;> norm_num <;> omega

/-- Months start one after the other. -/
theorem monthStart_le_add_one (k : Int) : monthStart k ≤ monthStart (k + 1) := by
  have hk : k = monthIndex ((k + 2) / 12 - 4800) ((k + 2) % 12 + 1) := by
    unfold monthIndex
    omega
  have h1 : 1 ≤ (k + 2) % 12 + 1 := by omega
  have h12 : (k + 2) % 12 + 1 ≤ 12 := by omega
  have hnext := monthStart_add_one ((k + 2) / 12 - 4800) h1 h12
  have hpos := daysOfMonth_pos ((k + 2) / 12 - 4800) ((k + 2) % 12 + 1)
  rw [← hk] at hnext
  omega

namespace YearMonthDay

variable (d : YearMonthDay)

/-- A day of the proleptic Gregorian calendar. -/
structure Valid : Prop where
  one_le_month : 1 ≤ d.month
  month_le : d.month ≤ 12
  one_le_day : 1 ≤ d.day
  day_le : d.day ≤ daysOfMonth d.year d.month

/-- A valid date can be told by computation. -/
instance : Decidable d.Valid :=
  decidable_of_iff (1 ≤ d.month ∧ d.month ≤ 12 ∧ 1 ≤ d.day ∧ d.day ≤ daysOfMonth d.year d.month)
    ⟨fun ⟨h1, h2, h3, h4⟩ => ⟨h1, h2, h3, h4⟩, fun ⟨h1, h2, h3, h4⟩ => ⟨h1, h2, h3, h4⟩⟩

/-- The day after. -/
def next : YearMonthDay :=
  if d.day < daysOfMonth d.year d.month then ⟨d.year, d.month, d.day + 1⟩
  else if d.month < 12 then ⟨d.year, d.month + 1, 1⟩
  else ⟨d.year + 1, 1, 1⟩

/-- The lexicographic order. -/
def Before (d' : YearMonthDay) : Prop :=
  d.year < d'.year ∨
    (d.year = d'.year ∧ (d.month < d'.month ∨ (d.month = d'.month ∧ d.day < d'.day)))

/-- The Julian day number, with the arithmetic of the integers. -/
def julianDay : Int := monthStart (monthIndex d.year d.month) + d.day - 32045

variable {d}

/-- From the first year on the month's index is not negative. -/
theorem Valid.monthIndex_nonneg (h : d.Valid) (hyear : -4799 ≤ d.year) :
    0 ≤ monthIndex d.year d.month := by
  have h1 := h.one_le_month
  unfold monthIndex
  omega

/-- A valid day is at most 31. -/
theorem Valid.day_le_thirtyOne (h : d.Valid) : d.day ≤ 31 :=
  h.day_le.trans (daysOfMonth_le d.year d.month)

/-- A valid day is within its month. -/
theorem Valid.day_le_length (h : d.Valid) : d.day ≤
    monthStart (monthIndex d.year d.month + 1) - monthStart (monthIndex d.year d.month) := by
  rw [monthStart_add_one d.year h.one_le_month h.month_le]
  have := h.day_le
  omega

/-- The day after a valid date is valid. -/
theorem Valid.next (h : d.Valid) : d.next.Valid := by
  obtain ⟨h1, h12, hday, hlen⟩ := h
  unfold YearMonthDay.next
  split
  case isTrue hlt => exact ⟨h1, h12, by simp only; omega, hlt⟩
  case isFalse hlast =>
    split
    case isTrue hlt => exact ⟨by simp only; omega, by simp only; omega, le_rfl, daysOfMonth_pos _ _⟩
    case isFalse => exact ⟨le_rfl, by simp only; omega, le_rfl, daysOfMonth_pos _ _⟩

/-- The first of a month follows the last of the month before. -/
theorem julianDay_next (h : d.Valid) : d.next.julianDay = d.julianDay + 1 := by
  obtain ⟨h1, h12, hday, hlen⟩ := h
  have hstart := monthStart_add_one d.year h1 h12
  unfold YearMonthDay.next
  split
  case isTrue hlt =>
    unfold julianDay
    simp only
    omega
  case isFalse hlast =>
    have hindex : ∀ year month, monthIndex year month = monthIndex d.year d.month + 1 →
        julianDay ⟨year, month, 1⟩ = d.julianDay + 1 := by
      intro year month hnext
      unfold julianDay
      simp only
      rw [hnext, hstart]
      omega
    split
    case isTrue hlt =>
      refine hindex _ _ ?_
      unfold monthIndex
      omega
    case isFalse hmonth =>
      refine hindex _ _ ?_
      unfold monthIndex
      omega

/-- Nothing is before March -4800. -/
theorem julianDay_add_nonneg (hindex : 0 ≤ monthIndex d.year d.month) (hday : 1 ≤ d.day) :
    0 ≤ d.julianDay + 32044 := by
  have hstart : 0 ≤ monthStart (monthIndex d.year d.month) :=
    start_monotone monthStart_le_add_one hindex
  unfold julianDay
  omega

/-- Day numbers are in the order of the calendar. -/
theorem julianDay_lt_iff {d d' : YearMonthDay} (h : d.Valid) (h' : d'.Valid) :
    d.julianDay < d'.julianDay ↔ d.Before d' := by
  have hunits := start_add_lt_iff monthStart_le_add_one h.one_le_day h.day_le_length
    h'.one_le_day h'.day_le_length
  have hsum : d.julianDay < d'.julianDay ↔ monthStart (monthIndex d.year d.month) + d.day
      < monthStart (monthIndex d'.year d'.month) + d'.day := by
    unfold julianDay
    omega
  rw [hsum, hunits]
  obtain ⟨h1, h12, -, -⟩ := h
  obtain ⟨h1', h12', -, -⟩ := h'
  unfold monthIndex Before
  omega

/-- A day number belongs to one date. -/
theorem julianDay_injective {d d' : YearMonthDay} (h : d.Valid) (h' : d'.Valid)
    (heq : d.julianDay = d'.julianDay) : d = d' := by
  have hlt := mt (julianDay_lt_iff h h').mpr (by omega)
  have hgt := mt (julianDay_lt_iff h' h).mpr (by omega)
  obtain ⟨year, month, day⟩ := d
  obtain ⟨year', month', day'⟩ := d'
  unfold Before at hlt hgt
  simp only at hlt hgt
  have hyear : year = year' := by omega
  have hmonth : month = month' := by omega
  have hday : day = day' := by omega
  rw [hyear, hmonth, hday]

end YearMonthDay

/-! ## From a date to its day number -/

section ToJulianDay

variable {year month day : Int}

/-- In years that begin with March, as the code counts them. -/
theorem julianDay_eq {a : Int} (ha : (14 - month) / 12 = a) :
    YearMonthDay.julianDay ⟨year, month, day⟩
      = day + (153 * (month + 12 * a - 3) + 2) / 5 + (year + 4800 - a) * 365
        + (year + 4800 - a) / 4 - (year + 4800 - a) / 100 + (year + 4800 - a) / 400 - 32045 := by
  have hyear : (12 * (year + 4800) + (month - 3)) / 12 = year + 4800 - a := by omega
  have hmonth : (12 * (year + 4800) + (month - 3)) % 12 = month + 12 * a - 3 := by omega
  unfold YearMonthDay.julianDay monthStart monthIndex stair
  simp only
  rw [hyear, hmonth]
  omega

/-- The last year whose dates all have a day number. -/
def lastYear : Int := 5874688

/-- The day numbers that can be converted back are all before the last year. -/
theorem year_le_lastYear (h1 : 1 ≤ month) (h12 : month ≤ 12) (hday : 1 ≤ day)
    (hmax : 4 * (YearMonthDay.julianDay ⟨year, month, day⟩ + 32044) + 3 < 2147483648) :
    year ≤ lastYear := by
  obtain ⟨a, ha⟩ : ∃ a, (14 - month) / 12 = a := ⟨_, rfl⟩
  rw [julianDay_eq ha] at hmax
  unfold lastYear
  omega

/-- Nothing overflows up to the last year. -/
theorem getJulianDayNumber_eq (h1 : 1 ≤ month) (h12 : month ≤ 12) (hday : 1 ≤ day) (hday31 : day ≤ 31)
    (hindex : 0 ≤ monthIndex year month) (hmax : year ≤ lastYear) :
    getJulianDayNumber year month day = .ok (YearMonthDay.julianDay ⟨year, month, day⟩) := by
  obtain ⟨a, ha⟩ : ∃ a, (14 - month) / 12 = a := ⟨_, rfl⟩
  rw [julianDay_eq ha]
  unfold lastYear at hmax
  unfold monthIndex at hindex
  rw [getJulianDayNumber, CInt.sub_bind (by omega) (by omega),
    CInt.div_bind (by omega) (by omega) (by omega), ha]
  have hy : 0 ≤ year + 4800 - a := by omega
  have hy' : year + 4800 - a ≤ 5879488 := by omega
  have hm : 0 ≤ month + 12 * a - 3 := by omega
  have hm12 : month + 12 * a - 3 < 12 := by omega
  clear ha
  -- the year and the month, counted from March
  rw [CInt.add_bind (by omega) (by omega), CInt.sub_bind (by omega) (by omega)]
  rw [CInt.mul_bind (by omega) (by omega), CInt.add_bind (by omega) (by omega),
    CInt.sub_bind (by omega) (by omega)]
  generalize year + 4800 - a = y at *
  generalize month + 12 * a - 3 = m at *
  -- the days of the months before, then of the years before
  rw [CInt.mul_bind (by omega) (by omega), CInt.add_bind (by omega) (by omega),
    CInt.div_bind (by omega) (by omega) (by omega), CInt.add_bind (by omega) (by omega)]
  rw [CInt.mul_bind (by omega) (by omega), CInt.add_bind (by omega) (by omega)]
  rw [CInt.div_bind (by omega) (by omega) (by omega), CInt.add_bind (by omega) (by omega)]
  rw [CInt.div_bind (by omega) (by omega) (by omega), CInt.sub_bind (by omega) (by omega)]
  rw [CInt.div_bind (by omega) (by omega) (by omega), CInt.add_bind (by omega) (by omega)]
  exact CInt.sub_eq (by omega) (by omega)

/-- A day number that is there is the right one, and it was larger by 32045 before the last step. -/
theorem eq_of_getJulianDayNumber (h1 : 1 ≤ month) (h12 : month ≤ 12)
    (hindex : 0 ≤ monthIndex year month) {j : Int}
    (h : getJulianDayNumber year month day = .ok j) :
    j = YearMonthDay.julianDay ⟨year, month, day⟩ ∧ j + 32045 ≤ 2147483647 := by
  unfold getJulianDayNumber at h
  simp only [Checked.bind_eq_ok, CInt.add_eq_ok, CInt.sub_eq_ok, CInt.mul_eq_ok, CInt.div_eq_ok,
    ne_eq, OfNat.ofNat_ne_zero, not_false_eq_true, true_and, and_assoc, exists_eq_left] at h
  obtain ⟨-, -, -, -, -, -, -, -, -, -, -, -, -, -, -, -, -, -, ⟨-, hmax⟩, hj, -⟩ := h
  obtain ⟨a, ha⟩ : ∃ a, (14 - month) / 12 = a := ⟨_, rfl⟩
  have htrunc : (14 - month).tdiv 12 = a := by
    rw [Int.tdiv_eq_ediv_of_nonneg (by omega), ha]
  unfold monthIndex at hindex
  rw [htrunc] at hmax hj
  rw [julianDay_eq ha]
  simp (disch := omega) only [Int.tdiv_eq_ediv_of_nonneg] at hmax hj
  omega

end ToJulianDay

/-! ## From a day number to its date -/

/-- Days before a century of the 400-year cycle. -/
theorem stair_century (b : Int) : stair 146097 4 0 b = 36524 * b + b / 4 := by
  unfold stair
  omega

/-- Days before a year of the four-year cycle. -/
theorem stair_year (d : Int) : stair 1461 4 0 d = 365 * d + d / 4 := by
  unfold stair
  omega

/-- The place of the day `a` after 1 March -4800: the century `b` and the day `c` of it, the year `d` of the
century and the day `e` of it, and the month `m` of the year. -/
structure Located (a b c d e m : Int) : Prop where
  century_nonneg : 0 ≤ b
  day_of_century : a = stair 146097 4 0 b + c
  century_le : 0 ≤ c
  lt_century : a < stair 146097 4 0 (b + 1)
  day_of_year : c = stair 1461 4 0 d + e
  year_le : 0 ≤ e
  lt_year : c < stair 1461 4 0 (d + 1)
  month_le : stair 153 5 2 m ≤ e
  lt_month : e < stair 153 5 2 (m + 1)

/-- Every day has its place. -/
theorem located {a b c d e m : Int} (ha : 0 ≤ a) (hb : step 146097 4 0 a = b)
    (hc : a - stair 146097 4 0 b = c) (hd : step 1461 4 0 c = d) (he : c - stair 1461 4 0 d = e)
    (hm : step 153 5 2 e = m) : Located a b c d e m := by
  have hcentury := stair_step_le (p := 146097) (q := 4) (r := 0) (by omega) (by omega) a
  have hyear := stair_step_le (p := 1461) (q := 4) (r := 0) (by omega) (by omega) c
  have hmonth := stair_step_le (p := 153) (q := 5) (r := 2) (by omega) (by omega) e
  have hcentury' := lt_stair_step_add_one (p := 146097) (q := 4) (r := 0) (by omega) (by omega) a
  have hyear' := lt_stair_step_add_one (p := 1461) (q := 4) (r := 0) (by omega) (by omega) c
  have hmonth' := lt_stair_step_add_one (p := 153) (q := 5) (r := 2) (by omega) (by omega) e
  rw [hb] at hcentury hcentury'
  rw [hd] at hyear hyear'
  rw [hm] at hmonth hmonth'
  have hb0 : 0 ≤ b := by
    rw [← hb]
    exact Int.ediv_nonneg (by omega) (by omega)
  exact ⟨hb0, by omega, by omega, hcentury', by omega, by omega, hyear', hmonth, hmonth'⟩

namespace Located

variable {a b c d e m : Int} (h : Located a b c d e m)

include h

/-- The day within its century. -/
theorem day_lt_century : c < 36524 + ((b + 1) / 4 - b / 4) := by
  have heq := h.day_of_century
  have hlt := h.lt_century
  rw [stair_century] at heq hlt
  omega

/-- The day within its year. -/
theorem day_lt_year : e < 365 + ((d + 1) / 4 - d / 4) := by
  have heq := h.day_of_year
  have hlt := h.lt_year
  rw [stair_year] at heq hlt
  omega

/-- The year within its century. -/
theorem year_bounds : 0 ≤ d ∧ d < 100 := by
  have heq := h.day_of_year
  have hlt := h.lt_year
  have hc := h.day_lt_century
  have hc0 := h.century_le
  have he0 := h.year_le
  rw [stair_year] at heq hlt
  omega

/-- The month, counted from March. -/
theorem month_bounds : 0 ≤ m ∧ m < 12 := by
  have hle := h.month_le
  have hlt := h.lt_month
  have he := h.day_lt_year
  have he0 := h.year_le
  unfold stair at hle hlt
  omega

/-- A year has 366 days only if it ends with a leap day. -/
theorem isLeapYear (he : e = 365) : IsLeapYear (b * 100 + d - 4800 + 1) := by
  have heq := h.day_of_year
  have hyear := h.day_lt_year
  have hc := h.day_lt_century
  have hd := h.year_bounds
  have hd3 : d % 4 = 3 := by omega
  rw [stair_year] at heq
  unfold IsLeapYear
  by_cases hlast : d = 99
  · -- the last year of a century is that long in every fourth
    have hb3 : b % 4 = 3 := by omega
    omega
  · refine ⟨by omega, Or.inl ?_⟩
    omega

/-- The date at this place, as the code puts it together. -/
theorem valid :
    (YearMonthDay.mk (b * 100 + d - 4800 + m / 10) (m + 3 - 12 * (m / 10))
      (e - stair 153 5 2 m + 1)).Valid := by
  obtain ⟨hm0, hm12⟩ := h.month_bounds
  have hle := h.month_le
  have hlt := h.lt_month
  have hyear := h.day_lt_year
  have hleap := h.isLeapYear
  refine ⟨by simp only; omega, by simp only; omega, by simp only; omega, ?_⟩
  simp only
  unfold daysOfMonth
  unfold stair at *
  clear h
  by_cases hfeb : m = 11
  · subst hfeb
    by_cases he : e = 365
    · have hten : (11 : Int) / 10 = 1 := rfl
      rw [if_pos (by norm_num), hten, if_pos (hleap he)]
      omega
    · rw [if_pos (by norm_num)]
      split_ifs <;> omega
  · rw [if_neg (by omega)]
    interval_cases m <;> norm_num <;> omega

/-- The date that the code computes has the Julian day it started from. -/
theorem julianDay_eq_sub :
    YearMonthDay.julianDay ⟨b * 100 + d - 4800 + m / 10, m + 3 - 12 * (m / 10),
      e - stair 153 5 2 m + 1⟩ = a - 32044 := by
  obtain ⟨hm0, hm12⟩ := h.month_bounds
  obtain ⟨hd0, hd100⟩ := h.year_bounds
  have hc := h.day_of_century
  have he := h.day_of_year
  have hindex : monthIndex (b * 100 + d - 4800 + m / 10) (m + 3 - 12 * (m / 10))
      = 12 * (b * 100 + d) + m := by
    unfold monthIndex
    omega
  have hyear : (12 * (b * 100 + d) + m) / 12 = b * 100 + d := by omega
  have hmonth : (12 * (b * 100 + d) + m) % 12 = m := by omega
  rw [stair_century] at hc
  rw [stair_year] at he
  unfold YearMonthDay.julianDay
  simp only
  rw [hindex, monthStart, hyear, hmonth]
  omega

/-- The month that the code computes has an index. -/
theorem monthIndex_nonneg :
    0 ≤ monthIndex (b * 100 + d - 4800 + m / 10) (m + 3 - 12 * (m / 10)) := by
  have hb := h.century_nonneg
  have hd := h.year_bounds
  have hm := h.month_bounds
  unfold monthIndex
  omega

end Located

/-- The code finds the place of the day, and no step of it overflows. -/
theorem getYearMonthDay_located {j : Int} (hmin : 0 ≤ j + 32044)
    (hmax : 4 * (j + 32044) + 3 < 2147483648) :
    ∃ b c d e m, Located (j + 32044) b c d e m ∧
      getYearMonthDay j = .ok ⟨b * 100 + d - 4800 + m / 10, m + 3 - 12 * (m / 10),
        e - stair 153 5 2 m + 1⟩ := by
  obtain ⟨a, ha⟩ : ∃ a, j + 32044 = a := ⟨_, rfl⟩
  obtain ⟨b, hb⟩ : ∃ b, (4 * a + 3) / 146097 = b := ⟨_, rfl⟩
  obtain ⟨c, hc⟩ : ∃ c, a - b * 146097 / 4 = c := ⟨_, rfl⟩
  obtain ⟨d, hd⟩ : ∃ d, (4 * c + 3) / 1461 = d := ⟨_, rfl⟩
  obtain ⟨e, he⟩ : ∃ e, c - 1461 * d / 4 = e := ⟨_, rfl⟩
  obtain ⟨m, hm⟩ : ∃ m, (5 * e + 2) / 153 = m := ⟨_, rfl⟩
  rw [ha] at hmin hmax ⊢
  have hlocated : Located a b c d e m := by
    refine located hmin ?_ ?_ ?_ ?_ ?_
    · rw [step, ← hb]
      norm_num
    · rw [stair, ← hc]
      norm_num [mul_comm]
    · rw [step, ← hd]
      norm_num
    · rw [stair, ← he]
      norm_num
    · rw [step, ← hm]
      norm_num
  refine ⟨b, c, d, e, m, hlocated, ?_⟩
  have hb0 := hlocated.century_nonneg
  have hc0 := hlocated.century_le
  have he0 := hlocated.year_le
  have hclt := hlocated.day_lt_century
  have helt := hlocated.day_lt_year
  obtain ⟨hd0, hd100⟩ := hlocated.year_bounds
  obtain ⟨hm0, hm12⟩ := hlocated.month_bounds
  have hbmul : b * 146097 ≤ 4 * a + 3 := by omega
  have hbmax : b ≤ 14699 := by omega
  rw [getYearMonthDay, CInt.add_bind (by omega) (by omega), ha]
  -- the century
  rw [CInt.mul_bind (by omega) (by omega), CInt.add_bind (by omega) (by omega),
    CInt.div_bind (by omega) (by omega) (by omega), hb]
  rw [CInt.mul_bind (by omega) (by omega), CInt.div_bind (by omega) (by omega) (by omega),
    CInt.sub_bind (by omega) (by omega), hc]
  -- the year
  rw [CInt.mul_bind (by omega) (by omega), CInt.add_bind (by omega) (by omega),
    CInt.div_bind (by omega) (by omega) (by omega), hd]
  rw [CInt.mul_bind (by omega) (by omega), CInt.div_bind (by omega) (by omega) (by omega),
    CInt.sub_bind (by omega) (by omega), he]
  clear hb hc hd he hbmul hmax hmin ha hclt hc0
  -- the month
  rw [CInt.mul_bind (by omega) (by omega), CInt.add_bind (by omega) (by omega),
    CInt.div_bind (by omega) (by omega) (by omega), hm]
  -- what is returned
  rw [CInt.mul_bind (by omega) (by omega), CInt.add_bind (by omega) (by omega),
    CInt.div_bind (by omega) (by omega) (by omega), CInt.sub_bind (by omega) (by omega),
    CInt.add_bind (by omega) (by omega)]
  rw [CInt.add_bind (by omega) (by omega), CInt.div_bind (by omega) (by omega) (by omega),
    CInt.mul_bind (by omega) (by omega), CInt.sub_bind (by omega) (by omega)]
  rw [CInt.mul_bind (by omega) (by omega), CInt.add_bind (by omega) (by omega),
    CInt.sub_bind (by omega) (by omega), CInt.div_bind (by omega) (by omega) (by omega),
    CInt.add_bind (by omega) (by omega)]
  rfl

/-- The code's date is valid and has that Julian day number. -/
theorem getYearMonthDay_sat {j : Int} (hmin : 0 ≤ j + 32044)
    (hmax : 4 * (j + 32044) + 3 < 2147483648) :
    (getYearMonthDay j).Sat fun d => d.Valid ∧ 0 ≤ monthIndex d.year d.month ∧ d.julianDay = j := by
  obtain ⟨b, c, d, e, m, hlocated, hget⟩ := getYearMonthDay_located hmin hmax
  refine ⟨_, hget, hlocated.valid, hlocated.monthIndex_nonneg, ?_⟩
  rw [hlocated.julianDay_eq_sub]
  omega

/-- The day number of a date from which the conversion back does not overflow. -/
theorem getJulianDayNumber_of_valid {d : YearMonthDay} (h : d.Valid)
    (hindex : 0 ≤ monthIndex d.year d.month) (hmax : 4 * (d.julianDay + 32044) + 3 < 2147483648) :
    getJulianDayNumber d.year d.month d.day = .ok d.julianDay :=
  getJulianDayNumber_eq h.one_le_month h.month_le h.one_le_day h.day_le_thirtyOne hindex
    (year_le_lastYear h.one_le_month h.month_le h.one_le_day hmax)

/-- **The two conversions are inverse**, and neither overflows, for the dates from -4799 on whose day number
is small enough to be multiplied by four, and for the day numbers from 1 March -4800 on up to there. -/
theorem julianDayNumber_bijection :
    (∀ d : YearMonthDay, d.Valid → -4799 ≤ d.year → 4 * (d.julianDay + 32044) + 3 < 2 ^ 31 →
      getJulianDayNumber d.year d.month d.day = .ok d.julianDay ∧
        getYearMonthDay d.julianDay = .ok d) ∧
    (∀ j : Int, 0 ≤ j + 32044 → 4 * (j + 32044) + 3 < 2 ^ 31 →
      ∃ d, getYearMonthDay j = .ok d ∧ d.Valid ∧ getJulianDayNumber d.year d.month d.day = .ok j) := by
  constructor
  · intro d h hyear hmax
    have hindex := h.monthIndex_nonneg hyear
    have hmin := YearMonthDay.julianDay_add_nonneg hindex h.one_le_day
    refine ⟨getJulianDayNumber_of_valid h hindex hmax, ?_⟩
    obtain ⟨d', hget, h', -, heq⟩ := getYearMonthDay_sat hmin hmax
    rw [hget, YearMonthDay.julianDay_injective h' h heq]
  · intro j hmin hmax
    obtain ⟨d, hget, h, hindex, rfl⟩ := getYearMonthDay_sat hmin hmax
    exact ⟨d, hget, h, getJulianDayNumber_of_valid h hindex hmax⟩

/-- The leap day of 2000, and the first day of the calendar. -/
theorem julianDayNumber_leap_day :
    (getJulianDayNumber 2000 2 29 = .ok 2451604 ∧ getYearMonthDay 2451604 = .ok ⟨2000, 2, 29⟩) ∧
      ∃ d, getYearMonthDay (-32044) = .ok d ∧ d.Valid ∧
        getJulianDayNumber d.year d.month d.day = .ok (-32044) :=
  ⟨julianDayNumber_bijection.1 ⟨2000, 2, 29⟩ (by decide) (by decide) (by decide),
    julianDayNumber_bijection.2 (-32044) (by decide) (by decide)⟩

namespace Date

/-- The weekday is that of the day number, from 24 November -4713 on. -/
theorem weekDay_eq {date : Date} (hmin : 0 ≤ date.julianDayNumber)
    (hmax : date.julianDayNumber + 1 ≤ 2147483647) :
    date.weekDay = .ok ((date.julianDayNumber + 1) % 7) := by
  rw [weekDay, CInt.add_bind (by omega) hmax]
  exact CInt.mod_eq (by omega) (by decide) (by decide)

/-- The day number of a date that was made. -/
theorem julianDayNumber_eq {d : YearMonthDay} (h : d.Valid) (hyear : -4799 ≤ d.year) {x : Date}
    (hx : ofYearMonthDay d.year d.month d.day = .ok x) :
    x.julianDayNumber = d.julianDay ∧ x.julianDayNumber + 32045 ≤ 2147483647 :=
  eq_of_getJulianDayNumber h.one_le_month h.month_le (h.monthIndex_nonneg hyear)
    (ofYearMonthDay_eq_ok.mp hx)

end Date

/-- The day after is not in an earlier year. -/
theorem YearMonthDay.le_year_next (d : YearMonthDay) : d.year ≤ d.next.year := by
  unfold YearMonthDay.next
  split_ifs <;> simp

/-- **Day numbers count the days of the calendar.** Up to the last year nothing overflows. Where nothing
overflows, the number of the day after is the next one, the weekday moves on by one, and dates are compared
as their years, months and days are. -/
theorem julianDayNumber_successor :
    (∀ d : YearMonthDay, d.Valid → -4799 ≤ d.year → d.year ≤ lastYear →
      ∃ x, Date.ofYearMonthDay d.year d.month d.day = .ok x) ∧
    (∀ d : YearMonthDay, d.Valid → -4799 ≤ d.year → ∀ x y : Date,
      Date.ofYearMonthDay d.year d.month d.day = .ok x →
      Date.ofYearMonthDay d.next.year d.next.month d.next.day = .ok y →
      y.julianDayNumber = x.julianDayNumber + 1 ∧
      (0 ≤ x.julianDayNumber →
        ∃ w, x.weekDay = .ok w ∧ 0 ≤ w ∧ w < 7 ∧ y.weekDay = .ok ((w + 1) % 7))) ∧
    (∀ d d' : YearMonthDay, d.Valid → d'.Valid → -4799 ≤ d.year → -4799 ≤ d'.year → ∀ x y : Date,
      Date.ofYearMonthDay d.year d.month d.day = .ok x →
      Date.ofYearMonthDay d'.year d'.month d'.day = .ok y → (x.less y = true ↔ d.Before d')) := by
  refine ⟨?_, ?_, ?_⟩
  · intro d h hyear hmax
    exact ⟨⟨d.julianDay⟩, Date.ofYearMonthDay_eq_ok.mpr (getJulianDayNumber_eq h.one_le_month h.month_le
      h.one_le_day h.day_le_thirtyOne (h.monthIndex_nonneg hyear) hmax)⟩
  · intro d h hyear x y hx hy
    obtain ⟨hxj, hxmax⟩ := Date.julianDayNumber_eq h hyear hx
    obtain ⟨hyj, hymax⟩ := Date.julianDayNumber_eq h.next (hyear.trans d.le_year_next) hy
    have hnext : y.julianDayNumber = x.julianDayNumber + 1 := by
      rw [hyj, hxj, YearMonthDay.julianDay_next h]
    refine ⟨hnext, fun hmin => ⟨_, Date.weekDay_eq hmin (by omega), by omega, by omega, ?_⟩⟩
    rw [Date.weekDay_eq (by omega) (by omega), hnext]
    congr 1
    omega
  · intro d d' h h' hyear hyear' x y hx hy
    obtain ⟨hxj, -⟩ := Date.julianDayNumber_eq h hyear hx
    obtain ⟨hyj, -⟩ := Date.julianDayNumber_eq h' hyear' hy
    rw [Date.less, decide_eq_true_iff, hxj, hyj]
    exact YearMonthDay.julianDay_lt_iff h h'

/-- The last day the code can number, and a turn of the year. -/
theorem julianDayNumber_successor_new_year :
    (∃ x, Date.ofYearMonthDay 5874688 12 31 = .ok x) ∧
    (∃ w, Date.weekDay ⟨2451544⟩ = .ok w ∧ 0 ≤ w ∧ w < 7 ∧ Date.weekDay ⟨2451545⟩ = .ok ((w + 1) % 7)) ∧
    (Date.less ⟨2451544⟩ ⟨2451545⟩ = true ↔ YearMonthDay.Before ⟨1999, 12, 31⟩ ⟨2000, 1, 1⟩) :=
  ⟨julianDayNumber_successor.1 ⟨5874688, 12, 31⟩ (by decide) (by decide) (by decide),
    (julianDayNumber_successor.2.1 ⟨1999, 12, 31⟩ (by decide) (by decide) ⟨2451544⟩ ⟨2451545⟩ rfl rfl).2
      (by decide),
    julianDayNumber_successor.2.2 ⟨1999, 12, 31⟩ ⟨2000, 1, 1⟩ (by decide) (by decide) (by decide) (by decide)
      ⟨2451544⟩ ⟨2451545⟩ rfl rfl⟩

end Muduo
