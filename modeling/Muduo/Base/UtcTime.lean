import Muduo.Base.Date
import Muduo.Base.TimeZone

/-! # UTC time

`TimeZone::toUtcTime` and `TimeZone::fromUtcTime` of `base/TimeZone.cpp`. A time before 1970 has a negative
remainder, which is corrected by hand, so the day is the one the time is in (`toUtcTime_sat`). On the days
whose Julian day numbers are not negative and can be converted back, the two functions are inverse
(`utcTime_round_trip`). -/

namespace Muduo

open Support
open Support.CInt (add sub mul)

/-- `kSecondsPerDay`. -/
def kSecondsPerDay : Int := 24 * 60 * 60

/-- `Date::kJulianDayOf1970_01_01`. -/
def Date.kJulianDayOf1970_01_01 : Int := 2440588

example : getJulianDayNumber 1970 1 1 = .ok Date.kJulianDayOf1970_01_01 := rfl

/-- `detail::fillHMS(seconds, utc)`. -/
def fillHMS (seconds : Nat) (utc : Tm) : Tm :=
  let minutes := seconds / 60
  { utc with tm_sec := (seconds % 60 : Nat), tm_min := (minutes % 60 : Nat), tm_hour := (minutes / 60 : Nat) }

/-- A `struct tm` of zeros, but for its `tm_zone`. -/
def Tm.gmt : Tm := ⟨0, 0, 0, 0, 0, 0, 0, 0, 0, 0, [71, 77, 84]⟩

namespace TimeZone

/-- The seconds of the day and the day, as `toUtcTime` corrects them. -/
def splitDay (secondsSinceEpoch : Int) : Checked (Int × Int) := do
  let seconds := CInt.cast (secondsSinceEpoch.tmod kSecondsPerDay)
  let days := CInt.cast (secondsSinceEpoch.tdiv kSecondsPerDay)
  if seconds < 0 then
    return (← add seconds kSecondsPerDay, ← sub days 1)
  else return (seconds, days)

/-- `toUtcTime(secondsSinceEpoch, yday)`. The seconds are passed on as an `unsigned`. -/
def toUtcTime (secondsSinceEpoch : Int) (yday : Bool) : Checked Tm := do
  let (seconds, days) ← splitDay secondsSinceEpoch
  let utc := fillHMS (seconds % 4294967296).toNat Tm.gmt
  let date : Date := ⟨← add days Date.kJulianDayOf1970_01_01⟩
  let ymd ← date.yearMonthDay
  let tm_year ← sub ymd.year 1900
  let tm_mon ← sub ymd.month 1
  let tm_wday ← date.weekDay
  let utc := { utc with tm_year, tm_mon, tm_mday := ymd.day, tm_wday }
  if yday then
    let startOfYear ← Date.ofYearMonthDay ymd.year 1 1
    let tm_yday ← sub date.julianDayNumber startOfYear.julianDayNumber
    return { utc with tm_yday }
  else return utc

/-- `fromUtcTime(year, month, day, hour, minute, seconds)`. -/
def fromUtcFields (year month day hour minute seconds : Int) : Checked Int := do
  let date ← Date.ofYearMonthDay year month day
  let secondsInDay ← add (← add (← mul hour 3600) (← mul minute 60)) seconds
  let days ← sub date.julianDayNumber Date.kJulianDayOf1970_01_01
  -- `time_t` is wide enough for the product of an `int` and the seconds of a day
  return days * kSecondsPerDay + secondsInDay

/-- `fromUtcTime(utc)`. -/
def fromUtcTime (utc : Tm) : Checked Int := do
  fromUtcFields (← add utc.tm_year 1900) (← add utc.tm_mon 1) utc.tm_mday utc.tm_hour utc.tm_min utc.tm_sec

end TimeZone

/-- The days of the first `n` months of a year. -/
def daysOfMonths (year : Int) : Nat → Int
  | 0 => 0
  | n + 1 => daysOfMonths year n + daysOfMonth year (n + 1)

/-- The number of days since 1 January. -/
def YearMonthDay.daysSinceNewYear (d : YearMonthDay) : Int :=
  daysOfMonths d.year (d.month - 1).toNat + (d.day - 1)

/-- Days of months are not negative. -/
theorem daysOfMonths_nonneg (year : Int) (n : Nat) : 0 ≤ daysOfMonths year n := by
  induction n with
  | zero => exact le_rfl
  | succ n ih =>
      have hpos := daysOfMonth_pos year (n + 1)
      rw [daysOfMonths]
      omega

/-- The days from January to the first of a month. -/
theorem monthStart_of_january (year : Int) {n : Nat} (hn : n < 12) :
    monthStart (monthIndex year (n + 1)) = monthStart (monthIndex year 1) + daysOfMonths year n := by
  induction n with
  | zero => simp [daysOfMonths]
  | succ n ih =>
      have hnext : monthIndex year ((n + 1 : Nat) + 1) = monthIndex year (n + 1) + 1 := by
        unfold monthIndex
        omega
      rw [hnext, monthStart_add_one year (by omega) (by omega), ih (by omega), daysOfMonths]
      omega

/-- The days since 1 January are counted by the day numbers. -/
theorem YearMonthDay.julianDay_sub_newYear {d : YearMonthDay} (h : d.Valid) :
    d.julianDay - julianDay ⟨d.year, 1, 1⟩ = d.daysSinceNewYear := by
  have h1 := h.one_le_month
  have h12 := h.month_le
  have hmonth : d.month = ((d.month - 1).toNat : Int) + 1 := by omega
  have hstart := monthStart_of_january d.year (n := (d.month - 1).toNat) (by omega)
  rw [← hmonth] at hstart
  unfold julianDay daysSinceNewYear
  simp only
  omega

/-- The date of a `struct tm`. -/
def Tm.date (tm : Tm) : YearMonthDay := ⟨tm.tm_year + 1900, tm.tm_mon + 1, tm.tm_mday⟩

/-- A time of the day with all its fields in range. -/
structure Tm.Normalised (tm : Tm) : Prop where
  sec_nonneg : 0 ≤ tm.tm_sec
  sec_lt : tm.tm_sec < 60
  min_nonneg : 0 ≤ tm.tm_min
  min_lt : tm.tm_min < 60
  hour_nonneg : 0 ≤ tm.tm_hour
  hour_lt : tm.tm_hour < 24
  date : tm.date.Valid

/-- The fields are those of the time `t`. -/
structure Tm.Shows (tm : Tm) (t : Int) : Prop where
  valid : tm.date.Valid
  julianDay : tm.date.julianDay = t / 86400 + 2440588
  hour : tm.tm_hour = t % 86400 / 60 / 60
  min : tm.tm_min = t % 86400 / 60 % 60
  sec : tm.tm_sec = t % 86400 % 60

/-- A broken-down time that shows a time is normalised. -/
theorem Tm.Shows.normalised {tm : Tm} {t : Int} (h : tm.Shows t) : tm.Normalised := by
  obtain ⟨hdate, -, hhour, hmin, hsec⟩ := h
  exact ⟨by omega, by omega, by omega, by omega, by omega, by omega, hdate⟩

/-- The years of the days from the day number zero on. -/
theorem YearMonthDay.le_year {d : YearMonthDay} (h : d.Valid) (hmin : 0 ≤ d.julianDay) :
    -4799 ≤ d.year := by
  by_contra hyear
  have hle : monthIndex d.year d.month ≤ 9 := by
    have h12 := h.month_le
    unfold monthIndex
    omega
  have hstart : monthStart (monthIndex d.year d.month) ≤ 275 := start_monotone monthStart_le_add_one hle
  have hday := h.day_le_thirtyOne
  unfold julianDay at hmin
  omega

namespace TimeZone

/-- Truncation and the correction together round down. -/
theorem splitDay_eq {t : Int} (hmin : -2147483647 ≤ t / 86400) (hmax : t / 86400 ≤ 2147483646) :
    splitDay t = .ok (t % 86400, t / 86400) := by
  have hdiv := Int.tdiv_eq_ediv (a := t) (b := kSecondsPerDay)
  have hmod := Int.tmod_eq_emod (a := t) (b := kSecondsPerDay)
  have hday : kSecondsPerDay = 86400 := rfl
  unfold splitDay
  by_cases hexact : 0 ≤ t ∨ kSecondsPerDay ∣ t
  · rw [if_pos hexact, hday] at hdiv hmod
    rw [hday, hdiv, hmod, CInt.cast_eq (by omega) (by omega), CInt.cast_eq (by omega) (by omega)]
    simp only
    rw [if_neg (by omega)]
    simp
  · have hsign : Int.sign 86400 = 1 := rfl
    have habs : Int.natAbs 86400 = 86400 := rfl
    rw [if_neg hexact, hday] at hdiv hmod
    rw [hday] at hexact
    rw [hsign] at hdiv
    rw [habs] at hmod
    have hpos : t % 86400 ≠ 0 := by omega
    rw [hday, hdiv, hmod, CInt.cast_eq (by omega) (by omega), CInt.cast_eq (by omega) (by omega)]
    simp only
    rw [if_pos (by omega), CInt.add_bind (by omega) (by omega), CInt.sub_bind (by omega) (by omega)]
    simp

section ToUtcTime

variable {t : Int} (hmin : 0 ≤ t / 86400 + 2440588)
  (hmax : 4 * (t / 86400 + 2440588 + 32044) + 3 < 2147483648)

include hmin hmax

/-- What the fields say of the time. -/
theorem toUtcTime_sat (yday : Bool) : (toUtcTime t yday).Sat fun tm =>
    tm.Shows t ∧ tm.tm_wday = (t / 86400 + 2440588 + 1) % 7 ∧
    (yday = true → tm.tm_yday = tm.date.daysSinceNewYear) := by
  have hk : Date.kJulianDayOf1970_01_01 = 2440588 := rfl
  obtain ⟨ymd, hget, hvalid, -, hday⟩ := getYearMonthDay_sat (by omega) hmax
  rw [← hday] at hmin hmax
  have h1 := hvalid.one_le_month
  have h12 := hvalid.month_le
  have hday1 := hvalid.one_le_day
  have hyear := YearMonthDay.le_year hvalid hmin
  have hlast : ymd.year ≤ 5874688 := year_le_lastYear h1 h12 hday1 hmax
  have hsince := YearMonthDay.julianDay_sub_newYear hvalid
  have hmonths := daysOfMonths_nonneg ymd.year (ymd.month - 1).toNat
  have hle : YearMonthDay.julianDay ⟨ymd.year, 1, 1⟩ ≤ ymd.julianDay := by
    unfold YearMonthDay.daysSinceNewYear at hsince
    omega
  have hindex : 0 ≤ monthIndex ymd.year 1 := by
    unfold monthIndex
    omega
  have hfirst := YearMonthDay.julianDay_add_nonneg (d := ⟨ymd.year, 1, 1⟩) hindex le_rfl
  have hstart : Date.ofYearMonthDay ymd.year 1 1 = .ok ⟨YearMonthDay.julianDay ⟨ymd.year, 1, 1⟩⟩ :=
    Date.ofYearMonthDay_eq_ok.mpr
      (getJulianDayNumber_eq (by omega) (by omega) (by omega) (by omega) hindex hlast)
  have hunsigned : t % 86400 % 4294967296 = t % 86400 := by omega
  unfold toUtcTime
  rw [splitDay_eq (by omega) (by omega), Checked.ok_bind]
  simp only
  rw [hk, CInt.add_bind (by omega) (by omega), Date.yearMonthDay, hget, Checked.ok_bind,
    CInt.sub_bind (by omega) (by omega), CInt.sub_bind (by omega) (by omega),
    Date.weekDay_eq (by simp only; omega) (by simp only; omega), Checked.ok_bind, hunsigned]
  have hdate : YearMonthDay.mk (ymd.year - 1900 + 1900) (ymd.month - 1 + 1) ymd.day = ymd := by simp
  have hhour : ((t % 86400).toNat / 60 / 60 : Nat) = t % 86400 / 60 / 60 := by omega
  have hmin : ((t % 86400).toNat / 60 % 60 : Nat) = t % 86400 / 60 % 60 := by omega
  have hsec : ((t % 86400).toNat % 60 : Nat) = t % 86400 % 60 := by omega
  cases yday with
  | false =>
      exact .ok ⟨⟨by rwa [Tm.date, hdate], by rwa [Tm.date, hdate], hhour, hmin, hsec⟩, rfl,
        fun h => absurd h Bool.false_ne_true⟩
  | true =>
      rw [if_pos rfl, hstart, Checked.ok_bind, CInt.sub_bind (by simp only; omega) (by simp only; omega)]
      refine .ok ⟨⟨by rwa [Tm.date, hdate], by rwa [Tm.date, hdate], hhour, hmin, hsec⟩, rfl,
        fun _ => ?_⟩
      rw [Tm.date, hdate, ← hsince, hday]

end ToUtcTime

/-- The time of the fields. -/
theorem fromUtcTime_eq {tm : Tm} (h : tm.Normalised) (hmin : 0 ≤ tm.date.julianDay)
    (hmax : 4 * (tm.date.julianDay + 32044) + 3 < 2147483648) :
    fromUtcTime tm = .ok ((tm.date.julianDay - 2440588) * 86400
      + (tm.tm_hour * 3600 + tm.tm_min * 60 + tm.tm_sec)) := by
  obtain ⟨hsec, hsec', hmin', hmin60, hhour, hhour24, hdate⟩ := h
  have h1 : 1 ≤ tm.tm_mon + 1 := hdate.one_le_month
  have h12 : tm.tm_mon + 1 ≤ 12 := hdate.month_le
  have hyear : -4799 ≤ tm.tm_year + 1900 := YearMonthDay.le_year hdate hmin
  have hlast : tm.tm_year + 1900 ≤ 5874688 := year_le_lastYear h1 h12 hdate.one_le_day hmax
  have hget : Date.ofYearMonthDay (tm.tm_year + 1900) (tm.tm_mon + 1) tm.tm_mday
      = .ok ⟨tm.date.julianDay⟩ :=
    Date.ofYearMonthDay_eq_ok.mpr
      (getJulianDayNumber_of_valid hdate (hdate.monthIndex_nonneg hyear) hmax)
  have hk : Date.kJulianDayOf1970_01_01 = 2440588 := rfl
  rw [fromUtcTime, CInt.add_bind (by omega) (by omega), CInt.add_bind (by omega) (by omega), fromUtcFields,
    hget, Checked.ok_bind, CInt.mul_bind (by omega) (by omega), CInt.mul_bind (by omega) (by omega),
    CInt.add_bind (by omega) (by omega), CInt.add_bind (by omega) (by omega), hk,
    CInt.sub_bind (by simp only; omega) (by simp only; omega)]
  rfl

/-- **UTC time and seconds since the Epoch are inverse.** On the days whose Julian day numbers are not
negative and can be multiplied by four, `toUtcTime` gives fields in range, with the right weekday and day of
the year, and `fromUtcTime` gives the time back; and the fields of a day come back from their time. -/
theorem utcTime_round_trip :
    (∀ t : Int, 0 ≤ t / 86400 + 2440588 → 4 * (t / 86400 + 2440588 + 32044) + 3 < 2 ^ 31 →
      (∃ tm, toUtcTime t true = .ok tm ∧ tm.Normalised ∧ tm.date.julianDay = t / 86400 + 2440588 ∧
        0 ≤ tm.tm_wday ∧ tm.tm_wday ≤ 6 ∧ tm.tm_yday = tm.date.daysSinceNewYear) ∧
      ∀ yday, (toUtcTime t yday >>= fromUtcTime) = .ok t) ∧
    (∀ tm : Tm, tm.Normalised → 0 ≤ tm.date.julianDay → 4 * (tm.date.julianDay + 32044) + 3 < 2 ^ 31 →
      ∀ yday, ∃ tm', (fromUtcTime tm >>= (toUtcTime · yday)) = .ok tm' ∧
        tm'.tm_year = tm.tm_year ∧ tm'.tm_mon = tm.tm_mon ∧ tm'.tm_mday = tm.tm_mday ∧
        tm'.tm_hour = tm.tm_hour ∧ tm'.tm_min = tm.tm_min ∧ tm'.tm_sec = tm.tm_sec) := by
  constructor
  · intro t hmin hmax
    constructor
    · obtain ⟨tm, htm, hshows, hwday, hyday⟩ := toUtcTime_sat hmin hmax true
      exact ⟨tm, htm, hshows.normalised, hshows.julianDay, by omega, by omega, hyday rfl⟩
    · intro yday
      obtain ⟨tm, htm, hshows, -, -⟩ := toUtcTime_sat hmin hmax yday
      have hnormal := hshows.normalised
      obtain ⟨-, hday, hhour, hminute, hsec⟩ := hshows
      rw [htm, Checked.ok_bind, fromUtcTime_eq hnormal (by omega) (by omega)]
      congr 1
      omega
  · intro tm h hmin hmax yday
    obtain ⟨t, ht⟩ : ∃ t, t = (tm.date.julianDay - 2440588) * 86400
      + (tm.tm_hour * 3600 + tm.tm_min * 60 + tm.tm_sec) := ⟨_, rfl⟩
    have hfrom := fromUtcTime_eq h hmin hmax
    obtain ⟨hsec0, hsec60, hmin0, hmin60, hhour0, hhour24, hvalid⟩ := h
    have hdays : t / 86400 = tm.date.julianDay - 2440588 := by omega
    have hseconds : t % 86400 = tm.tm_hour * 3600 + tm.tm_min * 60 + tm.tm_sec := by omega
    obtain ⟨tm', htm', ⟨hdate, hday, hhour, hminute, hsec⟩, -, -⟩ :=
      toUtcTime_sat (t := t) (by omega) (by omega) yday
    have hsame : tm'.date = tm.date := YearMonthDay.julianDay_injective hdate hvalid (by omega)
    simp only [Tm.date, YearMonthDay.mk.injEq] at hsame
    obtain ⟨hyear, hmonth, hmday⟩ := hsame
    refine ⟨tm', ?_, by omega, by omega, hmday, by omega, by omega, by omega⟩
    rw [hfrom, Checked.ok_bind, ← ht, htm']

/-- The last second before 1970, and noon of a leap day. -/
theorem utcTime_round_trip_before_epoch :
    (toUtcTime (-1) false >>= fromUtcTime) = .ok (-1) ∧
      ∃ tm', (fromUtcTime ⟨0, 0, 12, 29, 1, 100, 0, 0, 0, 0, []⟩ >>= (toUtcTime · true)) = .ok tm' ∧
        tm'.tm_year = 100 ∧ tm'.tm_mon = 1 ∧ tm'.tm_mday = 29 ∧
        tm'.tm_hour = 12 ∧ tm'.tm_min = 0 ∧ tm'.tm_sec = 0 :=
  ⟨(utcTime_round_trip.1 (-1) (by decide) (by decide)).2 false,
    utcTime_round_trip.2 ⟨0, 0, 12, 29, 1, 100, 0, 0, 0, 0, []⟩
      ⟨by decide, by decide, by decide, by decide, by decide, by decide, by decide⟩
      (by decide) (by decide) true⟩

end TimeZone

/-! ## `gmtime_r` and `timegm`

The two functions of the C library, at every time: the calendar is the same again after 400 years, and these
are a whole number of weeks. -/

/-- The seconds of 400 years. -/
def secondsPerEra : Int := 146097 * 86400

/-- The months of 400 years have the same number of days wherever they begin. -/
theorem monthStart_add_era (k q : Int) : monthStart (k + 4800 * q) = monthStart k + 146097 * q := by
  have hyear : (k + 4800 * q) / 12 = k / 12 + 400 * q := by omega
  have hmonth : (k + 4800 * q) % 12 = k % 12 := by omega
  unfold monthStart
  rw [hyear, hmonth]
  omega

/-- The same date in another era. -/
theorem YearMonthDay.julianDay_add_era (year month day q : Int) :
    julianDay ⟨year + 400 * q, month, day⟩ = julianDay ⟨year, month, day⟩ + 146097 * q := by
  have hindex : monthIndex (year + 400 * q) month = monthIndex year month + 4800 * q := by
    unfold monthIndex
    omega
  unfold julianDay
  simp only
  rw [hindex, monthStart_add_era]
  omega

/-- The months are as long in every era. -/
theorem YearMonthDay.Valid.add_era {year month day : Int} (h : Valid ⟨year, month, day⟩) (q : Int) :
    Valid ⟨year + 400 * q, month, day⟩ := by
  have hleap : IsLeapYear (year + 400 * q) ↔ IsLeapYear year := by
    unfold IsLeapYear
    omega
  have hdays : daysOfMonth (year + 400 * q) month = daysOfMonth year month := by
    unfold daysOfMonth
    simp only [hleap]
  exact ⟨h.one_le_month, h.month_le, h.one_le_day, hdays.symm ▸ h.day_le⟩

namespace Tm

/-- `gmtime_r`: the fields of the time in the 400 years from 1970 on, in the year of its own era. -/
def gmtime_r (t : Int) : Tm :=
  match TimeZone.toUtcTime (t % secondsPerEra) true with
  | .ok tm => { tm with tm_year := tm.tm_year + 400 * (t / secondsPerEra) }
  | .error _ => gmt

/-- `timegm`, of fields in range. -/
def timegm (tm : Tm) : Int :=
  (tm.date.julianDay - 2440588) * 86400 + (tm.tm_hour * 3600 + tm.tm_min * 60 + tm.tm_sec)

example : gmtime_r (-1) = ⟨59, 59, 23, 31, 11, 69, 3, 364, 0, 0, [71, 77, 84]⟩ := by decide

/-- The fields of every time are right. -/
theorem gmtime_r_shows (t : Int) : (gmtime_r t).Shows t := by
  have hnonneg : 0 ≤ t % secondsPerEra := Int.emod_nonneg t (by decide)
  have hlt : t % secondsPerEra < 146097 * 86400 := Int.emod_lt_of_pos t (by decide)
  have hsplit : 146097 * 86400 * (t / secondsPerEra) + t % secondsPerEra = t := Int.mul_ediv_add_emod t _
  unfold gmtime_r
  generalize t / secondsPerEra = q at *
  generalize t % secondsPerEra = r at *
  obtain ⟨tm, htm, ⟨hvalid, hday, hhour, hmin, hsec⟩, -, -⟩ :=
    TimeZone.toUtcTime_sat (t := r) (by omega) (by omega) true
  have hdate : date { tm with tm_year := tm.tm_year + 400 * q }
      = ⟨tm.tm_year + 1900 + 400 * q, tm.tm_mon + 1, tm.tm_mday⟩ := by
    unfold date
    simp only [YearMonthDay.mk.injEq, and_true]
    omega
  rw [htm]
  refine ⟨?_, ?_, by simp only; omega, by simp only; omega, by simp only; omega⟩
  · simp only
    rw [hdate]
    exact hvalid.add_era q
  · simp only
    rw [hdate, YearMonthDay.julianDay_add_era, ← date, hday]
    omega

/-- `timegm` finds the time of its fields. -/
theorem Shows.timegm_eq {tm : Tm} {t : Int} (h : tm.Shows t) : tm.timegm = t := by
  obtain ⟨-, hday, hhour, hmin, hsec⟩ := h
  unfold timegm
  omega

end Tm

end Muduo
