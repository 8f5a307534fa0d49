import Muduo.Support.Checked
import Muduo.Support.LowerBound

/-! # `TimeZone`

The tables of a time zone and the conversions of `base/TimeZone.cpp`. A vector is indexed without a check,
so an index out of range is a fault here, as are `front()` of an empty vector and a failed assert.
`gmtime_r` and `timegm` are given. `InRange` is what keeps the conversions from such faults, for any time
and whether or not the transitions are in order (`toLocalTime_sat`, `fromLocalTime_sat`). -/

namespace Muduo

open Support

/-- `struct tm`; `tm_zone` is the text from where it points. -/
structure Tm where
  tm_sec : Int
  tm_min : Int
  tm_hour : Int
  tm_mday : Int
  tm_mon : Int
  tm_year : Int
  tm_wday : Int
  tm_yday : Int
  tm_isdst : Int
  tm_gmtoff : Int
  tm_zone : List UInt8
  deriving DecidableEq, Repr

/-- `TimeZone::Data::Transition`. -/
structure Transition where
  gmttime : Int
  localtime : Int
  localtimeIdx : Nat
  deriving DecidableEq, Repr

/-- `TimeZone::Data::LocalTime`. -/
structure Localtime where
  gmtOffset : Int
  isDst : Bool
  arrbIdx : Nat
  deriving DecidableEq, Repr

/-- `Comp`: transitions are compared by their `gmttime` or by their `localtime`. -/
structure Comp where
  compareGmt : Bool

namespace Comp

variable (comp : Comp)

/-- `operator()`. -/
def less (lhs rhs : Transition) : Bool :=
  if comp.compareGmt then lhs.gmttime < rhs.gmttime else lhs.localtime < rhs.localtime

/-- `Comp::equal`. -/
def equal (lhs rhs : Transition) : Bool :=
  if comp.compareGmt then lhs.gmttime == rhs.gmttime else lhs.localtime == rhs.localtime

variable {comp}

/-- Two transitions of which neither is less are equal. -/
theorem equal_of_not_less {lhs rhs : Transition} (hlt : comp.less lhs rhs = false)
    (hgt : comp.less rhs lhs = false) : comp.equal lhs rhs = true := by
  obtain ⟨compareGmt⟩ := comp
  cases compareGmt with
  | true =>
      have hle : rhs.gmttime ≤ lhs.gmttime := Int.not_lt.mp (of_decide_eq_false hlt)
      have hge : lhs.gmttime ≤ rhs.gmttime := Int.not_lt.mp (of_decide_eq_false hgt)
      exact beq_iff_eq.mpr (Int.le_antisymm hge hle)
  | false =>
      have hle : rhs.localtime ≤ lhs.localtime := Int.not_lt.mp (of_decide_eq_false hlt)
      have hge : lhs.localtime ≤ rhs.localtime := Int.not_lt.mp (of_decide_eq_false hgt)
      exact beq_iff_eq.mpr (Int.le_antisymm hge hle)

end Comp

/-- `TimeZone::Data`; nothing reads `names`. -/
structure ZoneData where
  transitions : List Transition := []
  localtimes : List Localtime := []
  abbreviation : List UInt8 := []
  deriving DecidableEq, Repr

namespace ZoneData

variable (data : ZoneData)

/-- `data.localtimes[i]`. -/
def localtimeAt (i : Nat) : Checked Localtime := elementAt data.localtimes i "data.localtimes[i]"

/-- `findLocaltime(data, sentry, comp)`. -/
def findLocaltime (sentry : Transition) (comp : Comp) : Checked Localtime :=
  match data.transitions with
  | [] => elementAt data.localtimes 0 "data.localtimes.front()"
  | front :: rest =>
      if comp.less sentry front then elementAt data.localtimes 0 "data.localtimes.front()"
      else
        let transI := lowerBound (comp.less · sentry) (front :: rest)
        match (front :: rest)[transI]? with
        | some t =>
            if comp.equal sentry t then data.localtimeAt t.localtimeIdx
            else do
              assert (transI ≠ 0) "transI != data.transitions.begin()"
              let t ← elementAt (front :: rest) (transI - 1) "*transI"
              data.localtimeAt t.localtimeIdx
        | none => data.localtimeAt ((front :: rest).getLast (List.cons_ne_nil _ _)).localtimeIdx

variable (gmtime : Int → Tm) (timegm : Tm → Int)

/-- `toLocalTime(seconds)`. The string may be indexed by its size. -/
def toLocalTime (seconds : Int) : Checked Tm := do
  let loc ← data.findLocaltime ⟨seconds, 0, 0⟩ ⟨true⟩
  assert (loc.arrbIdx ≤ data.abbreviation.length) "data.abbreviation[local->arrbIdx]"
  return { gmtime (seconds + loc.gmtOffset) with
    tm_isdst := if loc.isDst then 1 else 0
    tm_gmtoff := loc.gmtOffset
    tm_zone := data.abbreviation.drop loc.arrbIdx }

/-- `fromLocalTime(localTm)`. -/
def fromLocalTime (localTm : Tm) : Checked Int := do
  let seconds := timegm localTm
  let loc ← data.findLocaltime ⟨0, seconds, 0⟩ ⟨false⟩
  if localTm.tm_isdst ≠ 0 then
    let tryTm ← data.toLocalTime gmtime (seconds - loc.gmtOffset)
    if tryTm.tm_isdst = 0 ∧ tryTm.tm_hour = localTm.tm_hour ∧ tryTm.tm_min = localTm.tm_min then
      return seconds - 3600 - loc.gmtOffset
    else return seconds - loc.gmtOffset
  else return seconds - loc.gmtOffset

/-- There is a type of local time, and every index is one of the table it is for. -/
structure InRange : Prop where
  localtimes : data.localtimes ≠ []
  localtimeIdx : ∀ t ∈ data.transitions, t.localtimeIdx < data.localtimes.length
  arrbIdx : ∀ loc ∈ data.localtimes, loc.arrbIdx < data.abbreviation.length

variable {data gmtime timegm}

/-- The local time found is one of the zone's. -/
theorem findLocaltime_sat (h : data.InRange) (sentry : Transition) (comp : Comp) :
    (data.findLocaltime sentry comp).Sat fun loc => loc ∈ data.localtimes := by
  have hfront : (elementAt data.localtimes 0 "data.localtimes.front()").Sat fun loc =>
      loc ∈ data.localtimes := .elementAt (List.length_pos_iff.mpr h.localtimes)
  have hat : ∀ t ∈ data.transitions, (data.localtimeAt t.localtimeIdx).Sat fun loc =>
      loc ∈ data.localtimes := fun t ht => .elementAt (h.localtimeIdx t ht)
  unfold findLocaltime
  cases htransitions : data.transitions with
  | nil => exact hfront
  | cons front rest =>
      rw [htransitions] at hat
      simp only
      split
      case isTrue => exact hfront
      case isFalse hless =>
        split
        case h_1 t ht =>
          split
          case isTrue => exact hat t (List.mem_of_getElem? ht)
          case isFalse hequal =>
            -- the search has looked at the front unless it has moved on
            have hmoved : lowerBound (comp.less · sentry) (front :: rest) ≠ 0 := by
              intro hzero
              have hbelow := not_below_of_lowerBound_eq_zero hzero
              rw [hzero] at ht
              cases ht
              exact hequal (Comp.equal_of_not_less (Bool.eq_false_iff.mpr hless) hbelow)
            have hle := lowerBound_le (comp.less · sentry) (front :: rest)
            refine .assert hmoved (.bind (.elementAt ?_) hat)
            omega
        case h_2 => exact hat _ (List.getLast_mem _)

/-- The conversion never fails. -/
theorem toLocalTime_sat (h : data.InRange) (seconds : Int) :
    (data.toLocalTime gmtime seconds).Sat fun _ => True := by
  refine (findLocaltime_sat h _ _).bind fun loc hloc => .assert ?_ (.ok trivial)
  exact Nat.le_of_lt (h.arrbIdx loc hloc)

/-- The conversion back never fails. -/
theorem fromLocalTime_sat (h : data.InRange) (localTm : Tm) :
    (data.fromLocalTime gmtime timegm localTm).Sat fun _ => True := by
  refine (findLocaltime_sat h _ _).bind fun loc _ => ?_
  split
  · refine (toLocalTime_sat h _).bind fun tryTm _ => ?_
    split
    · exact .ok trivial
    · exact .ok trivial
  · exact .ok trivial

end ZoneData

/-- `TimeZone`: it has data or none. -/
structure TimeZone where
  data : Option ZoneData
  deriving DecidableEq, Repr

namespace TimeZone

/-- `TimeZone()`. -/
def invalid : TimeZone := ⟨none⟩

/-- `TimeZone(eastOfUtc, name)`: a fixed time zone. -/
def fixed (eastOfUtc : Int) (name : List UInt8) : TimeZone :=
  ⟨some { localtimes := [⟨eastOfUtc, false, 0⟩], abbreviation := name }⟩

variable (tz : TimeZone)

/-- `TimeZone::valid`. -/
def valid : Bool := tz.data.isSome

/-- `data_`, which must not be `NULL`. -/
def getData : Checked ZoneData :=
  match tz.data with
  | some data => .ok data
  | none => .error "data_ != NULL"

/-- `TimeZone::toLocalTime`, for a zone with data. -/
def toLocalTime (gmtime : Int → Tm) (seconds : Int) : Checked Tm := do
  let data ← tz.getData
  data.toLocalTime gmtime seconds

/-- `TimeZone::fromLocalTime`, for a zone with data. -/
def fromLocalTime (gmtime : Int → Tm) (timegm : Tm → Int) (localTm : Tm) : Checked Int := do
  let data ← tz.getData
  data.fromLocalTime gmtime timegm localTm

/-- There are tables, and they are in range. -/
def InRange : Prop := ∃ data, tz.data = some data ∧ data.InRange

variable {tz}

/-- The zone's conversion never fails. -/
theorem InRange.toLocalTime_sat (h : tz.InRange) (gmtime : Int → Tm) (seconds : Int) :
    (tz.toLocalTime gmtime seconds).Sat fun _ => True := by
  obtain ⟨data, hdata, hin⟩ := h
  rw [toLocalTime, getData, hdata]
  exact ZoneData.toLocalTime_sat hin seconds

/-- The zone's conversion back never fails. -/
theorem InRange.fromLocalTime_sat (h : tz.InRange) (gmtime : Int → Tm) (timegm : Tm → Int)
    (localTm : Tm) : (tz.fromLocalTime gmtime timegm localTm).Sat fun _ => True := by
  obtain ⟨data, hdata, hin⟩ := h
  rw [fromLocalTime, getData, hdata]
  exact ZoneData.fromLocalTime_sat hin localTm

end TimeZone

end Muduo
