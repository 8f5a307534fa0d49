import Mathlib.Data.Nat.Find
import Muduo.Base.UtcTime

/-! # Local time and back

In a time zone whose transitions are in order, `findLocaltime` finds the type that the last transition not
after the time has set (`findLocaltime_eq`), whether it is asked by universal or by local time. A zone that
changes between standard and daylight time (`Alternates`) repeats an hour at the end of each summer. In its
first pass the search by local time finds the type of the second, and `fromLocalTime` notices by converting
once more; everywhere else both searches find the same (`localTime_round_trip`). -/

namespace Muduo

open Support

namespace Comp

variable (comp : Comp)

/-- What is compared. -/
def key (t : Transition) : Int := if comp.compareGmt then t.gmttime else t.localtime

/-- Transitions are compared by their key. -/
theorem less_iff (lhs rhs : Transition) : comp.less lhs rhs = true ↔ comp.key lhs < comp.key rhs := by
  unfold less key
  cases comp.compareGmt with
  | true => exact decide_eq_true_iff
  | false => exact decide_eq_true_iff

/-- Transitions are equal by their key. -/
theorem equal_iff (lhs rhs : Transition) : comp.equal lhs rhs = true ↔ comp.key lhs = comp.key rhs := by
  unfold equal key
  cases comp.compareGmt with
  | true => exact beq_iff_eq
  | false => exact beq_iff_eq

end Comp

namespace ZoneData

variable (data : ZoneData)

/-- The type of local time after the first `n` transitions. -/
def typeAfter : Nat → Option Localtime
  | 0 => data.localtimes[0]?
  | n + 1 => (data.transitions[n]?).bind fun t => data.localtimes[t.localtimeIdx]?

/-- The transitions are in the order of the given times, no two at the same. -/
def Increasing (key : Transition → Int) : Prop :=
  ∀ (i j : Nat) (t t' : Transition), i < j → data.transitions[i]? = some t →
    data.transitions[j]? = some t' → key t < key t'

/-- The first `n` transitions are the ones that are not after `x`. -/
structure After (key : Transition → Int) (x : Int) (n : Nat) : Prop where
  le_length : n ≤ data.transitions.length
  le : ∀ i t, i < n → data.transitions[i]? = some t → key t ≤ x
  lt : ∀ i t, n ≤ i → data.transitions[i]? = some t → x < key t

variable {data}

/-- It is enough to look at the two transitions around `x`. -/
theorem Increasing.after {key : Transition → Int} (h : data.Increasing key) {x : Int} {n : Nat}
    (hlen : n ≤ data.transitions.length)
    (hle : ∀ m t, n = m + 1 → data.transitions[m]? = some t → key t ≤ x)
    (hlt : ∀ t, data.transitions[n]? = some t → x < key t) : data.After key x n := by
  refine ⟨hlen, fun i t hi ht => ?_, fun i t hi ht => ?_⟩
  · obtain ⟨m, rfl⟩ : ∃ m, n = m + 1 := ⟨n - 1, by omega⟩
    have hlast := List.getElem?_eq_getElem (l := data.transitions) (i := m) (by omega)
    by_cases him : i = m
    · subst him
      exact hle i t rfl ht
    · have hbefore := h i m t _ (by omega) ht hlast
      have hm := hle m _ rfl hlast
      omega
  · have hilen : i < data.transitions.length := (List.getElem?_eq_some_iff.mp ht).1
    have hnext := List.getElem?_eq_getElem (l := data.transitions) (i := n) (by omega)
    by_cases hin : i = n
    · subst hin
      exact hlt t ht
    · have hn := hlt _ hnext
      have hafter := h n i _ t (by omega) hnext ht
      omega

/-- At any time some number of transitions is over. -/
theorem Increasing.exists_after {key : Transition → Int} (h : data.Increasing key) (x : Int) :
    ∃ n, data.After key x n := by
  classical
  have hend : ∃ n : Nat, ∀ t, data.transitions[n]? = some t → x < key t := by
    refine ⟨data.transitions.length, fun t ht => ?_⟩
    rw [List.getElem?_eq_none (Nat.le_refl _)] at ht
    cases ht
  refine ⟨Nat.find hend, h.after ?_ ?_ (Nat.find_spec hend)⟩
  · refine Nat.find_min' hend fun t ht => ?_
    rw [List.getElem?_eq_none (Nat.le_refl _)] at ht
    cases ht
  · intro m t hm ht
    -- the transition before the first that is after `x`
    by_contra hgt
    refine Nat.find_min hend (m := m) (by omega) fun t' ht' => ?_
    rw [ht] at ht'
    cases ht'
    omega

/-- Where the binary search ends: at the last of the transitions not after the time if it is at that time,
and behind it otherwise. -/
theorem lowerBound_less {comp : Comp} (h : data.Increasing comp.key) {sentry last : Transition} {m : Nat}
    (hn : data.After comp.key (comp.key sentry) (m + 1)) (hlast : data.transitions[m]? = some last) :
    lowerBound (comp.less · sentry) data.transitions
      = if comp.key last = comp.key sentry then m else m + 1 := by
  obtain ⟨hlen, hle, hlt⟩ := hn
  split
  case isTrue heq =>
    refine lowerBound_eq (by omega) fun i t ht => ?_
    rw [Comp.less_iff, ← heq]
    constructor
    · intro hless
      by_contra hge
      by_cases him : i = m
      · subst him
        rw [hlast] at ht
        cases ht
        omega
      · have hafter := h m i last t (by omega) hlast ht
        omega
    · intro him
      exact h i m t last him ht hlast
  case isFalse hne =>
    refine lowerBound_eq hlen fun i t ht => ?_
    rw [Comp.less_iff]
    constructor
    · intro hless
      by_contra hge
      have hafter := hlt i t (by omega) ht
      omega
    · intro him
      have hnot := hle m last (by omega) hlast
      by_cases hi : i = m
      · subst hi
        rw [hlast] at ht
        cases ht
        omega
      · have hbefore := h i m t last (by omega) ht hlast
        omega

/-- **The search finds the type in force.** -/
theorem findLocaltime_eq {comp : Comp} (h : data.Increasing comp.key) {sentry : Transition} {n : Nat}
    (hn : data.After comp.key (comp.key sentry) n) {loc : Localtime} (hloc : data.typeAfter n = some loc) :
    data.findLocaltime sentry comp = .ok loc := by
  cases n with
  | zero =>
      have hfront : elementAt data.localtimes 0 "data.localtimes.front()" = .ok loc :=
        elementAt_eq_ok.mpr hloc
      unfold findLocaltime
      split
      case h_1 => exact hfront
      case h_2 front rest htransitions =>
        have hbefore := hn.lt 0 front (Nat.le_refl 0) (by rw [htransitions]; rfl)
        rw [if_pos ((comp.less_iff sentry front).mpr hbefore)]
        exact hfront
  | succ m =>
      have hm : m < data.transitions.length := hn.le_length
      obtain ⟨last, hlast⟩ : ∃ last, data.transitions[m]? = some last :=
        ⟨_, List.getElem?_eq_getElem hm⟩
      have hat : data.localtimeAt last.localtimeIdx = .ok loc := by
        refine elementAt_eq_ok.mpr ?_
        rwa [typeAfter, hlast] at hloc
      have hsearch := lowerBound_less h hn hlast
      unfold findLocaltime
      split
      case h_1 htransitions => simp [htransitions] at hm
      case h_2 front rest htransitions =>
        have hfront := hn.le 0 front (by omega) (by rw [htransitions]; rfl)
        have hnot : ¬ comp.less sentry front = true := by
          rw [comp.less_iff]
          omega
        have hnext := hn.lt (m + 1)
        rw [htransitions] at hsearch hlast hnext hm
        rw [if_neg hnot]
        simp only
        rw [hsearch]
        by_cases heq : comp.key last = comp.key sentry
        · rw [if_pos heq, hlast]
          simp only
          rw [if_pos ((comp.equal_iff sentry last).mpr heq.symm)]
          exact hat
        · rw [if_neg heq]
          split
          case h_1 t ht =>
            have hlt := hnext t (Nat.le_refl _) ht
            have hne : ¬ comp.equal sentry t = true := by
              rw [comp.equal_iff]
              omega
            have hbefore : elementAt (front :: rest) m "*transI" = .ok last := elementAt_eq_ok.mpr hlast
            rw [if_neg hne, assert_pos (Nat.succ_ne_zero m), Checked.ok_bind, Nat.add_sub_cancel, hbefore,
              Checked.ok_bind]
            exact hat
          case h_2 hend =>
            -- all transitions are over
            have hlen : (front :: rest).length = m + 1 := by
              have := List.getElem?_eq_none_iff.mp hend
              omega
            have hgetLast : (front :: rest).getLast (List.cons_ne_nil front rest) = last := by
              rw [List.getLast_eq_getElem]
              simpa [hlen] using (List.getElem?_eq_some_iff.mp hlast).2
            rw [hgetLast]
            exact hat

/-- The offset after `n` transitions between the standard time of offset `o` and daylight time, which is in
force after an odd number of them. -/
def offsetAfter (o : Int) (n : Nat) : Int := if n % 2 = 1 then o + 3600 else o

/-- The type in force after `n` such transitions. -/
structure IsTypeAfter (loc : Localtime) (o : Int) (n : Nat) : Prop where
  gmtOffset : loc.gmtOffset = offsetAfter o n
  isDst : loc.isDst = (n % 2 == 1)

variable (data) in
/-- A zone with the standard offset `o` in which daylight time begins and ends by turns, more than an hour
apart. There is a text of the abbreviation for every type. -/
structure Alternates (o : Int) : Prop where
  front : ∃ loc, data.localtimes[0]? = some loc ∧ IsTypeAfter loc o 0
  type : ∀ (i : Nat) (t : Transition), data.transitions[i]? = some t →
    ∃ loc, data.localtimes[t.localtimeIdx]? = some loc ∧ IsTypeAfter loc o (i + 1) ∧
      t.localtime = t.gmttime + loc.gmtOffset
  apart : ∀ (i : Nat) (t t' : Transition), data.transitions[i]? = some t →
    data.transitions[i + 1]? = some t' → t.gmttime + 3600 < t'.gmttime
  arrbIdx : ∀ loc ∈ data.localtimes, loc.arrbIdx ≤ data.abbreviation.length

/-- Times that increase from each transition to the next increase all along. -/
theorem increasing_of_next {key : Transition → Int}
    (h : ∀ (i : Nat) (t t' : Transition), data.transitions[i]? = some t →
      data.transitions[i + 1]? = some t' → key t < key t') : data.Increasing key := by
  intro i j t t' hij ht ht'
  induction j generalizing t' with
  | zero => omega
  | succ j ih =>
      by_cases heq : i = j
      · subst heq
        exact h i t t' ht ht'
      · have hlen : j + 1 < data.transitions.length := (List.getElem?_eq_some_iff.mp ht').1
        have hprev := List.getElem?_eq_getElem (l := data.transitions) (i := j) (by omega)
        have hlt := ih _ (by omega) hprev
        have hnext := h j _ t' hprev ht'
        omega

namespace Alternates

variable {o : Int} (h : data.Alternates o)

include h

/-- The local time of a transition is its UTC time and the offset after it. -/
theorem localtime_eq {i : Nat} {t : Transition} (ht : data.transitions[i]? = some t) :
    t.localtime = t.gmttime + offsetAfter o (i + 1) := by
  obtain ⟨loc, -, htype, hlocal⟩ := h.type i t ht
  rw [hlocal, htype.gmtOffset]

/-- The transitions increase in UTC time. -/
theorem increasing_gmt : data.Increasing (Comp.key ⟨true⟩) := by
  refine increasing_of_next fun i t t' ht ht' => ?_
  have hapart := h.apart i t t' ht ht'
  change t.gmttime < t'.gmttime
  omega

/-- The hour that a summer takes is shorter than the summer. -/
theorem increasing_local : data.Increasing (Comp.key ⟨false⟩) := by
  refine increasing_of_next fun i t t' ht ht' => ?_
  have hapart := h.apart i t t' ht ht'
  have hlocal := h.localtime_eq ht
  have hlocal' := h.localtime_eq ht'
  change t.localtime < t'.localtime
  rw [hlocal, hlocal']
  unfold offsetAfter
  split_ifs <;> omega

/-- The type in force after `n` transitions. -/
theorem typeAfter_eq {n : Nat} (hn : n ≤ data.transitions.length) :
    ∃ loc, data.typeAfter n = some loc ∧ IsTypeAfter loc o n ∧
      loc.arrbIdx ≤ data.abbreviation.length := by
  cases n with
  | zero =>
      obtain ⟨loc, hloc, htype⟩ := h.front
      exact ⟨loc, hloc, htype, h.arrbIdx loc (List.mem_of_getElem? hloc)⟩
  | succ m =>
      have hm := List.getElem?_eq_getElem (l := data.transitions) (i := m) (by omega)
      obtain ⟨loc, hloc, htype, -⟩ := h.type m _ hm
      refine ⟨loc, ?_, htype, h.arrbIdx loc (List.mem_of_getElem? hloc)⟩
      rw [typeAfter, hm]
      exact hloc

variable {t : Int} {n : Nat}

/-- The local time of a time after `n` transitions. -/
theorem toLocalTime_eq (gmtime : Int → Tm) (hn : data.After (Comp.key ⟨true⟩) t n) :
    ∃ g z, data.toLocalTime gmtime t = .ok { gmtime (t + offsetAfter o n) with
      tm_isdst := if n % 2 = 1 then 1 else 0, tm_gmtoff := g, tm_zone := z } := by
  obtain ⟨loc, hloc, ⟨hoffset, hdst⟩, harrb⟩ := h.typeAfter_eq hn.le_length
  have hfind : data.findLocaltime ⟨t, 0, 0⟩ ⟨true⟩ = .ok loc := by
    refine findLocaltime_eq h.increasing_gmt ?_ hloc
    exact hn
  refine ⟨loc.gmtOffset, data.abbreviation.drop loc.arrbIdx, ?_⟩
  rw [toLocalTime, hfind, Checked.ok_bind, assert_pos harrb, Checked.ok_bind, hdst, hoffset]
  simp

/-- The type found from a local time after `n` transitions. -/
theorem findLocaltime_local {l : Int} (hn : data.After (Comp.key ⟨false⟩) l n) :
    ∃ loc, data.findLocaltime ⟨0, l, 0⟩ ⟨false⟩ = .ok loc ∧ loc.gmtOffset = offsetAfter o n := by
  obtain ⟨loc, hloc, htype, -⟩ := h.typeAfter_eq hn.le_length
  refine ⟨loc, findLocaltime_eq h.increasing_local ?_ hloc, htype.gmtOffset⟩
  exact hn

end Alternates

end ZoneData

/-- `timegm` is the inverse of `gmtime_r`, from the fields of the date and the time of day. -/
def Inverse (gmtime : Int → Tm) (timegm : Tm → Int) : Prop :=
  ∀ s isdst gmtoff zone,
    timegm { gmtime s with tm_isdst := isdst, tm_gmtoff := gmtoff, tm_zone := zone } = s

namespace ZoneData

variable {data : ZoneData} {gmtime : Int → Tm} {timegm : Tm → Int} (hinverse : Inverse gmtime timegm)
  {o : Int} (h : data.Alternates o)

include hinverse h

/-- A time whose local time finds the type in force is found again. -/
theorem fromLocalTime_of_after {t : Int} {n : Nat} (hgmt : data.After (Comp.key ⟨true⟩) t n)
    (hlocal : data.After (Comp.key ⟨false⟩) (t + offsetAfter o n) n) :
    (data.toLocalTime gmtime t >>= data.fromLocalTime gmtime timegm) = .ok t := by
  obtain ⟨g, z, hto⟩ := h.toLocalTime_eq gmtime hgmt
  obtain ⟨loc, hfind, hoffset⟩ := h.findLocaltime_local hlocal
  have hback : t + offsetAfter o n - offsetAfter o n = t := by omega
  rw [hto, Checked.ok_bind, fromLocalTime]
  simp only
  rw [hinverse, hfind, Checked.ok_bind, hoffset, hback, hto]
  by_cases hodd : n % 2 = 1
  · -- it is daylight time at this time, so there is nothing to take back
    rw [if_pos (by simp [hodd]), Checked.ok_bind, if_neg (by simp [hodd])]
    rfl
  · rw [if_neg (by simp [hodd])]
    rfl

/-- In the first pass of a repeated hour the type of the second is found, and the hour is taken back. -/
theorem fromLocalTime_of_repeated {t : Int} {n : Nat} (hodd : n % 2 = 1)
    (hgmt : data.After (Comp.key ⟨true⟩) t n)
    (hgmt' : data.After (Comp.key ⟨true⟩) (t + 3600) (n + 1))
    (hlocal : data.After (Comp.key ⟨false⟩) (t + offsetAfter o n) (n + 1)) :
    (data.toLocalTime gmtime t >>= data.fromLocalTime gmtime timegm) = .ok t := by
  obtain ⟨g, z, hto⟩ := h.toLocalTime_eq gmtime hgmt
  obtain ⟨g', z', hto'⟩ := h.toLocalTime_eq gmtime hgmt'
  obtain ⟨loc, hfind, hoffset⟩ := h.findLocaltime_local hlocal
  have hsummer : offsetAfter o n = o + 3600 := if_pos hodd
  have hwinter : offsetAfter o (n + 1) = o := if_neg (by omega)
  have hhour : t + (o + 3600) - o = t + 3600 := by omega
  have hsame : t + 3600 + o = t + (o + 3600) := by omega
  rw [hsummer] at hto hfind
  rw [hwinter] at hto' hoffset
  rw [hto, Checked.ok_bind, fromLocalTime]
  simp only
  rw [hinverse, hfind, Checked.ok_bind, hoffset, hhour, hto', if_pos (by simp [hodd]), Checked.ok_bind,
    hsame]
  rw [if_pos ⟨if_neg (by omega), rfl, rfl⟩]
  refine congrArg Except.ok ?_
  omega

/-- **Local time converts back.** In the last hour before daylight time ends, local time is already that of
the next transition; otherwise both searches agree. -/
theorem round_trip (t : Int) :
    (data.toLocalTime gmtime t >>= data.fromLocalTime gmtime timegm) = .ok t := by
  obtain ⟨n, hn⟩ := h.increasing_gmt.exists_after t
  have hbefore : ∀ m tr, n = m + 1 → data.transitions[m]? = some tr →
      tr.localtime ≤ t + offsetAfter o n := by
    intro m tr hm htr
    have hle : tr.gmttime ≤ t := hn.le m tr (by omega) htr
    rw [h.localtime_eq htr, ← hm]
    omega
  by_cases hrepeat : n % 2 = 1 ∧ ∃ tr, data.transitions[n]? = some tr ∧ tr.gmttime ≤ t + 3600
  · obtain ⟨hodd, tr, htr, hle⟩ := hrepeat
    have hlen : n < data.transitions.length := (List.getElem?_eq_some_iff.mp htr).1
    have hlt : t < tr.gmttime := hn.lt n tr (Nat.le_refl n) htr
    have hsummer : offsetAfter o n = o + 3600 := if_pos hodd
    have hwinter : offsetAfter o (n + 1) = o := if_neg (by omega)
    refine fromLocalTime_of_repeated hinverse h hodd hn ?_ ?_
    · refine h.increasing_gmt.after hlen ?_ fun tr' htr' => ?_
      · intro m tr' hm htr'
        cases hm
        rw [htr] at htr'
        cases htr'
        exact hle
      · have hapart := h.apart n tr tr' htr htr'
        change t + 3600 < tr'.gmttime
        omega
    · refine h.increasing_local.after hlen ?_ fun tr' htr' => ?_
      · intro m tr' hm htr'
        cases hm
        rw [htr] at htr'
        cases htr'
        change tr.localtime ≤ _
        rw [h.localtime_eq htr, hwinter, hsummer]
        omega
      · have hapart := h.apart n tr tr' htr htr'
        have hagain : offsetAfter o (n + 1 + 1) = o + 3600 := if_pos (by omega)
        change _ < tr'.localtime
        rw [h.localtime_eq htr', hsummer, hagain]
        omega
  · refine fromLocalTime_of_after hinverse h hn (h.increasing_local.after hn.le_length hbefore ?_)
    intro tr htr
    have hlt : t < tr.gmttime := hn.lt n tr (Nat.le_refl n) htr
    change _ < tr.localtime
    rw [h.localtime_eq htr]
    unfold offsetAfter
    by_cases hodd : n % 2 = 1
    · have hlate : ¬ tr.gmttime ≤ t + 3600 := fun hle => hrepeat ⟨hodd, tr, htr, hle⟩
      rw [if_pos hodd, if_neg (by omega)]
      omega
    · rw [if_neg hodd, if_pos (by omega)]
      omega

end ZoneData

namespace TimeZone

/-- A fixed time zone has no transitions. -/
theorem fixed_alternates (eastOfUtc : Int) (name : List UInt8) :
    ZoneData.Alternates ⟨[], [⟨eastOfUtc, false, 0⟩], name⟩ eastOfUtc where
  front := ⟨_, rfl, rfl, rfl⟩
  type i t ht := by cases ht
  apart i t t' ht ht' := by cases ht
  arrbIdx loc hloc := by
    rw [List.mem_singleton.mp hloc]
    exact Nat.zero_le _

/-- **`fromLocalTime` undoes `toLocalTime`** in every zone that changes between standard and daylight time,
at every time, and in every fixed zone. -/
theorem localTime_round_trip {gmtime : Int → Tm} {timegm : Tm → Int} (hinverse : Inverse gmtime timegm) :
    (∀ (data : ZoneData) (o : Int), data.Alternates o → ∀ t,
      (toLocalTime ⟨some data⟩ gmtime t >>= fromLocalTime ⟨some data⟩ gmtime timegm) = .ok t) ∧
    (∀ (eastOfUtc : Int) (name : List UInt8) (t : Int),
      ((fixed eastOfUtc name).toLocalTime gmtime t
        >>= (fixed eastOfUtc name).fromLocalTime gmtime timegm) = .ok t) := by
  have hzone : ∀ (data : ZoneData) (o : Int), data.Alternates o → ∀ t,
      (toLocalTime ⟨some data⟩ gmtime t >>= fromLocalTime ⟨some data⟩ gmtime timegm) = .ok t := by
    intro data o h t
    exact ZoneData.round_trip hinverse h t
  exact ⟨hzone, fun eastOfUtc name t => hzone _ eastOfUtc (fixed_alternates eastOfUtc name) t⟩

/-- New York in 2024, `EST` and `EDT`: the clocks go forward on 10 March and back on 3 November. -/
def newYork2024 : ZoneData :=
  ⟨[⟨1710054000, 1710039600, 1⟩, ⟨1730613600, 1730595600, 0⟩],
    [⟨-18000, false, 0⟩, ⟨-14400, true, 4⟩], [69, 83, 84, 0, 69, 68, 84, 0]⟩

/-- The zone alternates between two offsets. -/
theorem newYork2024_alternates : newYork2024.Alternates (-18000) where
  front := ⟨_, rfl, rfl, rfl⟩
  type i t ht := by
    cases i with
    | zero =>
        cases ht
        exact ⟨_, rfl, ⟨rfl, rfl⟩, rfl⟩
    | succ i =>
        cases i with
        | zero =>
            cases ht
            exact ⟨_, rfl, ⟨rfl, rfl⟩, rfl⟩
        | succ i => cases ht
  apart i t t' ht ht' := by
    cases i with
    | zero =>
        cases ht
        cases ht'
        decide
    | succ i => cases ht'
  arrbIdx := by decide

/-- Half past one in the morning of 3 November 2024 in New York, in daylight time and again in standard
time. -/
theorem localTime_round_trip_newYork :
    (toLocalTime ⟨some newYork2024⟩ Tm.gmtime_r 1730611800
        = .ok ⟨0, 30, 1, 3, 10, 124, 0, 307, 1, -14400, [69, 68, 84, 0]⟩ ∧
      toLocalTime ⟨some newYork2024⟩ Tm.gmtime_r 1730615400
        = .ok ⟨0, 30, 1, 3, 10, 124, 0, 307, 0, -18000, [69, 83, 84, 0, 69, 68, 84, 0]⟩) ∧
    (toLocalTime ⟨some newYork2024⟩ Tm.gmtime_r 1730611800
      >>= fromLocalTime ⟨some newYork2024⟩ Tm.gmtime_r Tm.timegm) = .ok 1730611800 ∧
    (toLocalTime ⟨some newYork2024⟩ Tm.gmtime_r 1730615400
      >>= fromLocalTime ⟨some newYork2024⟩ Tm.gmtime_r Tm.timegm) = .ok 1730615400 :=
  have hinverse : Inverse Tm.gmtime_r Tm.timegm := fun t _ _ _ =>
    Tm.Shows.timegm_eq ⟨(Tm.gmtime_r_shows t).valid, (Tm.gmtime_r_shows t).julianDay,
      (Tm.gmtime_r_shows t).hour, (Tm.gmtime_r_shows t).min, (Tm.gmtime_r_shows t).sec⟩
  have h := (localTime_round_trip hinverse).1 newYork2024 (-18000) newYork2024_alternates
  ⟨⟨by decide +kernel, by decide +kernel⟩, h 1730611800, h 1730615400⟩

end TimeZone

end Muduo
