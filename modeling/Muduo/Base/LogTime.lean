import Muduo.Base.UtcTime
import Muduo.Support.Decimal
import Muduo.Support.Machine

/-! # The time of a log record

`Logger::Impl::formatTime` of `base/Logging.cpp`. Each thread keeps the text of the second it has formatted
last, and the time zone of the log may be set at any time. `logClock` is the machine of one thread's
records and of the calls of `setTimeZone`, and `logTime_direct_iff` says when the texts are those of the
time zone in force. -/

namespace Muduo

open Support

/-- `t_lastSecond` and `t_time`, up to its `\0`. -/
structure TimeCache where
  lastSecond : Int
  time : List UInt8
  deriving DecidableEq, Repr

/-- `Timestamp::kMicroSecondsPerSecond`. -/
def kMicroSecondsPerSecond : Int := 1000 * 1000

/-- `"%4d%02d%02d %02d:%02d:%02d"`. -/
def timeText (tm : Tm) : List UInt8 :=
  formatInt false 4 (tm.tm_year + 1900) ++ (formatInt true 2 (tm.tm_mon + 1) ++
    (formatInt true 2 tm.tm_mday ++ (32 :: (formatInt true 2 tm.tm_hour ++ (58 ::
      (formatInt true 2 tm.tm_min ++ (58 :: formatInt true 2 tm.tm_sec)))))))

/-- `T(str, len)`: a text with its length. -/
def sizedText (str : List UInt8) (len : Nat) : Checked (List UInt8) := do
  assert (str.length = len) "strlen(str) == len_"
  return str

/-- `Fmt(fmt, val)`, with the text that `snprintf` makes of `val`. -/
def fmt (text : List UInt8) : Checked (List UInt8) := do
  assert (text.length < 32) "static_cast<size_t>(length_) < sizeof buf_"
  return text

section Time

variable (gmtime : Int → Tm) (logTimeZone : TimeZone)

/-- The second in the time zone of the log, or in UTC if that is not valid. -/
def brokenDown (seconds : Int) : Checked Tm :=
  if logTimeZone.valid then logTimeZone.toLocalTime gmtime seconds else return gmtime seconds

/-- The part of `formatTime` that keeps the text of the second. -/
def TimeCache.refresh (c : TimeCache) (seconds : Int) : Checked TimeCache :=
  if seconds ≠ c.lastSecond then do
    let tm ← brokenDown gmtime logTimeZone seconds
    let text := timeText tm
    assert (text.length = 17) "len == 17"
    return { lastSecond := seconds, time := text.take 63 }
  else return c

/-- The part of `formatTime` that writes the text of the second and that of the microseconds. -/
def TimeCache.texts (c : TimeCache) (us : List UInt8) (len : Nat) (text : String) :
    Checked (List UInt8 × List UInt8) := do
  let us ← fmt us
  assert (us.length = len) text
  return (← sizedText c.time 17, ← sizedText us len)

/-- `formatTime()`; also returns the two texts that go to the stream. -/
def formatTime (c : TimeCache) (microSecondsSinceEpoch : Int) :
    Checked (TimeCache × List UInt8 × List UInt8) := do
  let seconds := microSecondsSinceEpoch.tdiv kMicroSecondsPerSecond
  let microseconds := microSecondsSinceEpoch.tmod kMicroSecondsPerSecond
  let c ← c.refresh gmtime logTimeZone seconds
  if logTimeZone.valid then
    return (c, ← c.texts (46 :: (formatInt true 6 microseconds ++ [32])) 8 "us.length() == 8")
  else
    return (c, ← c.texts (46 :: (formatInt true 6 microseconds ++ [90, 32])) 9 "us.length() == 9")

/-- The text of a second, formatted directly. -/
def directText (seconds : Int) : Checked (List UInt8) := do
  let tm ← brokenDown gmtime logTimeZone seconds
  return timeText tm

/-- The second has a text of 17 characters. -/
def HasText (seconds : Int) : Prop :=
  ∃ text, directText gmtime logTimeZone seconds = .ok text ∧ text.length = 17

end Time

/-- The fields are those of a time, and the year has four digits. -/
structure Tm.Calendar (tm : Tm) : Prop where
  year : 0 ≤ tm.tm_year + 1900 ∧ tm.tm_year + 1900 ≤ 9999
  mon : 0 ≤ tm.tm_mon ∧ tm.tm_mon ≤ 11
  mday : 1 ≤ tm.tm_mday ∧ tm.tm_mday ≤ 31
  hour : 0 ≤ tm.tm_hour ∧ tm.tm_hour ≤ 23
  min : 0 ≤ tm.tm_min ∧ tm.tm_min ≤ 59
  sec : 0 ≤ tm.tm_sec ∧ tm.tm_sec ≤ 60

/-- The time text has seventeen characters. -/
theorem Tm.Calendar.length_timeText {tm : Tm} (h : tm.Calendar) : (timeText tm).length = 17 := by
  obtain ⟨hyear, hmon, hmday, hhour, hmin, hsec⟩ := h
  have hfour : (formatInt false 4 (tm.tm_year + 1900)).length = 4 :=
    length_formatInt_of_lt _ (by decide) hyear.1 (by omega)
  have htwo : ∀ {x : Int}, 0 ≤ x → x ≤ 60 → (formatInt true 2 x).length = 2 := fun hlow hhigh =>
    length_formatInt_of_lt _ (by decide) hlow (by omega)
  simp only [timeText, List.length_append, List.length_cons, hfour,
    htwo (x := tm.tm_mon + 1) (by omega) (by omega), htwo (x := tm.tm_mday) (by omega) (by omega),
    htwo (x := tm.tm_hour) (by omega) (by omega), htwo (x := tm.tm_min) (by omega) (by omega),
    htwo (x := tm.tm_sec) (by omega) (by omega)]

/-! ## The records of a thread -/

/-- A time that was written. -/
structure WrittenTime where
  second : Int
  /-- The time zone that was in force. -/
  zone : TimeZone
  text : List UInt8

/-- A thread that writes log records. -/
structure LogClock where
  cache : TimeCache
  /-- `g_logTimeZone`. -/
  zone : TimeZone
  /-- The times of the records, the last one at the end. -/
  written : List WrittenTime

/-- What happens to the logging thread's clock. -/
inductive LogStep where
  /-- A record with this time stamp. -/
  | record (microSecondsSinceEpoch : Int)
  | setTimeZone (tz : TimeZone)

namespace LogClock

variable (gmtime : Int → Tm)

/-- The second of a time stamp. -/
def second (microSecondsSinceEpoch : Int) : Int := microSecondsSinceEpoch.tdiv kMicroSecondsPerSecond

/-- Time stamps are positive. -/
def Enabled (_ : LogClock) : LogStep → Prop
  | .record stamp => 0 < stamp
  | .setTimeZone _ => True

/-- What a step does; a record also notes the time text it was given. -/
def exec (s : LogClock) : LogStep → Checked LogClock
  | .record stamp => do
      let (cache, time, _) ← formatTime gmtime s.zone s.cache stamp
      return { s with cache, written := s.written ++ [⟨second stamp, s.zone, time⟩] }
  | .setTimeZone tz => return { s with zone := tz }

end LogClock

/-- The records of one thread. -/
def logClock (gmtime : Int → Tm) : Machine LogClock LogStep where
  init s := s = ⟨⟨0, []⟩, .invalid, []⟩
  enabled := LogClock.Enabled
  exec := LogClock.exec gmtime

/-! ## What a record writes -/

section Record

variable {gmtime : Int → Tm} {tz : TimeZone} {c : TimeCache}

/-- A second whose broken-down time is in the calendar has a text. -/
theorem hasText_of_calendar {seconds : Int} {tm : Tm} (htm : brokenDown gmtime tz seconds = .ok tm)
    (h : tm.Calendar) : HasText gmtime tz seconds := by
  refine ⟨timeText tm, ?_, h.length_timeText⟩
  rw [directText, htm]
  rfl

/-- A second other than the last one is formatted, if it has a text. -/
theorem refresh_of_ne {seconds : Int} (h : seconds ≠ c.lastSecond) {c' : TimeCache} :
    c.refresh gmtime tz seconds = .ok c' ↔ c'.lastSecond = seconds ∧
      directText gmtime tz seconds = .ok c'.time ∧ c'.time.length = 17 := by
  rw [TimeCache.refresh, if_pos h, directText]
  cases brokenDown gmtime tz seconds with
  | error e => simp
  | ok tm =>
      simp only [Checked.ok_bind, Checked.assert_bind_eq_ok, Checked.pure_eq_ok, Except.ok.injEq]
      constructor
      · rintro ⟨hlength, rfl⟩
        have htake : (timeText tm).take 63 = timeText tm := List.take_of_length_le (by omega)
        refine ⟨rfl, htake.symm, ?_⟩
        rw [htake, hlength]
      · rintro ⟨rfl, htime, hlength⟩
        obtain ⟨lastSecond, time⟩ := c'
        obtain rfl : timeText tm = time := htime
        have hle : (timeText tm).length ≤ 63 := Nat.le_trans (Nat.le_of_eq hlength) (by decide)
        have htake : (timeText tm).take 63 = timeText tm := List.take_of_length_le hle
        refine ⟨hlength, ?_⟩
        rw [htake]

/-- Within the second of the last record the cache stays. -/
theorem refresh_of_eq {seconds : Int} (h : seconds = c.lastSecond) :
    c.refresh gmtime tz seconds = .ok c := by
  rw [TimeCache.refresh, if_neg (not_not_intro h)]
  rfl

/-- The microseconds of a positive time stamp have six digits. -/
theorem length_microseconds {stamp : Int} (h : 0 < stamp) :
    (formatInt true 6 (stamp.tmod kMicroSecondsPerSecond)).length = 6 := by
  have hnonneg : 0 ≤ stamp.tmod kMicroSecondsPerSecond := Int.tmod_nonneg _ (by omega)
  have hlt : stamp.tmod kMicroSecondsPerSecond < kMicroSecondsPerSecond :=
    Int.tmod_lt_of_pos _ (by decide)
  have hmicro : kMicroSecondsPerSecond = 10 ^ 6 := rfl
  exact length_formatInt_of_lt _ (by decide) hnonneg (by omega)

/-- The text is taken with the length given. -/
theorem sizedText_eq_ok {str text : List UInt8} {len : Nat} :
    sizedText str len = .ok text ↔ str.length = len ∧ str = text := by
  rw [sizedText, Checked.assert_bind_eq_ok, Checked.pure_eq_ok, Except.ok.injEq]

/-- The text of the microseconds. -/
def microsecondsText (tz : TimeZone) (stamp : Int) : List UInt8 :=
  46 :: (formatInt true 6 (stamp.tmod kMicroSecondsPerSecond) ++ if tz.valid then [32] else [90, 32])

/-- The asserts on the microseconds hold, so that on the text of the second is the one that counts. -/
theorem TimeCache.texts_eq {us : List UInt8} {len : Nat} (hus : us.length = len) (hlen : len < 32)
    (text : String) :
    c.texts us len text = sizedText c.time 17 >>= fun time => .ok (time, us) := by
  have hlt : us.length < 32 := by omega
  rw [texts, fmt, assert_pos hlt, Checked.ok_bind, Checked.pure_eq_ok, Checked.ok_bind, assert_pos hus,
    Checked.ok_bind, sizedText, sizedText, assert_pos hus]
  rfl

/-- The time of a record after the epoch, by the cache. -/
theorem formatTime_eq {stamp : Int} (h : 0 < stamp) : formatTime gmtime tz c stamp = do
    let c ← c.refresh gmtime tz (LogClock.second stamp)
    let time ← sizedText c.time 17
    return (c, time, microsecondsText tz stamp) := by
  have hlength := length_microseconds h
  rw [formatTime, microsecondsText]
  refine congrArg _ (funext fun c => ?_)
  cases tz.valid with
  | true =>
      rw [if_pos rfl, if_pos rfl, TimeCache.texts_eq (by simp [hlength]) (by decide), bind_assoc]
      rfl
  | false =>
      rw [if_neg Bool.false_ne_true, if_neg Bool.false_ne_true,
        TimeCache.texts_eq (by simp [hlength]) (by decide), bind_assoc]
      rfl

end Record

namespace LogClock

variable {gmtime : Int → Tm} {s t : LogClock}

/-- What a record leaves: the cache refreshed, and its time text noted. -/
theorem exec_record_eq_ok {stamp : Int} (h : 0 < stamp) :
    s.exec gmtime (.record stamp) = .ok t ↔ ∃ c, s.cache.refresh gmtime s.zone (second stamp) = .ok c ∧
      c.time.length = 17 ∧
      t = { s with cache := c, written := s.written ++ [⟨second stamp, s.zone, c.time⟩] } := by
  rw [exec, formatTime_eq h]
  simp only [bind_assoc, Checked.bind_eq_ok, sizedText_eq_ok, Checked.pure_eq_ok, Except.ok.injEq]
  constructor
  · rintro ⟨c, hc, time, ⟨hlength, rfl⟩, p, rfl, ht⟩
    exact ⟨c, hc, hlength, ht.symm⟩
  · rintro ⟨c, hc, hlength, rfl⟩
    exact ⟨c, hc, c.time, ⟨hlength, rfl⟩, _, rfl, rfl⟩

/-- The thread keeps the text of its last record. -/
structure Coherent (s : LogClock) : Prop where
  first : s.written.getLast? = none → s.cache = ⟨0, []⟩
  last : ∀ w, s.written.getLast? = some w → s.cache = ⟨w.second, w.text⟩ ∧ w.text.length = 17

/-- Every step keeps the cache coherent. -/
theorem Coherent.exec {a : LogStep} (h : s.Coherent) (ha : s.Enabled a) (ht : s.exec gmtime a = .ok t) :
    t.Coherent := by
  cases a with
  | record stamp =>
      obtain ⟨c, hc, hlength, rfl⟩ := (exec_record_eq_ok ha).mp ht
      have hsecond : c.lastSecond = second stamp := by
        by_cases hne : second stamp = s.cache.lastSecond
        · rw [refresh_of_eq hne] at hc
          cases hc
          exact hne.symm
        · exact ((refresh_of_ne hne).mp hc).1
      constructor
      · intro hnone
        simp at hnone
      · intro w hw
        rw [List.getLast?_concat] at hw
        cases hw
        exact ⟨congrArg (TimeCache.mk · c.time) hsecond, hlength⟩
  | setTimeZone tz =>
      cases ht
      exact ⟨h.first, h.last⟩

/-- The cache is coherent in every reachable state. -/
theorem Coherent.of_reachable (hs : (logClock gmtime).Reachable s) : s.Coherent := by
  refine hs.induction ?_ fun s a t h ha ht => h.exec ha ht
  rintro s rfl
  exact ⟨fun _ => rfl, nofun⟩

variable (gmtime)

/-- Every text that was written is the one of its second in the time zone that was in force. -/
def AllDirect (s : LogClock) : Prop :=
  ∀ w ∈ s.written, directText gmtime w.zone w.second = .ok w.text

/-- The second is not 0 if this is the first record. If it is the second of the record before, the time
zone in force gives it the same text as the one that was in force then. -/
def KeepsText (s : LogClock) (seconds : Int) : Prop :=
  match s.written.getLast? with
  | none => seconds ≠ 0
  | some w => seconds = w.second →
      directText gmtime s.zone w.second = directText gmtime w.zone w.second

/-- The records that are in order. -/
def Orderly (s : LogClock) : LogStep → Prop
  | .record stamp => HasText gmtime s.zone (second stamp) ∧ s.KeepsText gmtime (second stamp)
  | .setTimeZone _ => True

variable {gmtime}

/-- A record with the direct text, by what the cache has after it. -/
theorem AllDirect.record_iff (hdirect : s.AllDirect gmtime) {stamp : Int} (hstamp : 0 < stamp) :
    (∃ t, s.exec gmtime (.record stamp) = .ok t ∧ t.AllDirect gmtime) ↔
      ∃ c, s.cache.refresh gmtime s.zone (second stamp) = .ok c ∧ c.time.length = 17 ∧
        directText gmtime s.zone (second stamp) = .ok c.time := by
  constructor
  · rintro ⟨t, ht, hall⟩
    obtain ⟨c, hc, hlength, rfl⟩ := (exec_record_eq_ok hstamp).mp ht
    exact ⟨c, hc, hlength, hall _ (List.mem_append_right _ (List.mem_singleton_self _))⟩
  · rintro ⟨c, hc, hlength, htext⟩
    refine ⟨_, (exec_record_eq_ok hstamp).mpr ⟨c, hc, hlength, rfl⟩, ?_⟩
    intro w hw
    rcases List.mem_append.mp hw with hw | hw
    · exact hdirect w hw
    · cases List.mem_singleton.mp hw
      exact htext

/-- Another second than that of the last record keeps its text. -/
theorem Coherent.keepsText_of_ne (h : s.Coherent) {seconds : Int} (hne : seconds ≠ s.cache.lastSecond) :
    s.KeepsText gmtime seconds := by
  unfold KeepsText
  cases hlast : s.written.getLast? with
  | none =>
      rw [h.first hlast] at hne
      exact hne
  | some w =>
      rw [(h.last w hlast).1] at hne
      exact fun heq => absurd heq hne

/-- A record gets the text of its second exactly when it is in order. -/
theorem Coherent.record_iff (h : s.Coherent) (hdirect : s.AllDirect gmtime) {stamp : Int}
    (hstamp : 0 < stamp) :
    (∃ t, s.exec gmtime (.record stamp) = .ok t ∧ t.AllDirect gmtime) ↔
      s.Orderly gmtime (.record stamp) := by
  rw [hdirect.record_iff hstamp, Orderly]
  by_cases hhit : second stamp = s.cache.lastSecond
  · -- the text that is kept is written
    rw [refresh_of_eq hhit, KeepsText]
    cases hlast : s.written.getLast? with
    | none =>
        have hcache := h.first hlast
        constructor
        · rintro ⟨c, hc, hlength, -⟩
          cases hc
          rw [hcache] at hlength
          cases hlength
        · rintro ⟨-, hne⟩
          rw [hcache] at hhit
          exact absurd hhit hne
    | some w =>
        obtain ⟨hcache, hlength⟩ := h.last w hlast
        have hw := hdirect w (List.mem_of_getLast? hlast)
        have hsecond : second stamp = w.second := by rw [hhit, hcache]
        rw [hsecond, hcache]
        constructor
        · rintro ⟨c, hc, -, htext⟩
          cases hc
          exact ⟨⟨w.text, htext, hlength⟩, fun _ => htext.trans hw.symm⟩
        · rintro ⟨-, hsame⟩
          exact ⟨_, rfl, hlength, (hsame rfl).trans hw⟩
  · -- the second is formatted
    rw [and_iff_left (h.keepsText_of_ne hhit)]
    constructor
    · rintro ⟨c, -, hlength, htext⟩
      exact ⟨c.time, htext, hlength⟩
    · rintro ⟨text, htext, hlength⟩
      exact ⟨⟨second stamp, text⟩, (refresh_of_ne hhit).mpr ⟨rfl, htext, hlength⟩, hlength, htext⟩

/-- In an orderly run every text is the one of its second, and no assertion fails. -/
theorem AllDirect.of_reachable (hs : ((logClock gmtime).restrict (Orderly gmtime)).Reachable s) :
    s.AllDirect gmtime ∧ ((logClock gmtime).restrict (Orderly gmtime)).Safe s := by
  have hboth : (s.Coherent ∧ s.AllDirect gmtime) ∧
      ((logClock gmtime).restrict (Orderly gmtime)).Safe s := by
    refine Machine.invariant (P := fun s => s.Coherent ∧ s.AllDirect gmtime) ?_ ?_ hs
    · rintro s rfl
      exact ⟨⟨fun _ => rfl, nofun⟩, nofun⟩
    · rintro s a ⟨hcoherent, hdirect⟩ ⟨ha, horderly⟩
      cases a with
      | record stamp =>
          obtain ⟨t, ht, hall⟩ := (hcoherent.record_iff hdirect ha).mpr horderly
          exact ⟨t, ht, hcoherent.exec (a := .record stamp) ha ht, hall⟩
      | setTimeZone tz => exact .ok ⟨⟨hcoherent.first, hcoherent.last⟩, hdirect⟩
  exact ⟨hboth.1.2, hboth.2⟩

end LogClock

open LogClock in
/-- **The time of a record.** A time with a year of four digits has a text of 17 characters. On every run on
which the records are in order, no assert fails and every record has the text of its second in the time
zone in force. After such a run the next record has it, too, exactly if it is in order. -/
theorem logTime_direct_iff (gmtime : Int → Tm) :
    (∀ tz seconds tm, brokenDown gmtime tz seconds = .ok tm → tm.Calendar → HasText gmtime tz seconds) ∧
    (∀ s, ((logClock gmtime).restrict (Orderly gmtime)).Reachable s →
      s.AllDirect gmtime ∧ ((logClock gmtime).restrict (Orderly gmtime)).Safe s) ∧
    ∀ s, (logClock gmtime).Reachable s → s.AllDirect gmtime → ∀ stamp, 0 < stamp →
      ((∃ t, s.exec gmtime (.record stamp) = .ok t ∧ t.AllDirect gmtime) ↔
        s.Orderly gmtime (.record stamp)) := by
  refine ⟨fun tz seconds tm => hasText_of_calendar, fun s => AllDirect.of_reachable, ?_⟩
  intro s hs hdirect stamp hstamp
  exact (Coherent.of_reachable hs).record_iff hdirect hstamp

namespace LogClock

/-- A thread that has not written anything. -/
def silent : LogClock := ⟨⟨0, []⟩, .invalid, []⟩

/-- `19700101 00:00:01`. -/
def firstSecond : List UInt8 := [49, 57, 55, 48, 48, 49, 48, 49, 32, 48, 48, 58, 48, 48, 58, 48, 49]

/-- `19700101 08:00:02`. -/
def secondInChina : List UInt8 := [49, 57, 55, 48, 48, 49, 48, 49, 32, 48, 56, 58, 48, 48, 58, 48, 50]

/-- A time zone that is 8 hours east. -/
def china : TimeZone := .fixed 28800 [67, 83, 84]

/-- The thread after a record in the second 1, in UTC. -/
def recorded : LogClock := ⟨⟨1, firstSecond⟩, .invalid, [⟨1, .invalid, firstSecond⟩]⟩

/-- The same, after the time zone was set to one that is 8 hours east. -/
def moved : LogClock := { recorded with zone := china }

/-- A run that sets the zone after a record leads there. -/
theorem reachable_moved : (logClock Tm.gmtime_r).Reachable moved := by
  have hsilent : (logClock Tm.gmtime_r).Reachable silent := .of_init rfl
  have hrecord : (logClock Tm.gmtime_r).enabled silent (.record 1000000) := by
    change (0 : Int) < 1000000
    decide
  have hset : (logClock Tm.gmtime_r).enabled recorded (.setTimeZone china) := trivial
  exact (hsilent.step hrecord rfl).step hset rfl

end LogClock

open LogClock in
/-- Two records in the second 1 in UTC, the second of which finds its text in the cache, and after a
`setTimeZone` two in the second 2 in the other zone. -/
theorem logTime_direct_moved : ∃ s, ((logClock Tm.gmtime_r).restrict (Orderly Tm.gmtime_r)).Reachable s ∧
    s.written.map WrittenTime.text = [firstSecond, firstSecond, secondInChina, secondInChina] ∧
    s.AllDirect Tm.gmtime_r := by
  have htext : HasText Tm.gmtime_r .invalid 1 := (logTime_direct_iff Tm.gmtime_r).1 _ _ (Tm.gmtime_r 1) rfl
    ⟨by decide, by decide, by decide, by decide, by decide, by decide⟩
  have htext' : HasText Tm.gmtime_r china 2 := ⟨secondInChina, rfl, rfl⟩
  have hpos {stamp : Int} (h : 0 < stamp) (s : LogClock) :
      (logClock Tm.gmtime_r).enabled s (.record stamp) := h
  have hne {x y : Int} (h : x ≠ y) {P : Prop} (heq : x = y) : P := absurd heq h
  have h0 : ((logClock Tm.gmtime_r).restrict (Orderly Tm.gmtime_r)).Reachable silent := .of_init rfl
  have h1 : ((logClock Tm.gmtime_r).restrict (Orderly Tm.gmtime_r)).Reachable recorded :=
    h0.step (a := LogStep.record 1000000) ⟨hpos (by decide) _, htext, Int.one_ne_zero⟩ rfl
  have h2 := h1.step (a := LogStep.record 1500000) ⟨hpos (by decide) _, htext, fun _ => rfl⟩ rfl
  have h3 := h2.step (a := LogStep.setTimeZone china) ⟨trivial, trivial⟩ rfl
  have h4 := h3.step (a := LogStep.record 2000000)
    ⟨hpos (by decide) _, htext', hne (by decide)⟩ rfl
  have h5 := h4.step (a := LogStep.record 2000001) ⟨hpos (by decide) _, htext', fun _ => rfl⟩ rfl
  exact ⟨_, h5, rfl, ((logTime_direct_iff Tm.gmtime_r).2.1 _ h5).1⟩

open LogClock in
/-- After a record in the second 1 in UTC and a `setTimeZone` to a zone that is 8 hours east, another record
in that second has the text of UTC, not `19700101 08:00:01`. And the first record of a thread, in the
second 0, fails an assert. -/
theorem logTime_stale : (logClock Tm.gmtime_r).Reachable moved ∧ moved.AllDirect Tm.gmtime_r ∧
    (∃ t, moved.exec Tm.gmtime_r (.record 1500000) = .ok t ∧
      t.written.getLast? = some ⟨1, moved.zone, firstSecond⟩) ∧
    directText Tm.gmtime_r moved.zone 1 =
      .ok [49, 57, 55, 48, 48, 49, 48, 49, 32, 48, 56, 58, 48, 48, 58, 48, 49] ∧
    silent.exec Tm.gmtime_r (.record 1) = .error "strlen(str) == len_" := by
  refine ⟨reachable_moved, ?_, ⟨_, rfl, rfl⟩, rfl, rfl⟩
  intro w hw
  cases List.mem_singleton.mp hw
  rfl

end Muduo
