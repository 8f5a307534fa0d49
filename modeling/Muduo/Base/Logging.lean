import Muduo.Base.LogStream
import Muduo.Base.LogTime

/-! # `Logger`

A log record of `base/Logging.cpp`: the constructor writes the time, the thread and the level to a
`LogStream`, the user inserts items, and the destructor adds the place in the source and a newline and hands
the characters to the output. `log_record_line_iff` says when the newline is there. -/

namespace Muduo

open Support

/-- `Logger::LogLevel`. -/
inductive LogLevel where
  | TRACE
  | DEBUG
  | INFO
  | WARN
  | ERROR
  | FATAL
  deriving DecidableEq, Repr

/-- `LogLevelName`: `TRACE`, `DEBUG`, `INFO`, `WARN`, `ERROR`, `FATAL`, filled with blanks. -/
def LogLevelName : LogLevel → List UInt8
  | .TRACE => [84, 82, 65, 67, 69, 32]
  | .DEBUG => [68, 69, 66, 85, 71, 32]
  | .INFO => [73, 78, 70, 79, 32, 32]
  | .WARN => [87, 65, 82, 78, 32, 32]
  | .ERROR => [69, 82, 82, 79, 82, 32]
  | .FATAL => [70, 65, 84, 65, 76, 32]

/-- `Logger::SourceFile`: the name of the file without its directory. -/
def sourceFile (filename : List UInt8) : List UInt8 := (filename.reverse.takeWhile (· ≠ 47)).reverse

/-- What a record depends on besides its arguments. -/
structure LogEnv where
  gmtime : Int → Tm
  /-- `g_logTimeZone`. -/
  logTimeZone : TimeZone
  /-- `CurrentThread::tidString()`; `tidStringLength()` is its length. -/
  tidString : List UInt8
  /-- `strerror_tl`. -/
  strerror : Int32 → List UInt8
  /-- The cache of the thread. -/
  cache : TimeCache
  /-- `Timestamp::now()`, in microseconds. -/
  now : Int

/-- `Logger::Impl`. -/
structure LoggerImpl where
  stream : LogStream
  level : LogLevel
  line : Int32
  basename : List UInt8

namespace LoggerImpl

/-- What the constructor inserts for an error. -/
def errnoItems (env : LogEnv) (savedErrno : Int32) : List LogItem :=
  if savedErrno ≠ 0 then
    [.cString (some (env.strerror savedErrno)),
      .cString (some [32, 40, 101, 114, 114, 110, 111, 61]), -- (errno=
      .int savedErrno, .cString (some [41, 32])]
  else []

/-- `Impl(level, savedErrno, file, line)`; also returns the cache of the thread. -/
def new (env : LogEnv) (level : LogLevel) (savedErrno : Int32) (file : List UInt8) (line : Int32) :
    Checked (LoggerImpl × TimeCache) := do
  let (cache, time, us) ← formatTime env.gmtime env.logTimeZone env.cache env.now
  let stream : LogStream := (FixedBuffer.new.append time).append us
  let stream := stream.append (← sizedText env.tidString env.tidString.length)
  let stream := stream.append (← sizedText (LogLevelName level) 6)
  let stream ← LogStream.insertAll stream (errnoItems env savedErrno)
  return ({ stream, level, line, basename := file }, cache)

/-- What `finish()` inserts. -/
def finishItems (impl : LoggerImpl) : List LogItem :=
  [.cString (some [32, 45, 32]), .string impl.basename, .char 58, .int impl.line, .char 10]

/-- `Logger::Impl::finish`. -/
def finish (impl : LoggerImpl) : Checked LoggerImpl := do
  let stream ← LogStream.insertAll impl.stream impl.finishItems
  return { impl with stream }

end LoggerImpl

/-- The constructors of `Logger`. -/
inductive LoggerKind where
  | plain
  | withLevel (level : LogLevel)
  /-- With the name of a function. -/
  | withFunc (level : LogLevel) (func : Option (List UInt8))
  /-- With the value of `errno`. -/
  | sysError (toAbort : Bool) (errno : Int32)

namespace Logger

/-- `Logger(file, line, ...)`. -/
def new (env : LogEnv) (filename : List UInt8) (line : Int32) :
    LoggerKind → Checked (LoggerImpl × TimeCache)
  | .plain => LoggerImpl.new env .INFO 0 (sourceFile filename) line
  | .withLevel level => LoggerImpl.new env level 0 (sourceFile filename) line
  | .withFunc level func => do
      let (impl, cache) ← LoggerImpl.new env level 0 (sourceFile filename) line
      let stream ← LogStream.insertAll impl.stream [.cString func, .char 32]
      return ({ impl with stream }, cache)
  | .sysError toAbort errno =>
      LoggerImpl.new env (if toAbort then .FATAL else .ERROR) errno (sourceFile filename) line

/-- `~Logger()`: what is passed to `g_output`, and whether the program is aborted. -/
def destroy (impl : LoggerImpl) : Checked (List UInt8 × Bool) := do
  let impl ← impl.finish
  return (impl.stream.data, impl.level = .FATAL)

/-- The items that are inserted, and the destructor. -/
def record (impl : LoggerImpl) (items : List LogItem) : Checked (List UInt8 × Bool) := do
  let stream ← LogStream.insertAll impl.stream items
  destroy { impl with stream }

end Logger

/-! ## The end of a line -/

namespace LogStream

variable {s : LogStream}

/-- The stream after the blanks and the name of the file were inserted by `finish()`. -/
def named (s : LogStream) (basename : List UInt8) : LogStream := (s.append [32, 45, 32]).append basename

/-- The number of a line has at most 11 characters. -/
theorem length_line_le (line : Int32) : (LogItem.int line).text.length ≤ 11 := by
  have hlow := line.le_toInt
  have hhigh := line.toInt_lt
  exact length_decimalInt_le (by decide) (by omega)

/-- What a text leaves free. -/
theorem avail_eq_of_data {t : LogStream} {text : List UInt8} (h : t.data = s.data ++ text) :
    t.avail = s.avail - text.length := by
  rw [FixedBuffer.avail, FixedBuffer.avail, FixedBuffer.length, FixedBuffer.length, h, List.length_append]
  omega

/-- The colon, the line and the newline: with three free characters or more the newline gets in, with two
the colon takes the room for it, and with one nothing gets in. -/
theorem newline_iff {t : LogStream} {line : Int32} (hs : 0 < s.avail)
    (ht : t.data = if (LogItem.int line).Fits (s.append [58]).avail then
      (s.append [58]).data ++ (LogItem.int line).text else (s.append [58]).data) :
    (t.append [10]).data.getLast? = some 10 ↔
      3 ≤ s.avail ∨ s.avail = 1 ∧ s.data.getLast? = some 10 := by
  have hfits : ∀ room, (LogItem.int line).Fits room → 32 ≤ room := fun _ h => h
  by_cases hone : s.avail = 1
  · -- nothing gets in
    have hcolon : s.append [58] = s := FixedBuffer.append_of_le hone.le
    have htext : ¬ (LogItem.int line).Fits s.avail := by
      intro h
      have hroom := hfits _ h
      omega
    rw [hcolon, if_neg htext] at ht
    have havail : t.avail = s.avail := by rw [FixedBuffer.avail, FixedBuffer.length, ht]; rfl
    rw [FixedBuffer.append_of_le (havail.trans hone).le, ht, hone]
    simp
  · have hcolon : (s.append [58]).data = s.data ++ [58] :=
      FixedBuffer.data_append (Nat.lt_of_le_of_ne hs (Ne.symm hone))
    have havail : (s.append [58]).avail = s.avail - 1 := avail_eq_of_data hcolon
    by_cases htwo : s.avail = 2
    · have htext : ¬ (LogItem.int line).Fits (s.append [58]).avail := by
        intro h
        have hroom := hfits _ h
        omega
      rw [if_neg htext] at ht
      have hfull : t.avail = 1 := by
        rw [FixedBuffer.avail, FixedBuffer.length, ht]
        exact havail.trans (by omega)
      rw [FixedBuffer.append_of_le hfull.le, ht, hcolon, htwo]
      simp
    · -- the line is only written if there is room for more than it needs
      have hroom : t.avail > [(10 : UInt8)].length := by
        change 1 < t.avail
        by_cases htext : (LogItem.int line).Fits (s.append [58]).avail
        · rw [if_pos htext] at ht
          have hline := length_line_le line
          have hmore := hfits _ htext
          rw [avail_eq_of_data ht]
          omega
        · rw [if_neg htext] at ht
          rw [FixedBuffer.avail, FixedBuffer.length, ht]
          change 1 < (s.append [58]).avail
          omega
      rw [FixedBuffer.data_append hroom, List.getLast?_concat]
      refine iff_of_true rfl (.inl ?_)
      omega

/-- The newline comes last by what is free before `finish()` and the length of the name. With more than three
characters free the dash gets in, and the name only if it leaves one free. -/
theorem named_iff (hs : 0 < s.avail) (basename : List UInt8) :
    (3 ≤ (s.named basename).avail ∨
      (s.named basename).avail = 1 ∧ (s.named basename).data.getLast? = some 10) ↔
    (s.avail = 1 ∧ s.data.getLast? = some 10) ∨ (s.avail = 3 ∧ (basename.length = 0 ∨ 3 ≤ basename.length)) ∨
      (6 ≤ s.avail ∧ (basename.length + 6 ≤ s.avail ∨ s.avail ≤ basename.length + 3)) ∨
      (basename.getLast? = some 10 ∧
        (basename.length + 4 = s.avail ∨ s.avail ≤ 3 ∧ basename.length + 1 = s.avail)) := by
  have hlast : ∀ text : List UInt8, (text ++ basename).getLast? = some 10 ↔
      basename.getLast? = some 10 ∨ basename.length = 0 ∧ text.getLast? = some 10 := by
    intro text
    rw [List.getLast?_append, Option.or_eq_some_iff, List.getLast?_eq_none_iff, List.length_eq_zero_iff]
  have hne : basename.getLast? = some 10 → 0 < basename.length := by
    intro hten
    refine List.length_pos_iff.mpr fun hnil => ?_
    rw [hnil] at hten
    cases hten
  by_cases hdash : 3 < s.avail
  · have hdata : (s.append [32, 45, 32]).data = s.data ++ [32, 45, 32] := FixedBuffer.data_append hdash
    have havail : (s.append [32, 45, 32]).avail = s.avail - 3 := avail_eq_of_data hdata
    have hblank : (s.data ++ [32, 45, 32]).getLast? ≠ some 10 := by simp
    by_cases hname : basename.length < (s.append [32, 45, 32]).avail
    · have hdata' : (s.named basename).data = s.data ++ [32, 45, 32] ++ basename :=
        (FixedBuffer.data_append hname).trans (by rw [hdata])
      have havail' : (s.named basename).avail = s.avail - 3 - basename.length :=
        (avail_eq_of_data (FixedBuffer.data_append hname)).trans (by rw [havail])
      rw [hdata', havail', hlast]
      by_cases hten : basename.getLast? = some 10
      · have hpos := hne hten
        simp only [hten, true_and, true_or, and_true]
        omega
      · simp only [hten, hblank, false_and, and_false, or_false]
        omega
    · -- the name does not get in, and the dash ends with a blank
      have hnamed : s.named basename = s.append [32, 45, 32] :=
        FixedBuffer.append_of_le (Nat.le_of_not_lt hname)
      rw [hnamed, hdata, havail]
      simp only [hblank, and_false, or_false]
      omega
  · have hskip : s.append [32, 45, 32] = s := FixedBuffer.append_of_le (Nat.le_of_not_lt hdash)
    rw [named, hskip]
    by_cases hname : basename.length < s.avail
    · have hdata : (s.append basename).data = s.data ++ basename := FixedBuffer.data_append hname
      rw [hdata, avail_eq_of_data hdata, hlast]
      by_cases hten : basename.getLast? = some 10
      · have hpos := hne hten
        simp only [hten, true_and, true_or, and_true]
        omega
      · by_cases hend : s.data.getLast? = some 10
        · simp only [hten, hend, false_and, false_or, or_false, and_true]
          omega
        · simp only [hten, hend, false_and, false_or, or_false, and_false]
          omega
    · have hshort : ¬ (basename.length + 4 = s.avail ∨ s.avail ≤ 3 ∧ basename.length + 1 = s.avail) := by omega
      rw [FixedBuffer.append_of_le (Nat.le_of_not_lt hname)]
      simp only [hshort, and_false, or_false]
      by_cases hend : s.data.getLast? = some 10
      · simp only [hend, and_true]
        omega
      · simp only [hend, and_false, false_or, or_false]
        omega

/-- The name leaves one byte free. -/
theorem named_avail_pos (hs : 0 < s.avail) (basename : List UInt8) : 0 < (s.named basename).avail :=
  FixedBuffer.avail_append_pos _ (FixedBuffer.avail_append_pos _ hs)

end LogStream

namespace Logger

/-- What the destructor passes to the output. -/
theorem destroy_sat (impl : LoggerImpl) (hs : 0 < impl.stream.avail) :
    (destroy impl).Sat fun p => p.1.length ≤ kSmallBuffer - 1 ∧
      (p.1.getLast? = some 10 ↔ 3 ≤ (impl.stream.named impl.basename).avail ∨
        (impl.stream.named impl.basename).avail = 1 ∧
          (impl.stream.named impl.basename).data.getLast? = some 10) := by
  have hnamed := LogStream.named_avail_pos hs impl.basename
  obtain ⟨t, ht, hdata⟩ := LogStream.insert_sat ((impl.stream.named impl.basename).append [58])
    (.int impl.line)
  have hfinish : LogStream.insertAll impl.stream impl.finishItems = .ok (t.append [10]) := by
    rw [LoggerImpl.finishItems, LogStream.insertAll_cons_of_not_numeric id,
      LogStream.insertAll_cons_of_not_numeric id, LogStream.insertAll_cons_of_not_numeric id,
      LogStream.insertAll_cons]
    change LogStream.insert ((impl.stream.named impl.basename).append [58]) (.int impl.line) >>= _ = _
    rw [ht, Checked.ok_bind, LogStream.insertAll_cons_of_not_numeric id, LogStream.insertAll_nil]
    rfl
  have havail : 0 < t.avail := (LogStream.insert_avail (.int impl.line)
    (FixedBuffer.avail_append_pos [58] hnamed)).of_eq_ok ht
  have hlength : (t.append [10]).length + (t.append [10]).avail = kSmallBuffer :=
    FixedBuffer.length_add_avail
  have hroom := FixedBuffer.avail_append_pos [10] havail
  rw [destroy, LoggerImpl.finish, hfinish]
  refine .ok ⟨?_, LogStream.newline_iff hnamed hdata⟩
  change (t.append [10]).length ≤ kSmallBuffer - 1
  omega

/-- A logger leaves one byte free. -/
theorem impl_avail {env : LogEnv} {level : LogLevel} {savedErrno line : Int32} {file : List UInt8}
    {p : LoggerImpl × TimeCache} (h : LoggerImpl.new env level savedErrno file line = .ok p) :
    0 < p.1.stream.avail := by
  obtain ⟨⟨cache, time, us⟩, -, h⟩ := Checked.bind_eq_ok.mp h
  obtain ⟨tid, -, h⟩ := Checked.bind_eq_ok.mp h
  obtain ⟨name, -, h⟩ := Checked.bind_eq_ok.mp h
  obtain ⟨stream, hstream, h⟩ := Checked.bind_eq_ok.mp h
  cases h
  have hnew : 0 < (FixedBuffer.new : LogStream).avail := by
    rw [FixedBuffer.avail_new]
    decide
  have hprefix := FixedBuffer.avail_append_pos name (FixedBuffer.avail_append_pos tid
    (FixedBuffer.avail_append_pos us (FixedBuffer.avail_append_pos time hnew)))
  exact (LogStream.insertAll_avail _ hprefix).of_eq_ok hstream

/-- A new record has room for a character. -/
theorem new_avail {env : LogEnv} {filename : List UInt8} {line : Int32} {kind : LoggerKind}
    {p : LoggerImpl × TimeCache} (h : Logger.new env filename line kind = .ok p) :
    0 < p.1.stream.avail := by
  cases kind with
  | plain => exact impl_avail h
  | withLevel level => exact impl_avail h
  | withFunc level func =>
      obtain ⟨⟨impl, cache⟩, himpl, h⟩ := Checked.bind_eq_ok.mp h
      obtain ⟨stream, hstream, h⟩ := Checked.bind_eq_ok.mp h
      cases h
      exact (LogStream.insertAll_avail _ (impl_avail himpl)).of_eq_ok hstream
  | sysError toAbort errno => exact impl_avail h

end Logger

/-- **A log record.** Whatever is inserted into a record, no write leaves the buffer and the output gets less
than `kSmallBuffer` characters. They end with a newline exactly if, before `finish()`, six characters are
free and the name of the file takes all but six of them at most or does not fit; or three are, and the name
is empty or does not fit; or the newline is that of the text, which nothing follows, or of the name, which
nothing follows. It is enough that the items leave six more than the name needs. -/
theorem log_record_line_iff {env : LogEnv} {filename : List UInt8} {line : Int32} {kind : LoggerKind}
    {impl : LoggerImpl} {cache : TimeCache} (h : Logger.new env filename line kind = .ok (impl, cache))
    (items : List LogItem) :
    ∃ s bytes aborts, LogStream.insertAll impl.stream items = .ok s ∧
      Logger.record impl items = .ok (bytes, aborts) ∧ bytes.length ≤ kSmallBuffer - 1 ∧
      (bytes.getLast? = some 10 ↔
        (s.avail = 1 ∧ s.data.getLast? = some 10) ∨
        (s.avail = 3 ∧ (impl.basename.length = 0 ∨ 3 ≤ impl.basename.length)) ∨
        (6 ≤ s.avail ∧ (impl.basename.length + 6 ≤ s.avail ∨ s.avail ≤ impl.basename.length + 3)) ∨
        (impl.basename.getLast? = some 10 ∧ (impl.basename.length + 4 = s.avail ∨
          s.avail ≤ 3 ∧ impl.basename.length + 1 = s.avail))) ∧
      (s.length + impl.basename.length + 6 ≤ kSmallBuffer → bytes.getLast? = some 10) := by
  obtain ⟨s, hitems, hs⟩ := LogStream.insertAll_avail items (Logger.new_avail h)
  obtain ⟨⟨bytes, aborts⟩, hdestroy, hlength, hnewline⟩ := Logger.destroy_sat { impl with stream := s } hs
  have hends := hnewline.trans (LogStream.named_iff hs impl.basename)
  refine ⟨s, bytes, aborts, hitems, ?_, hlength, hends, ?_⟩
  · rw [Logger.record, hitems, Checked.ok_bind, hdestroy]
  · intro hroom
    have hfree : s.length + s.avail = kSmallBuffer := FixedBuffer.length_add_avail
    have hsix : impl.basename.length + 6 ≤ s.avail := by omega
    exact hends.mpr (.inr (.inr (.inl ⟨by omega, .inl hsix⟩)))

/-- A thread that writes a record `1.5` seconds after the epoch, in UTC. -/
def plainEnv : LogEnv :=
  { gmtime := Tm.gmtime_r, logTimeZone := .invalid, tidString := [32, 49, 50, 51, 52, 32]
    strerror := fun _ => [], cache := ⟨0, []⟩, now := 1500000 }

/-- Its record in the line 7 of `a.cc` begins with 38 characters. -/
theorem new_plainEnv : ∃ impl cache, Logger.new plainEnv [97, 46, 99, 99] 7 .plain = .ok (impl, cache) ∧
    impl.stream.length = 38 ∧ impl.stream.avail = 3962 ∧ impl.basename = [97, 46, 99, 99] :=
  ⟨_, _, rfl, rfl, rfl, rfl⟩

/-- A text that there is room for. -/
theorem insertAll_string (s : LogStream) (text : List UInt8) (h : text.length < s.avail) :
    ∃ t, LogStream.insertAll s [.string text] = .ok t ∧ t.data = s.data ++ text := by
  refine ⟨s.append text, ?_, FixedBuffer.data_append h⟩
  rw [LogStream.insertAll_cons_of_not_numeric id, LogStream.insertAll_nil]
  rfl

/-- A record of two characters is a line. -/
theorem log_record_line_plainEnv : ∃ impl cache bytes aborts,
    Logger.new plainEnv [97, 46, 99, 99] 7 .plain = .ok (impl, cache) ∧
    Logger.record impl [.string [104, 105]] = .ok (bytes, aborts) ∧ bytes.getLast? = some 10 := by
  obtain ⟨impl, cache, hnew, hlength, hroom, hname⟩ := new_plainEnv
  obtain ⟨t, ht, hdata⟩ := insertAll_string impl.stream [104, 105] (by rw [hroom]; decide)
  obtain ⟨s, bytes, aborts, hs, hrecord, -, -, hline⟩ := log_record_line_iff hnew [.string [104, 105]]
  cases ht.symm.trans hs
  refine ⟨impl, cache, bytes, aborts, hnew, hrecord, hline ?_⟩
  have hshort : t.length = 38 + 2 := by
    rw [FixedBuffer.length, hdata, List.length_append, ← hlength]
    rfl
  rw [hshort, hname]
  decide

/-- A record with a text of 3961 characters leaves no room for the newline. -/
theorem log_record_no_newline : ∃ impl cache bytes aborts,
    Logger.new plainEnv [97, 46, 99, 99] 7 .plain = .ok (impl, cache) ∧
    Logger.record impl [.string (List.replicate 3961 97)] = .ok (bytes, aborts) ∧
    bytes.getLast? ≠ some 10 := by
  obtain ⟨impl, cache, hnew, -, hroom, hname⟩ := new_plainEnv
  obtain ⟨t, ht, hdata⟩ := insertAll_string impl.stream (List.replicate 3961 97)
    (by rw [List.length_replicate, hroom]; decide)
  have hfull : t.avail = 1 := by rw [LogStream.avail_eq_of_data hdata, List.length_replicate, hroom]
  -- nothing that `finish` inserts gets in
  have hnamed : t.named impl.basename = t := by
    rw [LogStream.named, FixedBuffer.append_of_le (hfull.trans_le (by decide)), hname,
      FixedBuffer.append_of_le (hfull.trans_le (by decide))]
  have hlast : t.data.getLast? ≠ some 10 := by
    rw [hdata, List.getLast?_append, List.getLast?_replicate, if_neg (by decide), Option.some_or]
    decide
  obtain ⟨⟨bytes, aborts⟩, hdestroy, -, hnewline⟩ :=
    Logger.destroy_sat { impl with stream := t } (Nat.lt_of_lt_of_eq Nat.one_pos hfull.symm)
  rw [hnamed, hfull] at hnewline
  refine ⟨impl, cache, bytes, aborts, hnew, ?_, ?_⟩
  · rw [Logger.record, ht, Checked.ok_bind, hdestroy]
  · rw [ne_eq, hnewline]
    rintro (hthree | ⟨-, hten⟩)
    · omega
    · exact hlast hten

end Muduo
