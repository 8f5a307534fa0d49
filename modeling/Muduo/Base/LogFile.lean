import Muduo.Base.FileUtil
import Muduo.Base.UtcTime
import Muduo.Support.Decimal
import Muduo.Support.Machine

/-! # `LogFile`

The log file of `base/LogFile.cpp`. Lines go to the present file; a new file is begun when the present one is
larger than `rollSize_`, when every `checkEveryN_` lines the clock shows another day, or when the user calls
`rollFile()`, but never twice in one second. The clock is part of the environment: `append` reads it to check
the day, and `rollFile` reads it again for the name of the file. -/

namespace Muduo

open Support FileUtil

/-- What the name of a log file depends on, besides its base name and the time. -/
structure LogNames where
  /-- `gmtime_r` -/
  gmtime : Int → Tm
  hostname : List UInt8
  pid : Int

/-- `strftime` with `".%Y%m%d-%H%M%S."`. -/
def timebuf (tm : Tm) : List UInt8 :=
  46 :: (decimalInt (tm.tm_year + 1900) ++ (formatInt true 2 (tm.tm_mon + 1) ++ (formatInt true 2 tm.tm_mday ++
    (45 :: (formatInt true 2 tm.tm_hour ++ (formatInt true 2 tm.tm_min ++ (formatInt true 2 tm.tm_sec ++ [46])))))))

/-- A file that `rollFile` began. -/
structure RolledFile where
  file : AppendFile
  /-- The time in its name. -/
  opened : Int
  /-- The lines appended to it, each with the time then. -/
  lines : List (Int × List UInt8)
  /-- When the next file took its place. -/
  closedAt : Option Int

namespace RolledFile

/-- A file without lines. -/
def begun (file : AppendFile) (now : Int) : RolledFile := { file, opened := now, lines := [], closedAt := none }

/-- A line appended to the open file. -/
def append (f : RolledFile) (now : Int) (writes : Nat → Nat) (logline : List UInt8) : RolledFile :=
  { f with file := f.file.append writes logline, lines := f.lines ++ [(now, logline)] }

/-- The open file flushed. -/
def flush (f : RolledFile) : RolledFile := { f with file := f.file.flush }

/-- `fclose` flushes. -/
def close (f : RolledFile) (now : Int) : RolledFile := { f.flush with closedAt := some now }

end RolledFile

/-- The fields of `LogFile`, and what was written to its files so far. -/
structure LogFile where
  basename : List UInt8
  rollSize : Int
  flushInterval : Int
  checkEveryN : Int
  count : Int
  startOfPeriod : Int
  lastRoll : Int
  lastFlush : Int
  /-- `file_` -/
  file : Option RolledFile
  /-- The files before it. -/
  closed : List RolledFile
  /-- The lines appended so far. -/
  appended : List (List UInt8)
  /-- The clock at the end of the last call. -/
  clock : Int
  /-- When the user's calls of `rollFile()` began a file. -/
  asked : List Int

namespace LogFile

/-- `kRollPerSeconds_` -/
def kRollPerSeconds : Int := 60 * 60 * 24

/-- The day of a time, by its first second. -/
def period (now : Int) : Int := now.tdiv kRollPerSeconds * kRollPerSeconds

/-- `LogFile::getLogFileName`: the base name, the time, the host and the process. -/
def getLogFileName (names : LogNames) (basename : List UInt8) (now : Int) : List UInt8 :=
  basename ++ (timebuf (names.gmtime now) ++ (names.hostname ++ (46 :: decimalInt names.pid ++ [46, 108, 111, 103])))

variable (s : LogFile) (names : LogNames)

/-- `rollFile()` at the time `now`; `fp` says whether `fopen` can open the file. -/
def rollFile (now : Int) (fp : Bool) : Checked (Bool × LogFile) := do
  let filename := getLogFileName names s.basename now
  let start := period now
  if now > s.lastRoll then
    let file ← AppendFile.new filename fp
    return (true, { s with
      lastRoll := now
      lastFlush := now
      startOfPeriod := start
      file := some (.begun file now)
      closed := s.closed ++ (s.file.map (·.close now)).toList })
  else return (false, s)

/-- The constructor. -/
def new (basename : List UInt8) (rollSize flushInterval checkEveryN now : Int) (fp : Bool) :
    Checked LogFile := do
  assert (47 ∉ basename) "basename.find('/') == string::npos"
  let s : LogFile :=
    { basename, rollSize, flushInterval, checkEveryN
      count := 0, startOfPeriod := 0, lastRoll := 0, lastFlush := 0
      file := none, closed := [], appended := [], clock := now, asked := [] }
  let (_, s) ← s.rollFile names now fp
  return s

/-- `*file_` -/
def getFile : Checked RolledFile :=
  match s.file with
  | some f => .ok f
  | none => .error "null pointer"

/-- `append_unlocked(logline, len)` at the time `now`; `rollTime` is the clock when `rollFile` reads it. -/
def appendUnlocked (logline : List UInt8) (writes : Nat → Nat) (now rollTime : Int) (fp : Bool) :
    Checked LogFile := do
  let f ← s.getFile
  let f := f.append now writes logline
  let s := { s with file := some f, appended := s.appended ++ [logline], clock := rollTime }
  if (f.file.writtenBytes : Int) > s.rollSize then
    let (_, s) ← s.rollFile names rollTime fp
    return s
  else
    let s := { s with count := s.count + 1 }
    if s.count ≥ s.checkEveryN then
      let s := { s with count := 0 }
      if period now ≠ s.startOfPeriod then
        let (_, s) ← s.rollFile names rollTime fp
        return s
      else if now - s.lastFlush > s.flushInterval then
        return { s with lastFlush := now, file := some f.flush }
      else return s
    else return s

/-- `LogFile::flush`. -/
def flush : Checked LogFile := do
  let f ← s.getFile
  return { s with file := some f.flush }

/-- All files, in the order in which they were begun. -/
def files : List RolledFile := s.closed ++ s.file.toList

/-- The calls of a user, one at a time. -/
inductive Step where
  | append (logline : List UInt8) (writes : Nat → Nat) (now rollTime : Int) (fp : Bool)
  | flush
  | rollFile (now : Int) (fp : Bool)

/-- What a step does. -/
def exec : Step → Checked LogFile
  | .append logline writes now rollTime fp => s.appendUnlocked names logline writes now rollTime fp
  | .flush => s.flush
  | .rollFile now fp => do
      let (rolled, s) ← s.rollFile names now fp
      return { s with clock := now, asked := if rolled then s.asked ++ [now] else s.asked }

/-- The first second of the year 10000. -/
def year10000 : Int := 253402300800

/-- The calls of `fwrite_unlocked` may be short, but they do not fail, and `fopen` opens the file. -/
def Enabled : Step → Prop
  | .append _ writes _ rollTime fp => (∀ i ≥ 1, 0 < writes i) ∧ rollTime < year10000 ∧ fp = true
  | .flush => True
  | .rollFile now fp => now < year10000 ∧ fp = true

/-- The clock does not go back. -/
def Forward (s : LogFile) : Step → Prop
  | .append _ _ now rollTime _ => s.clock ≤ now ∧ now ≤ rollTime
  | .flush => True
  | .rollFile now _ => s.clock ≤ now

end LogFile

/-- A log file on any clock after the first second of 1970. -/
def logFile (names : LogNames) : Machine LogFile LogFile.Step where
  init s := ∃ basename rollSize flushInterval checkEveryN now, 0 < now ∧ now < LogFile.year10000 ∧
    1 ≤ checkEveryN ∧ LogFile.new names basename rollSize flushInterval checkEveryN now true = .ok s
  enabled _ := LogFile.Enabled
  exec s a := s.exec names a

namespace LogFile

variable {names : LogNames} {s s' : LogFile} {f : RolledFile} {logline : List UInt8} {writes : Nat → Nat}
  {now rollTime : Int}

/-- Whether the present file is too large after a line. -/
def Over (s : LogFile) (f : RolledFile) (logline : List UInt8) : Prop :=
  s.rollSize < f.file.writtenBytes + logline.length

/-- The log with a new file after the present one, which is `f` when it is closed. -/
def rolled (names : LogNames) (s : LogFile) (f : RolledFile) (now : Int) : LogFile :=
  { s with
    lastRoll := now
    lastFlush := now
    startOfPeriod := period now
    file := some (.begun ⟨getLogFileName names s.basename now, [], 0, 0⟩ now)
    closed := s.closed ++ [f.close now] }

/-- `rollFile` begins a file unless the present one was begun in the same second or later. -/
theorem rollFile_eq (hf : s.file = some f) : s.rollFile names now true =
    .ok (if s.lastRoll < now then (true, s.rolled names f now) else (false, s)) := by
  unfold rollFile AppendFile.new
  rw [assert_pos rfl, hf]
  split
  · rfl
  · rfl

/-- What `append_unlocked` does: it keeps the file, flushed or not, or begins a new one. -/
inductive Appends (names : LogNames) (s : LogFile) (f : RolledFile) (logline : List UInt8) (writes : Nat → Nat)
    (now rollTime : Int) : LogFile → Prop where
  | keep {f' : RolledFile} {count lastFlush : Int}
      (hfile : f' = f.append now writes logline ∨ f' = (f.append now writes logline).flush)
      (hover : s.Over f logline → rollTime ≤ s.lastRoll ∧ count = s.count)
      (hcount : ¬ s.Over f logline → count = s.count + 1 ∧ count < s.checkEveryN ∨
        s.checkEveryN ≤ s.count + 1 ∧ count = 0 ∧ (period now = s.startOfPeriod ∨ rollTime ≤ s.lastRoll)) :
      Appends names s f logline writes now rollTime
        { s with file := some f', appended := s.appended ++ [logline], clock := rollTime, count, lastFlush }
  | roll {count : Int} (hwhy : s.Over f logline ∨ period now ≠ s.startOfPeriod) (hlt : s.lastRoll < rollTime)
      (hcount : count = s.count ∨ count = 0) :
      Appends names s f logline writes now rollTime
        ({ s with appended := s.appended ++ [logline], clock := rollTime, count }.rolled names
          (f.append now writes logline) rollTime)

/-- The line is appended, whatever else happens. -/
theorem Appends.appended (h : Appends names s f logline writes now rollTime s') :
    s'.appended = s.appended ++ [logline] := by
  cases h with
  | keep _ _ _ => rfl
  | roll _ _ _ => rfl

/-- `append_unlocked` does not fail when `fopen` does not. -/
theorem appendUnlocked_sat (hf : s.file = some f) (logline : List UInt8) (writes : Nat → Nat)
    (now rollTime : Int) : (s.appendUnlocked names logline writes now rollTime true).Sat
      (Appends names s f logline writes now rollTime) := by
  unfold appendUnlocked getFile
  rw [hf]
  dsimp only [Checked.ok_bind]
  have hover : ((f.append now writes logline).file.writtenBytes : Int) > s.rollSize ↔ s.Over f logline := by
    simp [Over, RolledFile.append, AppendFile.append]
  split
  · next h =>
      have h := hover.mp h
      rw [rollFile_eq rfl, Checked.ok_bind]
      split
      · next hlt => exact .ok (.roll (.inl h) hlt (.inl rfl))
      · next hlt => exact .ok (.keep (.inl rfl) (fun _ => ⟨Int.not_lt.mp hlt, rfl⟩) (absurd h))
  · next h =>
      have h := mt hover.mpr h
      split
      · next hcount =>
          split
          · next hperiod =>
              rw [rollFile_eq rfl, Checked.ok_bind]
              split
              · next hlt => exact .ok (.roll (.inr hperiod) hlt (.inr rfl))
              · next hlt =>
                  have hle := Int.not_lt.mp hlt
                  exact .ok (.keep (.inl rfl) (absurd · h) fun _ => .inr ⟨hcount, rfl, .inr hle⟩)
          · next hperiod =>
              have hperiod := not_not.mp hperiod
              split
              · exact .ok (.keep (.inr rfl) (absurd · h) fun _ => .inr ⟨hcount, rfl, .inl hperiod⟩)
              · exact .ok (.keep (.inl rfl) (absurd · h) fun _ => .inr ⟨hcount, rfl, .inl hperiod⟩)
      · next hcount => exact .ok (.keep (.inl rfl) (absurd · h) fun _ => .inl ⟨rfl, Int.not_le.mp hcount⟩)

/-! ## Lines and files -/

/-- The bytes of lines. -/
def bytes (lines : List (Int × List UInt8)) : List UInt8 := (lines.map Prod.snd).flatten

/-- A file holds its lines, and is named by its time. -/
structure FileInv (names : LogNames) (basename : List UInt8) (f : RolledFile) : Prop where
  content : f.file.content = bytes f.lines
  written : f.file.writtenBytes = f.file.content.length
  name : f.file.filename = getLogFileName names basename f.opened
  time : 0 < f.opened ∧ f.opened < year10000

/-- Why a file of the log was closed: it was too large, its last line came on another day, or the user
asked for a new file. -/
def Why (s : LogFile) (f : RolledFile) (now : Int) : Prop :=
  s.rollSize < f.file.content.length ∨
    (∃ p, f.lines.getLast? = some p ∧ period p.1 ≠ period f.opened) ∨ now ∈ s.asked

/-- A file was closed for a reason, and nothing of it is left in a buffer. -/
def Closed (s : LogFile) (f : RolledFile) : Prop :=
  f.file.flushed = f.file.content.length ∧ ∃ now, f.closedAt = some now ∧ s.Why f now

/-- A file of the log with one more line. -/
theorem FileInv.append {basename : List UInt8} (h : FileInv names basename f) (hwrites : ∀ i ≥ 1, 0 < writes i) :
    FileInv names basename (f.append now writes logline) where
  content := by
    simp [RolledFile.append, AppendFile.append, AppendFile.accepted_eq hwrites, h.content, bytes]
  written := by
    simp [RolledFile.append, AppendFile.append, AppendFile.accepted_eq hwrites, h.written]
  name := h.name
  time := h.time

/-- A flush changes nothing of this. -/
theorem FileInv.flush {basename : List UInt8} (h : FileInv names basename f) : FileInv names basename f.flush :=
  ⟨h.content, h.written, h.name, h.time⟩

/-- What holds on any clock. -/
structure Inv (names : LogNames) (s : LogFile) (f : RolledFile) : Prop where
  file : s.file = some f
  opened : f.opened = s.lastRoll
  day : s.startOfPeriod = period s.lastRoll
  files : ∀ g ∈ s.closed ++ [f], FileInv names s.basename g
  lines : (s.closed ++ [f]).flatMap (fun g => g.lines.map Prod.snd) = s.appended
  order : (s.closed ++ [f]).Pairwise fun g h => g.opened < h.opened
  closed : ∀ g ∈ s.closed, s.Closed g
  large : s.rollSize < f.file.content.length → s.clock ≤ s.lastRoll

/-- The present file of the log. -/
theorem Inv.present (h : Inv names s f) : FileInv names s.basename f :=
  h.files f (List.mem_append_right _ (List.mem_singleton_self f))

/-- The present file goes on, with or without another line. -/
theorem Inv.keep (h : Inv names s f) {f' : RolledFile} {count lastFlush clock : Int}
    {appended : List (List UInt8)}
    (hopened : f'.opened = f.opened) (hfile : FileInv names s.basename f')
    (hlines : (s.closed ++ [f']).flatMap (fun g => g.lines.map Prod.snd) = appended)
    (hover : s.rollSize < f'.file.content.length → clock ≤ s.lastRoll) :
    Inv names { s with file := some f', appended, clock, count, lastFlush } f' where
  file := rfl
  opened := hopened.trans h.opened
  day := h.day
  files g hg := by
    rcases List.mem_append.mp hg with hg | hg
    · exact h.files g (List.mem_append_left _ hg)
    · rw [List.mem_singleton.mp hg]
      exact hfile
  lines := hlines
  order := by
    have horder := h.order
    rw [List.pairwise_append] at horder ⊢
    refine ⟨horder.1, List.pairwise_singleton _ _, fun g hg k hk => ?_⟩
    rw [List.mem_singleton.mp hk, hopened]
    exact horder.2.2 g hg f (List.mem_singleton_self _)
  closed := h.closed
  large := hover

/-- A new file is begun after the present one, which is `f₁` when it is closed. -/
theorem Inv.roll (h : Inv names s f) {f₁ : RolledFile} (hfile : FileInv names s.basename f₁)
    (hopened : f₁.opened = f.opened) {appended : List (List UInt8)}
    (hlines : (s.closed ++ [f₁]).flatMap (fun g => g.lines.map Prod.snd) = appended)
    (hlt : s.lastRoll < now) (hmax : now < year10000) {count : Int} {asked : List Int}
    (hasked : ∀ t ∈ s.asked, t ∈ asked) (hwhy : { s with asked }.Why f₁ now) :
    Inv names ({ s with appended, clock := now, count, asked }.rolled names f₁ now)
      (.begun ⟨getLogFileName names s.basename now, [], 0, 0⟩ now) := by
  have horder := h.order
  rw [List.pairwise_append] at horder
  refine ⟨rfl, rfl, rfl, fun g hg => ?_, ?_, ?_, fun g hg => ?_, fun _ => Int.le_refl _⟩
  · rw [rolled, List.append_assoc, List.mem_append] at hg
    rcases hg with hg | hg
    · exact h.files g (List.mem_append_left _ hg)
    · rcases List.mem_cons.mp hg with rfl | hg
      · exact ⟨hfile.content, hfile.written, hfile.name, hfile.time⟩
      · rw [List.mem_singleton.mp hg]
        exact ⟨rfl, rfl, rfl, Int.lt_trans h.present.time.1 (h.opened ▸ hlt), hmax⟩
  · rw [rolled, ← hlines]
    simp [RolledFile.close, RolledFile.flush, RolledFile.begun]
  · refine List.pairwise_append.mpr ⟨?_, List.pairwise_singleton _ _, fun g hg k hk => ?_⟩
    · refine List.pairwise_append.mpr ⟨horder.1, List.pairwise_singleton _ _, fun g hg k hk => ?_⟩
      rw [List.mem_singleton.mp hk]
      change g.opened < f₁.opened
      rw [hopened]
      exact horder.2.2 g hg f (List.mem_singleton_self f)
    · rw [List.mem_singleton.mp hk]
      change g.opened < now
      rcases List.mem_append.mp hg with hg | hg
      · have hg := horder.2.2 g hg f (List.mem_singleton_self f)
        rw [h.opened] at hg
        exact Int.lt_trans hg hlt
      · rw [List.mem_singleton.mp hg]
        change f₁.opened < now
        rw [hopened]
        exact h.opened ▸ hlt
  · rcases List.mem_append.mp hg with hg | hg
    · obtain ⟨hflushed, t, ht, hwhy⟩ := h.closed g hg
      exact ⟨hflushed, t, ht, hwhy.imp_right (Or.imp_right (hasked t))⟩
    · rw [List.mem_singleton.mp hg]
      exact ⟨rfl, now, rfl, hwhy⟩

/-- What `append_unlocked` does keeps it all. -/
theorem Inv.appends (h : Inv names s f) (hwrites : ∀ i ≥ 1, 0 < writes i) (hmax : rollTime < year10000)
    (hs' : Appends names s f logline writes now rollTime s') : ∃ f', Inv names s' f' := by
  have hadd : FileInv names s.basename (f.append now writes logline) := h.present.append hwrites
  have hlines : (s.closed ++ [f.append now writes logline]).flatMap (fun g => g.lines.map Prod.snd) =
      s.appended ++ [logline] := by
    rw [← h.lines]
    simp [RolledFile.append]
  have hover' : s.Over f logline ↔ s.rollSize < (f.append now writes logline).file.content.length := by
    rw [← hadd.written]
    simp [Over, RolledFile.append, AppendFile.append]
  cases hs' with
  | roll hwhy hlt _ =>
      refine ⟨_, h.roll hadd rfl hlines hlt hmax (fun _ ht => ht) ?_⟩
      rcases hwhy with hover | hperiod
      · exact .inl (hover'.mp hover)
      · refine .inr (.inl ⟨(now, logline), by simp [RolledFile.append], ?_⟩)
        rw [h.day, ← h.opened] at hperiod
        exact hperiod
  | keep hf' hover _ =>
      have hlarge : s.rollSize < (f.append now writes logline).file.content.length → rollTime ≤ s.lastRoll :=
        fun hlt => (hover (hover'.mpr hlt)).1
      rcases hf' with rfl | rfl
      · exact ⟨_, h.keep rfl hadd hlines hlarge⟩
      · exact ⟨_, h.keep rfl hadd.flush (by simpa [RolledFile.flush] using hlines) hlarge⟩

/-- A flush of the present file. -/
theorem flush_eq (hf : s.file = some f) : s.flush = .ok { s with file := some f.flush } := by
  rw [LogFile.flush, getFile, hf]
  rfl

/-- The user's call of `rollFile()`. -/
theorem exec_rollFile (hf : s.file = some f) : s.exec names (.rollFile now true) = .ok
    (if s.lastRoll < now then { s with clock := now, asked := s.asked ++ [now] }.rolled names f now
      else { s with clock := now }) := by
  rw [exec, rollFile_eq hf, Checked.ok_bind]
  by_cases hlt : s.lastRoll < now
  · rw [if_pos hlt, if_pos hlt]
    rfl
  · rw [if_neg hlt, if_neg hlt]
    rfl

/-- **One call.** -/
theorem Inv.step (h : Inv names s f) {a : Step} (ha : Enabled a) :
    (s.exec names a).Sat fun s' => ∃ f', Inv names s' f' := by
  cases a with
  | append logline writes now rollTime fp =>
      obtain ⟨hwrites, hmax, rfl⟩ := ha
      exact (appendUnlocked_sat h.file logline writes now rollTime).mono fun _ => h.appends hwrites hmax
  | flush =>
      rw [exec, flush_eq h.file]
      exact .ok ⟨_, h.keep rfl h.present.flush (by rw [← h.lines]; simp [RolledFile.flush]) h.large⟩
  | rollFile now fp =>
      obtain ⟨hmax, rfl⟩ := ha
      rw [exec_rollFile h.file]
      split
      · next hlt =>
          exact .ok ⟨_, h.roll h.present rfl h.lines hlt hmax (fun _ => List.mem_append_left _)
            (.inr (.inr (List.mem_append_right _ (List.mem_singleton_self now))))⟩
      · next hlt =>
          exact .ok ⟨f, h.file, h.opened, h.day, h.files, h.lines, h.order, h.closed,
            fun _ => Int.not_lt.mp hlt⟩

/-- A log begins with one file. -/
theorem new_eq {basename : List UInt8} {rollSize flushInterval checkEveryN : Int} (hnow : 0 < now)
    (hs : new names basename rollSize flushInterval checkEveryN now true = .ok s) : s =
    { basename, rollSize, flushInterval, checkEveryN, count := 0, startOfPeriod := period now,
      lastRoll := now, lastFlush := now,
      file := some (.begun ⟨getLogFileName names basename now, [], 0, 0⟩ now),
      closed := [], appended := [], clock := now, asked := [] } := by
  unfold new at hs
  obtain ⟨-, hs⟩ := Checked.assert_bind_eq_ok.mp hs
  dsimp only at hs
  unfold rollFile AppendFile.new at hs
  rw [if_pos hnow, assert_pos rfl] at hs
  exact (Except.ok.inj hs).symm

/-- A new log is as it should be. -/
theorem Inv.of_new {basename : List UInt8} {rollSize flushInterval checkEveryN : Int} (hnow : 0 < now)
    (hmax : now < year10000) (hs : new names basename rollSize flushInterval checkEveryN now true = .ok s) :
    ∃ f, Inv names s f := by
  cases new_eq hnow hs
  refine ⟨_, rfl, rfl, rfl, fun g hg => ?_, rfl, List.pairwise_singleton _ _, nofun, fun _ => Int.le_refl _⟩
  rw [List.mem_singleton.mp hg]
  exact ⟨rfl, rfl, rfl, hnow, hmax⟩

/-- **Whole runs.** -/
theorem Inv.of_reachable (hs : (logFile names).Reachable s) : (∃ f, Inv names s f) ∧ (logFile names).Safe s :=
  Machine.invariant (P := fun s => ∃ f, Inv names s f)
    (by rintro s ⟨_, _, _, _, now, hnow, hmax, -, hs⟩; exact Inv.of_new hnow hmax hs)
    (by rintro s a ⟨f, h⟩ ha; exact h.step ha) hs

/-- The lines that came on another day than the file. -/
def late (f : RolledFile) : Nat := f.lines.countP fun p => period p.1 ≠ period f.opened

/-- Without its last line a file is not larger than `rollSize`, or all of it comes from the second in which it
was begun. -/
def Sized (rollSize : Int) (f : RolledFile) : Prop :=
  ∀ lines last, f.lines = lines ++ [last] →
    (bytes lines).length ≤ rollSize ∨ ∀ p ∈ lines, p.1 ≤ f.opened

/-- Days are in the order of the times. -/
theorem period_mono {a b : Int} (ha : 0 ≤ a) (hab : a ≤ b) : period a ≤ period b := by
  unfold period kRollPerSeconds
  rw [Int.tdiv_eq_ediv_of_nonneg ha, Int.tdiv_eq_ediv_of_nonneg (Int.le_trans ha hab)]
  omega

/-- One more line may be one more late line. -/
theorem late_append (f : RolledFile) (now : Int) (writes : Nat → Nat) (logline : List UInt8) :
    late (f.append now writes logline) = late f + if period now ≠ period f.opened then 1 else 0 := by
  rw [late, RolledFile.append, List.countP_append, List.countP_singleton]
  simp only [decide_eq_true_eq]
  rfl

/-- With lines of its own day only no line is late. -/
theorem late_eq_zero {f : RolledFile} (h : ∀ p ∈ f.lines, period p.1 = period f.opened) : late f = 0 :=
  List.countP_eq_zero.mpr fun p hp => by simp [h p hp]

/-- What holds on a clock that goes forward. -/
structure ForwardInv (s : LogFile) (f : RolledFile) : Prop where
  count : 0 ≤ s.count ∧ s.count < s.checkEveryN
  clock : 0 < s.lastRoll ∧ s.lastRoll ≤ s.clock
  times : ∀ p ∈ f.lines, s.lastRoll ≤ p.1 ∧ p.1 ≤ s.clock
  few : late f ≤ s.count
  closed : ∀ g ∈ s.closed, late g ≤ s.checkEveryN
  sized : ∀ g ∈ s.closed ++ [f], Sized s.rollSize g

/-- The line that comes to a file finds it small enough, or in its first second. -/
theorem sized_append (h : Inv names s f) (hforward : ForwardInv s f) (now : Int) (writes : Nat → Nat)
    (logline : List UInt8) :
    Sized s.rollSize (f.append now writes logline) := by
  intro lines last hlines
  obtain ⟨rfl, rfl⟩ := List.append_singleton_inj.mp hlines
  have hcontent := (h.files f (List.mem_append_right _ (List.mem_singleton_self f))).content
  by_cases hover : s.rollSize < f.file.content.length
  · refine .inr fun p hp => ?_
    exact Int.le_trans (hforward.times p hp).2 (Int.le_trans (h.large hover) (Int.le_of_eq h.opened.symm))
  · rw [hcontent] at hover
    exact .inl (Int.not_lt.mp hover)

/-- The file is kept, with one more line. -/
theorem ForwardInv.keep (h : Inv names s f) (hforward : ForwardInv s f) (hclock : s.clock ≤ now ∧ now ≤ rollTime)
    {f' : RolledFile} {count lastFlush : Int} {appended : List (List UInt8)}
    (hopened : f'.opened = f.opened) (hlines : f'.lines = f.lines ++ [(now, logline)])
    (hover : s.Over f logline → rollTime ≤ s.lastRoll ∧ count = s.count)
    (hcount : ¬ s.Over f logline → count = s.count + 1 ∧ count < s.checkEveryN ∨
      s.checkEveryN ≤ s.count + 1 ∧ count = 0 ∧ (period now = s.startOfPeriod ∨ rollTime ≤ s.lastRoll)) :
    ForwardInv { s with file := some f', appended, clock := rollTime, count, lastFlush } f' := by
  have ⟨hcount₀, hcount₁⟩ := hforward.count
  have ⟨hpos, hroll⟩ := hforward.clock
  have htimes : ∀ p ∈ f'.lines, s.lastRoll ≤ p.1 ∧ p.1 ≤ now := by
    intro p hp
    rw [hlines] at hp
    rcases List.mem_append.mp hp with hp | hp
    · obtain ⟨hle, hle'⟩ := hforward.times p hp
      omega
    · rw [List.mem_singleton.mp hp]
      dsimp only
      omega
  have hlate : late f' = late f + if period now ≠ period f.opened then 1 else 0 := by
    rw [← late_append f now (fun _ => 1) logline]
    unfold late
    rw [hlines, hopened]
    rfl
  have hlate₀ := hforward.few
  refine ⟨?_, ⟨hpos, by dsimp only; omega⟩, fun p hp => ?_, ?_, hforward.closed, fun g hg => ?_⟩
  · dsimp only
    by_cases hover' : s.Over f logline
    · have := (hover hover').2
      omega
    · rcases hcount hover' with ⟨heq, hlt⟩ | ⟨-, heq, -⟩ <;> omega
  · obtain ⟨hle, hle'⟩ := htimes p hp
    exact ⟨hle, Int.le_trans hle' hclock.2⟩
  · dsimp only
    by_cases hover' : s.Over f logline
    · -- in the second in which the file was begun no line is late
      obtain ⟨hle, rfl⟩ := hover hover'
      have hnow : now = f.opened := by rw [h.opened]; omega
      rw [hlate, hnow, if_neg (not_not.mpr rfl)]
      omega
    · rcases hcount hover' with ⟨rfl, -⟩ | ⟨-, rfl, hsame⟩
      · rw [hlate]
        split <;> omega
      · -- the check finds the day of the file, so no line before it was late
        have hperiod : period now = period s.lastRoll := by
          rcases hsame with hsame | hle
          · rw [hsame, h.day]
          · rw [show now = s.lastRoll by omega]
        rw [late_eq_zero]
        · exact Int.le_refl _
        · intro p hp
          obtain ⟨hle, hle'⟩ := htimes p hp
          rw [hopened, h.opened]
          refine Int.le_antisymm ?_ (period_mono (Int.le_of_lt hpos) hle)
          rw [← hperiod]
          exact period_mono (Int.le_trans (Int.le_of_lt hpos) hle) hle'
  · rcases List.mem_append.mp hg with hg | hg
    · exact hforward.sized g (List.mem_append_left _ hg)
    · rw [List.mem_singleton.mp hg]
      have hsized := sized_append h hforward now (fun _ => 1) logline
      intro lines last heq
      rw [hopened]
      exact hsized lines last (hlines.symm.trans heq)

/-- A new file is begun, after `f₁`. -/
theorem ForwardInv.roll (hforward : ForwardInv s f) {f₁ : RolledFile} (hlate : late f₁ ≤ s.checkEveryN)
    (hsized : Sized s.rollSize f₁) (hlt : s.lastRoll < now) {count : Int} {appended : List (List UInt8)}
    {asked : List Int} (hcount : count = s.count ∨ count = 0) (file : AppendFile) :
    ForwardInv ({ s with appended, clock := now, count, asked }.rolled names f₁ now) (.begun file now) := by
  have ⟨hcount₀, hcount₁⟩ := hforward.count
  have hpos := hforward.clock.1
  dsimp only [rolled]
  refine ⟨by dsimp only; omega, ⟨by dsimp only; omega, Int.le_refl _⟩, nofun, ?_, fun g hg => ?_,
    fun g hg => ?_⟩
  · change ((0 : Nat) : Int) ≤ count
    omega
  · rcases List.mem_append.mp hg with hg | hg
    · exact hforward.closed g hg
    · rw [List.mem_singleton.mp hg]
      exact hlate
  · rcases List.mem_append.mp hg with hg | hg
    · rcases List.mem_append.mp hg with hg | hg
      · exact hforward.sized g (List.mem_append_left _ hg)
      · rw [List.mem_singleton.mp hg]
        exact hsized
    · rw [List.mem_singleton.mp hg]
      intro lines last heq
      simp [RolledFile.begun] at heq

/-- **One call**, on a clock that goes forward. -/
theorem ForwardInv.step (h : Inv names s f) (hforward : ForwardInv s f) {a : Step} (ha : Enabled a)
    (hclock : Forward s a) (hs' : s.exec names a = .ok s') : ∃ f', Inv names s' f' ∧ ForwardInv s' f' := by
  obtain ⟨f', h'⟩ := (h.step ha).of_eq_ok hs'
  refine ⟨f', h', ?_⟩
  have hfile := h'.file
  cases a with
  | append logline writes now rollTime fp =>
      obtain ⟨-, -, rfl⟩ := ha
      cases (appendUnlocked_sat h.file logline writes now rollTime).of_eq_ok hs' with
      | keep hf' hover hcount =>
          cases hfile
          rcases hf' with rfl | rfl <;> exact .keep h hforward hclock rfl rfl hover hcount
      | roll hwhy hlt hcount =>
          cases hfile
          refine hforward.roll ?_ (sized_append h hforward now writes logline) hlt hcount _
          have hlate := hforward.few
          have hcheck := hforward.count.2
          rw [late_append]
          split <;> omega
  | flush =>
      rw [exec, flush_eq h.file] at hs'
      cases hs'
      cases hfile
      refine ⟨hforward.count, hforward.clock, hforward.times, hforward.few, hforward.closed, fun g hg => ?_⟩
      rcases List.mem_append.mp hg with hg | hg
      · exact hforward.sized g (List.mem_append_left _ hg)
      · rw [List.mem_singleton.mp hg]
        exact hforward.sized f (List.mem_append_right _ (List.mem_singleton_self f))
  | rollFile now fp =>
      obtain ⟨-, rfl⟩ := ha
      rw [exec_rollFile h.file] at hs'
      have hclock : s.clock ≤ now := hclock
      split at hs'
      · next hlt =>
          cases hs'
          cases hfile
          have hlate := hforward.few
          have hcheck := hforward.count.2
          exact hforward.roll (by omega)
            (hforward.sized f (List.mem_append_right _ (List.mem_singleton_self f))) hlt (.inl rfl) _
      · next hlt =>
          cases hs'
          cases h.file.symm.trans hfile
          have hroll := hforward.clock.2
          refine ⟨hforward.count, ⟨hforward.clock.1, ?_⟩, fun p hp => ?_, hforward.few, hforward.closed,
            hforward.sized⟩
          · exact Int.le_trans hroll hclock
          · obtain ⟨hle, hle'⟩ := hforward.times p hp
            exact ⟨hle, Int.le_trans hle' hclock⟩

/-- A new log on such a clock. -/
theorem ForwardInv.of_new {basename : List UInt8} {rollSize flushInterval checkEveryN : Int} (hnow : 0 < now)
    (hmax : now < year10000) (hcheck : 1 ≤ checkEveryN)
    (hs : new names basename rollSize flushInterval checkEveryN now true = .ok s) :
    ∃ f, Inv names s f ∧ ForwardInv s f := by
  obtain ⟨f, h⟩ := Inv.of_new hnow hmax hs
  refine ⟨f, h, ?_⟩
  have hfile := h.file
  cases new_eq hnow hs
  cases hfile
  refine ⟨⟨Int.le_refl _, hcheck⟩, ⟨hnow, Int.le_refl _⟩, nofun, Int.le_refl _, nofun, fun g hg => ?_⟩
  rw [List.mem_singleton.mp hg]
  intro lines last heq
  simp [RolledFile.begun] at heq

end LogFile

end Muduo
