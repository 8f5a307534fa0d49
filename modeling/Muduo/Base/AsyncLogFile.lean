import Muduo.Base.AsyncLoggingLines
import Muduo.Base.LogFile

/-! # `AsyncLogging` with its `LogFile`

The back end of `base/AsyncLogging.cpp` writes to a `LogFile`, which it constructs when it starts: `output` is
a local variable of `threadFunc`. Each call of `output.append` is one `LogFile::append`, and every turn of
the loop ends with `output.flush()`, as does `threadFunc`. -/

namespace Muduo

open Support AsyncLogging

/-- The bytes that a call of `output.append` passes on. -/
def AsyncLogging.Output.bytes : Output → List UInt8
  | .append data => data
  | .notice text => text.toUTF8.toList

/-- `AsyncLogging`, with the `output` of its back end. -/
structure FileLogging where
  log : AsyncLogging
  /-- `output`, once the back end has started. -/
  output : Option LogFile

namespace FileLogging

/-- A step of the log, with what the system does in a call of `output.append`. -/
inductive Step where
  | start (now : Int) (fp : Bool)
  | run (a : AsyncLogging.Step) (writes : Nat → Nat) (now rollTime : Int) (fp : Bool)

variable (names : LogNames) (basename : List UInt8) (rollSize : Int) (s : FileLogging)

/-- The calls of `output` that the back end makes in a step `a` that leads to `log`. -/
def writeOutput (file : LogFile) (a : AsyncLogging.Step) (log : AsyncLogging) (writes : Nat → Nat)
    (now rollTime : Int) (fp : Bool) : Checked LogFile := do
  let file ← (log.output.drop s.log.output.length).foldlM
    (fun (file : LogFile) call => file.appendUnlocked names call.bytes writes now rollTime fp) file
  match a with
  | .recycle => file.flush
  -- behind the loop
  | .checkRunning => if log.pc = .returned then file.flush else return file
  | _ => return file

/-- One step: a call of the logging object, and what its back end does with the file. -/
def exec : Step → Checked FileLogging
  | .start now fp => do
      let log ← s.log.exec .start
      -- the default `flushInterval` and `checkEveryN`
      let file ← LogFile.new names basename rollSize 3 1024 now fp
      return { log, output := some file }
  | .run a writes now rollTime fp => do
      let log ← s.log.exec a
      match s.output with
      | some file =>
          let file ← s.writeOutput names file a log writes now rollTime fp
          return { log, output := some file }
      | none => return { s with log }

/-- The lines are shorter than a buffer, writes do not fail and files can be opened. -/
def Enabled : Step → Prop
  | .start now fp => s.log.Enabled .start ∧ 0 < now ∧ now < LogFile.year10000 ∧ fp = true
  | .run a writes now rollTime fp => a ≠ .start ∧ s.log.Enabled a ∧ a.IsShort ∧
      LogFile.Enabled (.append [] writes now rollTime fp)

end FileLogging

/-- The log with its files. -/
def fileLogging (names : LogNames) (basename : List UInt8) (rollSize : Int) :
    Machine FileLogging FileLogging.Step where
  init s := 47 ∉ basename ∧ s = { log := .new, output := none }
  enabled := FileLogging.Enabled
  exec s a := s.exec names basename rollSize a

namespace FileLogging

variable {names : LogNames} {basename : List UInt8} {rollSize : Int} {s s' : FileLogging}

/-- What a step of the log adds to the calls of `output.append`: nothing, or one call while it writes. -/
theorem exec_output {log log' : AsyncLogging} {a : AsyncLogging.Step} (ha : log.Enabled a)
    (hlog' : log.exec a = .ok log') :
    (log'.output = log.output ∧ (log'.pc ≠ .writing → log.pc ≠ .writing ∨ a = .recycle)) ∨
      (log'.pc = .writing ∧ a ≠ .recycle ∧ ∃ call, log'.output = log.output ++ [call]) := by
  cases a with
  | append logline =>
      obtain ⟨current, -, hlog'⟩ := Checked.bind_eq_ok.mp hlog'
      split at hlog'
      · cases hlog'
        exact .inl ⟨rfl, .inl⟩
      · cases hlog'
        exact .inl ⟨rfl, .inl⟩
  | start =>
      cases hlog'
      have hpc : log.pc = .notStarted := ha
      exact .inl ⟨rfl, fun _ => .inl (by rw [hpc]; exact nofun)⟩
  | checkRunning =>
      have hpc : log.pc = .top := ha
      have hnot : log.pc ≠ .writing := by rw [hpc]; exact nofun
      rw [eq_of_checkRunning hlog']
      exact .inl ⟨rfl, fun _ => .inl hnot⟩
  | lock =>
      have hpc : log.pc = .lock := ha
      have hnot : log.pc ≠ .writing := by rw [hpc]; exact nofun
      cases hlog'
      refine .inl ⟨?_, fun _ => .inl hnot⟩
      unfold AsyncLogging.lock
      split
      · rfl
      · obtain ⟨nextBuffer, newBuffer2, heq⟩ := collect_eq (s := log)
        rw [heq]
  | wake =>
      have hpc : log.pc = .wait := ha
      have hnot : log.pc ≠ .writing := by rw [hpc]; exact nofun
      cases hlog'
      refine .inl ⟨?_, fun _ => .inl hnot⟩
      obtain ⟨nextBuffer, newBuffer2, heq⟩ := collect_eq (s := log)
      rw [heq]
  | dropMessages now =>
      obtain ⟨-, hlog'⟩ := Checked.assert_bind_eq_ok.mp hlog'
      split at hlog' <;> cases hlog'
      · exact .inr ⟨rfl, nofun, _, rfl⟩
      · exact .inl ⟨rfl, fun hne => absurd rfl hne⟩
  | writeBuffer =>
      obtain ⟨hpc, hne⟩ := ha
      simp only [AsyncLogging.exec, AsyncLogging.writeBuffer] at hlog'
      split at hlog'
      · next hnil => exact absurd hnil hne
      · obtain ⟨buffer, -, hlog'⟩ := Checked.bind_eq_ok.mp hlog'
        cases hlog'
        exact .inr ⟨hpc, nofun, _, rfl⟩
  | recycle =>
      obtain ⟨⟨newBuffer1, buffers⟩, -, hlog'⟩ := Checked.bind_eq_ok.mp hlog'
      obtain ⟨⟨newBuffer2, _⟩, -, hlog'⟩ := Checked.bind_eq_ok.mp hlog'
      cases hlog'
      exact .inl ⟨rfl, fun _ => .inr rfl⟩
  | stop =>
      cases hlog'
      exact .inl ⟨rfl, .inl⟩
  | notify =>
      cases hlog'
      exact .inl ⟨rfl, .inl⟩
  | joined =>
      cases hlog'
      exact .inl ⟨rfl, .inl⟩

/-- The back end starts once. -/
theorem exec_started {log log' : AsyncLogging} {a : AsyncLogging.Step} (ha : log.Enabled a)
    (hstart : a ≠ .start) (hlog' : log.exec a = .ok log') :
    log'.pc = .notStarted ↔ log.pc = .notStarted := by
  cases a with
  | append logline =>
      obtain ⟨current, -, hlog'⟩ := Checked.bind_eq_ok.mp hlog'
      split at hlog'
      · cases hlog'
        exact Iff.rfl
      · cases hlog'
        exact Iff.rfl
  | start => exact absurd rfl hstart
  | checkRunning =>
      have hpc : log.pc = .top := ha
      rw [eq_of_checkRunning hlog', hpc]
      dsimp only
      split <;> exact ⟨nofun, nofun⟩
  | lock =>
      have hpc : log.pc = .lock := ha
      cases hlog'
      rw [hpc]
      unfold AsyncLogging.lock
      split
      · exact ⟨nofun, nofun⟩
      · obtain ⟨nextBuffer, newBuffer2, heq⟩ := collect_eq (s := log)
        rw [heq]
        exact ⟨nofun, nofun⟩
  | wake =>
      have hpc : log.pc = .wait := ha
      cases hlog'
      obtain ⟨nextBuffer, newBuffer2, heq⟩ := collect_eq (s := log)
      rw [heq, hpc]
      exact ⟨nofun, nofun⟩
  | dropMessages now =>
      have hpc : log.pc = .collected := ha
      obtain ⟨-, hlog'⟩ := Checked.assert_bind_eq_ok.mp hlog'
      rw [hpc]
      split at hlog' <;> cases hlog' <;> exact ⟨nofun, nofun⟩
  | writeBuffer =>
      obtain ⟨hpc, hne⟩ := ha
      simp only [AsyncLogging.exec, AsyncLogging.writeBuffer] at hlog'
      split at hlog'
      · next hnil => exact absurd hnil hne
      · obtain ⟨buffer, -, hlog'⟩ := Checked.bind_eq_ok.mp hlog'
        cases hlog'
        exact Iff.rfl
  | recycle =>
      obtain ⟨⟨newBuffer1, buffers⟩, -, hlog'⟩ := Checked.bind_eq_ok.mp hlog'
      obtain ⟨⟨newBuffer2, _⟩, -, hlog'⟩ := Checked.bind_eq_ok.mp hlog'
      cases hlog'
      rw [ha.1]
      exact ⟨nofun, nofun⟩
  | stop =>
      cases hlog'
      exact Iff.rfl
  | notify =>
      cases hlog'
      exact Iff.rfl
  | joined =>
      cases hlog'
      exact Iff.rfl

/-- Nothing of the present file is left in a buffer. -/
def Flushed (file : LogFile) : Prop := ∀ f, file.file = some f → f.file.flushed = f.file.content.length

/-- One call of `output.append`. -/
theorem appendUnlocked_reachable {file : LogFile} (h : (logFile names).Reachable file) (data : List UInt8)
    {writes : Nat → Nat} {now rollTime : Int} {fp : Bool}
    (ha : LogFile.Enabled (.append data writes now rollTime fp)) :
    (file.appendUnlocked names data writes now rollTime fp).Sat fun file' =>
      (logFile names).Reachable file' ∧ file'.appended = file.appended ++ [data] := by
  obtain ⟨⟨f, hinv⟩, -⟩ := LogFile.Inv.of_reachable h
  obtain ⟨-, -, rfl⟩ := id ha
  obtain ⟨file', hfile', happends⟩ : (file.appendUnlocked names data writes now rollTime true).Sat _ :=
    LogFile.appendUnlocked_sat hinv.file data writes now rollTime
  have hreach := h.step (a := LogFile.Step.append data writes now rollTime true) ha hfile'
  exact ⟨file', hfile', hreach, happends.appended⟩

/-- One call of `output.flush()`. -/
theorem flush_reachable {file : LogFile} (h : (logFile names).Reachable file) :
    file.flush.Sat fun file' =>
      (logFile names).Reachable file' ∧ file'.appended = file.appended ∧ Flushed file' := by
  obtain ⟨⟨f, hinv⟩, -⟩ := LogFile.Inv.of_reachable h
  have hflush := LogFile.flush_eq hinv.file
  refine ⟨_, hflush, h.step (a := LogFile.Step.flush) trivial hflush, rfl, fun g hg => ?_⟩
  cases hg
  rfl

/-- The file has got the calls of the back end. -/
structure Writes (names : LogNames) (log : AsyncLogging) (file : LogFile) : Prop where
  reachable : (logFile names).Reachable file
  appended : file.appended = log.output.map Output.bytes
  flushed : log.pc ≠ .writing → Flushed file

/-- The calls of one step. -/
theorem writeOutput_sat {file : LogFile} (h : Writes names s.log file) {a : AsyncLogging.Step}
    {log : AsyncLogging} (ha : s.log.Enabled a) (hlog : s.log.exec a = .ok log) {writes : Nat → Nat}
    {now rollTime : Int} {fp : Bool} (hwrites : ∀ data, LogFile.Enabled (.append data writes now rollTime fp)) :
    (s.writeOutput names file a log writes now rollTime fp).Sat (Writes names log) := by
  unfold writeOutput
  rcases exec_output ha hlog with ⟨houtput, hpc⟩ | ⟨hpc, hne, call, houtput⟩
  · -- no call of `output.append`
    have hkeep : (log.pc ≠ .writing → s.log.pc ≠ .writing) → Writes names log file :=
      fun hpc => ⟨h.reachable, houtput ▸ h.appended, fun hne => h.flushed (hpc hne)⟩
    have hflush : file.flush.Sat (Writes names log) :=
      (flush_reachable h.reachable).mono fun file' ⟨hreach, happended, hflushed⟩ =>
        ⟨hreach, by rw [happended, houtput, h.appended], fun _ => hflushed⟩
    rw [houtput, List.drop_length, List.foldlM_nil, Checked.pure_eq_ok, Checked.ok_bind]
    split
    · exact hflush
    · split
      · exact hflush
      · exact .ok (hkeep fun hne => (hpc hne).resolve_right nofun)
    · next hne _ => exact .ok (hkeep fun hpc' => (hpc hpc').resolve_right hne)
  · have hdrop : log.output.drop s.log.output.length = [call] := by rw [houtput, List.drop_left]
    have hwritten : ∀ file' : LogFile, (logFile names).Reachable file' ∧
        file'.appended = file.appended ++ [call.bytes] → Writes names log file' := by
      intro file' ⟨hreach, happended⟩
      refine ⟨hreach, ?_, fun hnot => absurd hpc hnot⟩
      rw [happended, houtput, h.appended, List.map_append, List.map_singleton]
    rw [hdrop, List.foldlM_cons]
    refine .bind (.bind (appendUnlocked_reachable h.reachable call.bytes (hwrites _))
      fun file' hfile' => .ok (hwritten file' hfile')) fun file' hfile' => ?_
    split
    · exact absurd rfl hne
    · rw [hpc, if_neg nofun]
      exact .ok hfile'
    · exact .ok hfile'

/-- The log and its file belong together: there is none before the back end starts. -/
structure Inv (names : LogNames) (s : FileLogging) : Prop where
  log : shortLogging.Reachable s.log
  before : s.log.pc = .notStarted → s.output = none ∧ s.log.output = []
  after : s.log.pc ≠ .notStarted → ∃ file, s.output = some file ∧ Writes names s.log file

/-- The back end starts, and constructs `output`. -/
theorem Inv.start (h : Inv names s) (hbase : 47 ∉ basename) {now : Int} {fp : Bool}
    (ha : s.Enabled (.start now fp)) :
    (s.exec names basename rollSize (.start now fp)).Sat (Inv names) := by
  obtain ⟨hpc, hnow, hmax, rfl⟩ := ha
  obtain ⟨file, hfile, happended, hflushed⟩ : (LogFile.new names basename rollSize 3 1024 now true).Sat
      fun file => file.appended = [] ∧ Flushed file := by
    refine .assert hbase ?_
    dsimp only
    unfold LogFile.rollFile FileUtil.AppendFile.new
    rw [if_pos hnow, assert_pos rfl]
    refine .ok ⟨rfl, fun f hf => ?_⟩
    cases hf
    rfl
  have hreach : (logFile names).Reachable file :=
    .of_init ⟨basename, rollSize, 3, 1024, now, hnow, hmax, by decide, hfile⟩
  have houtput : s.log.output = [] := (h.before hpc).2
  dsimp only [exec]
  rw [hfile]
  exact .ok ⟨h.log.step (a := AsyncLogging.Step.start) ⟨hpc, trivial⟩ rfl, nofun, fun _ =>
    ⟨file, rfl, hreach, by rw [happended, houtput, List.map_nil], fun _ => hflushed⟩⟩

/-- Any other step of the log, with the calls of `output` it makes. -/
theorem Inv.run (basename : List UInt8) (rollSize : Int) (h : Inv names s) {a : AsyncLogging.Step}
    {writes : Nat → Nat} {now rollTime : Int} {fp : Bool} (ha : s.Enabled (.run a writes now rollTime fp)) :
    (s.exec names basename rollSize (.run a writes now rollTime fp)).Sat (Inv names) := by
  obtain ⟨hstart, ha, hshort, hwrites⟩ := ha
  obtain ⟨-, hbuffers⟩ := LinesInv.of_reachable h.log
  obtain ⟨log, hlog, -⟩ := hbuffers.step ha
  have hreach := h.log.step (a := a) ⟨ha, hshort⟩ hlog
  have hstarted := exec_started ha hstart hlog
  dsimp only [exec]
  rw [hlog, Checked.ok_bind]
  by_cases hpc : s.log.pc = .notStarted
  · obtain ⟨hnone, hnil⟩ := h.before hpc
    rw [hnone]
    have houtput : log.output = [] := by
      rcases exec_output ha hlog with ⟨houtput, -⟩ | ⟨hwriting, -⟩
      · rw [houtput, hnil]
      · rw [hstarted.mpr hpc] at hwriting
        cases hwriting
    exact .ok ⟨hreach, fun _ => ⟨rfl, houtput⟩, fun hne => absurd (hstarted.mpr hpc) hne⟩
  · obtain ⟨file, hsome, hfile⟩ := h.after hpc
    rw [hsome]
    exact .bind (writeOutput_sat hfile ha hlog fun _ => hwrites) fun file' hfile' =>
      .ok ⟨hreach, fun hpc' => absurd (hstarted.mp hpc') hpc, fun _ => ⟨file', rfl, hfile'⟩⟩

/-- **Whole runs.** -/
theorem Inv.of_reachable (hs : (fileLogging names basename rollSize).Reachable s) :
    Inv names s ∧ (fileLogging names basename rollSize).Safe s := by
  obtain ⟨-, -, ⟨hbase, rfl⟩, -⟩ := id hs
  refine Machine.invariant ?_ ?_ hs
  · rintro s ⟨-, rfl⟩
    exact ⟨.of_init rfl, fun _ => ⟨rfl, rfl⟩, fun hne => absurd rfl hne⟩
  · intro s a h ha
    cases a with
    | start now fp => exact h.start hbase ha
    | run a writes now rollTime fp => exact h.run basename rollSize ha

end FileLogging

end Muduo
