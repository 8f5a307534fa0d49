import Muduo.Base.AsyncLoggingLines

/-! # What `stop()` leaves behind

The back end reads `running_` at the head of its loop only, and collects the buffers after that. When
`stop()` clears `running_`, a back end that has passed the head of the loop collects once more. In every
other place the back end finishes its pass and returns, and what waits in the buffers stays there. -/

namespace Muduo

open Support

namespace AsyncLogging

section Views

variable (s : AsyncLogging)

/-- The texts that the back end has collected so far. -/
def collected : List (List UInt8) := s.passes.flatten ++ s.uncut

/-- The back end is between the head of its loop and the collection of the buffers. -/
def Awaits : Prop := s.pc = .lock ∨ s.pc = .wait

end Views

variable {s t : AsyncLogging}

/-! ## One step -/

/-- At no other place the back end awaits lines. -/
theorem not_awaits {pc : BackEndPc} (hpc : s.pc = pc) (hlock : pc ≠ .lock) (hwait : pc ≠ .wait) :
    ¬ s.Awaits := by
  rintro (h | h)
  · exact hlock (hpc.symm.trans h)
  · exact hwait (hpc.symm.trans h)

/-- What a step does to the texts that are collected: nothing, and then the back end gets past the head of
its loop only while `running_` is set; or it collects all that waits. -/
def Collects (s t : AsyncLogging) : Prop :=
  (t.collected = s.collected ∧ (s.Awaits → t.Awaits) ∧ (t.Awaits → s.Awaits ∨ s.running = true)) ∨
    (s.Awaits ∧ ¬ t.Awaits ∧ t.collected = s.collected ++ s.waiting)

/-- `collect` collects all that waits. -/
theorem Collects.collect (h : s.Awaits) : Collects s s.collect := by
  have hpc : s.pc ≠ .collected := by
    intro hpc
    exact not_awaits hpc nofun nofun h
  obtain ⟨nextBuffer, newBuffer2, hcollect⟩ := collect_eq (s := s)
  refine .inr ⟨h, not_awaits (congrArg AsyncLogging.pc hcollect) nofun nofun, ?_⟩
  rw [hcollect, collected, collected, uncut, uncut_of_ne hpc, if_pos rfl, rest, waiting, List.map_append,
    List.map_singleton, List.append_nil]

/-- What `dropMessages` leaves unchanged. -/
theorem eq_of_dropMessages {now : String} (ht : s.dropMessages now = .ok t) :
    ∃ output buffersToWrite unwritten, t = { s with
      pc := .writing
      passes := s.passes ++ [s.buffersToWrite.map contents]
      output
      buffersToWrite
      unwritten } := by
  obtain ⟨-, ht⟩ := Checked.assert_bind_eq_ok.mp ht
  dsimp only at ht
  split at ht
  · cases ht
    exact ⟨_, _, _, rfl⟩
  · cases ht
    exact ⟨_, _, _, rfl⟩

/-- `dropMessages` collects nothing. -/
theorem Collects.dropMessages (hhold : s.Holding) (hpc : s.pc = .collected) {now : String}
    (ht : s.dropMessages now = .ok t) : Collects s t := by
  obtain ⟨output, buffersToWrite, unwritten, rfl⟩ := eq_of_dropMessages ht
  refine .inl ⟨?_, (absurd · (not_awaits hpc nofun nofun)), (absurd · (not_awaits rfl nofun nofun))⟩
  -- the texts go from `uncut` to the last of the passes
  rw [collected, collected, uncut_of_ne (by nofun), uncut, if_pos hpc, rest, hhold.whole hpc,
    List.flatten_append, List.flatten_singleton, List.append_nil]

/-- What writing a buffer out leaves unchanged. -/
theorem eq_of_writeBuffer (ht : s.writeBuffer = .ok t) :
    ∃ unwritten output, t = { s with unwritten, output } := by
  unfold AsyncLogging.writeBuffer at ht
  split at ht
  · cases ht
    exact ⟨_, _, rfl⟩
  · obtain ⟨buffer, -, ht⟩ := Checked.bind_eq_ok.mp ht
    cases ht
    exact ⟨_, _, rfl⟩

/-- A step between two places where the back end holds nothing back. -/
theorem Collects.move {pc pc' : BackEndPc} (hpc : s.pc = pc) (hpc' : t.pc = pc') (hne : pc ≠ .collected)
    (hne' : pc' ≠ .collected) (hpasses : t.passes = s.passes) (hst : s.Awaits → t.Awaits)
    (hts : t.Awaits → s.Awaits ∨ s.running = true) : Collects s t := by
  refine .inl ⟨?_, hst, hts⟩
  rw [collected, collected, hpasses, uncut_of_ne (hpc' ▸ hne'), uncut_of_ne (hpc ▸ hne)]

/-- What every step does to the texts collected. -/
theorem Collects.step (hinv : s.BufferInv) {a : AsyncLogging.Step} (ha : s.Enabled a)
    (ht : s.exec a = .ok t) : Collects s t := by
  cases a with
  | append logline =>
      obtain ⟨-, _, _, _, rfl⟩ := (hinv.front.append logline).of_eq_ok ht
      exact .inl ⟨rfl, id, .inl⟩
  | start =>
      cases ht
      exact .move ha rfl nofun nofun rfl (absurd · (not_awaits ha nofun nofun))
        (absurd · (not_awaits rfl nofun nofun))
  | checkRunning =>
      cases eq_of_checkRunning ht
      by_cases hrunning : s.running = true
      · exact .move ha (if_pos hrunning) nofun nofun rfl (absurd · (not_awaits ha nofun nofun))
          fun _ => .inr hrunning
      · exact .move ha (if_neg hrunning) nofun nofun rfl (absurd · (not_awaits ha nofun nofun))
          (absurd · (not_awaits (if_neg hrunning) nofun nofun))
  | lock =>
      cases ht
      unfold AsyncLogging.lock
      split
      · exact .move ha rfl nofun nofun rfl (fun _ => .inr rfl) fun _ => .inl (.inl ha)
      · exact .collect (.inl ha)
  | wake =>
      cases ht
      exact .collect (.inr ha)
  | dropMessages now => exact .dropMessages (hinv.holding ha rfl) ha ht
  | writeBuffer =>
      obtain ⟨unwritten, output, rfl⟩ := eq_of_writeBuffer ht
      exact .move ha.1 ha.1 nofun nofun rfl id .inl
  | recycle =>
      cases (hinv.holding ha.1 rfl).recycle.symm.trans ht
      exact .move ha.1 rfl nofun nofun rfl (absurd · (not_awaits ha.1 nofun nofun))
        (absurd · (not_awaits rfl nofun nofun))
  | stop | notify | joined =>
      cases ht
      exact .inl ⟨rfl, id, .inl⟩

/-! ## After `stop()` -/

/-- `stop()` has cleared `running_` after the lines `lines` were appended. -/
structure Stopped (lines : List (List UInt8)) (s : AsyncLogging) : Prop where
  started : s.pc ≠ .notStarted
  running : s.running = false
  lines : lines <+: s.appended
  joined : s.stopper = .returned → s.pc = .returned

/-- After `stop()` it stays stopped. -/
theorem Stopped.step {lines : List (List UInt8)} (h : Stopped lines s) (hinv : s.BufferInv)
    {a : AsyncLogging.Step} (ha : s.Enabled a) (ht : s.exec a = .ok t) : Stopped lines t := by
  obtain ⟨hstarted, hrunning, hlines, hjoined⟩ := h
  -- while the back end makes a step, `stop()` has not returned
  have hback : ∀ {pc : BackEndPc}, s.pc = pc → pc ≠ .returned → s.stopper ≠ .returned :=
    fun hpc hne hret => hne (hpc.symm.trans (hjoined hret))
  cases a with
  | append logline =>
      obtain ⟨-, _, _, _, rfl⟩ := (hinv.front.append logline).of_eq_ok ht
      exact ⟨hstarted, hrunning, hlines.trans (List.prefix_append _ _), hjoined⟩
  | start => exact absurd ha hstarted
  | checkRunning =>
      cases eq_of_checkRunning ht
      rw [hrunning]
      exact ⟨nofun, rfl, hlines, fun _ => rfl⟩
  | lock =>
      cases ht
      unfold AsyncLogging.lock
      split
      · exact ⟨nofun, hrunning, hlines, (absurd · (hback ha nofun))⟩
      · obtain ⟨_, _, hcollect⟩ := collect_eq (s := s)
        rw [hcollect]
        exact ⟨nofun, hrunning, hlines, (absurd · (hback ha nofun))⟩
  | wake =>
      cases ht
      obtain ⟨_, _, hcollect⟩ := collect_eq (s := s)
      rw [hcollect]
      exact ⟨nofun, hrunning, hlines, (absurd · (hback ha nofun))⟩
  | dropMessages now =>
      obtain ⟨_, _, _, rfl⟩ := eq_of_dropMessages ht
      exact ⟨nofun, hrunning, hlines, (absurd · (hback ha nofun))⟩
  | writeBuffer =>
      obtain ⟨_, _, rfl⟩ := eq_of_writeBuffer ht
      exact ⟨hstarted, hrunning, hlines, hjoined⟩
  | recycle =>
      cases (hinv.holding ha.1 rfl).recycle.symm.trans ht
      exact ⟨nofun, hrunning, hlines, (absurd · (hback ha.1 nofun))⟩
  | stop =>
      cases ht
      exact ⟨hstarted, rfl, hlines, nofun⟩
  | notify =>
      cases ht
      exact ⟨hstarted, hrunning, hlines, nofun⟩
  | joined =>
      cases ht
      exact ⟨hstarted, hrunning, hlines, fun _ => ha.2⟩

/-- The lines have been collected, or the back end is about to collect them. -/
def Collected (lines : List (List UInt8)) (s : AsyncLogging) : Prop :=
  s.Awaits ∨ lines.flatten <+: s.collected.flatten

/-- A back end that is past the head of its loop collects once more. -/
theorem Collected.step {lines : List (List UInt8)} (h : Collected lines s) (hstopped : Stopped lines s)
    (hlines : s.LinesInv) (hcollects : Collects s t) : Collected lines t := by
  rcases hcollects with ⟨heq, hst, -⟩ | ⟨-, -, heq⟩
  · exact h.imp hst fun hprefix => heq ▸ hprefix
  · -- all that has been appended is collected now
    refine .inr ?_
    obtain ⟨later, hlater⟩ := hstopped.lines
    rw [heq, collected, hlines.lines.flatten_eq, ← hlater, List.flatten_append]
    exact List.prefix_append _ _

end AsyncLogging

open AsyncLogging

/-- `stop()` clears `running_` in `s` and has returned in `t`. -/
structure StopReturns (s t : AsyncLogging) : Prop where
  reachable : shortLogging.Reachable s
  enabled : s.Enabled .stop
  run : ∃ as, shortLogging.Run { s with running := false, stopper := .notify } as t
  returned : t.stopper = .returned

namespace StopReturns

variable {s t : AsyncLogging}

/-- The states after the store are reachable ones. -/
theorem reachable_of_run (h : StopReturns s t) {u : AsyncLogging} {as : List AsyncLogging.Step}
    (hrun : shortLogging.Run { s with running := false, stopper := .notify } as u) :
    shortLogging.Reachable u := by
  have hstop : shortLogging.Reachable { s with running := false, stopper := .notify } :=
    h.reachable.step (a := .stop) ⟨h.enabled, trivial⟩ rfl
  exact hstop.run hrun

/-- What each step after the store keeps holds when `stop()` returns. -/
theorem induction (h : StopReturns s t) {P : AsyncLogging → Prop}
    (hstop : P { s with running := false, stopper := .notify })
    (hstep : ∀ u v, P u → u.LinesInv → Stopped s.appended u → Collects u v → P v) :
    P t ∧ Stopped s.appended t := by
  obtain ⟨as, hrun⟩ := h.run
  have hreach := h.reachable_of_run (.nil _)
  -- the invariants hold in the states of the run because these are reachable
  have hkeep : ∀ u a v, (P u ∧ Stopped s.appended u ∧ shortLogging.Reachable u) →
      shortLogging.enabled u a → shortLogging.exec u a = .ok v →
      P v ∧ Stopped s.appended v ∧ shortLogging.Reachable v := by
    rintro u a v ⟨hP, hstopped, hu⟩ ha hv
    obtain ⟨hlines, hbuffers⟩ := LinesInv.of_reachable hu
    exact ⟨hstep u v hP hlines hstopped (.step hbuffers ha.1 hv), hstopped.step hbuffers ha.1 hv,
      hu.step ha hv⟩
  obtain ⟨hP, hstopped, -⟩ := hrun.induction hkeep
    ⟨hstop, ⟨h.enabled.1, rfl, List.prefix_refl _, nofun⟩, hreach⟩
  exact ⟨hP, hstopped⟩

/-- The back end has returned, and what it has collected is in its passes. -/
theorem collected_eq (h : StopReturns s t) (hstopped : Stopped s.appended t) :
    t.collected = t.passes.flatten := by
  rw [collected, uncut_of_ne (by rw [hstopped.joined h.returned]; nofun), List.append_nil]

/-- A back end that is about to collect collects all lines appended before `stop()`. -/
theorem collects (h : StopReturns s t) (hs : s.Awaits) : s.appended.flatten <+: t.passes.flatten.flatten := by
  obtain ⟨hcollected, hstopped⟩ := h.induction (P := Collected s.appended) (.inl hs)
    fun _ _ hP hlines hstopped hcollects => hP.step hstopped hlines hcollects
  rw [← h.collected_eq hstopped]
  exact hcollected.resolve_left (not_awaits (hstopped.joined h.returned) nofun nofun)

/-- A back end that is not about to collect collects no more. -/
theorem collects_no_more (h : StopReturns s t) (hs : ¬ s.Awaits) : t.passes.flatten = s.collected := by
  obtain ⟨⟨-, hcollected⟩, hstopped⟩ := h.induction
    (P := fun u => ¬ u.Awaits ∧ u.collected = s.collected) ⟨hs, rfl⟩ (by
      rintro u v ⟨hawaits, heq⟩ - hstopped (⟨hcollected, -, hts⟩ | ⟨hawaits', -, -⟩)
      · refine ⟨fun hv => ?_, hcollected.trans heq⟩
        rcases hts hv with hu | hrunning
        · exact hawaits hu
        · cases hstopped.running.symm.trans hrunning
      · exact absurd hawaits' hawaits)
  rw [← h.collected_eq hstopped]
  exact hcollected

/-- The calls of `output.append` are those of the passes. -/
theorem output_eq (h : StopReturns s t) :
    ∃ parts, List.Forall₂ IsPass t.passes parts ∧ parts.flatten = t.output := by
  obtain ⟨as, hrun⟩ := h.run
  obtain ⟨⟨-, parts, hparts, houtput⟩, hbuffers⟩ := LinesInv.of_reachable (h.reachable_of_run hrun)
  obtain ⟨-, hstopped⟩ := h.induction (P := fun _ => True) trivial fun _ _ _ _ _ _ => trivial
  have hpc : t.pc = .returned := hstopped.joined h.returned
  have hcalls : t.calls = [] := by
    rw [calls_of_ne (by rw [hpc]; nofun), rest, (hbuffers.rested hpc rfl).unwritten]
    rfl
  rw [hcalls, List.append_nil] at houtput
  exact ⟨parts, hparts, houtput⟩

end StopReturns

/-- **What `stop()` drains.** When `stop()` returns, the lines appended before it cleared `running_` have all
been collected and passed to `output.append`, but for those erased in passes of more than 25 buffers, exactly
when the back end was then past the head of its loop and had still to collect the buffers, or nothing waited
in them. The output is always that of the passes. -/
theorem stop_drains_iff {s t : AsyncLogging} (h : StopReturns s t) :
    (∃ parts, List.Forall₂ IsPass t.passes parts ∧ parts.flatten = t.output) ∧
    (s.appended.flatten <+: t.passes.flatten.flatten ↔
      s.pc = .lock ∨ s.pc = .wait ∨ s.waiting.flatten = []) := by
  obtain ⟨hslines, -⟩ := LinesInv.of_reachable h.reachable
  constructor
  · exact h.output_eq
  · by_cases hs : s.Awaits
    · exact iff_of_true (h.collects hs) (hs.imp_right .inl)
    · rw [h.collects_no_more hs]
      have hbytes : s.collected.flatten ++ s.waiting.flatten = s.appended.flatten := by
        rw [← List.flatten_append]
        exact hslines.lines.flatten_eq
      constructor
      · intro hprefix
        refine .inr (.inr (List.eq_nil_of_length_eq_zero ?_))
        have hle := hprefix.length_le
        rw [← hbytes, List.length_append] at hle
        omega
      · rintro (hpc | hpc | hnil)
        · exact absurd (.inl hpc) hs
        · exact absurd (.inr hpc) hs
        · have hall : s.appended.flatten = s.collected.flatten := by
            rw [← hbytes, hnil, List.append_nil]
          exact hall ▸ List.prefix_refl _

/-- A line was appended while the back end has not yet come to the head of its loop. -/
def AsyncLogging.early : AsyncLogging :=
  { AsyncLogging.new with
    running := true
    pc := .top
    currentBuffer := some (FixedBuffer.new.append [97])
    appended := [[97]] }

/-- A run of `start()` and one `append` leads there. -/
theorem AsyncLogging.early_reachable : shortLogging.Reachable AsyncLogging.early := by
  have hnew : shortLogging.Reachable AsyncLogging.new := .of_init rfl
  have hstart : shortLogging.Reachable { AsyncLogging.new with running := true, pc := .top } :=
    hnew.step (a := .start) ⟨rfl, trivial⟩ rfl
  have hshort : [97].length < kLargeBuffer := by decide
  exact hstart.step (a := .append [97]) ⟨trivial, hshort⟩ rfl

/-- With the back end in its wait, the line is written before `stop()` returns. -/
theorem stop_drains_in_wait :
    ∃ s t, StopReturns s t ∧ s.pc = .wait ∧ s.appended = [[97]] ∧ t.output = [.append [97]] ∧
      s.appended.flatten <+: t.passes.flatten.flatten := by
  have hlock : shortLogging.Reachable { AsyncLogging.early with pc := .lock } :=
    AsyncLogging.early_reachable.step (a := .checkRunning) ⟨rfl, trivial⟩ rfl
  have hwait : shortLogging.Reachable { AsyncLogging.early with pc := .wait } :=
    hlock.step (a := .lock) ⟨rfl, trivial⟩ rfl
  have hcollected := Machine.Run.single (M := shortLogging) (a := .wake)
    (s := { AsyncLogging.early with pc := .wait, running := false, stopper := .notify }) ⟨rfl, trivial⟩ rfl
  have hwriting := hcollected.snoc (a := Step.dropMessages "") ⟨rfl, trivial⟩ rfl
  have hwritten := hwriting.snoc (a := Step.writeBuffer) ⟨⟨rfl, nofun⟩, trivial⟩ rfl
  have htop := hwritten.snoc (a := Step.recycle) ⟨⟨rfl, rfl⟩, trivial⟩ rfl
  have hreturned := htop.snoc (a := Step.checkRunning) ⟨rfl, trivial⟩ rfl
  have hnotified := hreturned.snoc (a := Step.notify) ⟨rfl, trivial⟩ rfl
  have hjoined := hnotified.snoc (a := Step.joined) ⟨⟨rfl, rfl⟩, trivial⟩ rfl
  have hstop := StopReturns.mk hwait ⟨nofun, rfl⟩ ⟨_, hjoined⟩ rfl
  exact ⟨_, _, hstop, rfl, rfl, rfl, (stop_drains_iff hstop).2.mpr (.inr (.inl rfl))⟩

/-- A line is lost: the back end reads `running_` at the head of its loop after `stop()` has cleared it. -/
theorem stop_loses_line :
    ∃ t, StopReturns AsyncLogging.early t ∧ AsyncLogging.early.appended = [[97]] ∧ t.output = [] ∧
      ¬ AsyncLogging.early.appended.flatten <+: t.passes.flatten.flatten := by
  refine ⟨{ AsyncLogging.early with running := false, pc := .returned, stopper := .returned },
    ⟨AsyncLogging.early_reachable, ⟨nofun, rfl⟩, ⟨[.checkRunning, .notify, .joined], ?_⟩, rfl⟩, rfl, rfl, ?_⟩
  · have hreturn : shortLogging.Run { AsyncLogging.early with running := false, stopper := .notify }
        [.checkRunning] { AsyncLogging.early with running := false, pc := .returned, stopper := .notify } :=
      .single ⟨rfl, trivial⟩ rfl
    have hnotify : shortLogging.Run { AsyncLogging.early with running := false, stopper := .notify }
        [.checkRunning, .notify]
        { AsyncLogging.early with running := false, pc := .returned, stopper := .join } :=
      hreturn.snoc ⟨rfl, trivial⟩ rfl
    exact hnotify.snoc ⟨⟨rfl, rfl⟩, trivial⟩ rfl
  · intro hprefix
    exact absurd hprefix.length_le (by decide)

end Muduo
