import Muduo.Base.AsyncLoggingBuffers
import Muduo.Support.Packing
import Mathlib.Data.List.Forall2

/-! # What `AsyncLogging` does with the lines

The lines are `Packed` into the buffers: those collected in the passes of the back end so far, those waiting
in `buffers_` and the current one. A pass writes the buffers it has collected, or, when there are more than
25, a notice and the first two. -/

namespace Muduo

open Support

namespace AsyncLogging

/-- Every line that is appended fits into an empty buffer. -/
def Step.IsShort : AsyncLogging.Step → Prop
  | .append logline => logline.length < kLargeBuffer
  | _ => True

end AsyncLogging

/-- The log, when the lines are shorter than a buffer. -/
def shortLogging : Machine AsyncLogging AsyncLogging.Step := asyncLogging.restrict fun _ a => a.IsShort

namespace AsyncLogging

/-- The calls of `output.append` that a pass makes when it has collected buffers with these texts. -/
def IsPass (texts : List (List UInt8)) (calls : List Output) : Prop :=
  if texts.length > 25 then
    ∃ now, calls = .notice (droppedText now (texts.length - 2)) :: (texts.take 2).map .append
  else calls = texts.map .append

/-- The buffers of a pass that are written. -/
def kept (texts : List (List UInt8)) : List (List UInt8) :=
  if texts.length > 25 then texts.take 2 else texts

/-- The log text of a call. -/
def Output.text : Output → List (List UInt8)
  | .append data => [data]
  | .notice _ => []

section Views

variable (s : AsyncLogging)

/-- The texts written so far. -/
def logged : List (List UInt8) := s.output.flatMap Output.text

/-- The texts of the rest of `buffersToWrite`. -/
def rest : List (List UInt8) := s.unwritten.map contents

/-- What the back end has collected and not yet cut. -/
def uncut : List (List UInt8) := if s.pc = .collected then s.rest else []

/-- The texts of `buffers_` and of the current buffer. -/
def waiting : List (List UInt8) := s.buffers.map contents ++ [contents s.currentBuffer]

/-- The calls that are still to be made in this pass. -/
def calls : List Output := if s.pc = .collected then [] else s.rest.map .append

end Views

/-- Where the lines are, between any two steps. -/
structure LinesInv (s : AsyncLogging) : Prop where
  /-- Each line is whole in one of the buffers, in order. -/
  lines : Packed s.appended (s.passes.flatten ++ s.uncut ++ s.waiting)
  /-- The output is that of the passes. -/
  output : ∃ parts, List.Forall₂ IsPass s.passes parts ∧ parts.flatten = s.output ++ s.calls

/-- The invariant holds at the start. -/
theorem LinesInv.new : AsyncLogging.new.LinesInv where
  lines := Packed.nil.open_chunk
  output := ⟨[], .nil, rfl⟩

variable {s : AsyncLogging}

/-- Outside `collected` nothing is left to cut. -/
theorem uncut_of_ne (hpc : s.pc ≠ .collected) : s.uncut = [] := if_neg hpc

/-- Outside `collected` every buffer left is a call still to be made. -/
theorem calls_of_ne (hpc : s.pc ≠ .collected) : s.calls = s.rest.map .append := if_neg hpc

/-! ## The steps -/

/-- A line is put whole at the end of the current buffer, or of an empty one that becomes current. -/
theorem waiting_append (hfront : s.FrontInv) {logline : List UInt8}
    (hshort : logline.length < kLargeBuffer) {t : AsyncLogging} (ht : s.append logline = .ok t) :
    (∃ full current, s.waiting = full ++ [current] ∧ t.waiting = full ++ [current ++ logline]) ∨
      t.waiting = s.waiting ++ [logline] := by
  obtain ⟨current, hcurrent⟩ := Option.ne_none_iff_exists'.mp hfront.current
  unfold AsyncLogging.append at ht
  rw [hcurrent] at ht
  dsimp only [deref, Checked.ok_bind] at ht
  split at ht
  · next hfits =>
      cases ht
      refine .inl ⟨s.buffers.map contents, current.data, by rw [waiting, hcurrent]; rfl, ?_⟩
      rw [waiting]
      exact congrArg (_ ++ [·]) (FixedBuffer.data_append hfits)
  · cases ht
    -- the buffer that becomes current is empty
    have hfresh : s.nextBuffer.getD .new = .new := by
      cases hnext : s.nextBuffer with
      | none => rfl
      | some b => exact hfront.spare b hnext
    have hroom : (FixedBuffer.new : Buffer).avail > logline.length := by
      rw [FixedBuffer.avail_new]
      exact hshort
    refine .inr ?_
    rw [waiting, waiting, hfresh, List.map_append, List.map_singleton, hcurrent]
    exact congrArg (_ ++ [·]) (FixedBuffer.data_append hroom)

/-- A line shorter than a buffer is packed after the lines before it. -/
theorem LinesInv.append (h : s.LinesInv) (hfront : s.FrontInv) {logline : List UInt8}
    (hshort : logline.length < kLargeBuffer) {t : AsyncLogging} (ht : s.append logline = .ok t) :
    t.LinesInv := by
  have hwaiting := waiting_append hfront hshort ht
  obtain ⟨-, _, _, _, rfl⟩ := (hfront.append logline).of_eq_ok ht
  refine ⟨?_, h.output⟩
  have hlines := h.lines
  rcases hwaiting with ⟨full, current, hs, ht⟩ | ht
  · rw [hs, ← List.append_assoc] at hlines
    rw [ht, ← List.append_assoc]
    exact hlines.add logline
  · rw [ht, ← List.append_assoc]
    exact hlines.open_chunk.add logline

/-- What `collect` leaves: all filled buffers are handed to the back end. -/
theorem collect_eq : ∃ nextBuffer newBuffer2, s.collect = { s with
    pc := .collected
    currentBuffer := s.newBuffer1
    newBuffer1 := none
    buffersToWrite := s.buffers ++ [s.currentBuffer]
    buffers := s.buffersToWrite
    unwritten := s.buffers ++ [s.currentBuffer]
    nextBuffer
    newBuffer2 } := by
  unfold AsyncLogging.collect
  dsimp only
  split
  · exact ⟨_, _, rfl⟩
  · exact ⟨_, _, rfl⟩

/-- The back end takes the waiting buffers and leaves an empty one. -/
theorem LinesInv.collect (h : s.LinesInv) (hrest : s.Rested) (hpc : s.pc ≠ .collected) :
    s.collect.LinesInv := by
  obtain ⟨hlines, parts, hparts, houtput⟩ := h
  rw [uncut_of_ne hpc, List.append_nil] at hlines
  rw [calls_of_ne hpc, rest, hrest.unwritten] at houtput
  obtain ⟨nextBuffer, newBuffer2, hcollect⟩ := collect_eq (s := s)
  have huncut : s.collect.uncut = s.waiting := by
    rw [hcollect, uncut, if_pos rfl, rest, waiting, List.map_append, List.map_singleton]
  have hwaiting : s.collect.waiting = [[]] := by
    rw [hcollect, waiting, hrest.buffersToWrite, hrest.newBuffer1]
    rfl
  refine ⟨?_, parts, ?_, ?_⟩
  · rw [huncut, hwaiting, hcollect]
    exact hlines.open_chunk
  · rw [hcollect]
    exact hparts
  · rw [hcollect]
    exact houtput

/-- Steps of the back end that move no text. -/
theorem LinesInv.move (h : s.LinesInv) (hpc : s.pc ≠ .collected) {running : Bool} {pc : BackEndPc}
    {newBuffer1 newBuffer2 : BufferPtr} {buffersToWrite : List BufferPtr} (hpc' : pc ≠ .collected) :
    LinesInv { s with running, pc, newBuffer1, newBuffer2, buffersToWrite } := by
  obtain ⟨hlines, houtput⟩ := h
  rw [uncut_of_ne hpc] at hlines
  rw [calls_of_ne hpc] at houtput
  refine ⟨?_, ?_⟩
  · rw [uncut_of_ne hpc']
    exact hlines
  · rw [calls_of_ne hpc']
    exact houtput

/-- From the cut on, the pass is accounted for. -/
theorem LinesInv.pass (h : s.LinesInv) (hhold : s.Holding) (hpc : s.pc = .collected)
    {buffersToWrite unwritten : List BufferPtr} {output notice : List Output}
    (houtput' : output = s.output ++ notice)
    (hpass : IsPass (s.buffersToWrite.map contents) (notice ++ (unwritten.map contents).map .append)) :
    LinesInv { s with
      pc := .writing
      passes := s.passes ++ [s.buffersToWrite.map contents]
      output
      buffersToWrite
      unwritten } := by
  obtain ⟨hlines, parts, hparts, houtput⟩ := h
  rw [uncut, if_pos hpc, rest, hhold.whole hpc] at hlines
  rw [calls, if_pos hpc, List.append_nil] at houtput
  refine ⟨?_, parts ++ [notice ++ (unwritten.map contents).map .append],
    List.rel_append hparts (.cons hpass .nil), ?_⟩
  · -- the texts of this pass are now the last of the passes
    rw [uncut_of_ne (by nofun), List.flatten_append, List.flatten_singleton, List.append_nil]
    exact hlines
  · rw [calls_of_ne (by nofun), houtput', List.flatten_append, List.flatten_singleton, houtput,
      List.append_assoc]
    rfl

/-- Dropping the messages of an overrun keeps the lines in step. -/
theorem LinesInv.dropMessages (h : s.LinesInv) (hhold : s.Holding) (hpc : s.pc = .collected)
    {now : String} {t : AsyncLogging} (ht : s.dropMessages now = .ok t) : t.LinesInv := by
  obtain ⟨-, ht⟩ := Checked.assert_bind_eq_ok.mp ht
  dsimp only at ht
  split at ht
  · next hlen =>
      cases ht
      refine h.pass hhold hpc rfl ?_
      rw [IsPass, if_pos (by simpa using hlen), List.length_map, ← List.map_take]
      exact ⟨now, rfl⟩
  · next hlen =>
      cases ht
      refine h.pass hhold hpc (List.append_nil _).symm ?_
      rw [IsPass, if_neg (by simpa using hlen), hhold.whole hpc]
      rfl

/-- Writing a buffer out keeps the lines in step. -/
theorem LinesInv.writeBuffer (h : s.LinesInv) (hpc : s.pc = .writing) {t : AsyncLogging}
    (ht : s.writeBuffer = .ok t) : t.LinesInv := by
  have hne : s.pc ≠ .collected := hpc ▸ nofun
  unfold AsyncLogging.writeBuffer at ht
  split at ht
  · cases ht
    exact h
  · next p rest hunwritten =>
      cases p with
      | none => cases ht
      | some b =>
          cases ht
          obtain ⟨hlines, parts, hparts, houtput⟩ := h
          rw [uncut_of_ne hne] at hlines
          rw [calls_of_ne hne, AsyncLogging.rest, hunwritten] at houtput
          refine ⟨?_, parts, hparts, ?_⟩
          · rw [uncut_of_ne (by exact hne)]
            exact hlines
          · rw [calls_of_ne (by exact hne), houtput, List.append_assoc]
            rfl

/-- What `checkRunning` leaves. -/
theorem eq_of_checkRunning {t : AsyncLogging} (ht : s.checkRunning = .ok t) :
    t = { s with pc := if s.running then .lock else .returned } := by
  unfold AsyncLogging.checkRunning at ht
  split at ht
  · next hrunning =>
      obtain ⟨-, ht⟩ := Checked.assert_bind_eq_ok.mp ht
      obtain ⟨-, ht⟩ := Checked.assert_bind_eq_ok.mp ht
      obtain ⟨-, ht⟩ := Checked.assert_bind_eq_ok.mp ht
      cases ht
      rw [if_pos hrunning]
  · next hrunning =>
      cases ht
      rw [if_neg hrunning]

/-- Every step of short lines keeps the lines in step. -/
theorem LinesInv.step (h : s.LinesInv) (hinv : s.BufferInv) {a : AsyncLogging.Step}
    (ha : s.Enabled a) (hshort : a.IsShort) {t : AsyncLogging} (ht : s.exec a = .ok t) : t.LinesInv := by
  cases a with
  | append logline => exact h.append hinv.front hshort ht
  | start =>
      cases ht
      exact h.move (by rw [ha]; nofun) nofun
  | checkRunning =>
      cases eq_of_checkRunning ht
      refine h.move (by rw [ha]; nofun) ?_
      split
      · nofun
      · nofun
  | lock =>
      cases ht
      have hne : s.pc ≠ .collected := by
        rw [ha]
        nofun
      unfold AsyncLogging.lock
      split
      · exact h.move hne nofun
      · exact h.collect (hinv.rested ha rfl) hne
  | wake =>
      cases ht
      exact h.collect (hinv.rested ha rfl) (by rw [ha]; nofun)
  | dropMessages now => exact h.dropMessages (hinv.holding ha rfl) ha ht
  | writeBuffer => exact h.writeBuffer ha.1 ht
  | recycle =>
      cases (hinv.holding ha.1 rfl).recycle.symm.trans ht
      exact h.move (by rw [ha.1]; nofun) nofun
  | stop | notify | joined =>
      cases ht
      exact ⟨h.lines, h.output⟩

/-- The log text of a pass. -/
theorem IsPass.text {texts : List (List UInt8)} {calls : List Output} (h : IsPass texts calls) :
    calls.flatMap Output.text = kept texts := by
  have htext : ∀ l : List (List UInt8), (l.map Output.append).flatMap Output.text = l := by
    intro l
    rw [List.flatMap_map]
    exact List.flatMap_singleton' l
  unfold IsPass at h
  unfold kept
  split at h
  · next hlen =>
      obtain ⟨now, rfl⟩ := h
      rw [if_pos hlen]
      exact htext _
  · next hlen =>
      rw [if_neg hlen, h]
      exact htext _

/-- The log text of all passes. -/
theorem text_of_passes {passes : List (List (List UInt8))} {parts : List (List Output)}
    (h : List.Forall₂ IsPass passes parts) :
    parts.flatten.flatMap Output.text = passes.flatMap kept := by
  induction h with
  | nil => rfl
  | cons hpass _ ih => rw [List.flatten_cons, List.flatMap_append, List.flatMap_cons, hpass.text, ih]

/-- What has been written and what is left to be written of this pass. -/
theorem LinesInv.logged_rest (h : s.LinesInv) : s.logged ++ s.rest = s.passes.flatMap kept ++ s.uncut := by
  obtain ⟨-, parts, hparts, houtput⟩ := h
  have htext := text_of_passes hparts
  rw [houtput, List.flatMap_append] at htext
  rw [← htext, logged, calls, uncut, List.append_assoc]
  split
  · rfl
  · rw [List.flatMap_map]
    simp [Output.text]

end AsyncLogging

/-- Every reachable state of a run of short lines keeps both invariants. -/
theorem AsyncLogging.LinesInv.of_reachable {s : AsyncLogging} (hs : shortLogging.Reachable s) :
    s.LinesInv ∧ s.BufferInv := by
  refine Machine.Reachable.induction (P := fun s => s.LinesInv ∧ s.BufferInv) ?_ ?_ hs
  · rintro s rfl
    exact ⟨LinesInv.new, BufferInv.new⟩
  · intro s a t ⟨hlines, hbuffers⟩ ⟨ha, hshort⟩ ht
    exact ⟨hlines.step hbuffers ha hshort ht, (hbuffers.step ha).of_eq_ok ht⟩

/-- **Every line is kept once and in order.** At every moment the lines appended so far are, each whole in
one buffer and in order, in the buffers collected in the passes of the back end, then in `buffers_` and then
in the current buffer. What has been written and the rest of `buffersToWrite` is what was collected, without
the buffers erased in the passes that collected more than 25, of which the first two are left. The calls of
`output.append` are those of the passes one after another, and the notice about the erased buffers comes
before the two that are written. -/
theorem lines_once_in_order {s : AsyncLogging} (hs : shortLogging.Reachable s) :
    Packed s.appended (s.passes.flatten ++ s.uncut ++ s.waiting) ∧
    (s.passes.flatten ++ s.uncut ++ s.waiting).flatten = s.appended.flatten ∧
    s.logged ++ s.rest ++ s.waiting = s.passes.flatMap AsyncLogging.kept ++ s.uncut ++ s.waiting ∧
    ∃ parts, List.Forall₂ AsyncLogging.IsPass s.passes parts ∧ parts.flatten = s.output ++ s.calls := by
  obtain ⟨hinv, -⟩ := AsyncLogging.LinesInv.of_reachable hs
  exact ⟨hinv.lines, hinv.lines.flatten_eq, by rw [hinv.logged_rest], hinv.output⟩

/-- Two lines are written by the back end in its first pass; two more come while it has the first two, and are
in the current buffer. -/
theorem lines_once_in_order_written : ∃ s, shortLogging.Reachable s ∧
    s.passes = [[[97, 98]]] ∧ s.output = [.append [97, 98]] ∧ s.waiting = [[99, 100]] ∧
    Packed [[97], [98], [99], [100]] (s.passes.flatten ++ s.uncut ++ s.waiting) ∧
    s.logged ++ s.rest ++ s.waiting = s.passes.flatMap AsyncLogging.kept ++ s.uncut ++ s.waiting := by
  have hshort (x : UInt8) : (AsyncLogging.Step.append [x]).IsShort := by
    show 1 < kLargeBuffer
    decide
  have h0 : shortLogging.Reachable AsyncLogging.new := .of_init rfl
  have h1 := h0.step (a := AsyncLogging.Step.start) ⟨rfl, trivial⟩ rfl
  have h2 := h1.step (a := AsyncLogging.Step.append [97]) ⟨trivial, hshort 97⟩ rfl
  have h3 := h2.step (a := AsyncLogging.Step.append [98]) ⟨trivial, hshort 98⟩ rfl
  have h4 := h3.step (a := AsyncLogging.Step.checkRunning) ⟨rfl, trivial⟩ rfl
  have h5 := h4.step (a := AsyncLogging.Step.lock) ⟨rfl, trivial⟩ rfl
  have h6 := h5.step (a := AsyncLogging.Step.wake) ⟨rfl, trivial⟩ rfl
  have h7 := h6.step (a := AsyncLogging.Step.append [99]) ⟨trivial, hshort 99⟩ rfl
  have h8 := h7.step (a := AsyncLogging.Step.dropMessages "") ⟨rfl, trivial⟩ rfl
  have h9 := h8.step (a := AsyncLogging.Step.writeBuffer) ⟨⟨rfl, nofun⟩, trivial⟩ rfl
  have h10 := h9.step (a := AsyncLogging.Step.append [100]) ⟨trivial, hshort 100⟩ rfl
  have h11 := h10.step (a := AsyncLogging.Step.recycle) ⟨⟨rfl, rfl⟩, trivial⟩ rfl
  obtain ⟨hpacked, -, hlogged, -⟩ := lines_once_in_order h11
  exact ⟨_, h11, rfl, rfl, rfl, hpacked, hlogged⟩

end Muduo
