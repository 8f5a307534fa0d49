import Muduo.Net.TcpConnectionOutput

/-! # When a `TcpConnection` calls back about its output

`sendInLoop` and `handleWrite` queue two callbacks: `highWaterMarkCallback_` when the output grows to
`highWaterMark_`, and `writeCompleteCallback_` when it has been written. `outputQueue` is the machine of
their runs on a connection with both callbacks set, whatever the kernel answers to the writes;
`output_callbacks_exact` says that each callback is queued on its edge, once. -/

namespace Muduo.Net

open Support

namespace Event

/-- The argument of a queued `highWaterMarkCallback_`. -/
def mark? : Event → Option Nat
  | .queued (.highWaterMark size) => some size
  | _ => none

/-- The arguments of the `highWaterMarkCallback_`s queued in the events. -/
def marks (evs : List Event) : List Nat := evs.filterMap mark?

/-- How many `writeCompleteCallback_`s are queued in the events. -/
def completions (evs : List Event) : Nat := evs.count (.queued .writeComplete)

@[simp] theorem marks_append (evs evs' : List Event) : marks (evs ++ evs') = marks evs ++ marks evs' :=
  List.filterMap_append

@[simp] theorem completions_append (evs evs' : List Event) :
    completions (evs ++ evs') = completions evs + completions evs' := List.count_append

end Event

open Event

/-- A step of the output, with the result of the `write` it may issue. -/
inductive OutputStep where
  | sendInLoop (message : List Byte) (res : WriteResult)
  | handleWrite (res : WriteResult)

namespace TcpConnection

variable (c : TcpConnection)

/-- How much waits for room in the socket. -/
def pending : Nat := c.outputBuffer.readableBytes

/-- A step of the output, with what it does outside the object. -/
def outputStep : OutputStep → Checked Outcome
  | .sendInLoop message res => c.sendInLoop message res
  | .handleWrite res => c.handleWrite res

/-- The kernel takes no more than it is given. -/
def WriteBounded : OutputStep → Prop
  | .sendInLoop message res => ∀ n, res = .ok n → n ≤ message.length
  | .handleWrite res => ∀ n, res = .ok n → n ≤ c.pending

/-- The step issues a `write`, and the kernel does not answer with an error. -/
def writes : OutputStep → Bool
  | .sendInLoop _ (.ok _) =>
      c.state ≠ .kDisconnected ∧ ¬ c.channel.isWriting ∧ c.outputBuffer.readableBytes = 0
  | .handleWrite (.ok _) => c.channel.isWriting
  | _ => false

/-- A connection with both callbacks set, the mark at `mark`. It watches for room only while output is
waiting and, unless it is closed, whenever output is waiting. -/
structure Notifying (mark : Nat) (c : TcpConnection) : Prop where
  writeComplete : c.writeCompleteCallback = true
  highWaterMark : c.highWaterMarkCallback = true
  mark_eq : c.highWaterMark = mark
  waiting : c.channel.isWriting = true → c.pending ≠ 0
  watched : c.state ≠ .kDisconnected → c.pending ≠ 0 → c.channel.isWriting = true

end TcpConnection

/-- All runs of such steps. The second component of a state holds the events of the last step. -/
def outputQueue (mark : Nat) : Machine TcpConnection.Outcome OutputStep where
  init s := s.1.Notifying mark
  enabled s step := s.1.WriteBounded step
  exec s step := s.1.outputStep step

namespace TcpConnection

variable {c : TcpConnection} {mark : Nat}

/-- What a step says to the outside: that the output has grown to the mark, and that it is written. -/
structure Notified (mark : Nat) (c : TcpConnection) (wrote : Bool) (r : Outcome) : Prop where
  notifying : r.1.Notifying mark
  marks_eq : marks r.2 = if c.pending < mark ∧ mark ≤ r.1.pending then [r.1.pending] else []
  completions_eq : completions r.2 = if wrote ∧ r.1.pending = 0 then 1 else 0

/-- A step after which no more waits than before. -/
theorem Notified.of_le {wrote : Bool} {r : Outcome} (h : r.1.Notifying mark)
    (hpending : r.1.pending ≤ c.pending) (hmarks : marks r.2 = [])
    (hcompletions : completions r.2 = if wrote ∧ r.1.pending = 0 then 1 else 0) :
    Notified mark c wrote r := by
  refine ⟨h, ?_, hcompletions⟩
  rw [hmarks, if_neg]
  rintro ⟨hbelow, habove⟩
  omega

/-- A step that leaves the object alone. -/
theorem Notified.of_same (h : c.Notifying mark) {wrote : Bool} {evs : List Event}
    (hmarks : marks evs = []) (hcompletions : completions evs = if wrote ∧ c.pending = 0 then 1 else 0) :
    Notified mark c wrote (c, evs) :=
  .of_le h le_rfl hmarks hcompletions

@[simp] theorem pending_bufferRemaining (c : TcpConnection) (data : List Byte) (nwrote : Nat) :
    (c.bufferRemaining data nwrote).1.pending = c.pending + (data.length - nwrote) := by
  simp [pending, bufferRemaining]

/-- A step that puts something into `outputBuffer_`. -/
theorem Notified.of_buffered (h : c.Notifying mark) {wrote : Bool} {data : List Byte} {nwrote : Nat}
    (hrem : data.length - nwrote > 0) {evs : List Event} (hmarks : marks evs = [])
    (hcompletions : completions evs = 0) :
    Notified mark c wrote
      ((c.bufferRemaining data nwrote).1, evs ++ (c.bufferRemaining data nwrote).2) := by
  have hpending := pending_bufferRemaining c data nwrote
  have hevents : (c.bufferRemaining data nwrote).2 =
      if c.pending + (data.length - nwrote) ≥ mark ∧ c.pending < mark then
        [.queued (.highWaterMark (c.pending + (data.length - nwrote)))] else [] := by
    refine if_congr ?_ rfl rfl
    rw [h.mark_eq, h.highWaterMark]
    exact and_congr_right fun _ => and_iff_left rfl
  refine ⟨⟨h.writeComplete, h.highWaterMark, h.mark_eq, fun _ => ?_, fun _ _ => ?_⟩, ?_, ?_⟩
  · rw [hpending]
    omega
  · exact isWriting_bufferRemaining c data nwrote
  · rw [marks_append, hmarks, List.nil_append, hevents, hpending]
    by_cases hedge : c.pending < mark ∧ mark ≤ c.pending + (data.length - nwrote)
    · rw [if_pos hedge.symm, if_pos hedge]
      rfl
    · rw [if_neg fun hand => hedge hand.symm, if_neg hedge]
      rfl
  · have hnone : completions (c.bufferRemaining data nwrote).2 = 0 := by
      rw [hevents]
      split <;> rfl
    rw [completions_append, hcompletions, hnone, if_neg]
    rintro ⟨-, hzero⟩
    rw [hpending] at hzero
    omega

/-- `sendInLoop` calls back on the edges. -/
theorem sendInLoop_notified (h : c.Notifying mark) {data : List Byte} {res : WriteResult}
    (hres : c.WriteBounded (.sendInLoop data res)) :
    (c.sendInLoop data res).Sat (Notified mark c (c.writes (.sendInLoop data res))) := by
  unfold sendInLoop
  by_cases hstate : c.state = .kDisconnected
  · rw [if_pos hstate]
    refine .ok (.of_same h rfl ?_)
    have hwrites : c.writes (.sendInLoop data res) = false := by
      cases res <;> simp [writes, hstate]
    rw [hwrites]
    rfl
  rw [if_neg hstate]
  by_cases hdirect : ¬ c.channel.isWriting = true ∧ c.outputBuffer.readableBytes = 0
  · -- nothing is queued, so the message is written directly
    cases res with
    | ok n =>
        have hwrites : c.writes (.sendInLoop data (.ok n)) = true := by
          simp only [writes, decide_eq_true_eq]
          exact ⟨hstate, hdirect⟩
        have hwrite : c.directWrite data (.ok n) = (n, false, .written (data.take n) ::
            if data.length - n = 0 ∧ c.writeCompleteCallback then [.queued .writeComplete] else []) :=
          if_pos hdirect
        rw [hwrites, hwrite]
        refine Checked.Sat.assert (Nat.sub_le _ _) ?_
        by_cases hrem : data.length - n > 0
        · rw [if_pos ⟨Bool.false_ne_true, hrem⟩, if_neg fun hand => hrem.ne' hand.1]
          exact .ok (.of_buffered h hrem rfl rfl)
        · rw [if_neg fun hand => hrem hand.2, if_pos ⟨by omega, h.writeComplete⟩]
          refine .ok (.of_same h rfl ?_)
          rw [if_pos ⟨rfl, hdirect.2⟩]
          rfl
    | error errno =>
        have hwrite : c.directWrite data (.error errno)
            = (0, decide (errno = .EPIPE ∨ errno = .ECONNRESET), []) := if_pos hdirect
        rw [hwrite]
        refine Checked.Sat.assert (Nat.sub_le _ _) ?_
        split
        · next htail => exact .ok (.of_buffered h htail.2 rfl rfl)
        · exact .ok (.of_same h rfl rfl)
  · -- the message comes behind what is queued
    have hwrites : c.writes (.sendInLoop data res) = false := by
      cases res with
      | ok n =>
          simp only [writes, decide_eq_false_iff_not]
          exact fun hand => hdirect hand.2
      | error errno => rfl
    have hwrite : c.directWrite data res = (0, false, []) := if_neg hdirect
    rw [hwrites, hwrite]
    refine Checked.Sat.assert (Nat.sub_le _ _) ?_
    split
    · next htail => exact .ok (.of_buffered h htail.2 rfl rfl)
    · exact .ok (.of_same h rfl rfl)

/-- The half-close says nothing about the output. -/
theorem shutdownInLoop_silent (c : TcpConnection) :
    c.shutdownInLoop.1 = c ∧ marks c.shutdownInLoop.2 = [] ∧ completions c.shutdownInLoop.2 = 0 := by
  unfold shutdownInLoop
  split <;> exact ⟨rfl, rfl, rfl⟩

/-- `handleWrite` calls back when it has written the last byte. -/
theorem handleWrite_notified (h : c.Notifying mark) {res : WriteResult}
    (hres : c.WriteBounded (.handleWrite res)) :
    (c.handleWrite res).Sat (Notified mark c (c.writes (.handleWrite res))) := by
  unfold handleWrite
  cases hw : c.channel.isWriting with
  | false =>
      have hwrites : c.writes (.handleWrite res) = false := by
        cases res with
        | ok n => exact hw
        | error errno => rfl
      rw [hwrites]
      exact .ok (.of_same h rfl rfl)
  | true =>
      rw [if_pos rfl]
      match res, hres with
      | .error _, _ => exact .ok (.of_same h rfl rfl)
      | .ok 0, _ =>
          refine .ok (.of_same h rfl ?_)
          rw [if_neg fun hand => h.waiting hw hand.2]
          rfl
      | .ok (n + 1), hn =>
          have hlen : n + 1 ≤ c.outputBuffer.content.length := by
            simpa [pending] using hn (n + 1) rfl
          have hwrites : c.writes (.handleWrite (.ok (n + 1))) = true := hw
          rw [hwrites]
          refine (c.outputBuffer.retrieve_sat hlen).bind fun out hout => ?_
          have hless : out.readableBytes < c.pending := by
            rw [pending, ByteQueue.readableBytes_eq, ByteQueue.readableBytes_eq, hout,
              List.length_drop]
            omega
          by_cases hempty : out.readableBytes = 0
          · rw [if_pos hempty]
            dsimp only
            rw [if_pos h.writeComplete]
            have hidle : Notifying mark
                { c with outputBuffer := out, channel := c.channel.disableWriting } := by
              refine ⟨h.writeComplete, h.highWaterMark, h.mark_eq, fun hon => ?_,
                fun _ hne => absurd hempty hne⟩
              rw [Channel.isWriting_disableWriting] at hon
              cases hon
            split
            · obtain ⟨hsame, hmarks, hcompletions⟩ := shutdownInLoop_silent
                { c with outputBuffer := out, channel := c.channel.disableWriting }
              refine .ok (.of_le (hsame ▸ hidle) (by rw [hsame]; exact hless.le) ?_ ?_)
              · rw [marks_append, hmarks]
                rfl
              · rw [completions_append, hcompletions, hsame, if_pos ⟨rfl, hempty⟩]
                rfl
            · refine .ok (.of_le hidle hless.le rfl ?_)
              rw [if_pos ⟨rfl, hempty⟩]
              rfl
          · rw [if_neg hempty]
            refine .ok (.of_le ?_ hless.le rfl ?_)
            · exact ⟨h.writeComplete, h.highWaterMark, h.mark_eq, fun _ => hempty, fun _ _ => hw⟩
            · rw [if_neg fun hand => hempty hand.2]
              rfl

/-- **One step.** -/
theorem outputStep_notified (h : c.Notifying mark) {step : OutputStep} (hstep : c.WriteBounded step) :
    (c.outputStep step).Sat (Notified mark c (c.writes step)) := by
  cases step with
  | sendInLoop message res => exact sendInLoop_notified h hstep
  | handleWrite res => exact handleWrite_notified h hstep

/-- Every reachable connection keeps its callbacks, and no assertion fails. -/
theorem notifying_of_reachable {s : Outcome} (hs : (outputQueue mark).Reachable s) :
    s.1.Notifying mark ∧ (outputQueue mark).Safe s :=
  Machine.invariant (P := fun s : Outcome => s.1.Notifying mark) (fun _ h => h)
    (fun _ _ h hstep => (outputStep_notified h hstep).mono fun _ hr => hr.notifying) hs

end TcpConnection

open TcpConnection in
/-- **The callbacks about the output are exact.** Along every run of `sendInLoop` and `handleWrite`,
whatever the kernel answers: a step queues `highWaterMarkCallback_` exactly when it takes what is waiting
from below the mark to the mark or above it, once and with the new size; it queues
`writeCompleteCallback_` exactly when it has written without an error and nothing is waiting, once; so
between two steps that queue the former, what is waiting has fallen below the mark. No step fails an
assertion. -/
theorem output_callbacks_exact (mark : Nat) (s t : TcpConnection.Outcome) (step : OutputStep)
    (hs : (outputQueue mark).Reachable s) (hstep : s.1.WriteBounded step)
    (ht : s.1.outputStep step = .ok t) :
    marks t.2 = (if s.1.pending < mark ∧ mark ≤ t.1.pending then [t.1.pending] else []) ∧
    completions t.2 = (if s.1.writes step ∧ t.1.pending = 0 then 1 else 0) ∧
    (∀ steps u v step', (outputQueue mark).Run t steps u → u.1.WriteBounded step' →
      u.1.outputStep step' = .ok v → marks t.2 ≠ [] → marks v.2 ≠ [] →
      mark ≤ t.1.pending ∧ u.1.pending < mark) ∧
    (outputQueue mark).Safe t := by
  have hnotified : ∀ {s t : Outcome} {step : OutputStep}, (outputQueue mark).Reachable s →
      s.1.WriteBounded step → s.1.outputStep step = .ok t → Notified mark s.1 (s.1.writes step) t :=
    fun hs hstep ht => (outputStep_notified (notifying_of_reachable hs).1 hstep).of_eq_ok ht
  have hfirst := hnotified hs hstep ht
  refine ⟨hfirst.marks_eq, hfirst.completions_eq, fun steps u v step' hrun hstep' hv hmt hmv => ?_,
    (notifying_of_reachable (hs.step hstep ht)).2⟩
  have hsecond := hnotified ((hs.step hstep ht).run hrun) hstep' hv
  rw [hfirst.marks_eq] at hmt
  rw [hsecond.marks_eq] at hmv
  -- a step that queues the callback crosses the mark
  have hcross : s.1.pending < mark ∧ mark ≤ t.1.pending := by
    by_contra hnot
    exact hmt (if_neg hnot)
  have hcross' : u.1.pending < mark ∧ mark ≤ v.1.pending := by
    by_contra hnot
    exact hmv (if_neg hnot)
  exact ⟨hcross.2, hcross'.1⟩

/-- A connection with both callbacks set and a low mark. -/
def lowMark : TcpConnection :=
  { TcpConnection.new true true with state := .kConnected, highWaterMark := 4 }

/-- Nothing is pending at the start. -/
theorem pending_lowMark : lowMark.pending = 0 := by simp [lowMark, TcpConnection.new, TcpConnection.pending]

/-- Five bytes that the kernel does not take, with the mark at four. -/
theorem output_callbacks_exact_blocked :
    ∃ t, lowMark.outputStep (.sendInLoop [1, 2, 3, 4, 5] (.error .EWOULDBLOCK)) = .ok t ∧
      Event.marks t.2 = [5] ∧ Event.completions t.2 = 0 := by
  have hinit : (outputQueue 4).Reachable (lowMark, []) :=
    .of_init ⟨rfl, rfl, rfl, nofun, fun _ hne => absurd pending_lowMark hne⟩
  have hdirect : lowMark.directWrite [1, 2, 3, 4, 5] (.error .EWOULDBLOCK) = (0, false, []) :=
    if_pos ⟨Bool.false_ne_true, pending_lowMark⟩
  have hexec : lowMark.outputStep (.sendInLoop [1, 2, 3, 4, 5] (.error .EWOULDBLOCK)) = .ok
      ((lowMark.bufferRemaining [1, 2, 3, 4, 5] 0).1,
        .sendInLoop [1, 2, 3, 4, 5] :: [] ++ (lowMark.bufferRemaining [1, 2, 3, 4, 5] 0).2) := by
    have hopen : lowMark.state ≠ .kDisconnected := nofun
    simp only [TcpConnection.outputStep, TcpConnection.sendInLoop, if_neg hopen, hdirect]
    rw [assert_pos (Nat.sub_le _ _), Checked.ok_bind, if_pos ⟨Bool.false_ne_true, by decide⟩]
    rfl
  obtain ⟨hmarks, hcompletions, -⟩ := output_callbacks_exact 4 _ _ _ hinit (by rintro n ⟨⟩) hexec
  rw [TcpConnection.pending_bufferRemaining, pending_lowMark] at hmarks hcompletions
  exact ⟨_, hexec, hmarks, hcompletions⟩

end Muduo.Net
