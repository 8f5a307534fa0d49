import Muduo.Net.TcpConnection
import Muduo.Support.Machine

/-! # The output byte stream of a `TcpConnection`

`sendInLoop` writes directly when nothing is queued and falls back to `outputBuffer_`, which
`handleWrite` drains. `OutputInv` is the invariant of the two paths together: while the connection is
not closed, what the kernel took followed by what is still buffered is what was passed to
`sendInLoop`; something is buffered exactly when the channel is registered for writing; and the
half-close happens only when nothing is left. Each function of the connection keeps it
(`sendInLoop_inv`, `handleWrite_inv`, …), the callbacks included, whatever they call. -/

namespace Muduo.Net

open Support

namespace Event

/-- The bytes the kernel took in an event. -/
def acceptedBytes : Event → List Byte
  | .written bytes => bytes
  | _ => []

/-- The message passed to `sendInLoop` in an event. -/
def passedBytes : Event → List Byte
  | .sendInLoop message => message
  | _ => []

/-- The bytes the kernel took, in order. -/
def accepted (tr : List Event) : List Byte := tr.flatMap acceptedBytes

/-- The messages passed to `sendInLoop`, in call order, joined. -/
def passed (tr : List Event) : List Byte := tr.flatMap passedBytes

/-- The event of the writing side being shut. -/
def isShutdownWrite : Event → Bool
  | .shutdownWrite _ _ => true
  | _ => false

@[simp] theorem accepted_nil : accepted [] = [] := rfl

@[simp] theorem passed_nil : passed [] = [] := rfl

@[simp] theorem accepted_append (tr tr' : List Event) :
    accepted (tr ++ tr') = accepted tr ++ accepted tr' := List.flatMap_append

@[simp] theorem passed_append (tr tr' : List Event) :
    passed (tr ++ tr') = passed tr ++ passed tr' := List.flatMap_append

@[simp] theorem accepted_cons (e : Event) (tr : List Event) :
    accepted (e :: tr) = e.acceptedBytes ++ accepted tr := List.flatMap_cons

@[simp] theorem passed_cons (e : Event) (tr : List Event) :
    passed (e :: tr) = e.passedBytes ++ passed tr := List.flatMap_cons

/-- Every half-close of a connection that was not closed found `outputBuffer_` empty and everything
passed before it taken by the kernel. -/
def HalfCloseClean (tr : List Event) : Prop :=
  ∀ tr₁ state pending tr₂, tr = tr₁ ++ .shutdownWrite state pending :: tr₂ →
    state ≠ .kDisconnected → pending = [] ∧ accepted tr₁ = passed tr₁

/-- Events without a half-close keep the past clean. -/
theorem HalfCloseClean.append {tr evs : List Event} (h : HalfCloseClean tr)
    (hevs : ∀ e ∈ evs, e.isShutdownWrite = false) : HalfCloseClean (tr ++ evs) := by
  intro tr₁ state pending tr₂ heq hstate
  rcases List.append_eq_append_iff.mp heq with ⟨bs, -, hbs⟩ | ⟨as, htr, has⟩
  · have hmem : Event.shutdownWrite state pending ∈ evs := by
      rw [hbs]
      exact List.mem_append_right _ (List.mem_cons_self ..)
    cases hevs _ hmem
  · cases as with
    | nil =>
        have hmem : Event.shutdownWrite state pending ∈ evs := by
          rw [List.nil_append] at has
          rw [← has]
          exact List.mem_cons_self ..
        cases hevs _ hmem
    | cons a as =>
        -- the half-close lies in the past
        rw [List.cons_append, List.cons.injEq] at has
        obtain ⟨rfl, -⟩ := has
        exact h tr₁ state pending as htr hstate

/-- A half-close behind a clean past, with nothing left to send. -/
theorem HalfCloseClean.shutdownWrite {tr : List Event} {state : StateE} {pending : List Byte}
    (h : HalfCloseClean tr)
    (hclean : state ≠ .kDisconnected → pending = [] ∧ accepted tr = passed tr) :
    HalfCloseClean (tr ++ [.shutdownWrite state pending]) := by
  intro tr₁ state' pending' tr₂ heq hstate
  -- the half-close that is asked about is the last event, or lies in the past
  rcases List.eq_nil_or_concat tr₂ with rfl | ⟨past, e, rfl⟩
  · obtain ⟨rfl, he⟩ := List.append_inj' heq rfl
    cases he
    exact hclean hstate
  · rw [List.concat_eq_append, ← List.cons_append, ← List.append_assoc] at heq
    obtain ⟨htr, -⟩ := List.append_inj' heq rfl
    exact h tr₁ state' pending' past htr hstate

/-- The events of a `write`: the bytes, and perhaps a request for `writeCompleteCallback_`. -/
theorem write_events (bytes : List Byte) (p : Prop) [Decidable p] :
    accepted (.written bytes :: if p then [.queued .writeComplete] else []) = bytes ∧
      passed (.written bytes :: if p then [.queued .writeComplete] else []) = [] ∧
      ∀ e ∈ Event.written bytes :: if p then [.queued .writeComplete] else [],
        e.isShutdownWrite = false := by
  split <;> simp [acceptedBytes, passedBytes, isShutdownWrite]

end Event

open Event

namespace TcpConnection

/-- What the kernel may answer to a `write` of `len` bytes: any count up to `len`, or any error but
the two that mean a broken connection. -/
def WriteOk (len : Nat) : WriteResult → Prop
  | .ok n => n ≤ len
  | .error errno => errno ≠ .EPIPE ∧ errno ≠ .ECONNRESET

/-- What the kernel may answer to the `write` of a call in a callback. -/
def CallOk : UserCall → Prop
  | .send message res => WriteOk message.length res
  | _ => True

/-- The invariant of the output stream, of a connection and its past. -/
structure OutputInv (c : TcpConnection) (tr : List Event) : Prop where
  stream : c.state ≠ .kDisconnected → accepted tr ++ c.outputBuffer.content = passed tr
  watched : c.state ≠ .kDisconnected →
    (c.outputBuffer.content ≠ [] ↔ c.channel.isWriting = true)
  halfClose : HalfCloseClean tr

variable {c : TcpConnection} {tr : List Event}

/-- Everything passed has been taken by the kernel when the channel is not registered for writing. -/
theorem OutputInv.drained (h : OutputInv c tr) (hstate : c.state ≠ .kDisconnected)
    (hw : c.channel.isWriting = false) : c.outputBuffer.content = [] ∧ accepted tr = passed tr := by
  have hout : c.outputBuffer.content = [] := by
    by_contra hne
    rw [(h.watched hstate).mp hne] at hw
    cases hw
  have hstream := h.stream hstate
  rw [hout, List.append_nil] at hstream
  exact ⟨hout, hstream⟩

/-- A closed connection keeps the invariant as long as its past stays clean. -/
theorem OutputInv.of_closed {evs : List Event} (h : OutputInv c tr) {c' : TcpConnection}
    (hstate : c'.state = .kDisconnected) (hevs : ∀ e ∈ evs, e.isShutdownWrite = false) :
    OutputInv c' (tr ++ evs) :=
  ⟨fun hne => absurd hstate hne, fun hne => absurd hstate hne, h.halfClose.append hevs⟩

/-- A step that moves no byte and changes neither the buffer nor the interest in writing, and does
not reopen a closed connection. -/
theorem OutputInv.of_quiet {evs : List Event} (h : OutputInv c tr) {c' : TcpConnection}
    (hout : c'.outputBuffer = c.outputBuffer) (hw : c'.channel.isWriting = c.channel.isWriting)
    (hstate : c.state = .kDisconnected → c'.state = .kDisconnected)
    (hwritten : accepted evs = []) (hpassed : passed evs = [])
    (hevs : ∀ e ∈ evs, e.isShutdownWrite = false) : OutputInv c' (tr ++ evs) := by
  refine ⟨fun hne => ?_, fun hne => ?_, h.halfClose.append hevs⟩
  · rw [accepted_append, passed_append, hwritten, hpassed, List.append_nil, List.append_nil, hout]
    exact h.stream fun hd => hne (hstate hd)
  · rw [hout, hw]
    exact h.watched fun hd => hne (hstate hd)

/-- Nothing happens. -/
theorem OutputInv.idle (h : OutputInv c tr) : OutputInv c (tr ++ []) := by
  rw [List.append_nil]
  exact h

/-- A functor is queued. -/
theorem OutputInv.queued (h : OutputInv c tr) (f : Functor) : OutputInv c (tr ++ [.queued f]) :=
  h.of_quiet rfl rfl id rfl rfl (by simp [isShutdownWrite])

/-- A close is requested. -/
theorem OutputInv.disconnecting (h : OutputInv c tr)
    (hstate : c.state = .kConnected ∨ c.state = .kDisconnecting) :
    OutputInv { c with state := .kDisconnecting } tr := by
  have hne : c.state ≠ .kDisconnected := by
    intro hd
    rw [hd] at hstate
    rcases hstate with hs | hs <;> cases hs
  exact ⟨fun _ => h.stream hne, fun _ => h.watched hne, h.halfClose⟩

/-- The kernel takes `n` bytes from the front of `outputBuffer_`. -/
theorem OutputInv.of_written {evs : List Event} (h : OutputInv c tr) {out : ByteQueue}
    {channel : Channel} {n : Nat} (hout : out.content = c.outputBuffer.content.drop n)
    (hw : out.content ≠ [] ↔ channel.isWriting = true)
    (hevs : accepted evs = c.outputBuffer.content.take n ∧ passed evs = [] ∧
      ∀ e ∈ evs, e.isShutdownWrite = false) :
    OutputInv { c with outputBuffer := out, channel } (tr ++ evs) := by
  obtain ⟨hwritten, hpassed, hquiet⟩ := hevs
  refine ⟨fun hstate => ?_, fun _ => hw, h.halfClose.append hquiet⟩
  -- the bytes move from the buffer to the kernel, and their order stays
  rw [accepted_append, passed_append, hwritten, hpassed, List.append_nil, List.append_assoc, hout,
    List.take_append_drop]
  exact h.stream hstate

/-- The events of `bufferRemaining` are queued functors. -/
theorem bufferRemaining_events (c : TcpConnection) (data : List Byte) (nwrote : Nat) :
    (c.bufferRemaining data nwrote).2 = [] ∨
      ∃ size, (c.bufferRemaining data nwrote).2 = [.queued (.highWaterMark size)] := by
  simp only [bufferRemaining]
  split
  · exact .inr ⟨_, rfl⟩
  · exact .inl rfl

/-- What is left to send is watched for. -/
theorem isWriting_bufferRemaining (c : TcpConnection) (data : List Byte) (nwrote : Nat) :
    (c.bufferRemaining data nwrote).1.channel.isWriting = true := by
  simp only [bufferRemaining]
  split
  · assumption
  · exact Channel.isWriting_enableWriting _

/-- The two ways through the tail of `sendInLoop`: `sent` is what the direct write took. -/
theorem sendTail_inv (h : OutputInv c tr) (hstate : c.state ≠ .kDisconnected) {data : List Byte}
    {nwrote : Nat} {events : List Event} (hn : nwrote ≤ data.length)
    (hwritten : accepted events = data.take nwrote) (hpassed : passed events = [])
    (hevs : ∀ e ∈ events, e.isShutdownWrite = false)
    (hempty : nwrote ≠ 0 → c.outputBuffer.content = []) :
    OutputInv (if data.length - nwrote > 0 then (c.bufferRemaining data nwrote).1 else c)
      (tr ++ (.sendInLoop data :: events ++
        if data.length - nwrote > 0 then (c.bufferRemaining data nwrote).2 else [])) := by
  have hstream := h.stream hstate
  by_cases hrem : data.length - nwrote > 0
  · rw [if_pos hrem, if_pos hrem]
    have hqueued : accepted (c.bufferRemaining data nwrote).2 = [] ∧
        passed (c.bufferRemaining data nwrote).2 = [] ∧
        ∀ e ∈ (c.bufferRemaining data nwrote).2, e.isShutdownWrite = false := by
      rcases bufferRemaining_events c data nwrote with he | ⟨size, he⟩
      · rw [he]
        exact ⟨rfl, rfl, fun e he' => absurd he' List.not_mem_nil⟩
      · rw [he]
        exact ⟨rfl, rfl, fun e he' => by rw [List.mem_singleton.mp he']; rfl⟩
    obtain ⟨hqw, hqp, hqs⟩ := hqueued
    have hcontent : (c.bufferRemaining data nwrote).1.outputBuffer.content
        = c.outputBuffer.content ++ data.drop nwrote := ByteQueue.content_append _ _
    refine ⟨fun _ => ?_, fun _ => ?_, h.halfClose.append ?_⟩
    · -- the bytes stay in order because a direct write found the buffer empty
      have hswap : data.take nwrote ++ (c.outputBuffer.content ++ data.drop nwrote)
          = c.outputBuffer.content ++ data := by
        by_cases h0 : nwrote = 0
        · subst h0
          rw [List.take_zero, List.drop_zero, List.nil_append]
        · rw [hempty h0, List.nil_append, List.nil_append, List.take_append_drop]
      simp only [accepted_append, passed_append, List.cons_append, accepted_cons, passed_cons,
        acceptedBytes, passedBytes, hwritten, hpassed, hqw, hqp, hcontent, List.nil_append, List.append_nil,
        List.append_assoc]
      rw [hswap, ← List.append_assoc, hstream]
    · rw [hcontent, isWriting_bufferRemaining]
      refine iff_of_true (fun hnil => ?_) rfl
      have hdrop := (List.append_eq_nil_iff.mp hnil).2
      rw [List.drop_eq_nil_iff] at hdrop
      omega
    · intro e he
      rw [List.cons_append, List.mem_cons, List.mem_append] at he
      rcases he with rfl | he | he
      · rfl
      · exact hevs e he
      · exact hqs e he
  · rw [if_neg hrem, if_neg hrem, List.append_nil]
    have hall : data.take nwrote = data := List.take_of_length_le (by omega)
    refine ⟨fun _ => ?_, fun _ => h.watched hstate, h.halfClose.append ?_⟩
    · simp only [accepted_append, passed_append, accepted_cons, passed_cons, acceptedBytes,
        passedBytes, hwritten, hpassed, hall, List.nil_append, List.append_nil, List.append_assoc]
      by_cases h0 : nwrote = 0
      · have hdata : data = [] := by
          rw [← hall, h0, List.take_zero]
        rw [hdata, List.nil_append, List.append_nil]
        exact hstream
      · rw [hempty h0, List.append_nil] at hstream ⊢
        rw [hstream]
    · intro e he
      rw [List.mem_cons] at he
      rcases he with rfl | he
      · rfl
      · exact hevs e he

/-- What the direct write contributes, whichever way it goes: it takes a first part of the message,
and more than nothing only if nothing was queued before. -/
theorem directWrite_spec (c : TcpConnection) {data : List Byte} {res : WriteResult}
    (hres : WriteOk data.length res) :
    ∃ nwrote events, c.directWrite data res = (nwrote, false, events) ∧ nwrote ≤ data.length ∧
      accepted events = data.take nwrote ∧ passed events = [] ∧
      (∀ e ∈ events, e.isShutdownWrite = false) ∧
      (nwrote ≠ 0 → c.outputBuffer.content = []) := by
  unfold directWrite
  split
  · next hd =>
    have hout : c.outputBuffer.content = [] := by
      have hlen := hd.2
      rw [ByteQueue.readableBytes_eq] at hlen
      exact List.eq_nil_of_length_eq_zero hlen
    cases res with
    | ok n =>
        obtain ⟨hwritten, hpassed, hevs⟩ := write_events (data.take n)
          (data.length - n = 0 ∧ c.writeCompleteCallback = true)
        exact ⟨n, _, rfl, hres, hwritten, hpassed, hevs, fun _ => hout⟩
    | error errno =>
        -- the message is kept whole, unless the connection is broken
        have hfault : decide (errno = Errno.EPIPE ∨ errno = Errno.ECONNRESET) = false :=
          decide_eq_false fun hor => hor.elim hres.1 hres.2
        refine ⟨0, [], ?_, Nat.zero_le _, by simp, rfl, by simp, fun _ => hout⟩
        simp only [hfault]
  · exact ⟨0, [], rfl, Nat.zero_le _, by simp, rfl, by simp, fun h0 => absurd rfl h0⟩

/-- `sendInLoop` keeps the output stream, by the direct write and by the buffer. -/
theorem sendInLoop_inv (h : OutputInv c tr) (data : List Byte) {res : WriteResult}
    (hres : WriteOk data.length res) :
    (c.sendInLoop data res).Sat fun r => OutputInv r.1 (tr ++ r.2) := by
  unfold sendInLoop
  by_cases hstate : c.state = .kDisconnected
  · rw [if_pos hstate]
    refine .ok (h.of_closed hstate fun e he => ?_)
    rw [List.mem_singleton.mp he]
    rfl
  rw [if_neg hstate]
  obtain ⟨nwrote, events, hdirect, hn, hwritten, hpassed, hevs, hempty⟩ := c.directWrite_spec hres
  rw [hdirect]
  refine Checked.Sat.assert (Nat.sub_le _ _) ?_
  have hinv := sendTail_inv h hstate hn hwritten hpassed hevs hempty
  by_cases hrem : data.length - nwrote > 0
  · rw [if_pos hrem, if_pos hrem] at hinv
    rw [if_pos ⟨Bool.false_ne_true, hrem⟩]
    exact .ok hinv
  · rw [if_neg hrem, if_neg hrem, List.append_nil] at hinv
    rw [if_neg fun hand => hrem hand.2]
    exact .ok hinv

/-- `shutdownInLoop` half-closes only with nothing left to send. -/
theorem shutdownInLoop_inv (h : OutputInv c tr) :
    OutputInv c.shutdownInLoop.1 (tr ++ c.shutdownInLoop.2) := by
  cases hw : c.channel.isWriting with
  | true =>
      simp only [shutdownInLoop, hw, if_true, List.append_nil]
      exact h
  | false =>
      simp only [shutdownInLoop, hw, Bool.false_eq_true, if_false]
      refine ⟨?_, h.watched, h.halfClose.shutdownWrite fun hstate => h.drained hstate hw⟩
      simpa [acceptedBytes, passedBytes] using h.stream

/-- `handleWrite` moves bytes from the front of `outputBuffer_` to the kernel and, once it is empty,
stops watching and completes a pending half-close. -/
theorem handleWrite_inv (h : OutputInv c tr) {res : WriteResult}
    (hres : WriteOk c.outputBuffer.content.length res) :
    (c.handleWrite res).Sat fun r => OutputInv r.1 (tr ++ r.2) := by
  unfold handleWrite
  cases hw : c.channel.isWriting with
  | false => exact .ok h.idle
  | true =>
    rw [if_pos rfl]
    match res, hres with
    | .error _, _ => exact .ok h.idle
    | .ok 0, _ => exact .ok h.idle
    | .ok (n + 1), hn =>
      refine (c.outputBuffer.retrieve_sat hn).bind fun out hout => ?_
      rw [ByteQueue.readableBytes_eq]
      by_cases hempty : out.content.length = 0
      · rw [if_pos hempty]
        -- the buffer is drained: no byte is left and the channel is not watched
        have hunwatched : out.content ≠ [] ↔ c.channel.disableWriting.isWriting = true := by
          rw [Channel.isWriting_disableWriting]
          refine iff_of_false (fun hne => ?_) Bool.false_ne_true
          exact hne (List.eq_nil_of_length_eq_zero hempty)
        have hdone := h.of_written hout hunwatched
          (write_events _ (c.writeCompleteCallback = true))
        by_cases hstate : c.state = .kDisconnecting
        · rw [if_pos hstate]
          have hclose := shutdownInLoop_inv hdone
          rw [List.append_assoc] at hclose
          exact .ok hclose
        · rw [if_neg hstate]
          exact .ok hdone
      · rw [if_neg hempty]
        have hrest : out.content ≠ [] := fun hnil => hempty (by rw [hnil]; rfl)
        exact .ok (h.of_written hout (iff_of_true hrest hw) (write_events _ False))

/-- A requested close leaves the stream alone. -/
theorem forceClose_inv (h : OutputInv c tr) : OutputInv c.forceClose.1 (tr ++ c.forceClose.2) := by
  unfold forceClose
  split
  · next hstate => exact (h.disconnecting hstate).queued _
  · exact h.idle

/-- A delayed close leaves the stream alone. -/
theorem forceCloseWithDelay_inv (h : OutputInv c tr) :
    OutputInv c.forceCloseWithDelay.1 (tr ++ c.forceCloseWithDelay.2) := by
  unfold forceCloseWithDelay
  split
  · next hstate =>
      exact (h.disconnecting hstate).of_quiet rfl rfl id rfl rfl (by simp [isShutdownWrite])
  · exact h.idle

/-- `send` keeps the output stream, from either thread. -/
theorem send_inv (h : OutputInv c tr) (inLoop : Bool) (message : List Byte) {res : WriteResult}
    (hres : WriteOk message.length res) :
    (c.send inLoop message res).Sat fun r => OutputInv r.1 (tr ++ r.2) := by
  unfold send
  split
  · split
    · exact sendInLoop_inv h message hres
    · exact .ok (h.queued _)
  · exact .ok h.idle

/-- `shutdown` keeps the output stream, from either thread. -/
theorem shutdown_inv (h : OutputInv c tr) (inLoop : Bool) :
    OutputInv (c.shutdown inLoop).1 (tr ++ (c.shutdown inLoop).2) := by
  unfold shutdown
  split
  · next hstate =>
      have hclosing := h.disconnecting (.inl hstate)
      split
      · exact shutdownInLoop_inv hclosing
      · exact hclosing.queued _
  · exact h.idle

/-- Interest in reading has no part in the output stream. -/
theorem startReadInLoop_inv (h : OutputInv c tr) : OutputInv c.startReadInLoop (tr ++ []) := by
  unfold startReadInLoop
  split
  · exact h.of_quiet rfl (Channel.isWriting_enableReading _) id rfl rfl (by simp)
  · exact h.idle

/-- `stopReadInLoop` keeps the output stream. -/
theorem stopReadInLoop_inv (h : OutputInv c tr) : OutputInv c.stopReadInLoop (tr ++ []) := by
  unfold stopReadInLoop
  split
  · exact h.of_quiet rfl (Channel.isWriting_disableReading _) id rfl rfl (by simp)
  · exact h.idle

/-- Every call of user code keeps the output stream, from either thread. -/
theorem call_inv (h : OutputInv c tr) (inLoop : Bool) (call : UserCall) (hcall : CallOk call) :
    (c.call inLoop call).Sat fun r => OutputInv r.1 (tr ++ r.2) := by
  cases call with
  | send message res => exact send_inv h inLoop message hcall
  | shutdown => exact .ok (shutdown_inv h inLoop)
  | forceClose => exact .ok (forceClose_inv h)
  | forceCloseWithDelay => exact .ok (forceCloseWithDelay_inv h)
  | startRead =>
      cases inLoop with
      | true => exact .ok (startReadInLoop_inv h)
      | false => exact .ok (h.queued _)
  | stopRead =>
      cases inLoop with
      | true => exact .ok (stopReadInLoop_inv h)
      | false => exact .ok (h.queued _)

/-- A callback keeps the output stream, whatever it calls. -/
theorem runCallback_inv (h : OutputInv c tr) {calls : List UserCall}
    (hcalls : ∀ call ∈ calls, CallOk call) :
    (c.runCallback calls).Sat fun r => OutputInv r.1 (tr ++ r.2) := by
  induction calls generalizing c tr with
  | nil => exact .ok h.idle
  | cons call calls ih =>
      refine (call_inv h true call (hcalls call (List.mem_cons_self ..))).bind fun r hr => ?_
      refine (ih hr fun call' hmem => hcalls call' (List.mem_cons_of_mem _ hmem)).bind
        fun r' hr' => .ok ?_
      rw [← List.append_assoc]
      exact hr'

/-- `handleClose` ends the stream. -/
theorem handleClose_inv (h : OutputInv c tr) {callback : List UserCall}
    (hcalls : ∀ call ∈ callback, CallOk call)
    (hstate : c.state = .kConnected ∨ c.state = .kDisconnecting) :
    (c.handleClose callback).Sat fun r => OutputInv r.1 (tr ++ r.2) := by
  refine Checked.Sat.assert hstate ?_
  -- the callback already sees a closed connection
  have hclosed : OutputInv
      { c with state := .kDisconnected, channel := c.channel.disableAll }
      (tr ++ [.connectionCallback .kDisconnected]) :=
    h.of_closed rfl (by simp [isShutdownWrite])
  refine (runCallback_inv hclosed hcalls).bind fun r hr => .ok ?_
  have hquiet : ∀ e ∈ [Event.closeCallback], e.isShutdownWrite = false := by simp [isShutdownWrite]
  have hlast := hr.of_quiet rfl rfl id rfl rfl hquiet
  simpa only [List.append_assoc, List.cons_append, List.nil_append] using hlast

/-- `connectEstablished` starts the stream: nothing has been sent and nothing is queued. -/
theorem connectEstablished_inv {callback : List UserCall}
    (hcalls : ∀ call ∈ callback, CallOk call) (hstate : c.state = .kConnecting)
    (hout : c.outputBuffer.content = []) (hchannel : c.channel = Channel.new) :
    (c.connectEstablished callback).Sat fun r => OutputInv r.1 r.2 := by
  refine Checked.Sat.assert hstate ?_
  have hfresh : OutputInv { c with state := .kConnected, channel := c.channel.enableReading }
      [.connectionCallback .kConnected] := by
    refine ⟨fun _ => hout, fun _ => ?_, ?_⟩
    · rw [Channel.isWriting_enableReading, hchannel, Channel.isWriting_new]
      exact iff_of_false (fun hne => hne hout) Bool.false_ne_true
    · intro tr₁ state pending tr₂ heq
      cases tr₁ with
      | nil => cases heq
      | cons e tr₁ => cases tr₁ <;> cases heq
  exact (runCallback_inv hfresh hcalls).bind fun r hr => .ok hr

/-- `forceCloseInLoop` ends the stream, or finds it ended. -/
theorem forceCloseInLoop_inv (h : OutputInv c tr) {callback : List UserCall}
    (hcalls : ∀ call ∈ callback, CallOk call) :
    (c.forceCloseInLoop callback).Sat fun r => OutputInv r.1 (tr ++ r.2) := by
  unfold forceCloseInLoop
  split
  · next hstate => exact handleClose_inv h hcalls hstate
  · exact .ok h.idle

/-- `handleRead` keeps the output stream, whatever the message callback calls. -/
theorem handleRead_inv (h : OutputInv c tr) {res : Buffer.ReadResult} {callback : List UserCall}
    {unread : ByteQueue → ByteQueue} (hcalls : ∀ call ∈ callback, CallOk call)
    (heof : res = .ok [] → c.state = .kConnected ∨ c.state = .kDisconnecting) :
    (c.handleRead res callback unread).Sat fun r => OutputInv r.1 (tr ++ r.2) := by
  match res, heof with
  | .ok [], heof => exact handleClose_inv h hcalls (heof rfl)
  | .error _, _ => exact .ok h.idle
  | .ok (b :: data), _ =>
      have hread : OutputInv { c with inputBuffer := c.inputBuffer.readFd (b :: data) }
          (tr ++ [.messageCallback]) :=
        h.of_quiet rfl rfl id rfl rfl (by simp [isShutdownWrite])
      refine (runCallback_inv hread hcalls).bind fun r hr => .ok ?_
      rw [List.append_assoc] at hr
      -- what the callback leaves of the input has no part in the invariant
      exact ⟨hr.stream, hr.watched, hr.halfClose⟩

end TcpConnection

/-! ## Runs -/

/-- A step of the loop thread on an established connection, with the results of its system calls and
what its callbacks do, or a call of user code in this or in another thread. -/
inductive LoopStep where
  | sendInLoop (message : List Byte) (res : WriteResult)
  | handleWrite (res : WriteResult)
  | shutdownInLoop
  | handleClose (callback : List UserCall)
  | forceCloseInLoop (callback : List UserCall)
  | handleRead (res : Buffer.ReadResult) (callback : List UserCall) (unread : ByteQueue → ByteQueue)
  | userCall (inLoop : Bool) (call : UserCall)

namespace LoopStep

/-- What the kernel and the poller may do: counts within the request, no error that means a broken
connection, and close events only for a connection that is not closed. -/
def Enabled (s : TcpConnection.Outcome) : LoopStep → Prop
  | .sendInLoop message res => TcpConnection.WriteOk message.length res
  | .handleWrite res => TcpConnection.WriteOk s.1.outputBuffer.content.length res
  | .shutdownInLoop => True
  | .handleClose callback => (∀ call ∈ callback, TcpConnection.CallOk call) ∧
      (s.1.state = .kConnected ∨ s.1.state = .kDisconnecting)
  | .forceCloseInLoop callback => ∀ call ∈ callback, TcpConnection.CallOk call
  | .handleRead res callback _ => (∀ call ∈ callback, TcpConnection.CallOk call) ∧
      (res = .ok [] → s.1.state = .kConnected ∨ s.1.state = .kDisconnecting)
  | .userCall _ call => TcpConnection.CallOk call

/-- The member function of a step. -/
def run (c : TcpConnection) : LoopStep → Checked TcpConnection.Outcome
  | .sendInLoop message res => c.sendInLoop message res
  | .handleWrite res => c.handleWrite res
  | .shutdownInLoop => return c.shutdownInLoop
  | .handleClose callback => c.handleClose callback
  | .forceCloseInLoop callback => c.forceCloseInLoop callback
  | .handleRead res callback unread => c.handleRead res callback unread
  | .userCall inLoop call => c.call inLoop call

end LoopStep

/-- A connection whose constructor has run and that nothing has been sent on. -/
structure TcpConnection.Fresh (c : TcpConnection) : Prop where
  state : c.state = .kConnecting
  channel : c.channel = Channel.new
  output : c.outputBuffer.content = []

/-- The machine of a connection in its loop thread. Its state is the connection and everything it did
since `connectEstablished` was entered. -/
def connectionMachine : Machine TcpConnection.Outcome LoopStep where
  init s := ∃ (c : TcpConnection) (callback : List UserCall), c.Fresh ∧
    (∀ call ∈ callback, TcpConnection.CallOk call) ∧ c.connectEstablished callback = .ok s
  enabled := LoopStep.Enabled
  exec s step := do
    let (c, events) ← step.run s.1
    return (c, s.2 ++ events)

namespace TcpConnection

/-- One step of the loop thread keeps the invariant. -/
theorem OutputInv.step {s : Outcome} (h : OutputInv s.1 s.2) (step : LoopStep)
    (hen : step.Enabled s) :
    (connectionMachine.exec s step).Sat fun t => OutputInv t.1 t.2 := by
  have hrun : (step.run s.1).Sat fun r => OutputInv r.1 (s.2 ++ r.2) := by
    cases step with
    | sendInLoop message res => exact sendInLoop_inv h message hen
    | handleWrite res => exact handleWrite_inv h hen
    | shutdownInLoop => exact .ok (shutdownInLoop_inv h)
    | handleClose callback => exact handleClose_inv h hen.1 hen.2
    | forceCloseInLoop callback => exact forceCloseInLoop_inv h hen
    | handleRead res callback unread => exact handleRead_inv h hen.1 hen.2
    | userCall inLoop call => exact call_inv h inLoop call hen
  exact hrun.bind fun r hr => .ok hr

/-- The invariant holds along every run. -/
theorem OutputInv.of_reachable {s : Outcome} (hs : connectionMachine.Reachable s) :
    OutputInv s.1 s.2 ∧ connectionMachine.Safe s := by
  refine Machine.invariant (P := fun s => OutputInv s.1 s.2) ?_ (fun s step h hen => h.step step hen)
    hs
  rintro s ⟨c, callback, hfresh, hcalls, hest⟩
  exact (connectEstablished_inv hcalls hfresh.state hfresh.output hfresh.channel).of_eq_ok hest

end TcpConnection

/-- **Integrity of the output stream.** In every run of the loop thread on a connection, as long as
it is not closed: the bytes the kernel took followed by `outputBuffer_` are the messages passed to
`sendInLoop`, in call order; `outputBuffer_` is non-empty exactly when the channel is registered for
writing; and whenever the write side was shut down `outputBuffer_` was empty and everything passed
before had been taken by the kernel. No assert fails on the way. -/
theorem outputStream_integrity {s : TcpConnection.Outcome}
    (hs : connectionMachine.Reachable s) :
    (s.1.state ≠ .kDisconnected →
      accepted s.2 ++ s.1.outputBuffer.content = passed s.2 ∧
      (s.1.outputBuffer.content ≠ [] ↔ s.1.channel.isWriting = true)) ∧
    (∀ tr₁ state pending tr₂, s.2 = tr₁ ++ .shutdownWrite state pending :: tr₂ →
      state ≠ .kDisconnected → pending = [] ∧ accepted tr₁ = passed tr₁) ∧
    connectionMachine.Safe s := by
  obtain ⟨hinv, hsafe⟩ := TcpConnection.OutputInv.of_reachable hs
  exact ⟨fun hstate => ⟨hinv.stream hstate, hinv.watched hstate⟩, hinv.halfClose, hsafe⟩

/-- The stream on a connection whose first message the kernel takes only one byte of. -/
theorem outputStream_integrity_partial_write :
    ∃ s, connectionMachine.Reachable s ∧ s.1.state = .kConnected ∧ accepted s.2 = [1] ∧
      [1] ++ s.1.outputBuffer.content = [1, 2, 3] ∧ s.1.channel.isWriting = true := by
  obtain ⟨c, hreach, hstate, hout, hw, hcb, hhw⟩ : ∃ c : TcpConnection,
      connectionMachine.Reachable (c, [.connectionCallback .kConnected]) ∧
      c.state = .kConnected ∧ c.outputBuffer.content = [] ∧ c.channel.isWriting = false ∧
      c.writeCompleteCallback = false ∧ c.highWaterMarkCallback = false := by
    have hfresh : (TcpConnection.new false false).Fresh := ⟨rfl, rfl, ByteQueue.content_new⟩
    exact ⟨_, .of_init ⟨_, [], hfresh, by simp, rfl⟩, rfl, ByteQueue.content_new, by decide, rfl, rfl⟩
  have hexec : connectionMachine.exec (c, [.connectionCallback .kConnected])
      (.sendInLoop [1, 2, 3] (.ok 1)) = .ok ((c.bufferRemaining [1, 2, 3] 1).1,
        [.connectionCallback .kConnected, .sendInLoop [1, 2, 3], .written [1]]) := by
    simp [connectionMachine, LoopStep.run, TcpConnection.sendInLoop, hstate, hout, hw,
      TcpConnection.directWrite, TcpConnection.bufferRemaining, hhw, assert]
  have hen : connectionMachine.enabled (c, [.connectionCallback .kConnected])
      (.sendInLoop [1, 2, 3] (.ok 1)) := show 1 ≤ 3 by decide
  have hs := hreach.step hen hexec
  have hstate' : (c.bufferRemaining [1, 2, 3] 1).1.state = .kConnected := hstate
  obtain ⟨hstream, hwatched⟩ := (outputStream_integrity hs).1 (by rw [hstate']; decide)
  exact ⟨_, hs, hstate', rfl, hstream, TcpConnection.isWriting_bufferRemaining ..⟩

end Muduo.Net
