import Muduo.Net.ConnectionThreads
import Muduo.Net.TcpConnectionState

/-! # A closed connection and its channel

A connection that has been closed watches nothing and, once `connectDestroyed` has run, is not known to the
poller, unless user code reaches the channel again. `send`, `shutdown` and `forceClose` test `state_` and do
nothing then. `startRead` and `stopRead` do not test it: the one makes a closed connection watch for input,
and the other registers the channel once more, because `reading_` is still set. A thread that tested `state_`
before the connection closed stores `kDisconnecting` after it. `Discreet` are the steps without these.

What the poller tells the channel is not restricted. A hangup or the end of the input that reaches a closed
connection fails the assertion of `handleClose`, which is the only one that can fail in discreet steps. -/

namespace Muduo.Net

open Support TcpConnection

namespace Channel

variable {c : Channel}

/-- A channel that watches nothing is not reading. -/
theorem isReading_of_isNoneEvent (h : c.isNoneEvent = true) : c.isReading = false := by
  cases hr : c.isReading with
  | false => rfl
  | true =>
      rw [c.isNoneEvent_of_isReading hr] at h
      cases h

/-- Such a channel still watches nothing after `disableReading`. -/
theorem isNoneEvent_disableReading (h : c.isNoneEvent = true) : c.disableReading.isNoneEvent = true := by
  rw [isNoneEvent, beq_iff_eq] at h
  rw [isNoneEvent, disableReading, update, h]
  rfl

end Channel

namespace TcpConnection

/-- Established and not closed. -/
def Live (c : TcpConnection) : Prop := c.state = .kConnected ∨ c.state = .kDisconnecting

/-- Closed, with a channel that watches nothing. -/
structure Deregistered (c : TcpConnection) : Prop where
  state : c.state = .kDisconnected
  events : c.channel.isNoneEvent = true

variable {c : TcpConnection}

/-- An established connection is not closed. -/
theorem Live.ne_closed (h : c.Live) : c.state ≠ .kDisconnected := by
  rcases h with hs | hs <;> rw [hs] <;> decide

/-- A calm function leaves the connection established. -/
theorem Calm.live {c' : TcpConnection} {evs : List Event} (hcalm : Calm c c' evs) (h : c.Live) : c'.Live := by
  rcases hcalm.state with hs | ⟨-, hs⟩
  · rcases h with hc | hc
    · exact .inl (hs.trans hc)
    · exact .inr (hs.trans hc)
  · exact .inr hs

/-- A calm function leaves a closed connection deregistered. -/
theorem Calm.deregistered {c' : TcpConnection} {evs : List Event} (hcalm : Calm c c' evs)
    (h : c.Deregistered) : c'.Deregistered :=
  ⟨hcalm.state_closed h.state, by rw [hcalm.closed h.state]; exact h.events⟩

/-! ## What user code calls -/

/-- No call closes a connection at once. -/
theorem call_live (h : c.Live) (call : UserCall) : (c.call true call).Sat fun r => r.1.Live := by
  by_cases hlife : LifeCall call
  · exact (call_calm c true hlife).mono fun r hr => hr.live h
  · cases call with
    | startRead =>
        refine .ok ?_
        rw [if_pos rfl, startReadInLoop]
        split
        · exact h
        · exact h
    | stopRead =>
        refine .ok ?_
        rw [if_pos rfl, stopReadInLoop]
        split
        · exact h
        · exact h
    | _ => exact absurd trivial hlife

/-- User code leaves the connection established. -/
theorem runCallback_live (h : c.Live) (calls : List UserCall) :
    (c.runCallback calls).Sat fun r => r.1.Live := by
  induction calls generalizing c with
  | nil => exact .ok h
  | cons call calls ih => exact (call_live h call).bind fun r hr => (ih hr).bind fun r' hr' => .ok hr'

/-- On a closed connection `stopRead` clears `reading_`, for which it announces the channel to the loop. The
other calls but `startRead` do nothing. -/
theorem call_deregistered (h : c.Deregistered) {call : UserCall} (hcall : call ≠ .startRead) :
    (c.call true call).Sat fun r =>
      r.1.Deregistered ∧ ((call = .stopRead → c.reading = false) → r.1 = c) := by
  cases call with
  | startRead => exact absurd rfl hcall
  | stopRead =>
      refine .ok ?_
      rw [if_pos rfl, stopReadInLoop, Channel.isReading_of_isNoneEvent h.events]
      cases hreading : c.reading with
      | true =>
          rw [if_pos (.inl rfl)]
          exact ⟨⟨h.state, Channel.isNoneEvent_disableReading h.events⟩, fun hstop => nomatch hstop rfl⟩
      | false =>
          rw [if_neg (by decide)]
          exact ⟨h, fun _ => rfl⟩
  | send _ _ | shutdown | forceClose | forceCloseWithDelay =>
      rw [call_idle true (by exact trivial) (.inr h.state)]
      exact .ok ⟨h, fun _ => rfl⟩

/-- User code that does not start to read leaves it deregistered. -/
theorem runCallback_deregistered (h : c.Deregistered) {calls : List UserCall} (hcalls : .startRead ∉ calls) :
    (c.runCallback calls).Sat fun r =>
      r.1.Deregistered ∧ ((.stopRead ∈ calls → c.reading = false) → r.1 = c) := by
  induction calls generalizing c with
  | nil => exact .ok ⟨h, fun _ => rfl⟩
  | cons call calls ih =>
      rw [List.mem_cons, not_or] at hcalls
      refine (call_deregistered h (Ne.symm hcalls.1)).bind fun r ⟨hd, hsame⟩ => ?_
      refine (ih hd hcalls.2).bind fun r' ⟨hd', hsame'⟩ => .ok ⟨hd', fun hstop => ?_⟩
      have hr : r.1 = c := hsame fun heq => hstop (heq ▸ List.mem_cons_self ..)
      rw [← hr]
      exact hsame' fun hmem => hr ▸ hstop (List.mem_cons_of_mem _ hmem)

/-! ## Closing -/

/-- A closed connection is not closed again. -/
theorem handleClose_of_closed (h : c.state = .kDisconnected) (callback : List UserCall) :
    c.handleClose callback = .error "state_ == kConnected || state_ == kDisconnecting" := by
  rw [handleClose, assert_neg (by rw [h]; decide)]
  rfl

/-- What is left of a connection that is closed: the callback that reports it may do anything but start to
read. -/
theorem handleClose_deregistered (h : c.Live) {callback : List UserCall} (hcalls : .startRead ∉ callback) :
    (c.handleClose callback).Sat fun r => r.1.Deregistered := by
  have hclosed : Deregistered { c with state := .kDisconnected, channel := c.channel.disableAll } :=
    ⟨rfl, rfl⟩
  exact .assert h ((runCallback_deregistered hclosed hcalls).bind fun r hr => .ok hr.1)

/-- A closed connection can be removed from the poller. -/
theorem remove_deregistered (h : c.Deregistered) :
    (c.channel.remove).Sat fun ch => Deregistered { c with channel := ch } ∧ ch.addedToLoop = false :=
  .assert h.events (.ok ⟨⟨h.state, h.events⟩, rfl⟩)

/-- The callback that reports the disconnection runs before the channel is removed; it may call `stopRead`. -/
theorem connectDestroyed_deregistered {callback : List UserCall}
    (h : c.state = .kConnected ∧ .startRead ∉ callback ∨ c.Deregistered) :
    (c.connectDestroyed callback).Sat fun r => r.1.Deregistered ∧ r.1.channel.addedToLoop = false := by
  rcases h with ⟨hstate, hcalls⟩ | hd
  · rw [connectDestroyed, if_pos hstate]
    have hclosed : Deregistered { c with state := .kDisconnected, channel := c.channel.disableAll } :=
      ⟨rfl, rfl⟩
    refine (runCallback_deregistered hclosed hcalls).bind fun r hr => ?_
    exact (remove_deregistered hr.1).bind fun ch hch => .ok hch
  · rw [connectDestroyed_other (by rw [hd.state]; decide)]
    exact (remove_deregistered hd).bind fun ch hch => .ok hch

end TcpConnection

/-! ## With the loop and the other threads -/

/-- The calls of user code that take effect when a functor runs; `callback` is what a callback on the way
does. -/
def Functor.userCalls (callback : List UserCall) : Functor → List UserCall
  | .startReadInLoop => [.startRead]
  | .stopReadInLoop => [.stopRead]
  | .forceCloseInLoop | .writeComplete | .highWaterMark _ => callback
  | .sendInLoop _ | .shutdownInLoop => []

namespace ThreadedConnection

variable {T : Type} (s : ThreadedConnection T)

/-- The calls of user code that take effect with a step. -/
def userCalls : ThreadedStep T → List UserCall
  | .runFunctor callback _ => (s.queue.head?.map (Functor.userCalls callback)).getD []
  | .handleRead _ callback _ | .handleClose callback | .connectDestroyed callback => callback
  | .loopCall c => [c]
  | .handleWrite _ | .call _ _ | .store _ | .queue _ => []

/-- The step closes the connection. -/
def Closes : ThreadedStep T → Prop
  | .runFunctor _ _ => s.queue.head? = some .forceCloseInLoop ∧ s.conn.Live
  | .handleRead res _ _ => res = .ok []
  | .handleClose _ => True
  | .connectDestroyed _ => s.conn.state = .kConnected
  | .handleWrite _ | .loopCall _ | .call _ _ | .store _ | .queue _ => False

/-- The connection is told of a hangup or of the end of the input, upon which it is to be closed. -/
def HangsUp : ThreadedStep T → Prop
  | .handleRead res _ _ => res = .ok []
  | .handleClose _ => True
  | _ => False

/-- A step that lets a closed connection be. -/
structure Discreet (a : ThreadedStep T) : Prop where
  /-- No `startRead` takes effect while the connection is closed, nor in the callback that reports it. -/
  startRead : s.conn.state = .kDisconnected ∨ s.Closes a → .startRead ∉ s.userCalls a
  /-- After `connectDestroyed` no `stopRead` takes effect, unless reading was stopped before. -/
  stopRead : s.destroyed = true → s.conn.reading = true → .stopRead ∉ s.userCalls a
  /-- When the connection closes, no thread is in `shutdown` or `forceClose` between its test and its store. -/
  storing : s.Closes a → ∀ t f, s.threads t ≠ .storing f
  /-- `connectDestroyed` does not come between a request to close and the close. -/
  destroy : ∀ callback, a = .connectDestroyed callback → s.conn.state ≠ .kDisconnecting

/-- A closed connection watches nothing, no thread is about to change its state, and when it is destroyed the
poller does not know it. -/
structure ClosedInv : Prop where
  conn : s.conn.Live ∨ s.conn.Deregistered
  storing : s.conn.state = .kDisconnected → ∀ t f, s.threads t ≠ .storing f
  destroyed : s.destroyed = true → s.conn.state = .kDisconnected ∧ s.conn.channel.addedToLoop = false

end ThreadedConnection

/-- Any run of an established connection in discreet steps, over any kernel. -/
def discreetConnection (T : Type) [DecidableEq T] : Machine (ThreadedConnection T) (ThreadedStep T) :=
  (threadedConnection T fun _ _ => True).restrict fun s a => s.Discreet a

namespace ThreadedConnection

variable {T : Type} {s : ThreadedConnection T}

/-- What a function of the loop thread makes of the connection. -/
inductive Settles (s : ThreadedConnection T) (c : TcpConnection) : Prop where
  | live (h : s.conn.Live) (h' : c.Live)
  | closes (h' : c.Deregistered) (hstoring : ∀ t f, s.threads t ≠ .storing f)
      (hdestroyed : s.destroyed = false)
  | closed (h : s.conn.Deregistered) (h' : c.Deregistered)
      (hchannel : s.destroyed = true → c.channel = s.conn.channel)

/-- A connection that is not closed is established. -/
theorem ClosedInv.live_of_ne (h : s.ClosedInv) (hstate : s.conn.state ≠ .kDisconnected) : s.conn.Live := by
  rcases h.conn with hlive | hd
  · exact hlive
  · exact absurd hd.state hstate

/-- An established connection is not destroyed. -/
theorem ClosedInv.not_destroyed (h : s.ClosedInv) (hlive : s.conn.Live) : s.destroyed = false := by
  cases hd : s.destroyed with
  | false => rfl
  | true => exact absurd (h.destroyed hd).1 hlive.ne_closed

/-- A calm function settles. -/
theorem Settles.of_calm (h : s.ClosedInv) {r : Outcome} (hcalm : Calm s.conn r.1 r.2) : Settles s r.1 := by
  rcases h.conn with hlive | hd
  · exact .live hlive (hcalm.live hlive)
  · exact .closed hd (hcalm.deregistered hd) fun _ => hcalm.closed hd.state

/-- A callback of the user. It may be run after a change of the input buffer. -/
theorem runCallback_settles (h : s.ClosedInv) {c : TcpConnection} (hstate : c.state = s.conn.state)
    (hchannel : c.channel = s.conn.channel) (hreading : c.reading = s.conn.reading) {callback : List UserCall}
    (hstart : s.conn.state = .kDisconnected → .startRead ∉ callback)
    (hstop : s.destroyed = true → s.conn.reading = true → .stopRead ∉ callback) :
    (c.runCallback callback).Sat fun r => Settles s r.1 := by
  rcases h.conn with hlive | hd
  · have hlive' : c.Live := by
      rw [Live, hstate]
      exact hlive
    exact (runCallback_live hlive' callback).mono fun r hr => .live hlive hr
  · have hd' : c.Deregistered := ⟨hstate.trans hd.state, by rw [hchannel]; exact hd.events⟩
    refine (runCallback_deregistered hd' (hstart hd.state)).mono fun r hr => ?_
    refine .closed hd hr.1 fun hdestroyed => ?_
    have hsame : r.1 = c := hr.2 fun hmem => by
      cases hc : c.reading with
      | false => rfl
      | true => exact absurd hmem (hstop hdestroyed (hreading.symm.trans hc))
    rw [hsame, hchannel]

/-- `handleClose` deregisters the connection. -/
theorem handleClose_settles (h : s.ClosedInv) (hlive : s.conn.Live) {callback : List UserCall}
    (hstart : .startRead ∉ callback) (hstoring : ∀ t f, s.threads t ≠ .storing f) :
    (s.conn.handleClose callback).Sat fun r => Settles s r.1 :=
  (handleClose_deregistered hlive hstart).mono fun _ hr => .closes hr hstoring (h.not_destroyed hlive)

/-- `handleRead` settles. -/
theorem handleRead_settles (h : s.ClosedInv) {res : Buffer.ReadResult} {callback : List UserCall}
    {unread : ByteQueue → ByteQueue} (hopen : res = .ok [] → s.conn.state ≠ .kDisconnected)
    (ha : s.Discreet (.handleRead res callback unread)) :
    (s.conn.handleRead res callback unread).Sat fun r => Settles s r.1 := by
  match res, hopen, ha with
  | .ok [], hopen, ha =>
      exact handleClose_settles h (h.live_of_ne (hopen rfl)) (ha.startRead (.inr rfl)) (ha.storing rfl)
  | .ok (b :: data), _, ha =>
      let c := { s.conn with inputBuffer := s.conn.inputBuffer.readFd (b :: data) }
      have hcallback : (c.runCallback callback).Sat fun r => Settles s r.1 :=
        runCallback_settles h (c := c) rfl rfl rfl (fun hs => ha.startRead (.inl hs)) ha.stopRead
      refine hcallback.bind fun r hr => .ok ?_
      cases hr with
      | live hlive hlive' => exact .live hlive hlive'
      | closes hd hstoring hdestroyed => exact .closes ⟨hd.state, hd.events⟩ hstoring hdestroyed
      | closed hd hd' hchannel => exact .closed hd ⟨hd'.state, hd'.events⟩ hchannel
  | .error _, _, _ => exact .ok (.of_calm h (r := (s.conn, [])) (.refl _))

/-- `handleWrite` settles. -/
theorem handleWrite_settles (h : s.ClosedInv) {res : WriteResult}
    (hres : ∀ n, res = .ok n → n ≤ s.conn.outputBuffer.content.length) :
    (s.conn.handleWrite res).Sat fun r => Settles s r.1 := by
  rcases h.conn with hlive | hd
  · exact (handleWrite_calm s.conn hlive.ne_closed hres).mono fun r hr => .of_calm h hr
  · rw [handleWrite_idle (Channel.isWriting_of_isNoneEvent _ hd.events)]
    exact .ok (.closed hd hd fun _ => rfl)

/-- A functor runs; the calls that take effect with it are as in a callback. -/
theorem runFunctor_settles (h : s.ClosedInv) {f : Functor} {queue : List Functor}
    (hqueue : s.queue = f :: queue) {callback : List UserCall} {res : WriteResult}
    (ha : s.Discreet (.runFunctor callback res)) :
    (s.conn.runFunctor callback res f).Sat fun r => Settles s r.1 := by
  have hcalls : s.userCalls (.runFunctor callback res) = f.userCalls callback := by
    rw [userCalls, hqueue]
    rfl
  have hstart := ha.startRead
  have hstop := ha.stopRead
  rw [hcalls] at hstart hstop
  cases f with
  | sendInLoop message => exact (sendInLoop_calm _ message res).mono fun r hr => .of_calm h hr
  | shutdownInLoop => exact .ok (.of_calm h (shutdownInLoop_calm _))
  | forceCloseInLoop =>
      by_cases hlive : s.conn.Live
      · have hcloses : s.Closes (.runFunctor callback res) := ⟨by rw [hqueue]; rfl, hlive⟩
        change (s.conn.forceCloseInLoop callback).Sat _
        rw [forceCloseInLoop, if_pos (by exact hlive)]
        exact handleClose_settles h hlive (hstart (.inr hcloses)) (ha.storing hcloses)
      · have hd := h.conn.resolve_left hlive
        change (s.conn.forceCloseInLoop callback).Sat _
        rw [forceCloseInLoop_closed callback hd.state]
        exact .ok (.closed hd hd fun _ => rfl)
  | writeComplete => exact runCallback_settles h rfl rfl rfl (fun hs => hstart (.inl hs)) hstop
  | highWaterMark _ => exact runCallback_settles h rfl rfl rfl (fun hs => hstart (.inl hs)) hstop
  | startReadInLoop =>
      have hcall : (s.conn.runCallback [.startRead]).Sat fun r => Settles s r.1 :=
        runCallback_settles h rfl rfl rfl (fun hs => hstart (.inl hs)) hstop
      exact .ok (hcall.of_eq_ok rfl)
  | stopReadInLoop =>
      have hcall : (s.conn.runCallback [.stopRead]).Sat fun r => Settles s r.1 :=
        runCallback_settles h rfl rfl rfl (fun hs => hstart (.inl hs)) hstop
      exact .ok (hcall.of_eq_ok rfl)

/-! ### The invariant -/

/-- What a function of the loop thread leaves behind. -/
theorem Settles.inv (h : s.ClosedInv) {t : ThreadedConnection T} (hc : Settles s t.conn)
    (hthreads : t.threads = s.threads) (hdestroyed : t.destroyed = s.destroyed) :
    t.ClosedInv ∧ (s.conn.state = .kDisconnected → t.conn.state = .kDisconnected) := by
  cases hc with
  | live hlive hlive' =>
      refine ⟨⟨.inl hlive', (absurd · hlive'.ne_closed), fun hd => ?_⟩, (absurd · hlive.ne_closed)⟩
      rw [hdestroyed, h.not_destroyed hlive] at hd
      cases hd
  | closes hd hstoring halive =>
      refine ⟨⟨.inr hd, fun _ => hthreads ▸ hstoring, fun hd' => ?_⟩, fun _ => hd.state⟩
      rw [hdestroyed, halive] at hd'
      cases hd'
  | closed hd hd' hchannel =>
      refine ⟨⟨.inr hd', fun _ => hthreads ▸ h.storing hd.state, fun hgone => ⟨hd'.state, ?_⟩⟩,
        fun _ => hd'.state⟩
      rw [hdestroyed] at hgone
      rw [hchannel hgone]
      exact (h.destroyed hgone).2

/-- On a closed connection no call of another thread gets past its test. -/
theorem firstStep_ne_storing {c : TcpConnection} (h : c.state = .kDisconnected) (call : UserCall)
    (f : Functor) : c.firstStep call ≠ .storing f := by
  cases call with
  | send _ _ | shutdown | forceClose => simp [firstStep, h]
  | forceCloseWithDelay | startRead | stopRead => nofun

variable [DecidableEq T]

/-- A discreet step fails no assertion, keeps the invariant and leaves a closed connection closed, unless it
is a hangup that comes too late. -/
theorem ClosedInv.step (h : s.ClosedInv) {a : ThreadedStep T} (ha : s.Enabled (fun _ _ => True) a)
    (hquiet : s.Discreet a) (hopen : HangsUp a → s.conn.state ≠ .kDisconnected) :
    (s.exec a).Sat fun t =>
      t.ClosedInv ∧ (s.conn.state = .kDisconnected → t.conn.state = .kDisconnected) := by
  cases a with
  | runFunctor callback res =>
      change (s.runFunctor callback res).Sat _
      unfold ThreadedConnection.runFunctor
      split
      · exact .ok ⟨h, id⟩
      · next f queue hqueue =>
          exact (runFunctor_settles h hqueue hquiet).bind fun r hr => .ok (hr.inv h rfl rfl)
  | handleRead res callback unread =>
      exact (handleRead_settles h hopen hquiet).bind fun r hr => .ok (hr.inv h rfl rfl)
  | handleWrite res => exact (handleWrite_settles h ha.1).bind fun r hr => .ok (hr.inv h rfl rfl)
  | handleClose callback =>
      have hlive := h.live_of_ne (hopen trivial)
      exact (handleClose_settles h hlive (hquiet.startRead (.inr trivial)) (hquiet.storing trivial)).bind
        fun r hr => .ok (hr.inv h rfl rfl)
  | connectDestroyed callback =>
      have hopen : s.conn.state = .kConnected ∧ .startRead ∉ callback ∨ s.conn.Deregistered := by
        rcases h.conn with (hs | hs) | hd
        · exact .inl ⟨hs, hquiet.startRead (.inr hs)⟩
        · exact absurd hs (hquiet.destroy callback rfl)
        · exact .inr hd
      have hstoring : ∀ t f, s.threads t ≠ .storing f := by
        rcases hopen with ⟨hs, -⟩ | hd
        · exact hquiet.storing hs
        · exact h.storing hd.state
      refine (connectDestroyed_deregistered hopen).bind fun r hr => .ok ?_
      exact ⟨⟨.inr hr.1, fun _ => hstoring, fun _ => ⟨hr.1.state, hr.2⟩⟩, fun _ => hr.1.state⟩
  | loopCall c =>
      have hcall : (s.conn.runCallback [c]).Sat fun r => Settles s r.1 :=
        runCallback_settles h rfl rfl rfl (fun hs => hquiet.startRead (.inl hs)) hquiet.stopRead
      rw [runCallback_singleton] at hcall
      exact hcall.bind fun r hr => .ok (hr.inv h rfl rfl)
  | call k c =>
      refine .ok ⟨⟨h.conn, fun hs => ?_, h.destroyed⟩, id⟩
      exact setThread_forall (P := fun pc => ∀ f, pc ≠ .storing f) (h.storing hs) (firstStep_ne_storing hs c)
  | store k =>
      obtain ⟨f, hf⟩ := ha
      have hlive := h.live_of_ne fun hs => h.storing hs k f hf
      refine .ok ?_
      rw [ThreadedConnection.store, hf]
      refine ⟨⟨.inl (.inr rfl), nofun, fun hd => ?_⟩, (absurd · hlive.ne_closed)⟩
      cases (h.not_destroyed hlive).symm.trans hd
  | queue k =>
      obtain ⟨f, hf⟩ := ha
      refine .ok ?_
      rw [ThreadedConnection.queueFunctor, hf]
      refine ⟨⟨h.conn, fun hs => ?_, h.destroyed⟩, id⟩
      exact setThread_forall (P := fun pc => ∀ f, pc ≠ .storing f) (h.storing hs) nofun

/-- A hangup that reaches a closed connection fails an assertion. -/
theorem exec_of_hangsUp {a : ThreadedStep T} (ha : HangsUp a) (hclosed : s.conn.state = .kDisconnected) :
    s.exec a = .error "state_ == kConnected || state_ == kDisconnecting" := by
  cases a with
  | handleRead res callback unread =>
      cases ha
      change (do return s.after false (← s.conn.handleClose callback)) = _
      rw [handleClose_of_closed hclosed]
      rfl
  | handleClose callback =>
      change (do return s.after false (← s.conn.handleClose callback)) = _
      rw [handleClose_of_closed hclosed]
      rfl
  | _ => exact ha.elim

/-- A discreet step that succeeds keeps the invariant and leaves a closed connection closed. -/
theorem ClosedInv.step_of_ok (h : s.ClosedInv) {a : ThreadedStep T} (ha : (discreetConnection T).enabled s a)
    {t : ThreadedConnection T} (ht : (discreetConnection T).exec s a = .ok t) :
    t.ClosedInv ∧ (s.conn.state = .kDisconnected → t.conn.state = .kDisconnected) := by
  refine (h.step ha.1 ha.2 fun hup hclosed => ?_).of_eq_ok ht
  cases (exec_of_hangsUp hup hclosed).symm.trans ht

/-- The invariant holds all along a run. -/
theorem ClosedInv.of_reachable (hs : (discreetConnection T).Reachable s) : s.ClosedInv := by
  refine hs.induction ?_ fun s a t h ha ht => (h.step_of_ok ha ht).1
  rintro s ⟨c, -, rfl⟩
  exact ⟨.inl (.inl rfl), nofun, nofun⟩

end ThreadedConnection

open ThreadedConnection

/-- In discreet steps no assertion fails, `isNoneEvent()` in `Channel::remove` among them, but that of
`handleClose` when a hangup or the end of the input reaches a closed connection; a closed connection stays
closed and watches nothing; and a destroyed one is not known to the poller. -/
theorem closed_stays_deregistered {T : Type} [DecidableEq T] {s : ThreadedConnection T}
    (hs : (discreetConnection T).Reachable s) :
    (∀ a, (discreetConnection T).enabled s a →
      ((∃ t, s.exec a = .ok t) ↔ ¬ (HangsUp a ∧ s.conn.state = .kDisconnected))) ∧
    (s.conn.state = .kDisconnected → ∀ as t, (discreetConnection T).Run s as t →
      t.conn.state = .kDisconnected ∧ t.conn.channel.isNoneEvent = true) ∧
    (s.destroyed = true → s.conn.channel.addedToLoop = false) := by
  have hinv := ClosedInv.of_reachable hs
  refine ⟨fun a ha => ⟨?_, fun hno => ?_⟩, fun hclosed as t hrun => ?_, fun hd => (hinv.destroyed hd).2⟩
  · rintro ⟨t, ht⟩ ⟨hup, hclosed⟩
    cases (exec_of_hangsUp hup hclosed).symm.trans ht
  · obtain ⟨t, ht, -⟩ := hinv.step ha.1 ha.2 fun hup hclosed => hno ⟨hup, hclosed⟩
    exact ⟨t, ht⟩
  have hend : t.ClosedInv ∧ t.conn.state = .kDisconnected := by
    refine hrun.induction (P := fun t => t.ClosedInv ∧ t.conn.state = .kDisconnected) ?_ ⟨hinv, hclosed⟩
    exact fun s a t h ha ht => ⟨(h.1.step_of_ok ha ht).1, (h.1.step_of_ok ha ht).2 h.2⟩
  rcases hend.1.conn with hlive | hd
  · exact absurd hend.2 hlive.ne_closed
  · exact ⟨hd.state, hd.events⟩

/-- The callback that reports the disconnection stops reading, and the user does so again after
`connectDestroyed`; all the same `connectDestroyed` goes through and the channel stays away from the poller. -/
theorem closed_stays_deregistered_stopRead : ∃ s t : ThreadedConnection Unit,
    (discreetConnection Unit).Reachable s ∧ s.conn.state = .kDisconnected ∧ s.destroyed = false ∧
    (∃ u, s.exec (.connectDestroyed []) = .ok u) ∧
    (discreetConnection Unit).Reachable t ∧ t.destroyed = true ∧
    t.conn.channel.isNoneEvent = true ∧ t.conn.channel.addedToLoop = false := by
  have hfresh : (TcpConnection.new false false).Fresh := ⟨rfl, rfl, ByteQueue.content_new⟩
  have hinit : (discreetConnection Unit).Reachable (established (.new false false)) :=
    .of_init ⟨_, hfresh, rfl⟩
  have hs : (discreetConnection Unit).Reachable _ :=
    hinit.step (a := ThreadedStep.handleClose [.stopRead])
      ⟨List.forall_mem_singleton.mpr trivial, fun _ => by simp [userCalls], nofun, fun _ _ _ => nofun,
        nofun⟩ rfl
  have hdestroyed : (discreetConnection Unit).Reachable _ :=
    hs.step (a := ThreadedStep.connectDestroyed [])
      ⟨⟨by simp, rfl⟩, fun _ => by simp [userCalls], nofun, fun _ _ _ => nofun, fun _ _ => nofun⟩ rfl
  have ht : (discreetConnection Unit).Reachable _ :=
    hdestroyed.step (a := ThreadedStep.loopCall .stopRead)
      ⟨trivial, fun _ => by simp [userCalls], nofun, nofun, nofun⟩ rfl
  obtain ⟨hsafe, -, -⟩ := closed_stays_deregistered hs
  obtain ⟨-, hnone, hremoved⟩ := closed_stays_deregistered ht
  refine ⟨_, _, hs, rfl, rfl, (hsafe (.connectDestroyed []) ?_).mpr fun hup => hup.1, ht, rfl,
    (hnone rfl [] _ (.nil _)).2, hremoved rfl⟩
  exact ⟨⟨by simp, rfl⟩, fun _ => by simp [userCalls], nofun, fun _ _ _ => nofun, fun _ _ => nofun⟩

/-- A `startRead` in the callback that reports the disconnection makes the channel watch for input again, and
`connectDestroyed` fails its assertion. A `stopRead` after `connectDestroyed` registers the channel again. -/
theorem closed_registers_again :
    (∃ s : ThreadedConnection Unit, (threadedConnection Unit fun _ _ => True).Reachable s ∧
      s.conn.state = .kDisconnected ∧ s.conn.channel.isNoneEvent = false ∧
      s.Enabled (fun _ _ => True) (.connectDestroyed []) ∧
      s.exec (.connectDestroyed []) = .error "isNoneEvent()") ∧
    (∃ s : ThreadedConnection Unit, (threadedConnection Unit fun _ _ => True).Reachable s ∧
      s.destroyed = true ∧ s.conn.channel.addedToLoop = true) := by
  have hfresh : (TcpConnection.new false false).Fresh := ⟨rfl, rfl, ByteQueue.content_new⟩
  have hinit : (threadedConnection Unit fun _ _ => True).Reachable (established (.new false false)) :=
    .of_init ⟨_, hfresh, rfl⟩
  constructor
  · have hclosed : (threadedConnection Unit fun _ _ => True).Reachable _ :=
      hinit.step (a := ThreadedStep.handleClose [.startRead]) (List.forall_mem_singleton.mpr trivial) rfl
    exact ⟨_, hclosed, rfl, rfl, ⟨by simp, rfl⟩, rfl⟩
  · have hclosed : (threadedConnection Unit fun _ _ => True).Reachable _ :=
      hinit.step (a := ThreadedStep.handleClose []) (List.forall_mem_nil _) rfl
    have hdestroyed : (threadedConnection Unit fun _ _ => True).Reachable _ :=
      hclosed.step (a := ThreadedStep.connectDestroyed []) ⟨by simp, rfl⟩ rfl
    have hstopped : (threadedConnection Unit fun _ _ => True).Reachable _ :=
      hdestroyed.step (a := ThreadedStep.loopCall .stopRead) trivial rfl
    exact ⟨_, hstopped, rfl, rfl⟩

end Muduo.Net
