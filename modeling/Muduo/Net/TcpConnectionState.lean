import Muduo.Net.TcpConnection

/-! # How the state of a connection moves

Establishing and closing are the only functions of `TcpConnection` that make a callback about the
state; every other one is `Calm`: it leaves the state alone, or at most turns `kConnected` into
`kDisconnecting` on request, and keeps the interest in reading. Calls made before a connection is
established or after it is closed do nothing. -/

namespace Muduo.Net

open Support

/-- Whether an event is neither a callback about the state nor a request to change the interest in
reading. -/
def Event.isQuiet : Event → Bool
  | .connectionCallback _ | .closeCallback => false
  | .queued .startReadInLoop | .queued .stopReadInLoop => false
  | _ => true

/-- The events of a `write`. -/
theorem Event.forall_write {P : Event → Prop} (hwritten : ∀ bytes, P (.written bytes))
    (hcomplete : P (.queued .writeComplete)) (bytes : List Byte) (p : Prop) [Decidable p] :
    ∀ e ∈ Event.written bytes :: if p then [.queued .writeComplete] else [], P e := by
  split <;> simp [hwritten, hcomplete]

namespace TcpConnection

/-- From `c` to `c'`, with the events `evs`, nothing was established or closed. -/
structure Calm (c c' : TcpConnection) (evs : List Event) : Prop where
  state : c'.state = c.state ∨ (c.state = .kConnected ∧ c'.state = .kDisconnecting)
  reading : c'.channel.isReading = c.channel.isReading
  closed : c.state = .kDisconnected → c'.channel = c.channel
  quiet : ∀ e ∈ evs, e.isQuiet = true

/-- The calls considered here: everything but `startRead` and `stopRead`. -/
def LifeCall : UserCall → Prop
  | .startRead | .stopRead => False
  | _ => True

variable {c : TcpConnection}

/-- Doing nothing is calm. -/
theorem Calm.refl (c : TcpConnection) : Calm c c [] := ⟨.inl rfl, rfl, fun _ => rfl, by simp⟩

/-- A change of the buffers alone is calm. -/
theorem Calm.of_eq {c' : TcpConnection} {evs : List Event} (hstate : c'.state = c.state)
    (hchannel : c'.channel = c.channel) (hevs : ∀ e ∈ evs, e.isQuiet = true) :
    Calm c c' evs := ⟨.inl hstate, by rw [hchannel], fun _ => hchannel, hevs⟩

/-- One calm function after the other. -/
theorem Calm.trans {c' c'' : TcpConnection} {evs evs' : List Event} (h : Calm c c' evs)
    (h' : Calm c' c'' evs') : Calm c c'' (evs ++ evs') := by
  refine ⟨?_, h'.reading.trans h.reading, fun hd => ?_, fun e he => ?_⟩
  · rcases h.state with hs | ⟨hs, hs'⟩
    · rw [← hs]
      exact h'.state
    · rcases h'.state with ht | ⟨ht, -⟩
      · exact .inr ⟨hs, ht.trans hs'⟩
      · -- a connection that is closing cannot be asked to close again
        rw [hs'] at ht
        cases ht
  · rcases h.state with hs | ⟨hs, -⟩
    · rw [h'.closed (hs.trans hd), h.closed hd]
    · rw [hd] at hs
      cases hs
  · rcases List.mem_append.mp he with he | he
    · exact h.quiet e he
    · exact h'.quiet e he

/-- What is closed stays closed. -/
theorem Calm.state_closed {c' : TcpConnection} {evs : List Event} (h : Calm c c' evs)
    (hd : c.state = .kDisconnected) : c'.state = .kDisconnected := by
  rcases h.state with hs | ⟨hs, -⟩
  · exact hs.trans hd
  · rw [hd] at hs
    cases hs

/-- The events of the direct write are those of a `write`. -/
theorem forall_directWrite {P : Event → Prop} (hwritten : ∀ bytes, P (.written bytes))
    (hcomplete : P (.queued .writeComplete)) (c : TcpConnection) (data : List Byte) (res : WriteResult) :
    ∀ e ∈ (c.directWrite data res).2.2, P e := by
  intro e he
  unfold directWrite at he
  split at he
  · cases res with
    | ok n => exact Event.forall_write hwritten hcomplete _ _ e he
    | error errno => cases he
  · cases he

/-- The tail of `sendInLoop` is calm on a connection that is not closed. -/
theorem bufferRemaining_calm (hstate : c.state ≠ .kDisconnected) (data : List Byte) (nwrote : Nat) :
    Calm c (c.bufferRemaining data nwrote).1 (c.bufferRemaining data nwrote).2 := by
  unfold bufferRemaining
  refine ⟨.inl rfl, ?_, fun hd => absurd hd hstate, fun e he => ?_⟩
  · dsimp only
    split
    · rfl
    · exact Channel.isReading_enableWriting _
  · dsimp only at he
    split at he
    · rw [List.mem_singleton.mp he]
      rfl
    · cases he

/-- `sendInLoop` is calm. -/
theorem sendInLoop_calm (c : TcpConnection) (data : List Byte) (res : WriteResult) :
    (c.sendInLoop data res).Sat fun r => Calm c r.1 r.2 := by
  unfold sendInLoop
  by_cases hstate : c.state = .kDisconnected
  · rw [if_pos hstate]
    exact .ok (.of_eq rfl rfl (by simp [Event.isQuiet]))
  rw [if_neg hstate]
  have hevs := forall_directWrite (P := fun e => e.isQuiet = true) (fun _ => rfl) rfl c data res
  revert hevs
  obtain ⟨nwrote, fault, events⟩ := c.directWrite data res
  intro hevs
  have hhead : Calm c c (.sendInLoop data :: events) := by
    refine .of_eq rfl rfl fun e he => ?_
    rcases List.mem_cons.mp he with rfl | he
    · rfl
    · exact hevs e he
  refine Checked.Sat.assert (Nat.sub_le _ _) ?_
  split
  · exact .ok (hhead.trans (bufferRemaining_calm hstate data nwrote))
  · exact .ok hhead

/-- `shutdownInLoop` is calm. -/
theorem shutdownInLoop_calm (c : TcpConnection) : Calm c c.shutdownInLoop.1 c.shutdownInLoop.2 := by
  refine .of_eq rfl rfl fun e he => ?_
  simp only [shutdownInLoop] at he
  split at he
  · cases he
  · rw [List.mem_singleton.mp he]
    rfl

/-- `handleWrite` is calm. -/
theorem handleWrite_calm (c : TcpConnection) {res : WriteResult} (hopen : c.state ≠ .kDisconnected)
    (hres : ∀ n, res = .ok n → n ≤ c.outputBuffer.content.length) :
    (c.handleWrite res).Sat fun r => Calm c r.1 r.2 := by
  unfold handleWrite
  split
  · match res, hres with
    | .error _, _ => exact .ok (.refl c)
    | .ok 0, _ => exact .ok (.refl c)
    | .ok (n + 1), hn =>
      refine (c.outputBuffer.retrieve_sat (hn _ rfl)).bind fun out _ => ?_
      -- the channel stops watching for room to write, which is no matter of reading
      have hdrained : Calm c { c with outputBuffer := out, channel := c.channel.disableWriting }
          (.written (c.outputBuffer.content.take (n + 1)) ::
            if c.writeCompleteCallback then [.queued .writeComplete] else []) :=
        ⟨.inl rfl, Channel.isReading_disableWriting _, fun hd => absurd hd hopen,
          Event.forall_write (P := fun e => e.isQuiet = true) (fun _ => rfl) rfl _ _⟩
      dsimp only
      split
      · split
        · exact .ok (hdrained.trans (shutdownInLoop_calm _))
        · exact .ok hdrained
      · exact .ok (.of_eq rfl rfl (by simp [Event.isQuiet]))
  · exact .ok (.refl c)

/-- `handleWrite` does nothing once the channel does not watch for room to write. -/
theorem handleWrite_idle {res : WriteResult} (h : c.channel.isWriting = false) :
    c.handleWrite res = .ok (c, []) := by
  unfold handleWrite
  rw [h]
  rfl

/-- A connection whose state admits a close can be moved to `kDisconnecting`. -/
theorem Calm.disconnecting (evs : List Event)
    (hstate : c.state = .kConnected ∨ c.state = .kDisconnecting)
    (hevs : ∀ e ∈ evs, e.isQuiet = true) :
    Calm c { c with state := .kDisconnecting } evs := by
  refine ⟨?_, rfl, fun _ => rfl, hevs⟩
  rcases hstate with hs | hs
  · exact .inr ⟨hs, rfl⟩
  · exact .inl hs.symm

/-- Every call of user code considered here is calm, from either thread. -/
theorem call_calm (c : TcpConnection) (inLoop : Bool) {call : UserCall} (hcall : LifeCall call) :
    (c.call inLoop call).Sat fun r => Calm c r.1 r.2 := by
  cases call with
  | send message res =>
      simp only [TcpConnection.call, send]
      split
      · split
        · exact sendInLoop_calm c message res
        · exact .ok (.of_eq rfl rfl (by simp [Event.isQuiet]))
      · exact .ok (.refl c)
  | shutdown =>
      simp only [TcpConnection.call, shutdown]
      split
      · next hstate =>
          split
          · exact .ok ((Calm.disconnecting [] (.inl hstate) (by simp)).trans (shutdownInLoop_calm _))
          · exact .ok (.disconnecting _ (.inl hstate) (by simp [Event.isQuiet]))
      · exact .ok (.refl c)
  | forceClose =>
      simp only [TcpConnection.call, forceClose]
      split
      · next hstate => exact .ok (.disconnecting _ hstate (by simp [Event.isQuiet]))
      · exact .ok (.refl c)
  | forceCloseWithDelay =>
      simp only [TcpConnection.call, forceCloseWithDelay]
      split
      · next hstate => exact .ok (.disconnecting _ hstate (by simp [Event.isQuiet]))
      · exact .ok (.refl c)
  | startRead => exact hcall.elim
  | stopRead => exact hcall.elim

/-- User code is calm. -/
theorem runCallback_calm (c : TcpConnection) {calls : List UserCall}
    (hcalls : ∀ call ∈ calls, LifeCall call) :
    (c.runCallback calls).Sat fun r => Calm c r.1 r.2 := by
  induction calls generalizing c with
  | nil => exact .ok (.refl c)
  | cons call calls ih =>
      refine (call_calm c true (hcalls call (List.mem_cons_self ..))).bind fun r hr => ?_
      refine (ih r.1 fun call' hmem => hcalls call' (List.mem_cons_of_mem _ hmem)).bind
        fun r' hr' => .ok (hr.trans hr')

/-- `handleRead` is calm when something was read. -/
theorem handleRead_calm (c : TcpConnection) (b : Byte) (data : List Byte) {callback : List UserCall}
    (hcalls : ∀ call ∈ callback, LifeCall call) (unread : ByteQueue → ByteQueue) :
    (c.handleRead (.ok (b :: data)) callback unread).Sat fun r => Calm c r.1 r.2 := by
  have hin : Calm c { c with inputBuffer := c.inputBuffer.readFd (b :: data) } [.messageCallback] :=
    .of_eq rfl rfl (by simp [Event.isQuiet])
  refine (runCallback_calm _ hcalls).bind fun r hr => ?_
  obtain ⟨hstate, hreading, hclosed, hquiet⟩ := hin.trans hr
  exact .ok ⟨hstate, hreading, hclosed, hquiet⟩

/-- The functors that a connection queues are calm, but for the one that closes it. -/
theorem runFunctor_calm (c : TcpConnection) {f : Functor} (hquiet : (Event.queued f).isQuiet = true)
    (hclose : f ≠ .forceCloseInLoop) {callback : List UserCall}
    (hcalls : ∀ call ∈ callback, LifeCall call) (res : WriteResult) :
    (c.runFunctor callback res f).Sat fun r => Calm c r.1 r.2 := by
  cases f with
  | sendInLoop message => exact sendInLoop_calm c message res
  | shutdownInLoop => exact .ok (shutdownInLoop_calm c)
  | forceCloseInLoop => exact absurd rfl hclose
  | writeComplete | highWaterMark _ => exact runCallback_calm c hcalls
  | startReadInLoop | stopReadInLoop => cases hquiet

/-- Before it is established and after it is closed, calls on a connection do nothing. -/
theorem call_idle (inLoop : Bool) {call : UserCall} (hcall : LifeCall call)
    (hstate : c.state = .kConnecting ∨ c.state = .kDisconnected) :
    c.call inLoop call = .ok (c, []) := by
  -- the two tests at the head of the member functions both fail
  have hconn : c.state ≠ .kConnected := by
    rcases hstate with hs | hs <;> rw [hs] <;> decide
  have hclosing : ¬ (c.state = .kConnected ∨ c.state = .kDisconnecting) := by
    rcases hstate with hs | hs <;> rw [hs] <;> decide
  cases call with
  | send message res => simp only [TcpConnection.call, send, if_neg hconn]; rfl
  | shutdown => simp only [TcpConnection.call, shutdown, if_neg hconn]; rfl
  | forceClose => simp only [TcpConnection.call, forceClose, if_neg hclosing]; rfl
  | forceCloseWithDelay => simp only [TcpConnection.call, forceCloseWithDelay, if_neg hclosing]; rfl
  | startRead => exact hcall.elim
  | stopRead => exact hcall.elim

/-- A callback on a closed connection does nothing. -/
theorem runCallback_closed {calls : List UserCall} (hcalls : ∀ call ∈ calls, LifeCall call)
    (hstate : c.state = .kDisconnected) : c.runCallback calls = .ok (c, []) := by
  induction calls with
  | nil => rfl
  | cons call calls ih =>
      have hrest := ih fun call' hmem => hcalls call' (List.mem_cons_of_mem _ hmem)
      rw [runCallback, call_idle true (hcalls call (List.mem_cons_self ..)) (.inr hstate),
        Checked.ok_bind]
      dsimp only
      rw [hrest]
      rfl

/-- `connectEstablished` opens a new connection and tells the user, who may call on it then. -/
theorem connectEstablished_sat {callback : List UserCall}
    (hcalls : ∀ call ∈ callback, LifeCall call) (hstate : c.state = .kConnecting) :
    (c.connectEstablished callback).Sat fun r => ∃ evs,
      r.2 = .connectionCallback .kConnected :: evs ∧
      Calm { c with state := .kConnected, channel := c.channel.enableReading } r.1 evs := by
  refine Checked.Sat.assert hstate ((runCallback_calm _ hcalls).bind fun r hr => .ok ?_)
  exact ⟨r.2, rfl, hr⟩

/-- `handleClose` closes, tells the user and then the server. -/
theorem handleClose_eq {callback : List UserCall} (hcalls : ∀ call ∈ callback, LifeCall call)
    (hstate : c.state = .kConnected ∨ c.state = .kDisconnecting) :
    c.handleClose callback
      = .ok ({ c with state := .kDisconnected, channel := c.channel.disableAll },
          [.connectionCallback .kDisconnected, .closeCallback]) := by
  rw [handleClose, assert_pos hstate, Checked.ok_bind]
  dsimp only
  rw [runCallback_closed hcalls rfl]
  rfl

/-- A connection that is closed is not closed again. -/
theorem forceCloseInLoop_closed (callback : List UserCall) (hstate : c.state = .kDisconnected) :
    c.forceCloseInLoop callback = .ok (c, []) := by
  rw [forceCloseInLoop, hstate]
  rfl

/-- `connectDestroyed` of an open connection closes it, tells the user and removes the channel. -/
theorem connectDestroyed_connected {callback : List UserCall}
    (hcalls : ∀ call ∈ callback, LifeCall call) (hstate : c.state = .kConnected) :
    c.connectDestroyed callback
      = .ok ({ c with
            state := .kDisconnected, channel := { c.channel.disableAll with addedToLoop := false } },
          [.connectionCallback .kDisconnected]) := by
  rw [connectDestroyed, if_pos hstate]
  dsimp only
  rw [runCallback_closed hcalls rfl]
  rfl

/-- `connectDestroyed` in another state only removes the channel. -/
theorem connectDestroyed_other {callback : List UserCall} (hstate : c.state ≠ .kConnected) :
    c.connectDestroyed callback = do
      let channel ← c.channel.remove
      return ({ c with channel }, []) := by
  rw [connectDestroyed, if_neg hstate]

end TcpConnection

end Muduo.Net
