import Muduo.Net.TcpConnectionTalk

/-! # What a function of a `TcpConnection` writes

A function that does not close the connection leaves a closed one as it is, and it writes nothing if the kernel
refuses (`Mild`). Whatever it does, nothing is written by a function that leaves the connection closed (`Settled`).
`Sender` is the invariant of the sending side over a kernel that takes bytes until the half-close and refuses them
afterwards: what it has taken is a first part of what was passed to `sendInLoop`, and all of it at the half-close. -/

namespace Muduo.Net

open Support TcpConnection Event

/-- The kernel has refused to take anything. -/
def Refused : WriteResult → Prop
  | .ok _ => False
  | .error _ => True

namespace TcpConnection

/-- The kernel refuses the `write` of a call. -/
def CallRefused : UserCall → Prop
  | .send _ res => Refused res
  | _ => True

/-- A closed connection does not watch for room to write. -/
def Quiet (c : TcpConnection) : Prop := c.state = .kDisconnected → c.channel.isWriting = false

/-- What a function does that does not close the connection; `refused` says that the kernel takes nothing. -/
structure Mild (refused : Prop) (c : TcpConnection) (r : Outcome) : Prop where
  state : r.1.state = .kDisconnected ↔ c.state = .kDisconnected
  writing : c.state = .kDisconnected → r.1.channel.isWriting = c.channel.isWriting
  input : r.1.inputBuffer = c.inputBuffer
  mute : refused ∨ c.state = .kDisconnected → accepted r.2 = []

variable {c : TcpConnection} {refused : Prop} {r : Outcome}

namespace Mild

/-- Doing nothing is mild. -/
theorem refl (c : TcpConnection) : Mild refused c (c, []) := ⟨Iff.rfl, fun _ => rfl, rfl, fun _ => rfl⟩

/-- One mild function after the other. -/
theorem trans {r' : Outcome} (h : Mild refused c r) (h' : Mild refused r.1 r') :
    Mild refused c (r'.1, r.2 ++ r'.2) where
  state := h'.state.trans h.state
  writing hc := (h'.writing (h.state.mpr hc)).trans (h.writing hc)
  input := h'.input.trans h.input
  mute hmute := by
    rw [accepted_append, h.mute hmute, h'.mute (hmute.imp id h.state.mpr)]
    rfl

/-- A functor is queued. -/
theorem queued (c : TcpConnection) (f : Functor) : Mild refused c (c, [.queued f]) :=
  ⟨Iff.rfl, fun _ => rfl, rfl, fun _ => rfl⟩

/-- A close is requested. -/
theorem disconnecting (hstate : c.state = .kConnected ∨ c.state = .kDisconnecting) {evs : List Event}
    (hevs : accepted evs = []) : Mild refused c ({ c with state := .kDisconnecting }, evs) := by
  have hne : c.state ≠ .kDisconnected := by
    rcases hstate with hs | hs <;> rw [hs] <;> decide
  exact ⟨iff_of_false (by simp) hne, fun hc => absurd hc hne, rfl, fun _ => hevs⟩

end Mild

/-- A refused direct write sends nothing. -/
theorem directWrite_refused (c : TcpConnection) (data : List Byte) {res : WriteResult} (hres : Refused res) :
    accepted (c.directWrite data res).2.2 = [] := by
  unfold directWrite
  cases res with
  | ok n => exact hres.elim
  | error errno => split <;> rfl

/-- Bytes put into `outputBuffer_` are not sent. -/
theorem bufferRemaining_accepted (c : TcpConnection) (data : List Byte) (nwrote : Nat) :
    accepted (c.bufferRemaining data nwrote).2 = [] := by
  rcases bufferRemaining_events c data nwrote with hevs | ⟨size, hevs⟩
  · rw [hevs]
    rfl
  · rw [hevs]
    rfl

/-- `sendInLoop` does not close the connection. -/
theorem sendInLoop_mild {data : List Byte} {res : WriteResult} (hres : refused → Refused res)
    (hr : c.sendInLoop data res = .ok r) : Mild refused c r := by
  unfold sendInLoop at hr
  split at hr
  · cases hr
    exact ⟨Iff.rfl, fun _ => rfl, rfl, fun _ => rfl⟩
  · next hstate =>
      have hdirect := fun h => directWrite_refused c data (hres h)
      revert hdirect hr
      obtain ⟨nwrote, fault, events⟩ := c.directWrite data res
      intro hr hdirect
      obtain ⟨-, hr⟩ := Checked.assert_bind_eq_ok.mp hr
      split at hr
      · cases hr
        refine ⟨Iff.rfl, fun hc => absurd hc hstate, rfl, fun hmute => ?_⟩
        have hnone := hdirect (hmute.resolve_right hstate)
        rw [List.cons_append, accepted_cons, accepted_append, hnone]
        exact bufferRemaining_accepted c data nwrote
      · cases hr
        refine ⟨Iff.rfl, fun _ => rfl, rfl, fun hmute => ?_⟩
        rw [accepted_cons, hdirect (hmute.resolve_right hstate)]
        rfl

/-- `shutdownInLoop` does not close the connection. -/
theorem shutdownInLoop_mild (c : TcpConnection) : Mild refused c c.shutdownInLoop := by
  rcases shutdownInLoop_events c with ⟨-, hevs⟩ | ⟨-, hevs⟩
  · rw [hevs]
    exact .refl c
  · rw [hevs]
    exact ⟨Iff.rfl, fun _ => rfl, rfl, fun _ => rfl⟩

/-- `startReadInLoop` does not close the connection. -/
theorem startReadInLoop_mild (c : TcpConnection) : Mild refused c (c.startReadInLoop, []) := by
  unfold startReadInLoop
  split
  · exact ⟨Iff.rfl, fun _ => Channel.isWriting_enableReading _, rfl, fun _ => rfl⟩
  · exact .refl c

/-- `stopReadInLoop` does not close the connection. -/
theorem stopReadInLoop_mild (c : TcpConnection) : Mild refused c (c.stopReadInLoop, []) := by
  unfold stopReadInLoop
  split
  · exact ⟨Iff.rfl, fun _ => Channel.isWriting_disableReading _, rfl, fun _ => rfl⟩
  · exact .refl c

/-- Every call of user code is mild, from either thread. -/
theorem call_mild {inLoop : Bool} {call : UserCall} (hcall : refused → CallRefused call)
    (hr : c.call inLoop call = .ok r) : Mild refused c r := by
  cases call with
  | send message res =>
      simp only [TcpConnection.call, send] at hr
      split at hr
      · cases inLoop with
        | true => exact sendInLoop_mild hcall hr
        | false =>
            cases hr
            exact .queued c _
      · cases hr
        exact .refl c
  | shutdown =>
      cases hr
      unfold shutdown
      split
      · next hstate =>
          cases inLoop with
          | true =>
              have hclosing : Mild refused c ({ c with state := .kDisconnecting }, []) :=
                .disconnecting (.inl hstate) rfl
              exact hclosing.trans (shutdownInLoop_mild _)
          | false => exact .disconnecting (.inl hstate) rfl
      · exact .refl c
  | forceClose =>
      cases hr
      unfold forceClose
      split
      · next hstate => exact .disconnecting hstate rfl
      · exact .refl c
  | forceCloseWithDelay =>
      cases hr
      unfold forceCloseWithDelay
      split
      · next hstate => exact .disconnecting hstate rfl
      · exact .refl c
  | startRead =>
      cases hr
      cases inLoop with
      | true => exact startReadInLoop_mild c
      | false => exact .queued c _
  | stopRead =>
      cases hr
      cases inLoop with
      | true => exact stopReadInLoop_mild c
      | false => exact .queued c _

/-- User code does not close the connection. -/
theorem runCallback_mild {calls : List UserCall} (hcalls : refused → ∀ call ∈ calls, CallRefused call)
    (hr : c.runCallback calls = .ok r) : Mild refused c r := by
  induction calls generalizing c r with
  | nil =>
      cases hr
      exact .refl c
  | cons call calls ih =>
      obtain ⟨first, hfirst, hr⟩ := Checked.bind_eq_ok.mp hr
      obtain ⟨rest, hrest, hr⟩ := Checked.bind_eq_ok.mp hr
      cases hr
      have hmild := call_mild (fun h => hcalls h call (List.mem_cons_self ..)) hfirst
      exact hmild.trans (ih (fun h call' hmem => hcalls h call' (List.mem_cons_of_mem _ hmem)) hrest)

/-- What every function does: one that leaves the connection closed has written nothing, and leaves it without
interest in writing. -/
structure Settled (refused : Prop) (r : Outcome) : Prop where
  quiet : r.1.Quiet
  mute : refused ∨ r.1.state = .kDisconnected → accepted r.2 = []

/-- A mild function leaves a quiet connection settled. -/
theorem Mild.settled (h : Mild refused c r) (hquiet : c.Quiet) : Settled refused r where
  quiet hstate := by
    have hc := h.state.mp hstate
    rw [h.writing hc]
    exact hquiet hc
  mute hmute := h.mute (hmute.imp id h.state.mp)

/-- `handleWrite` does not close the connection. -/
theorem handleWrite_mild {res : WriteResult} (hres : refused → Refused res) (hquiet : c.Quiet)
    (hr : c.handleWrite res = .ok r) : Mild refused c r := by
  unfold handleWrite at hr
  split at hr
  · next hw =>
      have hstate : c.state ≠ .kDisconnected := by
        intro hc
        rw [hquiet hc] at hw
        cases hw
      cases res with
      | error errno =>
          cases hr
          exact .refl c
      | ok n =>
          cases n with
          | zero =>
              cases hr
              exact .refl c
          | succ n =>
              -- something was taken, so this is not a kernel that refuses
              have hmute (h : refused ∨ c.state = .kDisconnected) : False := hres (h.resolve_right hstate)
              obtain ⟨out, -, hr⟩ := Checked.bind_eq_ok.mp hr
              dsimp only at hr
              split at hr
              · split at hr
                · cases hr
                  exact ⟨Iff.rfl, fun hc => absurd hc hstate, rfl, fun h => (hmute h).elim⟩
                · cases hr
                  exact ⟨Iff.rfl, fun hc => absurd hc hstate, rfl, fun h => (hmute h).elim⟩
              · cases hr
                exact ⟨Iff.rfl, fun hc => absurd hc hstate, rfl, fun h => (hmute h).elim⟩
  · cases hr
    exact .refl c

/-- A callback on a connection that has just been closed. -/
theorem runCallback_closing {callback : List UserCall}
    (hr : runCallback { c with state := .kDisconnected, channel := c.channel.disableAll } callback = .ok r) :
    r.1.state = .kDisconnected ∧ r.1.channel.isWriting = false ∧ r.1.inputBuffer = c.inputBuffer ∧
      accepted r.2 = [] := by
  have hmild : Mild False _ r := runCallback_mild (fun h => h.elim) hr
  refine ⟨hmild.state.mpr rfl, ?_, hmild.input, hmild.mute (.inr rfl)⟩
  rw [hmild.writing rfl]
  exact Channel.isWriting_of_isNoneEvent _ (Channel.isNoneEvent_disableAll _)

/-- `handleClose` writes nothing: its callback sees a closed connection. -/
theorem handleClose_settled {callback : List UserCall} (hr : c.handleClose callback = .ok r) :
    Settled refused r ∧ r.1.inputBuffer = c.inputBuffer := by
  obtain ⟨-, hr⟩ := Checked.assert_bind_eq_ok.mp hr
  obtain ⟨inner, hinner, hr⟩ := Checked.bind_eq_ok.mp hr
  cases hr
  obtain ⟨-, hwriting, hinput, hnone⟩ := runCallback_closing hinner
  refine ⟨⟨fun _ => hwriting, fun _ => ?_⟩, hinput⟩
  rw [accepted_append, accepted_cons, hnone]
  rfl

/-- `forceCloseInLoop` closes it with nothing written. -/
theorem forceCloseInLoop_settled {callback : List UserCall} (hquiet : c.Quiet)
    (hr : c.forceCloseInLoop callback = .ok r) : Settled refused r ∧ r.1.inputBuffer = c.inputBuffer := by
  unfold forceCloseInLoop at hr
  split at hr
  · exact handleClose_settled hr
  · cases hr
    exact ⟨(Mild.refl c).settled hquiet, rfl⟩

/-- `remove` keeps the events. -/
theorem remove_events {channel channel' : Channel} (h : channel.remove = .ok channel') :
    channel'.events = channel.events := by
  obtain ⟨-, h⟩ := Checked.assert_bind_eq_ok.mp h
  cases h
  rfl

/-- `connectDestroyed` closes it with nothing written. -/
theorem connectDestroyed_settled {callback : List UserCall} (hquiet : c.Quiet)
    (hr : c.connectDestroyed callback = .ok r) : Settled refused r ∧ r.1.inputBuffer = c.inputBuffer := by
  unfold connectDestroyed at hr
  split at hr
  · obtain ⟨inner, hinner, hr⟩ := Checked.bind_eq_ok.mp hr
    obtain ⟨channel, hchannel, hr⟩ := Checked.bind_eq_ok.mp hr
    cases hr
    obtain ⟨-, hwriting, hinput, hnone⟩ := runCallback_closing hinner
    refine ⟨⟨fun _ => ?_, fun _ => ?_⟩, hinput⟩
    · rw [Channel.isWriting, remove_events hchannel]
      exact hwriting
    · rw [accepted_cons, hnone]
      rfl
  · obtain ⟨channel, hchannel, hr⟩ := Checked.bind_eq_ok.mp hr
    cases hr
    refine ⟨⟨fun hc => ?_, fun _ => rfl⟩, rfl⟩
    rw [Channel.isWriting, remove_events hchannel]
    exact hquiet hc

/-- The functors of a connection, those that close it included. -/
theorem runFunctor_settled {f : Functor} {callback : List UserCall} {res : WriteResult} (hquiet : c.Quiet)
    (hcalls : refused → ∀ call ∈ callback, CallRefused call)
    (hres : refused → ∀ message, f = .sendInLoop message → Refused res)
    (hr : c.runFunctor callback res f = .ok r) : Settled refused r ∧ r.1.inputBuffer = c.inputBuffer := by
  have hmild (h : Mild refused c r) : Settled refused r ∧ r.1.inputBuffer = c.inputBuffer :=
    ⟨h.settled hquiet, h.input⟩
  cases f with
  | sendInLoop message => exact hmild (sendInLoop_mild (fun h => hres h message rfl) hr)
  | shutdownInLoop =>
      cases hr
      exact hmild (shutdownInLoop_mild c)
  | forceCloseInLoop => exact forceCloseInLoop_settled hquiet hr
  | writeComplete | highWaterMark _ => exact hmild (runCallback_mild hcalls hr)
  | startReadInLoop =>
      cases hr
      exact hmild (startReadInLoop_mild c)
  | stopReadInLoop =>
      cases hr
      exact hmild (stopReadInLoop_mild c)

/-- `handleRead` puts what was read behind what was left. -/
theorem handleRead_settled {b : Byte} {data : List Byte} {callback : List UserCall} {unread : ByteQueue → ByteQueue}
    (hquiet : c.Quiet) (hcalls : refused → ∀ call ∈ callback, CallRefused call)
    (hr : c.handleRead (.ok (b :: data)) callback unread = .ok r) :
    Settled refused r ∧ r.1.inputBuffer = unread (c.inputBuffer.readFd (b :: data)) := by
  obtain ⟨inner, hinner, hr⟩ := Checked.bind_eq_ok.mp hr
  cases hr
  have hmild := runCallback_mild hcalls hinner
  have hsettled := hmild.settled hquiet
  refine ⟨⟨hsettled.quiet, fun hmute => ?_⟩, ?_⟩
  · rw [accepted_cons, hsettled.mute hmute]
    rfl
  · rw [hmild.input]

/-- `connectDestroyed` keeps the output stream. -/
theorem connectDestroyed_inv {tr : List Event} (h : OutputInv c tr) {callback : List UserCall}
    (hcalls : ∀ call ∈ callback, CallOk call) (hr : c.connectDestroyed callback = .ok r) :
    OutputInv r.1 (tr ++ r.2) := by
  unfold connectDestroyed at hr
  split at hr
  · obtain ⟨inner, hinner, hr⟩ := Checked.bind_eq_ok.mp hr
    obtain ⟨channel, hchannel, hr⟩ := Checked.bind_eq_ok.mp hr
    cases hr
    have hclosed : OutputInv { c with state := .kDisconnected, channel := c.channel.disableAll }
        (tr ++ [.connectionCallback .kDisconnected]) :=
      h.of_closed rfl (by simp [isShutdownWrite])
    have hinv := (runCallback_inv hclosed hcalls).of_eq_ok hinner
    rw [List.append_assoc] at hinv
    have hstate := (runCallback_closing hinner).1
    exact ⟨fun hne => absurd hstate hne, fun hne => absurd hstate hne, hinv.halfClose⟩
  · obtain ⟨channel, hchannel, hr⟩ := Checked.bind_eq_ok.mp hr
    cases hr
    refine h.of_quiet rfl ?_ id rfl rfl (by simp)
    rw [Channel.isWriting, remove_events hchannel]
    rfl

/-- Every functor keeps the output stream. -/
theorem runFunctor_inv {tr : List Event} (h : OutputInv c tr) {f : Functor} {callback : List UserCall}
    {res : WriteResult} (hcalls : ∀ call ∈ callback, CallOk call)
    (hres : ∀ message, f = .sendInLoop message → WriteOk message.length res)
    (hr : c.runFunctor callback res f = .ok r) : OutputInv r.1 (tr ++ r.2) := by
  cases f with
  | sendInLoop message => exact (sendInLoop_inv h message (hres message rfl)).of_eq_ok hr
  | shutdownInLoop =>
      cases hr
      exact shutdownInLoop_inv h
  | forceCloseInLoop => exact (forceCloseInLoop_inv h hcalls).of_eq_ok hr
  | writeComplete | highWaterMark _ => exact (runCallback_inv h hcalls).of_eq_ok hr
  | startReadInLoop =>
      cases hr
      exact startReadInLoop_inv h
  | stopReadInLoop =>
      cases hr
      exact stopReadInLoop_inv h

end TcpConnection

/-! ## The sending side -/

namespace Event

/-- A half-close that follows after the first one is not the first one. -/
theorem exists_of_first {tr evs tr₁ tr₂ : List Event} {e : Event} (hclosed : ¬ Open tr) (hopen : Open tr₁)
    (heq : tr ++ evs = tr₁ ++ e :: tr₂) : ∃ rest, tr = tr₁ ++ e :: rest := by
  rcases List.append_eq_append_iff.mp heq with ⟨as, htr₁, -⟩ | ⟨as, htr, has⟩
  · rw [htr₁] at hopen
    exact absurd hopen.left hclosed
  · cases as with
    | nil =>
        rw [List.append_nil] at htr
        exact absurd (htr ▸ hopen) hclosed
    | cons a as =>
        rw [List.cons_append, List.cons.injEq] at has
        exact ⟨as, by rw [htr, has.1]⟩

/-- If the connection was not closed at the first half-close, the kernel had taken all that had been passed to
`sendInLoop`. -/
def FirstClean (tr : List Event) : Prop :=
  ∀ tr₁ state pending tr₂, tr = tr₁ ++ .shutdownWrite state pending :: tr₂ → Open tr₁ →
    state ≠ .kDisconnected → accepted tr₁ = passed tr₁

/-- Later events do not change the first half-close. -/
theorem FirstClean.append {tr : List Event} (h : FirstClean tr) (hclosed : ¬ Open tr) (evs : List Event) :
    FirstClean (tr ++ evs) := by
  intro tr₁ state pending tr₂ heq hopen
  obtain ⟨rest, hrest⟩ := exists_of_first hclosed hopen heq
  exact h tr₁ state pending rest hrest hopen

end Event

/-- A connection and what it did, as a sender. -/
structure Sender (c : TcpConnection) (tr : List Event) : Prop where
  output : Open tr → OutputInv c tr
  first : FirstClean tr
  le : accepted tr <+: passed tr

/-- A function has returned that the kernel has treated as it should: until the half-close it takes bytes, and
afterwards it refuses them. -/
theorem Sender.step {c : TcpConnection} {tr : List Event} (h : Sender c tr) {r : Outcome}
    (hinv : Open tr → OutputInv c tr → OutputInv r.1 (tr ++ r.2)) (hsettled : Settled (¬ Open tr) r) :
    Sender r.1 (tr ++ r.2) := by
  have hmute (hnone : accepted r.2 = []) : accepted (tr ++ r.2) <+: passed (tr ++ r.2) := by
    rw [accepted_append, passed_append, hnone, List.append_nil]
    exact h.le.trans (List.prefix_append ..)
  by_cases hopen : Open tr
  · have hout := hinv hopen (h.output hopen)
    refine ⟨fun _ => hout, fun tr₁ state pending tr₂ heq _ hstate => ?_, ?_⟩
    · exact (hout.halfClose tr₁ state pending tr₂ heq hstate).2
    · by_cases hstate : r.1.state = .kDisconnected
      · exact hmute (hsettled.mute (.inr hstate))
      · exact ⟨_, hout.stream hstate⟩
  · exact ⟨fun hall => absurd hall.left hopen, h.first.append hopen _, hmute (hsettled.mute (.inl hopen))⟩

end Muduo.Net
