import Muduo.Net.ConnectionThreads
import Muduo.Net.TcpConnectionState
import Mathlib.Data.List.Perm.Subperm

/-! # What sending does to a `TcpConnection`

The functions that send and receive leave the state alone and queue nothing but calls back to the user; the
half-close is at most their last event (`Talks`). Over a kernel that takes every write whole nothing is ever
left in `outputBuffer_` (`Drained`). `Event.HandedOver` says of a trace that certain messages had been passed
on and taken by the kernel when the write side was shut down. -/

namespace Muduo.Net

open Support TcpConnection Event

/-- A functor that calls back the user. -/
def Functor.isCallback : Functor → Bool
  | .writeComplete | .highWaterMark _ => true
  | _ => false

/-- The functors of sending and of `shutdown`. -/
def Functor.isSpoken : Functor → Bool
  | .sendInLoop _ | .shutdownInLoop => true
  | f => f.isCallback

/-- A functor that calls back the user has no message. -/
theorem Functor.message_of_isCallback {fs : List Functor} (h : ∀ f ∈ fs, f.isCallback = true) :
    fs.filterMap Functor.message = [] := by
  rw [List.filterMap_eq_nil_iff]
  intro f hf
  have hcallback := h f hf
  cases f with
  | sendInLoop _ => cases hcallback
  | _ => rfl

/-- Callbacks are among the functors of sending. -/
theorem Functor.isSpoken_of_isCallback {f : Functor} (h : f.isCallback = true) : f.isSpoken = true := by
  cases f with
  | sendInLoop _ | shutdownInLoop => rfl
  | _ => exact h

/-- An event of sending and receiving that is not the entry of `sendInLoop`. -/
def Event.isChatter : Event → Bool
  | .written _ | .messageCallback => true
  | .queued f => f.isCallback
  | _ => false

/-- An event of sending and receiving. -/
def Event.isTalk : Event → Bool
  | .sendInLoop _ => true
  | e => e.isChatter

/-- Chatter is an event of sending and receiving. -/
theorem Event.isTalk_of_isChatter {e : Event} (h : e.isChatter = true) : e.isTalk = true := by
  cases e with
  | sendInLoop _ => rfl
  | _ => exact h

/-- Only the entry of `sendInLoop` has a message. -/
theorem Event.message_of_isChatter {e : Event} (h : e.isChatter = true) : e.message = none := by
  cases e with
  | sendInLoop _ => cases h
  | _ => rfl

/-- No event of sending is a half-close. -/
theorem Event.Open.of_isTalk {tr : List Event} (h : ∀ e ∈ tr, e.isTalk = true) : Event.Open tr := by
  intro e he
  have htalk := h e he
  cases e with
  | shutdownWrite _ _ => cases htalk
  | _ => rfl

/-- Events of sending queue callbacks only. -/
theorem Event.functor_of_isTalk {e : Event} (h : e.isTalk = true) {f : Functor}
    (hf : e.functor = some f) : f.isCallback = true := by
  cases e with
  | queued g =>
      cases hf
      exact h
  | _ => cases hf

namespace TcpConnection

/-- A function that only sends or receives: the state stays, and the half-close comes last and only to make
up for a `shutdown()` that had to wait for the output. -/
structure Talks (c : TcpConnection) (r : Outcome) : Prop where
  state : r.1.state = c.state
  events : (∀ e ∈ r.2, e.isTalk = true) ∨
    (c.state = .kDisconnecting ∧ c.channel.isWriting = true ∧
      ∃ evs pending, r.2 = evs ++ [.shutdownWrite c.state pending] ∧ ∀ e ∈ evs, e.isTalk = true)

/-- Nothing is left to send. -/
structure Drained (c : TcpConnection) : Prop where
  output : c.outputBuffer.content = []
  isWriting : c.channel.isWriting = false

variable {c : TcpConnection} {r : Outcome}

/-- Doing nothing sends nothing. -/
theorem Talks.refl (c : TcpConnection) : Talks c (c, []) := ⟨rfl, .inl (by simp)⟩

/-- The functors that sending queues are calls back to the user. -/
theorem Talks.functors (h : Talks c r) :
    ∀ f ∈ r.2.filterMap Event.functor, f.isCallback = true := by
  intro f hf
  obtain ⟨e, he, hef⟩ := List.mem_filterMap.mp hf
  rcases h.events with htalk | ⟨-, -, evs, pending, hevs, htalk⟩
  · exact functor_of_isTalk (htalk e he) hef
  · rw [hevs] at he
    rcases List.mem_append.mp he with he | he
    · exact functor_of_isTalk (htalk e he) hef
    · rw [List.mem_singleton.mp he] at hef
      cases hef

/-- What is buffered is not passed on again. -/
theorem bufferRemaining_chatter (c : TcpConnection) (data : List Byte) (nwrote : Nat) :
    ∀ e ∈ (c.bufferRemaining data nwrote).2, e.isChatter = true := by
  intro e he
  rcases bufferRemaining_events c data nwrote with hevs | ⟨size, hevs⟩
  · rw [hevs] at he
    cases he
  · rw [hevs] at he
    rw [List.mem_singleton.mp he]
    rfl

/-- `sendInLoop` notes its message, and then what it does with it. -/
theorem sendInLoop_events {data : List Byte} {res : WriteResult} (hr : c.sendInLoop data res = .ok r) :
    r.1.state = c.state ∧ ∃ evs, r.2 = .sendInLoop data :: evs ∧ ∀ e ∈ evs, e.isChatter = true := by
  unfold sendInLoop at hr
  split at hr
  · cases hr
    exact ⟨rfl, [], rfl, by simp⟩
  · have hdirect := forall_directWrite (P := fun e => e.isChatter = true) (fun _ => rfl) rfl c data res
    revert hdirect hr
    obtain ⟨nwrote, fault, events⟩ := c.directWrite data res
    intro hr hdirect
    obtain ⟨-, hr⟩ := Checked.assert_bind_eq_ok.mp hr
    split at hr
    · cases hr
      refine ⟨rfl, _, rfl, fun e he => ?_⟩
      rcases List.mem_append.mp he with he | he
      · exact hdirect e he
      · exact c.bufferRemaining_chatter data nwrote e he
    · cases hr
      exact ⟨rfl, events, rfl, hdirect⟩

/-- `sendInLoop` only sends. -/
theorem sendInLoop_talks {data : List Byte} {res : WriteResult} (hr : c.sendInLoop data res = .ok r) :
    Talks c r := by
  obtain ⟨hstate, evs, hevs, hchatter⟩ := sendInLoop_events hr
  refine ⟨hstate, .inl fun e he => ?_⟩
  rw [hevs] at he
  rcases List.mem_cons.mp he with rfl | he
  · rfl
  · exact isTalk_of_isChatter (hchatter e he)

/-- `shutdownInLoop` waits while something is to be sent. -/
theorem shutdownInLoop_events (c : TcpConnection) :
    (c.channel.isWriting = true ∧ c.shutdownInLoop = (c, [])) ∨
      (c.channel.isWriting = false ∧
        c.shutdownInLoop = (c, [.shutdownWrite c.state c.outputBuffer.content])) := by
  unfold shutdownInLoop
  cases hw : c.channel.isWriting with
  | true => exact .inl ⟨rfl, rfl⟩
  | false => exact .inr ⟨rfl, rfl⟩

/-- `handleWrite` only sends, or makes up for a `shutdown()`. -/
theorem handleWrite_talks {res : WriteResult} (hr : c.handleWrite res = .ok r) : Talks c r := by
  unfold handleWrite at hr
  split at hr
  · next hwriting =>
      match res with
      | .error _ =>
          cases hr
          exact .refl c
      | .ok 0 =>
          cases hr
          exact .refl c
      | .ok (n + 1) =>
          obtain ⟨out, -, hr⟩ := Checked.bind_eq_ok.mp hr
          have htalk := forall_write (P := fun e => e.isTalk = true) (fun _ => rfl) rfl
            (c.outputBuffer.content.take (n + 1)) (c.writeCompleteCallback = true)
          dsimp only at hr
          split at hr
          · split at hr
            · next hstate =>
                -- the output is drained, and the half-close had to wait for it
                cases hr
                rcases shutdownInLoop_events
                  { c with outputBuffer := out, channel := c.channel.disableWriting } with ⟨hw, -⟩ | ⟨-, hevs'⟩
                · rw [Channel.isWriting_disableWriting] at hw
                  cases hw
                · rw [hevs']
                  exact ⟨rfl, .inr ⟨hstate, hwriting, _, _, rfl, htalk⟩⟩
            · cases hr
              exact ⟨rfl, .inl htalk⟩
          · cases hr
            exact ⟨rfl, .inl (by simp [Event.isTalk, Event.isChatter])⟩
  · cases hr
    exact .refl c

/-- A `send` in the loop thread. -/
theorem call_send_talks {message : List Byte} {res : WriteResult}
    (hr : c.call true (.send message res) = .ok r) :
    r.1.state = c.state ∧ ∀ e ∈ r.2, e.isTalk = true := by
  simp only [TcpConnection.call, send] at hr
  split at hr
  · obtain ⟨hstate, evs, hevs, hchatter⟩ := sendInLoop_events hr
    refine ⟨hstate, fun e he => ?_⟩
    rw [hevs] at he
    rcases List.mem_cons.mp he with rfl | he
    · rfl
    · exact isTalk_of_isChatter (hchatter e he)
  · cases hr
    exact ⟨rfl, by simp⟩

end TcpConnection

/-- The call is a `send`. -/
def UserCall.IsSend : UserCall → Prop
  | .send _ _ => True
  | _ => False

namespace TcpConnection

variable {c : TcpConnection} {r : Outcome}

/-- A callback that only sends. -/
theorem runCallback_talks {calls : List UserCall} (hcalls : ∀ call ∈ calls, call.IsSend)
    (hr : c.runCallback calls = .ok r) : r.1.state = c.state ∧ ∀ e ∈ r.2, e.isTalk = true := by
  induction calls generalizing c r with
  | nil =>
      cases hr
      exact ⟨rfl, by simp⟩
  | cons call calls ih =>
      have hsend := hcalls call (List.mem_cons_self ..)
      obtain ⟨⟨c', evs⟩, hcall, hr⟩ := Checked.bind_eq_ok.mp hr
      obtain ⟨⟨c'', evs'⟩, hrest, hr⟩ := Checked.bind_eq_ok.mp hr
      cases hr
      obtain ⟨hstate', htalk'⟩ := ih (fun call' hmem => hcalls call' (List.mem_cons_of_mem _ hmem)) hrest
      cases call with
      | send message res =>
          obtain ⟨hstate, htalk⟩ := call_send_talks hcall
          refine ⟨hstate'.trans hstate, fun e he => ?_⟩
          rcases List.mem_append.mp he with he | he
          · exact htalk e he
          · exact htalk' e he
      | _ => exact hsend.elim

/-- `handleRead` of bytes only receives, and user code sends. -/
theorem handleRead_talks {res : Buffer.ReadResult} {callback : List UserCall}
    {unread : ByteQueue → ByteQueue} (hres : res ≠ .ok []) (hcalls : ∀ call ∈ callback, call.IsSend)
    (hr : c.handleRead res callback unread = .ok r) : Talks c r := by
  unfold handleRead at hr
  split at hr
  · exact absurd rfl hres
  · obtain ⟨⟨c', evs⟩, hcallback, hr⟩ := Checked.bind_eq_ok.mp hr
    cases hr
    obtain ⟨hstate, htalk⟩ := runCallback_talks hcalls hcallback
    refine ⟨hstate, .inl fun e he => ?_⟩
    rcases List.mem_cons.mp he with rfl | he
    · rfl
    · exact htalk e he
  · cases hr
    exact .refl c

/-! ### A kernel that takes every write whole -/

/-- A whole write leaves the connection as it was. -/
theorem sendInLoop_whole (h : c.Drained) {data : List Byte}
    (hr : c.sendInLoop data (.ok data.length) = .ok r) : r.1 = c := by
  unfold sendInLoop at hr
  split at hr
  · cases hr
    rfl
  · obtain ⟨events, hdirect⟩ : ∃ events,
        c.directWrite data (.ok data.length) = (data.length, false, events) := by
      unfold directWrite
      rw [if_pos]
      · exact ⟨_, rfl⟩
      · refine ⟨by rw [h.isWriting]; decide, ?_⟩
        rw [ByteQueue.readableBytes_eq, h.output]
        rfl
    rw [hdirect] at hr
    obtain ⟨-, hr⟩ := Checked.assert_bind_eq_ok.mp hr
    rw [if_neg (by simp)] at hr
    cases hr
    rfl

/-- The results of the writes of a call are those of a kernel that takes every write whole. -/
def CallWhole : UserCall → Prop
  | .send message res => res = .ok message.length
  | _ => True

/-- Whole writes of user code leave the connection as it was. -/
theorem runCallback_whole (h : c.Drained) {calls : List UserCall} (hcalls : ∀ call ∈ calls, call.IsSend)
    (hwhole : ∀ call ∈ calls, CallWhole call) (hr : c.runCallback calls = .ok r) : r.1 = c := by
  induction calls generalizing r with
  | nil =>
      cases hr
      rfl
  | cons call calls ih =>
      have hsend := hcalls call (List.mem_cons_self ..)
      have hres := hwhole call (List.mem_cons_self ..)
      obtain ⟨⟨c', evs⟩, hcall, hr⟩ := Checked.bind_eq_ok.mp hr
      obtain ⟨⟨c'', evs'⟩, hrest, hr⟩ := Checked.bind_eq_ok.mp hr
      cases hr
      cases call with
      | send message res =>
          have hc' : c' = c := by
            simp only [TcpConnection.call, send] at hcall
            split at hcall
            · rw [hres] at hcall
              exact sendInLoop_whole h hcall
            · cases hcall
              rfl
          subst hc'
          have hc'' : (c'', evs').1 = c' := ih (fun call' hmem => hcalls call' (List.mem_cons_of_mem _ hmem))
            (fun call' hmem => hwhole call' (List.mem_cons_of_mem _ hmem)) hrest
          exact hc''
      | _ => exact hsend.elim

/-- Whole writes in the message callback leave the connection as it was. -/
theorem handleRead_whole (h : c.Drained) {res : Buffer.ReadResult} {callback : List UserCall}
    {unread : ByteQueue → ByteQueue} (hres : res ≠ .ok []) (hcalls : ∀ call ∈ callback, call.IsSend)
    (hwhole : ∀ call ∈ callback, CallWhole call) (hr : c.handleRead res callback unread = .ok r) :
    r.1.Drained := by
  unfold handleRead at hr
  split at hr
  · exact absurd rfl hres
  · next data _ =>
      obtain ⟨⟨c', evs⟩, hcallback, hr⟩ := Checked.bind_eq_ok.mp hr
      cases hr
      have hin : Drained { c with inputBuffer := c.inputBuffer.readFd data } := ⟨h.output, h.isWriting⟩
      have hc' : c' = { c with inputBuffer := c.inputBuffer.readFd data } :=
        runCallback_whole hin hcalls hwhole hcallback
      subst hc'
      exact ⟨h.output, h.isWriting⟩
  · cases hr
    exact h

end TcpConnection

/-! ## Handing over before the half-close -/

namespace Event

/-- The messages passed to `sendInLoop`, in call order. -/
def messages (tr : List Event) : List (List Byte) := tr.filterMap Event.message

/-- The messages of two stretches. -/
theorem messages_append (tr tr' : List Event) : messages (tr ++ tr') = messages tr ++ messages tr' :=
  List.filterMap_append

/-- When the first half-close was done, the messages `ms` that are not empty had been passed to `sendInLoop`
and the kernel had taken all that had been passed. -/
def HandedOver (ms : List (List Byte)) (tr : List Event) : Prop :=
  ∀ tr₁ state pending tr₂, tr = tr₁ ++ .shutdownWrite state pending :: tr₂ → Open tr₁ →
    (ms.filter (· ≠ [])).Subperm (messages tr₁) ∧ accepted tr₁ = passed tr₁

variable {ms : List (List Byte)} {tr evs : List Event}

/-- Two stretches without half-close. -/
theorem Open.append (h : Open tr) (h' : Open evs) : Open (tr ++ evs) := by
  intro e he
  rcases List.mem_append.mp he with he | he
  · exact h e he
  · exact h' e he

/-- A stretch before one without half-close. -/
theorem Open.left (h : Open (tr ++ evs)) : Open tr := fun e he => h e (List.mem_append_left _ he)

/-- The half-close is among the events. -/
theorem not_open_concat {state : StateE} {pending : List Byte} :
    ¬ Open (tr ++ [.shutdownWrite state pending]) := by
  intro h
  cases h _ (List.mem_append_right _ (List.mem_singleton_self _))

/-- Without a half-close there is nothing to ask for. -/
theorem HandedOver.of_open (h : Open tr) : HandedOver ms tr := by
  rintro tr₁ state pending tr₂ rfl -
  cases h _ (List.mem_append_right _ (List.mem_cons_self ..))

/-- What comes after the first half-close does not matter. -/
theorem HandedOver.append (h : HandedOver ms tr) (hclosed : ¬ Open tr) (evs : List Event) :
    HandedOver ms (tr ++ evs) := by
  intro tr₁ state pending tr₂ heq hopen
  rcases List.append_eq_append_iff.mp heq with ⟨as, htr₁, -⟩ | ⟨as, htr, has⟩
  · rw [htr₁] at hopen
    exact absurd hopen.left hclosed
  · cases as with
    | nil =>
        rw [List.append_nil] at htr
        exact absurd (htr ▸ hopen) hclosed
    | cons e as =>
        rw [List.cons_append, List.cons.injEq] at has
        obtain ⟨rfl, -⟩ := has
        exact h tr₁ state pending as htr hopen

/-- The first half-close is the last event. -/
theorem handedOver_concat_iff (h : Open tr) {state : StateE} {pending : List Byte} :
    HandedOver ms (tr ++ [.shutdownWrite state pending]) ↔
      (ms.filter (· ≠ [])).Subperm (messages tr) ∧ accepted tr = passed tr := by
  constructor
  · intro hover
    exact hover tr state pending [] rfl h
  · intro hover tr₁ state' pending' tr₂ heq _
    rcases List.eq_nil_or_concat tr₂ with rfl | ⟨past, e, rfl⟩
    · obtain ⟨rfl, -⟩ := List.append_inj' heq rfl
      exact hover
    · -- no half-close lies in the past
      rw [List.concat_eq_append, ← List.cons_append, ← List.append_assoc] at heq
      obtain ⟨rfl, -⟩ := List.append_inj' heq rfl
      cases h _ (List.mem_append_right _ (List.mem_cons_self ..))

end Event

end Muduo.Net
