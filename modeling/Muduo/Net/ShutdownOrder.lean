import Muduo.Net.TcpConnectionTalk

/-! # What is sent before the half-close

The calls of `send` that came before `shutdown()`, and the half-close. A `send` of another thread is a functor
in the queue of the loop until the loop runs it, and `shutdown()` in the loop thread does not wait for the
queue. From another thread `shutdown()` queues its functor behind them, but `handleWrite` half-closes as soon
as `outputBuffer_` is empty and `state_` is `kDisconnecting`, whatever is in the queue. -/

namespace Muduo.Net

open Support TcpConnection Event

/-- The steps of sending and receiving: every call is a `send`, and nothing closes the connection. What
another thread has begun goes on. -/
def ThreadedStep.Talk {T : Type} : ThreadedStep T → Prop
  | .runFunctor callback _ => ∀ call ∈ callback, call.IsSend
  | .handleRead res callback _ => res ≠ .ok [] ∧ ∀ call ∈ callback, call.IsSend
  | .handleWrite _ | .store _ | .queue _ => True
  | .handleClose _ | .connectDestroyed _ => False
  | .loopCall c | .call _ c => c.IsSend

/-- Sending on an established connection. -/
def talking (T : Type) [DecidableEq T] (K : Kernel) : Machine (ThreadedConnection T) (ThreadedStep T) :=
  (threadedConnection T K).restrict fun _ a => a.Talk

/-- The kernel takes every write whole. -/
def TakesAll : Kernel := fun len res => res = .ok len

namespace ThreadedConnection

variable {T : Type} {K : Kernel} {s t : ThreadedConnection T}

/-- A function of the loop thread that sends or receives, over the kernel `K`. -/
structure Spoke (K : Kernel) (s : ThreadedConnection T) (r : Outcome) : Prop where
  talks : Talks s.conn r
  output : Open s.trace → (∀ len res, K len res → WriteOk len res) → OutputInv s.conn s.trace →
    OutputInv r.1 (s.trace ++ r.2)
  drained : Open s.trace → (∀ len res, K len res → TakesAll len res) → s.conn.Drained → r.1.Drained

/-- What a call may be, in terms of the output stream. -/
theorem CallFits.callOk (hK : ∀ len res, K len res → WriteOk len res) (hopen : Open s.trace)
    {call : UserCall} (h : s.CallFits K call) : CallOk call := by
  cases call with
  | send message res => exact hK _ _ (h.2 hopen)
  | _ => trivial

/-- A call before the half-close is sent whole. -/
theorem CallFits.callWhole (hK : ∀ len res, K len res → TakesAll len res) (hopen : Open s.trace)
    {call : UserCall} (h : s.CallFits K call) : CallWhole call := by
  cases call with
  | send message res => exact hK _ _ (h.2 hopen)
  | _ => trivial

/-- `sendInLoop` only sends, over the kernel. -/
theorem Spoke.sendInLoop {message : List Byte} {res : WriteResult} {r : Outcome}
    (hres : s.WriteFits K message.length res) (hr : s.conn.sendInLoop message res = .ok r) : Spoke K s r where
  talks := sendInLoop_talks hr
  output hopen hK hinv := (sendInLoop_inv hinv message (hK _ _ (hres.2 hopen))).of_eq_ok hr
  drained hopen hK hd := by
    rw [hK _ _ (hres.2 hopen)] at hr
    rw [sendInLoop_whole hd hr]
    exact hd

/-- User code that sends only sends, over the kernel. -/
theorem Spoke.runCallback {callback : List UserCall} {r : Outcome} (hsend : ∀ call ∈ callback, call.IsSend)
    (hfits : ∀ call ∈ callback, s.CallFits K call) (hr : s.conn.runCallback callback = .ok r) :
    Spoke K s r where
  talks := by
    obtain ⟨hstate, htalk⟩ := runCallback_talks hsend hr
    exact ⟨hstate, .inl htalk⟩
  output hopen hK hinv :=
    (runCallback_inv hinv fun call hmem => (hfits call hmem).callOk hK hopen).of_eq_ok hr
  drained hopen hK hd := by
    rw [runCallback_whole hd hsend (fun call hmem => (hfits call hmem).callWhole hK hopen) hr]
    exact hd

/-- Where a thread is that sends or asks to shut down. -/
def IsSpeaking : UserThreadPc → Prop
  | .idle => True
  | .storing f => f = .shutdownInLoop
  | .queueing f => f.isSpoken = true

/-- What the threads and the queue hold while user code only sends, and once asks to shut down. -/
structure TalkInv (s : ThreadedConnection T) : Prop where
  state : s.conn.state = .kConnected ∨ s.conn.state = .kDisconnecting
  queue : ∀ f ∈ s.queue, f.isSpoken = true
  threads : ∀ t, IsSpeaking (s.threads t)
  /-- What was sent was passed to `sendInLoop`, or waits for it. -/
  sent : s.sent.Perm (messages s.trace ++ s.queue.filterMap Functor.message)

/-- While user code only talks, the connection is not closed. -/
theorem TalkInv.not_closed (h : s.TalkInv) : s.conn.state ≠ .kDisconnected := by
  intro hstate
  rcases h.state with hs | hs
  · cases hs.symm.trans hstate
  · cases hs.symm.trans hstate

/-- A functor without a message leaves the queue. -/
theorem TalkInv.pop (h : s.TalkInv) {f : Functor} {queue : List Functor} (hqueue : s.queue = f :: queue)
    (hf : f.message = none) : TalkInv { s with queue } := by
  refine ⟨h.state, fun g hg => h.queue g (by rw [hqueue]; exact List.mem_cons_of_mem _ hg), h.threads, ?_⟩
  have hsent := h.sent
  rw [hqueue, List.filterMap_cons_none hf] at hsent
  exact hsent

/-- A function of the loop thread that queues calls back to the user and passes on what it is given. -/
theorem TalkInv.after (h : s.TalkInv) {r : Outcome} (hstate : r.1.state = s.conn.state)
    (hfunctors : ∀ f ∈ r.2.filterMap Event.functor, f.isCallback = true) : (s.after false r).TalkInv := by
  refine ⟨hstate ▸ h.state, fun f hf => ?_, h.threads, ?_⟩
  · rcases List.mem_append.mp hf with hf | hf
    · exact h.queue f hf
    · exact Functor.isSpoken_of_isCallback (hfunctors f hf)
  · change (s.sent ++ messages r.2).Perm
      (messages (s.trace ++ r.2) ++ (s.queue ++ r.2.filterMap Event.functor).filterMap Functor.message)
    rw [messages_append, List.filterMap_append, Functor.message_of_isCallback hfunctors, List.append_nil,
      List.append_assoc]
    refine (h.sent.append_right _).trans ?_
    rw [List.append_assoc]
    exact List.perm_append_comm.append_left _

/-- The functor of a `send` of another thread. -/
theorem TalkInv.passOn (h : s.TalkInv) {message : List Byte} {queue : List Functor}
    (hqueue : s.queue = .sendInLoop message :: queue) {r : Outcome} (hstate : r.1.state = s.conn.state)
    (hfunctors : ∀ f ∈ r.2.filterMap Event.functor, f.isCallback = true)
    (hmessage : messages r.2 = [message]) : (ThreadedConnection.after { s with queue } true r).TalkInv := by
  refine ⟨hstate ▸ h.state, fun f hf => ?_, h.threads, ?_⟩
  · rcases List.mem_append.mp hf with hf | hf
    · exact h.queue f (by rw [hqueue]; exact List.mem_cons_of_mem _ hf)
    · exact Functor.isSpoken_of_isCallback (hfunctors f hf)
  · change s.sent.Perm
      (messages (s.trace ++ r.2) ++ (queue ++ r.2.filterMap Event.functor).filterMap Functor.message)
    rw [messages_append, List.filterMap_append, Functor.message_of_isCallback hfunctors, List.append_nil,
      hmessage, List.append_assoc]
    have hsent := h.sent
    rw [hqueue] at hsent
    exact hsent

/-- `shutdownInLoop` queues callbacks at most. -/
theorem shutdownInLoop_functors (c : TcpConnection) :
    ∀ f ∈ c.shutdownInLoop.2.filterMap Event.functor, f.isCallback = true := by
  rcases shutdownInLoop_events c with ⟨-, hevs⟩ | ⟨-, hevs⟩
  · rw [hevs]
    simp
  · rw [hevs]
    simp [Event.functor]

variable [DecidableEq T]

/-- What a step of sending can be. -/
inductive TalkStep (K : Kernel) (s : ThreadedConnection T) : ThreadedConnection T → Prop where
  | loop {r : Outcome} (hspoke : Spoke K s r) : TalkStep K s (s.after false r)
  | callback {f : Functor} {queue : List Functor} {r : Outcome} (hqueue : s.queue = f :: queue)
      (hf : f.isCallback = true) (hspoke : Spoke K s r) : TalkStep K s (after { s with queue } false r)
  | sendInLoop {message : List Byte} {queue : List Functor} {r : Outcome}
      (hqueue : s.queue = .sendInLoop message :: queue) (hspoke : Spoke K s r)
      (hmessage : messages r.2 = [message]) : TalkStep K s (after { s with queue } true r)
  | shutdownInLoop {queue : List Functor} (hqueue : s.queue = .shutdownInLoop :: queue) :
      TalkStep K s (after { s with queue } false s.conn.shutdownInLoop)
  | test {t : T} {pc : UserThreadPc} (hpc : pc = .idle ∨ ∃ message, pc = .queueing (.sendInLoop message)) :
      TalkStep K s (s.setThread t pc)
  | store {t : T} {f : Functor} (ht : s.threads t = .storing f) :
      TalkStep K s ({ s with conn := { s.conn with state := .kDisconnecting } }.setThread t (.queueing f))
  | queue {t : T} {f : Functor} (ht : s.threads t = .queueing f) :
      TalkStep K s ({ s with queue := s.queue ++ [f], sent := s.sent ++ f.message.toList }.setThread t .idle)
  | idle : TalkStep K s s

/-- The functor at the head of the queue, in a step of sending. -/
theorem TalkStep.of_runFunctor (h : s.TalkInv) {callback : List UserCall} {res : WriteResult}
    (ha : s.Enabled K (.runFunctor callback res)) (hsend : ∀ call ∈ callback, call.IsSend)
    (ht : s.runFunctor callback res = .ok t) : TalkStep K s t := by
  unfold ThreadedConnection.runFunctor at ht
  split at ht
  · cases ht
    exact .idle
  · next f queue hqueue =>
      obtain ⟨r, hr, ht⟩ := Checked.bind_eq_ok.mp ht
      cases ht
      have hspoken := h.queue f (by rw [hqueue]; exact List.mem_cons_self ..)
      cases f with
      | sendInLoop message =>
          have hres := ha.2 message (by rw [hqueue]; rfl)
          refine .sendInLoop hqueue (.sendInLoop hres hr) ?_
          obtain ⟨-, evs, hevs, hchatter⟩ := sendInLoop_events hr
          have hnone : messages evs = [] :=
            List.filterMap_eq_nil_iff.mpr fun e he => message_of_isChatter (hchatter e he)
          rw [hevs]
          exact congrArg (message :: ·) hnone
      | shutdownInLoop =>
          cases hr
          exact .shutdownInLoop hqueue
      | writeComplete => exact .callback hqueue rfl (.runCallback hsend ha.1 hr)
      | highWaterMark _ => exact .callback hqueue rfl (.runCallback hsend ha.1 hr)
      | forceCloseInLoop | startReadInLoop | stopReadInLoop => cases hspoken

/-- The steps of sending are those of `TalkStep`. -/
theorem TalkStep.of_exec (h : s.TalkInv) {a : ThreadedStep T} (ha : s.Enabled K a) (htalk : a.Talk)
    (ht : s.exec a = .ok t) : TalkStep K s t := by
  cases a with
  | runFunctor callback res => exact .of_runFunctor h ha htalk ht
  | handleRead res callback unread =>
      obtain ⟨r, hr, ht⟩ := Checked.bind_eq_ok.mp ht
      cases ht
      refine .loop ⟨handleRead_talks htalk.1 htalk.2 hr, fun hopen hK hinv => ?_, fun hopen hK hd => ?_⟩
      · exact (handleRead_inv hinv (fun call hmem => (ha call hmem).callOk hK hopen)
          (absurd · htalk.1)).of_eq_ok hr
      · exact handleRead_whole hd htalk.1 htalk.2 (fun call hmem => (ha call hmem).callWhole hK hopen) hr
  | handleWrite res =>
      obtain ⟨r, hr, ht⟩ := Checked.bind_eq_ok.mp ht
      cases ht
      refine .loop ⟨handleWrite_talks hr, fun hopen hK hinv => ?_, fun _ _ hd => ?_⟩
      · exact (handleWrite_inv hinv (hK _ _ (ha.2 hopen))).of_eq_ok hr
      · unfold TcpConnection.handleWrite at hr
        rw [hd.isWriting] at hr
        cases hr
        exact hd
  | handleClose callback => exact htalk.elim
  | connectDestroyed callback => exact htalk.elim
  | loopCall c =>
      obtain ⟨r, hr, ht⟩ := Checked.bind_eq_ok.mp ht
      cases ht
      cases c with
      | send message res =>
          refine .loop (.runCallback ?_ ?_ ((runCallback_singleton _ _).trans hr))
          · exact fun call hmem => List.mem_singleton.mp hmem ▸ htalk
          · exact fun call hmem => List.mem_singleton.mp hmem ▸ ha
      | _ => exact htalk.elim
  | call k c =>
      cases ht
      cases c with
      | send message res =>
          refine .test ?_
          by_cases hstate : s.conn.state = .kConnected
          · exact .inr ⟨message, if_pos hstate⟩
          · exact .inl (if_neg hstate)
      | _ => exact htalk.elim
  | store k =>
      obtain ⟨f, hf⟩ := ha
      cases ht
      rw [ThreadedConnection.store, hf]
      exact .store hf
  | queue k =>
      obtain ⟨f, hf⟩ := ha
      cases ht
      rw [ThreadedConnection.queueFunctor, hf]
      exact .queue hf

/-- Every step of sending keeps the invariant. -/
theorem TalkInv.step (h : s.TalkInv) (hstep : TalkStep K s t) : t.TalkInv := by
  cases hstep with
  | loop hspoke => exact h.after hspoke.talks.state hspoke.talks.functors
  | @callback f queue r hqueue hf hspoke =>
      have hmessage : f.message = none := by
        cases f with
        | sendInLoop _ => cases hf
        | _ => rfl
      exact (h.pop hqueue hmessage).after hspoke.talks.state hspoke.talks.functors
  | sendInLoop hqueue hspoke hmessage =>
      exact h.passOn hqueue hspoke.talks.state hspoke.talks.functors hmessage
  | shutdownInLoop hqueue => exact (h.pop hqueue rfl).after rfl (shutdownInLoop_functors _)
  | @test k pc hpc =>
      refine ⟨h.state, h.queue, setThread_forall h.threads ?_, h.sent⟩
      rcases hpc with rfl | ⟨_, rfl⟩
      · trivial
      · rfl
  | @store k f hf =>
      have hshutdown : f = .shutdownInLoop := by
        have hk := h.threads k
        rw [hf] at hk
        exact hk
      refine ⟨.inr rfl, h.queue, setThread_forall h.threads ?_, h.sent⟩
      rw [hshutdown]
      rfl
  | @queue k f hf =>
      refine ⟨h.state, fun g hg => ?_, setThread_forall h.threads trivial, ?_⟩
      · rcases List.mem_append.mp hg with hg | hg
        · exact h.queue g hg
        · have hk := h.threads k
          rw [hf] at hk
          rw [List.mem_singleton.mp hg]
          exact hk
      · change (s.sent ++ f.message.toList).Perm
          (messages s.trace ++ (s.queue ++ [f]).filterMap Functor.message)
        rw [List.filterMap_append, ← List.append_assoc]
        have hlast : [f].filterMap Functor.message = f.message.toList := by
          cases f <;> rfl
        exact hlast ▸ h.sent.append_right _
  | idle => exact h

/-! ### The output -/

/-- The output stream, up to the first half-close. -/
theorem TalkStep.outputInv (hstep : TalkStep K s t) (hK : ∀ len res, K len res → WriteOk len res)
    (h : s.TalkInv) (hopen : Open s.trace) (hinv : OutputInv s.conn s.trace) : OutputInv t.conn t.trace := by
  cases hstep with
  | loop hspoke => exact hspoke.output hopen hK hinv
  | callback _ _ hspoke => exact hspoke.output hopen hK hinv
  | sendInLoop _ hspoke _ => exact hspoke.output hopen hK hinv
  | shutdownInLoop _ => exact shutdownInLoop_inv hinv
  | test _ => exact hinv
  | store _ => exact hinv.disconnecting h.state
  | queue _ => exact hinv
  | idle => exact hinv

/-- A kernel that takes all leaves nothing to send. -/
theorem TalkStep.drained (hstep : TalkStep K s t) (hK : ∀ len res, K len res → TakesAll len res)
    (hopen : Open s.trace) (hd : s.conn.Drained) : t.conn.Drained := by
  cases hstep with
  | loop hspoke => exact hspoke.drained hopen hK hd
  | callback _ _ hspoke => exact hspoke.drained hopen hK hd
  | sendInLoop _ hspoke _ => exact hspoke.drained hopen hK hd
  | shutdownInLoop _ => exact hd
  | test _ => exact hd
  | store _ => exact ⟨hd.output, hd.isWriting⟩
  | queue _ => exact hd
  | idle => exact hd

/-- What a step adds to the trace. A half-close comes last, from `handleWrite` or from the functor of
`shutdown()`. -/
theorem TalkStep.trace_cases (hstep : TalkStep K s t) :
    (∃ evs, t.trace = s.trace ++ evs ∧ ∀ e ∈ evs, e.isTalk = true) ∨
    (∃ evs pending, t.trace = (s.trace ++ evs) ++ [.shutdownWrite s.conn.state pending] ∧
      (∀ e ∈ evs, e.isTalk = true) ∧
      (s.conn.state = .kDisconnecting ∧ s.conn.channel.isWriting = true ∨
        evs = [] ∧ ∃ queue, s.queue = .shutdownInLoop :: queue)) := by
  have hspoken : ∀ {r : Outcome}, Spoke K s r →
      (∃ evs, s.trace ++ r.2 = s.trace ++ evs ∧ ∀ e ∈ evs, e.isTalk = true) ∨
      (∃ evs pending, s.trace ++ r.2 = (s.trace ++ evs) ++ [.shutdownWrite s.conn.state pending] ∧
        (∀ e ∈ evs, e.isTalk = true) ∧
        (s.conn.state = .kDisconnecting ∧ s.conn.channel.isWriting = true ∨
          evs = [] ∧ ∃ queue, s.queue = .shutdownInLoop :: queue)) := by
    intro r hspoke
    rcases hspoke.talks.events with htalk | ⟨hstate, hwriting, evs, pending, hevs, htalk⟩
    · exact .inl ⟨r.2, rfl, htalk⟩
    · exact .inr ⟨evs, pending, by rw [hevs, List.append_assoc], htalk, .inl ⟨hstate, hwriting⟩⟩
  have hsame : ∃ evs, s.trace = s.trace ++ evs ∧ ∀ e ∈ evs, e.isTalk = true :=
    ⟨[], (List.append_nil _).symm, by simp⟩
  cases hstep with
  | loop hspoke => exact hspoken hspoke
  | callback _ _ hspoke => exact hspoken hspoke
  | sendInLoop _ hspoke _ => exact hspoken hspoke
  | shutdownInLoop hqueue =>
      rcases shutdownInLoop_events s.conn with ⟨-, hevs⟩ | ⟨-, hevs⟩
      · rw [hevs]
        exact .inl ⟨[], rfl, by simp⟩
      · rw [hevs]
        exact .inr ⟨[], _, by rw [List.append_nil]; rfl, by simp, .inr ⟨rfl, _, hqueue⟩⟩
  | test _ => exact .inl hsame
  | store _ => exact .inl hsame
  | queue _ => exact .inl hsame
  | idle => exact .inl hsame

/-- Events are only added. -/
theorem TalkStep.trace_append (hstep : TalkStep K s t) : ∃ evs, t.trace = s.trace ++ evs := by
  rcases hstep.trace_cases with ⟨evs, heq, -⟩ | ⟨evs, pending, heq, -, -⟩
  · exact ⟨evs, heq⟩
  · exact ⟨_, heq.trans (List.append_assoc ..)⟩

/-! ### Before `shutdown()` -/

/-- Where a thread is that has not asked to shut down. -/
def IsUnasked : UserThreadPc → Prop
  | .idle => True
  | .storing _ => False
  | .queueing f => f ≠ .shutdownInLoop

/-- Nobody has asked to shut down. -/
structure Unasked (s : ThreadedConnection T) : Prop where
  state : s.conn.state = .kConnected
  trace : Open s.trace
  queue : .shutdownInLoop ∉ s.queue
  threads : ∀ t, IsUnasked (s.threads t)

/-- A step of sending asks nobody to shut down. -/
theorem Unasked.step (h : s.Unasked) (hstep : TalkStep K s t) : t.Unasked := by
  have hopen : Open t.trace := by
    rcases hstep.trace_cases with ⟨evs, heq, htalk⟩ | ⟨-, -, -, -, ⟨hstate, -⟩ | ⟨-, queue, hqueue⟩⟩
    · rw [heq]
      exact h.trace.append (.of_isTalk htalk)
    · cases h.state.symm.trans hstate
    · exact absurd (hqueue ▸ List.mem_cons_self ..) h.queue
  have hqueued : ∀ {r : Outcome} {queue : List Functor}, Spoke K s r → .shutdownInLoop ∉ queue →
      .shutdownInLoop ∉ queue ++ r.2.filterMap Event.functor := by
    intro r queue hspoke hqueue hmem
    rcases List.mem_append.mp hmem with hmem | hmem
    · exact hqueue hmem
    · cases hspoke.talks.functors _ hmem
  cases hstep with
  | loop hspoke =>
      exact ⟨hspoke.talks.state.trans h.state, hopen, hqueued hspoke h.queue, h.threads⟩
  | callback hqueue _ hspoke =>
      have hrest := h.queue
      rw [hqueue, List.mem_cons, not_or] at hrest
      exact ⟨hspoke.talks.state.trans h.state, hopen, hqueued hspoke hrest.2, h.threads⟩
  | sendInLoop hqueue hspoke _ =>
      have hrest := h.queue
      rw [hqueue, List.mem_cons, not_or] at hrest
      exact ⟨hspoke.talks.state.trans h.state, hopen, hqueued hspoke hrest.2, h.threads⟩
  | shutdownInLoop hqueue => exact absurd (hqueue ▸ List.mem_cons_self ..) h.queue
  | @test k pc hpc =>
      refine ⟨h.state, hopen, h.queue, setThread_forall h.threads ?_⟩
      rcases hpc with rfl | ⟨_, rfl⟩
      · trivial
      · nofun
  | @store k f hf =>
      have hk := h.threads k
      rw [hf] at hk
      exact hk.elim
  | @queue k f hf =>
      have hk := h.threads k
      rw [hf] at hk
      refine ⟨h.state, hopen, fun hmem => ?_, setThread_forall h.threads trivial⟩
      rcases List.mem_append.mp hmem with hmem | hmem
      · exact h.queue hmem
      · exact hk (List.mem_singleton.mp hmem).symm
  | idle => exact h

omit [DecidableEq T] in
/-- The invariants hold for a fresh connection. -/
theorem established_inv {c : TcpConnection} (hc : c.Fresh) :
    (established c : ThreadedConnection T).TalkInv ∧ (established c : ThreadedConnection T).Unasked ∧
      OutputInv (established c : ThreadedConnection T).conn (established c : ThreadedConnection T).trace ∧
      (established c : ThreadedConnection T).conn.Drained := by
  refine ⟨⟨.inl rfl, by simp [established], fun _ => trivial, .nil⟩,
    ⟨rfl, by simp [established, Open, isShutdownWrite], by simp [established], fun _ => trivial⟩, ?_,
    ⟨hc.output, ?_⟩⟩
  · have hest : c.connectEstablished [] = .ok ((established c : ThreadedConnection T).conn,
        (established c : ThreadedConnection T).trace) := by
      rw [connectEstablished, assert_pos hc.state, Checked.ok_bind]
      rfl
    have hnone : ∀ call ∈ ([] : List UserCall), CallOk call := by simp
    exact (connectEstablished_inv hnone hc.state hc.output hc.channel).of_eq_ok hest
  · change c.channel.enableReading.isWriting = false
    rw [Channel.isWriting_enableReading, hc.channel, Channel.isWriting_new]

/-- Before anybody asks, the invariants hold. -/
theorem unasked_of_reachable (hK : ∀ len res, K len res → WriteOk len res)
    (hs : (talking T K).Reachable s) : s.TalkInv ∧ s.Unasked ∧ OutputInv s.conn s.trace := by
  refine Machine.Reachable.induction
    (P := fun s => s.TalkInv ∧ s.Unasked ∧ OutputInv s.conn s.trace) ?_ ?_ hs
  · rintro s ⟨c, hc, rfl⟩
    obtain ⟨htalk, hunasked, houtput, -⟩ := established_inv (T := T) hc
    exact ⟨htalk, hunasked, houtput⟩
  · rintro s a t ⟨htalk, hunasked, houtput⟩ ha ht
    have hstep := TalkStep.of_exec htalk ha.1 ha.2 ht
    exact ⟨htalk.step hstep, hunasked.step hstep, hstep.outputInv hK htalk hunasked.trace houtput⟩

/-- A kernel that takes all leaves nothing, in every reachable state. -/
theorem drained_of_reachable (hK : ∀ len res, K len res → TakesAll len res)
    (hs : (talking T K).Reachable s) : s.conn.Drained := by
  have hinv : (s.TalkInv ∧ s.Unasked) ∧ s.conn.Drained := by
    refine Machine.Reachable.induction (P := fun s => (s.TalkInv ∧ s.Unasked) ∧ s.conn.Drained) ?_ ?_ hs
    · rintro s ⟨c, hc, rfl⟩
      obtain ⟨htalk, hunasked, -, hd⟩ := established_inv (T := T) hc
      exact ⟨⟨htalk, hunasked⟩, hd⟩
    · rintro s a t ⟨⟨htalk, hunasked⟩, hd⟩ ha ht
      have hstep := TalkStep.of_exec htalk ha.1 ha.2 ht
      exact ⟨⟨htalk.step hstep, hunasked.step hstep⟩, hstep.drained hK hunasked.trace hd⟩
  exact hinv.2

/-! ### After `shutdown()` -/

/-- The call of `shutdown()`, in the loop thread or in another one. -/
def shutdownCall : Option T → ThreadedStep T
  | none => .loopCall .shutdown
  | some t => .call t .shutdown

/-- No message waits in the queue but empty ones. -/
def NothingWaiting (s : ThreadedConnection T) : Prop :=
  ∀ message, .sendInLoop message ∈ s.queue → message = []

/-- The messages in a queue ahead of the functor of `shutdown()`. -/
def ahead : List Functor → List (List Byte)
  | [] => []
  | .shutdownInLoop :: _ => []
  | f :: queue => f.message.toList ++ ahead queue

/-- A longer queue has no fewer messages ahead. -/
theorem ahead_append (queue queue' : List Functor) : (ahead queue).Sublist (ahead (queue ++ queue')) := by
  induction queue with
  | nil => exact List.nil_sublist _
  | cons f queue ih =>
      cases f with
      | shutdownInLoop => exact List.nil_sublist _
      | _ => exact ih.append_left _

/-- Without a shutdown all messages are ahead. -/
theorem ahead_eq {queue : List Functor} (h : .shutdownInLoop ∉ queue) :
    ahead queue = queue.filterMap Functor.message := by
  induction queue with
  | nil => rfl
  | cons f queue ih =>
      rw [List.mem_cons, not_or] at h
      have hrest := ih h.2
      cases f with
      | shutdownInLoop => exact absurd rfl h.1
      | sendInLoop message => exact congrArg (message :: ·) hrest
      | _ => exact hrest

variable {ms : List (List Byte)}

/-- The messages have been passed to `sendInLoop`. -/
structure Passed (ms : List (List Byte)) (s : ThreadedConnection T) : Prop where
  talk : s.TalkInv
  output : Open s.trace → OutputInv s.conn s.trace
  passed : (ms.filter (· ≠ [])).Subperm (messages s.trace)
  handedOver : HandedOver ms s.trace

/-- Messages passed on stay passed on. -/
theorem Passed.step (h : Passed ms s) (hK : ∀ len res, K len res → WriteOk len res)
    (hstep : TalkStep K s t) : Passed ms t := by
  obtain ⟨evs, heq⟩ := hstep.trace_append
  have hpassed : (ms.filter (· ≠ [])).Subperm (messages t.trace) := by
    rw [heq, messages_append]
    exact h.passed.trans (List.sublist_append_left _ _).subperm
  by_cases hopen : Open s.trace
  · have houtput := hstep.outputInv hK h.talk hopen (h.output hopen)
    refine ⟨h.talk.step hstep, fun _ => houtput, hpassed, ?_⟩
    rcases hstep.trace_cases with ⟨evs, heq, htalk⟩ | ⟨evs, pending, heq, htalk, -⟩
    · rw [heq]
      exact .of_open (hopen.append (.of_isTalk htalk))
    · -- the half-close finds everything handed over
      have hclean := houtput.halfClose _ _ _ [] heq h.talk.not_closed
      rw [heq, handedOver_concat_iff (hopen.append (.of_isTalk htalk))]
      refine ⟨h.passed.trans ?_, hclean.2⟩
      rw [messages_append]
      exact (List.sublist_append_left _ _).subperm
  · have hclosed : ¬ Open t.trace := fun hopen' => hopen (heq ▸ hopen').left
    exact ⟨h.talk.step hstep, (absurd · hclosed), hpassed, heq ▸ h.handedOver.append hopen evs⟩

/-- The messages have been passed to `sendInLoop`, or wait for it ahead of the functor of `shutdown()`, and
nothing is left in `outputBuffer_`. -/
structure Ahead (ms : List (List Byte)) (s : ThreadedConnection T) : Prop where
  talk : s.TalkInv
  output : Open s.trace → OutputInv s.conn s.trace
  drained : Open s.trace → s.conn.Drained
  ahead : Open s.trace → (ms.filter (· ≠ [])).Subperm (messages s.trace ++ ahead s.queue)
  handedOver : HandedOver ms s.trace

/-- More events and a longer queue. -/
theorem subperm_grow {l : List (List Byte)} {tr : List Event} {queue : List Functor}
    (h : l.Subperm (messages tr ++ ThreadedConnection.ahead queue)) (evs : List Event)
    (queue' : List Functor) :
    l.Subperm (messages (tr ++ evs) ++ ThreadedConnection.ahead (queue ++ queue')) := by
  rw [messages_append]
  exact h.trans (((List.sublist_append_left _ _).append (ahead_append _ _)).subperm)

/-- A kernel that takes all does a legal write. -/
theorem TakesAll.writeOk {len : Nat} {res : WriteResult} (h : TakesAll len res) : WriteOk len res := by
  cases h
  exact Nat.le_refl len

/-- What a step of sending does while the write side is open: it keeps the messages ahead, or it half-closes
because the queue has come to the functor of `shutdown()`. -/
theorem Ahead.step_open (h : Ahead ms s) (hopen : Open s.trace) (hstep : TalkStep TakesAll s t) :
    (Open t.trace ∧ (ms.filter (· ≠ [])).Subperm (messages t.trace ++ ThreadedConnection.ahead t.queue)) ∨
      (¬ Open t.trace ∧ HandedOver ms t.trace) := by
  have hd := h.drained hopen
  have hahead := h.ahead hopen
  have hspoken : ∀ {r : Outcome}, Spoke TakesAll s r → Open (s.trace ++ r.2) := by
    intro r hspoke
    rcases hspoke.talks.events with htalk | ⟨-, hwriting, -⟩
    · exact hopen.append (.of_isTalk htalk)
    · -- `handleWrite` has nothing to write
      cases hd.isWriting.symm.trans hwriting
  cases hstep with
  | loop hspoke => exact .inl ⟨hspoken hspoke, subperm_grow hahead _ _⟩
  | @callback f queue r hqueue hf hspoke =>
      have hrest : ThreadedConnection.ahead s.queue = ThreadedConnection.ahead queue := by
        rw [hqueue]
        cases f with
        | writeComplete | highWaterMark _ => rfl
        | _ => cases hf
      rw [hrest] at hahead
      exact .inl ⟨hspoken hspoke, subperm_grow hahead _ _⟩
  | @sendInLoop message queue r hqueue hspoke hmessage =>
      have hmoved : messages s.trace ++ ThreadedConnection.ahead s.queue
          = messages (s.trace ++ r.2) ++ ThreadedConnection.ahead queue := by
        rw [hqueue, messages_append, hmessage, List.append_assoc]
        rfl
      rw [hmoved] at hahead
      have hgrow := subperm_grow hahead [] (r.2.filterMap Event.functor)
      rw [List.append_nil] at hgrow
      exact .inl ⟨hspoken hspoke, hgrow⟩
  | shutdownInLoop hqueue =>
      rcases shutdownInLoop_events s.conn with ⟨hwriting, -⟩ | ⟨-, hevs⟩
      · cases hd.isWriting.symm.trans hwriting
      · rw [hqueue] at hahead
        rw [hevs]
        refine .inr ⟨not_open_concat, (handedOver_concat_iff hopen).mpr ⟨?_, ?_⟩⟩
        · exact (List.append_nil (messages s.trace)) ▸ hahead
        · exact ((h.output hopen).drained h.talk.not_closed hd.isWriting).2
  | test _ => exact .inl ⟨hopen, hahead⟩
  | store _ => exact .inl ⟨hopen, hahead⟩
  | @queue k f hf =>
      have hgrow := subperm_grow hahead [] [f]
      rw [List.append_nil] at hgrow
      exact .inl ⟨hopen, hgrow⟩
  | idle => exact .inl ⟨hopen, hahead⟩

/-- The messages ahead stay ahead. -/
theorem Ahead.step (h : Ahead ms s) (hstep : TalkStep TakesAll s t) : Ahead ms t := by
  obtain ⟨evs, heq⟩ := hstep.trace_append
  by_cases hopen : Open s.trace
  · have houtput := hstep.outputInv (fun _ _ => TakesAll.writeOk) h.talk hopen (h.output hopen)
    have hd := hstep.drained (fun _ _ => id) hopen (h.drained hopen)
    rcases h.step_open hopen hstep with ⟨hopen', hahead⟩ | ⟨hclosed, hover⟩
    · exact ⟨h.talk.step hstep, fun _ => houtput, fun _ => hd, fun _ => hahead, .of_open hopen'⟩
    · exact ⟨h.talk.step hstep, fun _ => houtput, fun _ => hd, (absurd · hclosed), hover⟩
  · have hclosed : ¬ Open t.trace := fun hopen' => hopen (heq ▸ hopen').left
    exact ⟨h.talk.step hstep, (absurd · hclosed), (absurd · hclosed), (absurd · hclosed),
      heq ▸ h.handedOver.append hopen evs⟩

/-! ### The call -/

omit [DecidableEq T] in
/-- What was sent has been passed on, the empty messages apart, exactly when nothing waits. -/
theorem TalkInv.passed_iff (h : s.TalkInv) :
    (s.sent.filter (· ≠ [])).Subperm (messages s.trace) ↔ s.NothingWaiting := by
  have hsent := h.sent.filter (· ≠ [])
  rw [List.filter_append] at hsent
  have hwaiting : (s.queue.filterMap Functor.message).filter (· ≠ []) = [] ↔ s.NothingWaiting := by
    rw [List.filter_eq_nil_iff]
    constructor
    · intro hnil message hmem
      simpa using hnil message (List.mem_filterMap.mpr ⟨_, hmem, rfl⟩)
    · intro hnone message hmem
      obtain ⟨f, hf, hmessage⟩ := List.mem_filterMap.mp hmem
      cases f with
      | sendInLoop m =>
          cases hmessage
          simpa using hnone message hf
      | _ => cases hmessage
  rw [← hwaiting]
  constructor
  · intro hpassed
    -- the messages that are not empty, counted
    have hcount := (hpassed.filter (· ≠ [])).length_le
    simp only [List.filter_filter, Bool.and_self] at hcount
    rw [hsent.length_eq, List.length_append] at hcount
    exact List.length_eq_zero_iff.mp (by omega)
  · intro hnil
    rw [hnil, List.append_nil] at hsent
    exact hsent.subperm.trans List.filter_sublist.subperm

variable {s' : ThreadedConnection T}

/-- `shutdown()` in the loop thread, as if its functor stood at the head of the queue. -/
theorem exec_shutdown_loop (h : s.Unasked) (hs' : s.exec (shutdownCall none) = .ok s') :
    s' = s.after false { s.conn with state := .kDisconnecting }.shutdownInLoop := by
  obtain ⟨r, hr, hs'⟩ := Checked.bind_eq_ok.mp hs'
  cases hs'
  cases hr
  rw [TcpConnection.shutdown, if_pos h.state]
  rfl

/-- `shutdown()` of another thread stores its functor. -/
theorem exec_shutdown_thread (h : s.Unasked) {k : T} (hs' : s.exec (shutdownCall (some k)) = .ok s') :
    s' = s.setThread k (.storing .shutdownInLoop) := by
  cases hs'
  rw [firstStep, if_pos h.state]

/-- A thread that is about to queue its `shutdownInLoop` keeps the invariant. -/
theorem TalkInv.storing_shutdown (h : s.TalkInv) (k : T) :
    (s.setThread k (.storing .shutdownInLoop)).TalkInv :=
  ⟨h.state, h.queue, setThread_forall h.threads rfl, h.sent⟩

/-- After the call, when nothing waits. -/
theorem Passed.of_shutdown (hK : ∀ len res, K len res → WriteOk len res) (htalk : s.TalkInv)
    (hunasked : s.Unasked) (houtput : OutputInv s.conn s.trace) (hnone : s.NothingWaiting)
    {caller : Option T} (hs' : s.exec (shutdownCall caller) = .ok s') : Passed s.sent s' := by
  have hpassed := htalk.passed_iff.mpr hnone
  cases caller with
  | none =>
      rw [exec_shutdown_loop hunasked hs']
      -- the functor runs at once
      have hnext : Passed s.sent { s with
          conn := { s.conn with state := .kDisconnecting }, queue := .shutdownInLoop :: s.queue } := by
        refine ⟨⟨.inr rfl, fun f hf => ?_, htalk.threads, htalk.sent⟩,
          fun _ => houtput.disconnecting htalk.state, hpassed, .of_open hunasked.trace⟩
        rcases List.mem_cons.mp hf with rfl | hf
        · rfl
        · exact htalk.queue f hf
      exact hnext.step hK (.shutdownInLoop rfl)
  | some k =>
      rw [exec_shutdown_thread hunasked hs']
      exact ⟨htalk.storing_shutdown k, fun _ => houtput, hpassed, .of_open hunasked.trace⟩

/-- After the call of another thread. -/
theorem Ahead.of_shutdown (htalk : s.TalkInv) (hunasked : s.Unasked) (houtput : OutputInv s.conn s.trace)
    (hd : s.conn.Drained) {k : T} (hs' : s.exec (shutdownCall (some k)) = .ok s') : Ahead s.sent s' := by
  rw [exec_shutdown_thread hunasked hs']
  refine ⟨htalk.storing_shutdown k, fun _ => houtput, fun _ => hd, fun _ => ?_, .of_open hunasked.trace⟩
  change (s.sent.filter (· ≠ [])).Subperm (messages s.trace ++ ThreadedConnection.ahead s.queue)
  rw [ahead_eq hunasked.queue]
  exact List.filter_sublist.subperm.trans htalk.sent.subperm

end ThreadedConnection

open ThreadedConnection

/-- **`shutdown()` after the calls of `send` that have returned.** When none of their messages waits in the
queue of the loop, all have been taken by the kernel at the half-close, however the kernel cuts the writes. A
kernel that takes every write whole leaves one more way to be sure of it, and no other: to call from another
thread. -/
theorem sent_before_half_close {T : Type} [DecidableEq T] {K : Kernel}
    (hK : ∀ len res, K len res → WriteOk len res) {s s' : ThreadedConnection T}
    (hs : (talking T K).Reachable s) {caller : Option T}
    (hs' : s.exec (shutdownCall caller) = .ok s') :
    (s.NothingWaiting → ∀ as t, (talking T K).Run s' as t → HandedOver s.sent t.trace) ∧
    (K = TakesAll → ((∀ as t, (talking T K).Run s' as t → HandedOver s.sent t.trace) ↔
      caller ≠ none ∨ s.NothingWaiting)) := by
  obtain ⟨htalk, hunasked, houtput⟩ := unasked_of_reachable hK hs
  have hpassed : s.NothingWaiting → ∀ as t, (talking T K).Run s' as t → HandedOver s.sent t.trace := by
    intro hnone as t hrun
    have hinv : Passed s.sent t := by
      refine hrun.induction (P := Passed s.sent) ?_ (.of_shutdown hK htalk hunasked houtput hnone hs')
      exact fun _ _ _ h ha ht => h.step hK (.of_exec h.talk ha.1 ha.2 ht)
    exact hinv.handedOver
  refine ⟨hpassed, ?_⟩
  rintro rfl
  have hd := drained_of_reachable (fun _ _ => id) hs
  constructor
  · intro hover
    cases caller with
    | none =>
        have hnow := hover [] s' (.nil s')
        rw [exec_shutdown_loop hunasked hs'] at hnow
        rcases shutdownInLoop_events { s.conn with state := .kDisconnecting } with ⟨hw, -⟩ | ⟨-, hevs⟩
        · cases hd.isWriting.symm.trans hw
        · rw [hevs] at hnow
          exact .inr (htalk.passed_iff.mp ((handedOver_concat_iff hunasked.trace).mp hnow).1)
    | some k => exact .inl nofun
  · rintro (hcaller | hnone)
    · cases caller with
      | none => exact absurd rfl hcaller
      | some k =>
          intro as t hrun
          have hinv : Ahead s.sent t := by
            refine hrun.induction (P := Ahead s.sent) ?_ (.of_shutdown htalk hunasked houtput hd hs')
            exact fun _ _ _ h ha ht => h.step (.of_exec h.talk ha.1 ha.2 ht)
          exact hinv.handedOver
    · exact hpassed hnone

/-- Another thread has sent one byte, and the loop has not come to it. -/
def ThreadedConnection.oneByteSent : ThreadedConnection Unit :=
  ((established (.new false false)).setThread () (.queueing (.sendInLoop [1]))).queueFunctor ()

/-- One message has been sent. -/
theorem ThreadedConnection.oneByteSent_reachable : (talking Unit TakesAll).Reachable oneByteSent := by
  have hfresh : (TcpConnection.new false false).Fresh := ⟨rfl, rfl, ByteQueue.content_new⟩
  have hinit : (talking Unit TakesAll).Reachable (established (.new false false)) := .of_init ⟨_, hfresh, rfl⟩
  have htested : (talking Unit TakesAll).Reachable
      ((established (.new false false)).setThread () (.queueing (.sendInLoop [1]))) :=
    hinit.step (a := ThreadedStep.call () (.send [1] (.ok 1))) ⟨⟨rfl, nofun⟩, trivial⟩ rfl
  exact htested.step (a := ThreadedStep.queue ()) ⟨⟨_, rfl⟩, trivial⟩ rfl

/-- A `shutdown()` of the same thread comes after the byte. -/
theorem sent_before_half_close_thread : ∃ s s' : ThreadedConnection Unit,
    (talking Unit TakesAll).Reachable s ∧ s.sent = [[1]] ∧ ¬ s.NothingWaiting ∧
    s.exec (shutdownCall (some ())) = .ok s' ∧
    ∀ as t, (talking Unit TakesAll).Run s' as t → HandedOver s.sent t.trace := by
  have hexec : oneByteSent.exec (shutdownCall (some ())) = .ok _ := rfl
  refine ⟨oneByteSent, _, oneByteSent_reachable, rfl, fun hnone => ?_, hexec, ?_⟩
  · cases hnone [1] (List.mem_singleton_self _)
  · have hiff := sent_before_half_close (fun _ _ => TakesAll.writeOk) oneByteSent_reachable hexec
    exact (hiff.2 rfl).mpr (.inl nofun)

/-- A `shutdown()` in the loop thread half-closes at once, ahead of the byte. -/
theorem half_close_before_sent : ∃ s s' : ThreadedConnection Unit,
    (talking Unit TakesAll).Reachable s ∧ s.sent = [[1]] ∧
    s.Enabled TakesAll (shutdownCall none) ∧ s.exec (shutdownCall none) = .ok s' ∧
    ¬ HandedOver s.sent s'.trace := by
  refine ⟨oneByteSent, _, oneByteSent_reachable, rfl, trivial, rfl, fun hover => ?_⟩
  have hopen : Open [.connectionCallback .kConnected] := by simp [Open, isShutdownWrite]
  have hpassed := ((handedOver_concat_iff hopen).mp hover).1
  cases hpassed.length_le

end Muduo.Net
