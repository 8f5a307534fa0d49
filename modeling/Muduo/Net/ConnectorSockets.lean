import Muduo.Net.Connector

/-! # Who owns the sockets of a connector

`Connector.Does` says once what the member functions can do; `Connector.Owns` is the invariant: every socket
that was created has been closed or handed over exactly once, except the one of the attempt in progress,
whose channel is in the poller. `connector_owns_sockets` states it for every run. -/

namespace Muduo.Net

open Support

namespace Connector

/-! ## What a connector does -/

/-- A channel that was taken out of the poller. -/
def removedChannel : Channel := ⟨Channel.kNoneEvent, false⟩

/-- The events of a timer, if one is started. -/
def timerEvents (delay : Option Nat) : List ConnectorEvent := delay.toList.map .runAfter

/-- What a member function can do when it returns. -/
inductive Does (c : Connector) : List ConnectorEvent → Connector → Prop where
  | nothing : Does c [] c
  /-- An attempt is begun. -/
  | begun {d : Connector} (hfrom : c.state = .kDisconnected) (hfree : c.channel = none)
      (hstate : d.state = .kConnecting)
      (hchannel : d.channel = some ⟨c.sockets, Channel.new.enableWriting⟩)
      (hsockets : d.sockets = c.sockets + 1) : Does c [.socket c.sockets] d
  /-- An attempt fails at once. -/
  | refused {d : Connector} (delay : Option Nat) (hfrom : c.state = .kDisconnected)
      (hstate : d.state = .kDisconnected) (hchannel : d.channel = c.channel)
      (hsockets : d.sockets = c.sockets + 1) :
      Does c ([.socket c.sockets, .close c.sockets] ++ timerEvents delay) d
  /-- The attempt in progress ends, and its socket is closed. -/
  | ended {d : Connector} {channel : FdChannel} (delay : Option Nat) (hfrom : c.state = .kConnecting)
      (hin : c.channel = some channel) (hstate : d.state ≠ .kConnecting)
      (hdelay : delay ≠ none → d.state = .kDisconnected)
      (hchannel : d.channel = some ⟨channel.fd, removedChannel⟩) (hsockets : d.sockets = c.sockets) :
      Does c ([.queued .resetChannel, .close channel.fd] ++ timerEvents delay) d
  /-- The attempt in progress succeeds, and its socket is handed over. -/
  | connected {d : Connector} {channel : FdChannel} (hfrom : c.state = .kConnecting)
      (hconnect : c.connect_ = true) (hin : c.channel = some channel) (hstate : d.state = .kConnected)
      (hchannel : d.channel = some ⟨channel.fd, removedChannel⟩) (hsockets : d.sockets = c.sockets) :
      Does c [.queued .resetChannel, .newConnection channel.fd] d

variable {c d : Connector} {events : List ConnectorEvent}

/-- An attempt that goes on is not touched. -/
theorem Does.eq_of_connecting (h : Does c events d) (hc : c.state = .kConnecting)
    (hd : d.state = .kConnecting) : d = c ∧ events = [] := by
  cases h with
  | nothing => exact ⟨rfl, rfl⟩
  | begun hfrom | refused delay hfrom =>
      rw [hc] at hfrom
      cases hfrom
  | ended delay hfrom hin hstate => exact absurd hd hstate
  | connected hfrom hconnect hin hstate =>
      rw [hd] at hstate
      cases hstate

/-- Only an attempt in progress leads to a connection. -/
theorem Does.of_newConnection (h : Does c events d) {n : Nat} (hn : .newConnection n ∈ events) :
    c.state = .kConnecting ∧ c.connect_ = true := by
  cases h with
  | nothing | begun => simp at hn
  | refused delay | ended delay => cases delay <;> simp [timerEvents] at hn
  | connected hfrom hconnect => exact ⟨hfrom, hconnect⟩

/-- `retry` closes the socket and may start a timer. -/
theorem retry_eq (c : Connector) (sockfd : Nat) : ∃ delay,
    (c.retry sockfd).2 = .close sockfd :: timerEvents delay ∧
      (c.retry sockfd).1.state = .kDisconnected ∧ (c.retry sockfd).1.channel = c.channel ∧
      (c.retry sockfd).1.sockets = c.sockets := by
  unfold retry
  dsimp only
  split_ifs
  · exact ⟨some c.retryDelayMs, rfl, rfl, rfl, rfl⟩
  · exact ⟨none, rfl, rfl, rfl, rfl⟩

/-- `connecting` begins an attempt; there was no channel. -/
theorem connecting_cases {sockfd : Nat} (h : c.connecting sockfd = .ok d) :
    c.channel = none ∧
      d = { c with state := .kConnecting, channel := some ⟨sockfd, Channel.new.enableWriting⟩ } := by
  obtain ⟨hfree, heq⟩ := Checked.assert_bind_eq_ok.mp h
  exact ⟨hfree, (Except.ok.inj heq).symm⟩

/-- What `connect` can do. -/
theorem connect_does {savedErrno : ConnectErrno} (hfrom : c.state = .kDisconnected)
    (h : c.connect savedErrno = .ok (d, events)) : Does c events d := by
  have hbegun (h : (do
      let d ← { c with sockets := c.sockets + 1 }.connecting c.sockets
      return (d, [.socket c.sockets]) : Checked Outcome) = .ok (d, events)) : Does c events d := by
    obtain ⟨e, he, heq⟩ := Checked.bind_eq_ok.mp h
    obtain ⟨hfree, rfl⟩ := connecting_cases he
    cases heq
    exact .begun hfrom hfree rfl rfl rfl
  have hrefused (h : (pure (({ c with sockets := c.sockets + 1 }.retry c.sockets).1,
      .socket c.sockets :: ({ c with sockets := c.sockets + 1 }.retry c.sockets).2) : Checked Outcome)
        = .ok (d, events)) : Does c events d := by
    obtain ⟨delay, hevents, hstate, hchannel, hsockets⟩ :=
      retry_eq { c with sockets := c.sockets + 1 } c.sockets
    cases h
    rw [hevents]
    exact .refused delay hfrom hstate hchannel hsockets
  have hgivenUp (h : (pure ({ c with sockets := c.sockets + 1 }, [.socket c.sockets, .close c.sockets]) :
      Checked Outcome) = .ok (d, events)) : Does c events d := by
    cases h
    exact .refused none hfrom hfrom rfl rfl
  cases savedErrno with
  | success | EINPROGRESS | EINTR | EISCONN => exact hbegun h
  | EAGAIN | EADDRINUSE | EADDRNOTAVAIL | ECONNREFUSED | ENETUNREACH => exact hrefused h
  | EACCES | EPERM | EAFNOSUPPORT | EALREADY | EBADF | EFAULT | ENOTSOCK | other => exact hgivenUp h

/-- `startInLoop` hands no socket over. -/
theorem startInLoop_does {savedErrno : ConnectErrno}
    (h : c.startInLoop savedErrno = .ok (d, events)) :
    Does c events d ∧ ∀ n, .newConnection n ∉ events := by
  obtain ⟨hfrom, heq⟩ := Checked.assert_bind_eq_ok.mp h
  split_ifs at heq
  · have hdoes := connect_does hfrom heq
    refine ⟨hdoes, fun n hn => ?_⟩
    rw [(hdoes.of_newConnection hn).1] at hfrom
    cases hfrom
  · cases heq
    exact ⟨.nothing, by simp⟩

/-- The channel is out of the poller, and its destruction is queued. -/
theorem removeAndResetChannel_cases {r : Connector × Nat × List ConnectorEvent}
    (h : c.removeAndResetChannel = .ok r) : ∃ channel, c.channel = some channel ∧
      r = ({ c with channel := some ⟨channel.fd, removedChannel⟩ }, channel.fd,
        [.queued .resetChannel]) := by
  unfold removeAndResetChannel at h
  split at h
  · cases h
  · rename_i channel hchannel
    refine ⟨channel, hchannel, ?_⟩
    exact (Except.ok.inj h).symm

/-- The attempt in progress is given up. -/
theorem retry_does {channel : FdChannel} (hfrom : c.state = .kConnecting) (hin : c.channel = some channel)
    (hchannel : d.channel = some ⟨channel.fd, removedChannel⟩) (hsockets : d.sockets = c.sockets) :
    Does c ([.queued .resetChannel] ++ (d.retry channel.fd).2) (d.retry channel.fd).1 := by
  obtain ⟨delay, hevents, hstate, hchannel', hsockets'⟩ := retry_eq d channel.fd
  rw [hevents]
  exact .ended delay hfrom hin (by rw [hstate]; decide) (fun _ => hstate) (hchannel'.trans hchannel)
    (hsockets'.trans hsockets)

/-- No timer, and no functor, is a handover. -/
theorem newConnection_notMem_retry {n sockfd : Nat} :
    .newConnection n ∉ ([.queued .resetChannel] ++ (c.retry sockfd).2) := by
  obtain ⟨delay, hevents, -⟩ := retry_eq c sockfd
  rw [hevents]
  cases delay <;> simp [timerEvents]

/-- `stopInLoop` hands no socket over. -/
theorem stopInLoop_does (h : c.stopInLoop = .ok (d, events)) :
    Does c events d ∧ ∀ n, .newConnection n ∉ events := by
  unfold stopInLoop at h
  split_ifs at h with hfrom
  · obtain ⟨r, hr, heq⟩ := Checked.bind_eq_ok.mp h
    obtain ⟨channel, hin, rfl⟩ := removeAndResetChannel_cases hr
    cases heq
    exact ⟨retry_does hfrom hin rfl rfl, fun n => newConnection_notMem_retry⟩
  · cases h
    exact ⟨.nothing, by simp⟩

/-- `handleError` hands no socket over. -/
theorem handleError_does (h : c.handleError = .ok (d, events)) :
    Does c events d ∧ ∀ n, .newConnection n ∉ events := by
  unfold handleError at h
  split_ifs at h with hfrom
  · obtain ⟨r, hr, heq⟩ := Checked.bind_eq_ok.mp h
    obtain ⟨channel, hin, rfl⟩ := removeAndResetChannel_cases hr
    cases heq
    exact ⟨retry_does hfrom hin rfl rfl, fun n => newConnection_notMem_retry⟩
  · cases h
    exact ⟨.nothing, by simp⟩

/-- `handleWrite` hands a socket over only if it has no error and is not connected to itself. -/
theorem handleWrite_does {err : Nat} {selfConnect : Bool}
    (h : c.handleWrite err selfConnect = .ok (d, events)) :
    Does c events d ∧ ∀ n, .newConnection n ∈ events → err = 0 ∧ selfConnect = false := by
  unfold handleWrite at h
  by_cases hfrom : c.state = .kConnecting
  · rw [if_pos hfrom] at h
    obtain ⟨r, hr, heq⟩ := Checked.bind_eq_ok.mp h
    obtain ⟨channel, hin, rfl⟩ := removeAndResetChannel_cases hr
    dsimp only at heq
    split_ifs at heq with herr hself hconnect
    · cases heq
      exact ⟨retry_does hfrom hin rfl rfl, fun n hn => absurd hn newConnection_notMem_retry⟩
    · cases heq
      exact ⟨retry_does hfrom hin rfl rfl, fun n hn => absurd hn newConnection_notMem_retry⟩
    · cases heq
      refine ⟨.connected hfrom hconnect hin rfl rfl rfl, fun n _ => ⟨not_not.mp herr, ?_⟩⟩
      exact eq_false_of_ne_true hself
    · cases heq
      refine ⟨.ended none hfrom hin (by simp) (by simp) rfl rfl, fun n hn => ?_⟩
      simp at hn
  · rw [if_neg hfrom] at h
    obtain ⟨-, heq⟩ := Checked.assert_bind_eq_ok.mp h
    cases heq
    exact ⟨.nothing, by simp⟩

/-- A callback hands the socket over only without error or self-connection. -/
theorem callback_does {err : Nat} {selfConnect : Bool} {callback : ChannelCallback}
    (h : c.callback err selfConnect callback = .ok (d, events)) :
    Does c events d ∧ ∀ n, .newConnection n ∈ events → err = 0 ∧ selfConnect = false := by
  cases callback with
  | errorCallback =>
      obtain ⟨hdoes, hnone⟩ := handleError_does h
      exact ⟨hdoes, fun n hn => absurd hn (hnone n)⟩
  | writeCallback => exact handleWrite_does h
  | closeCallback | readCallback =>
      cases h
      exact ⟨.nothing, by simp⟩

/-- Without an attempt in progress the callbacks do nothing. -/
theorem callback_idle {err : Nat} {selfConnect : Bool} {callback : ChannelCallback}
    (hidle : c.state ≠ .kConnecting) (h : c.callback err selfConnect callback = .ok (d, events)) :
    d = c ∧ events = [] := by
  cases callback with
  | errorCallback =>
      rw [Connector.callback, handleError, if_neg hidle] at h
      cases h
      exact ⟨rfl, rfl⟩
  | writeCallback =>
      rw [Connector.callback, handleWrite, if_neg hidle] at h
      obtain ⟨-, heq⟩ := Checked.assert_bind_eq_ok.mp h
      cases heq
      exact ⟨rfl, rfl⟩
  | closeCallback | readCallback =>
      cases h
      exact ⟨rfl, rfl⟩

/-- Outside an attempt the callbacks do nothing. -/
theorem runCallbacks_idle {err : Nat} {selfConnect : Bool} {callbacks : List ChannelCallback}
    (hidle : c.state ≠ .kConnecting) (h : c.runCallbacks err selfConnect callbacks = .ok (d, events)) :
    d = c ∧ events = [] := by
  induction callbacks generalizing events with
  | nil =>
      cases h
      exact ⟨rfl, rfl⟩
  | cons callback callbacks ih =>
      obtain ⟨⟨c₁, events₁⟩, h₁, h⟩ := Checked.bind_eq_ok.mp h
      obtain ⟨rfl, rfl⟩ := callback_idle hidle h₁
      obtain ⟨⟨c₂, events₂⟩, h₂, heq⟩ := Checked.bind_eq_ok.mp h
      cases heq
      obtain ⟨rfl, rfl⟩ := ih h₂
      exact ⟨rfl, rfl⟩

/-- One pass of the channel: an attempt ends in at most one of its callbacks. -/
theorem handleEvent_does {revents : BitVec 32} {err : Nat} {selfConnect : Bool}
    (h : c.handleEvent revents err selfConnect = .ok (d, events)) :
    Does c events d ∧ ∀ n, .newConnection n ∈ events → err = 0 ∧ selfConnect = false := by
  unfold handleEvent at h
  generalize Channel.handleEventWithGuard revents = callbacks at h
  induction callbacks generalizing events with
  | nil =>
      cases h
      exact ⟨.nothing, by simp⟩
  | cons callback callbacks ih =>
      obtain ⟨⟨c₁, events₁⟩, h₁, hrest⟩ := Checked.bind_eq_ok.mp h
      obtain ⟨⟨c₂, events₂⟩, h₂, heq⟩ := Checked.bind_eq_ok.mp hrest
      cases heq
      by_cases hover : c₁.state ≠ .kConnecting
      · -- the attempt is over, the other callbacks find no work
        obtain ⟨rfl, rfl⟩ := runCallbacks_idle hover h₂
        rw [List.append_nil]
        exact callback_does h₁
      · have hsame : c₁ = c ∧ events₁ = [] := by
          by_cases hidle : c.state ≠ .kConnecting
          · exact callback_idle hidle h₁
          · exact (callback_does h₁).1.eq_of_connecting (not_not.mp hidle) (not_not.mp hover)
        obtain ⟨rfl, rfl⟩ := hsame
        exact ih h₂

/-- `resetChannel` destroys the channel. -/
theorem resetChannel_cases (h : c.resetChannel = .ok d) : d = { c with channel := none } := by
  unfold resetChannel at h
  split at h
  · rename_i hnone
    cases h
    rw [← hnone]
  · obtain ⟨-, heq⟩ := Checked.assert_bind_eq_ok.mp h
    exact (Except.ok.inj heq).symm

/-! ## The invariant -/

/-- The socket of the attempt in progress: the one whose channel is in the poller. -/
def attempt (c : Connector) : Option Nat :=
  (c.channel.filter fun channel => channel.channel.addedToLoop).map FdChannel.fd

/-- The sockets closed in a list of events. -/
def closedIn (events : List ConnectorEvent) : List Nat :=
  events.filterMap fun
    | .close sockfd => some sockfd
    | _ => none

/-- The sockets handed over in a list of events. -/
def handedIn (events : List ConnectorEvent) : List Nat :=
  events.filterMap fun
    | .newConnection sockfd => some sockfd
    | _ => none

/-- The sockets in `closed` and `handed` are all the ones that were created, each once, except the one of
the attempt in progress. While a removed channel is not destroyed, one `resetChannel` is pending. -/
structure Owns (c : Connector) (closed handed : List Nat) (resets : Nat) : Prop where
  connecting : c.state = .kConnecting ↔ c.attempt ≠ none
  attempt_lt : ∀ n, c.attempt = some n → n < c.sockets
  settled : ∀ n, closed.count n + handed.count n = if n < c.sockets ∧ c.attempt ≠ some n then 1 else 0
  resets : resets = if c.channel ≠ none ∧ c.attempt = none then 1 else 0

/-- At the start there is no socket. -/
theorem Owns.new : Owns new [] [] 0 := by
  constructor <;> simp [Connector.new, attempt]

/-- What only concerns `connect_` and the delay, or a connector without an attempt, changes nothing. -/
theorem Owns.congr {closed handed : List Nat} {resets : Nat} (h : Owns c closed handed resets)
    (hstate : d.state = .kConnecting ↔ c.state = .kConnecting) (hchannel : d.channel = c.channel)
    (hsockets : d.sockets = c.sockets) : Owns d closed handed resets := by
  have hattempt : d.attempt = c.attempt := by rw [attempt, attempt, hchannel]
  constructor
  · rw [hstate, hattempt]
    exact h.connecting
  · rw [hattempt, hsockets]
    exact h.attempt_lt
  · rw [hattempt, hsockets]
    exact h.settled
  · rw [hattempt, hchannel]
    exact h.resets

/-- Without a channel there is no attempt. -/
theorem attempt_of_none (h : c.channel = none) : c.attempt = none := by simp [attempt, h]

/-- With a removed channel there is no attempt. -/
theorem attempt_of_removed {fd : Nat} (h : c.channel = some ⟨fd, removedChannel⟩) : c.attempt = none := by
  simp [attempt, h, removedChannel]

section Moves

variable {closed handed closed' handed' : List Nat} {resets : Nat}

/-- In progress is the attempt whose channel the connector has. -/
theorem Owns.attempt_eq (h : Owns c closed handed resets) (hfrom : c.state = .kConnecting)
    {channel : FdChannel} (hin : c.channel = some channel) : c.attempt = some channel.fd := by
  obtain ⟨n, hn⟩ := Option.ne_none_iff_exists'.mp (h.connecting.mp hfrom)
  rw [hn]
  simp only [attempt, hin, Option.map_eq_some_iff, Option.filter_eq_some_iff] at hn
  obtain ⟨_, ⟨heq, -⟩, rfl⟩ := hn
  cases heq
  rfl

/-- An attempt is begun. -/
theorem Owns.begun (h : Owns c closed handed resets) (hfree : c.channel = none)
    (hstate : d.state = .kConnecting)
    (hchannel : d.channel = some ⟨c.sockets, Channel.new.enableWriting⟩)
    (hsockets : d.sockets = c.sockets + 1) : Owns d closed handed resets := by
  have hc := attempt_of_none hfree
  have hd : d.attempt = some c.sockets := by
    rw [attempt, hchannel]
    rfl
  constructor
  · simp [hstate, hd]
  · intro n hn
    rw [hd] at hn
    cases hn
    omega
  · intro n
    rw [h.settled, hc, hd, hsockets]
    by_cases hn : n = c.sockets
    · simp [hn]
    · have hlt : n < c.sockets + 1 ↔ n < c.sockets := by omega
      simp [hlt, Ne.symm hn]
  · simp [h.resets, hd, hfree]

/-- An attempt fails at once. -/
theorem Owns.refused (h : Owns c closed handed resets) (hfrom : c.state ≠ .kConnecting)
    (hstate : d.state ≠ .kConnecting) (hchannel : d.channel = c.channel)
    (hsockets : d.sockets = c.sockets + 1)
    (hcount : ∀ n, closed'.count n + handed'.count n =
      closed.count n + handed.count n + if n = c.sockets then 1 else 0) :
    Owns d closed' handed' resets := by
  have hc : c.attempt = none := not_not.mp (mt h.connecting.mpr hfrom)
  have hd : d.attempt = none := by rw [attempt, hchannel, ← attempt, hc]
  constructor
  · simp [hstate, hd]
  · simp [hd]
  · intro n
    rw [hcount, h.settled, hc, hd, hsockets]
    by_cases hn : n = c.sockets
    · simp [hn]
    · have hlt : n < c.sockets + 1 ↔ n < c.sockets := by omega
      simp [hlt, hn]
  · rw [h.resets, hc, hd, hchannel]

/-- The attempt in progress is over. -/
theorem Owns.settle (h : Owns c closed handed resets) (hfrom : c.state = .kConnecting)
    {channel : FdChannel} (hin : c.channel = some channel) (hstate : d.state ≠ .kConnecting)
    (hchannel : d.channel = some ⟨channel.fd, removedChannel⟩) (hsockets : d.sockets = c.sockets)
    (hcount : ∀ n, closed'.count n + handed'.count n =
      closed.count n + handed.count n + if n = channel.fd then 1 else 0) :
    Owns d closed' handed' (resets + 1) := by
  have hc := h.attempt_eq hfrom hin
  have hd : d.attempt = none := attempt_of_removed hchannel
  constructor
  · simp [hstate, hd]
  · simp [hd]
  · intro n
    have hlt := h.attempt_lt _ hc
    rw [hcount, h.settled, hc, hd, hsockets]
    by_cases hn : n = channel.fd
    · simp [hn, hlt]
    · simp [hn, Ne.symm hn]
  · simp [h.resets, hc, hd, hchannel]

/-- A removed channel is destroyed. -/
theorem Owns.reset (h : Owns c closed handed (resets + 1)) : Owns { c with channel := none } closed handed 0 := by
  have hresets := h.resets
  split_ifs at hresets with hcond
  have hstate : c.state ≠ .kConnecting := fun hstate => h.connecting.mp hstate hcond.2
  have hd : attempt { c with channel := none } = none := attempt_of_none rfl
  constructor
  · simp [hd, hstate]
  · simp [hd]
  · intro n
    rw [h.settled, hd, hcond.2]
  · simp

end Moves

@[simp] theorem closedIn_append (l₁ l₂ : List ConnectorEvent) :
    closedIn (l₁ ++ l₂) = closedIn l₁ ++ closedIn l₂ := List.filterMap_append

@[simp] theorem handedIn_append (l₁ l₂ : List ConnectorEvent) :
    handedIn (l₁ ++ l₂) = handedIn l₁ ++ handedIn l₂ := List.filterMap_append

@[simp] theorem closedIn_timerEvents (delay : Option Nat) : closedIn (timerEvents delay) = [] := by
  cases delay <;> rfl

@[simp] theorem handedIn_timerEvents (delay : Option Nat) : handedIn (timerEvents delay) = [] := by
  cases delay <;> rfl

@[simp] theorem count_queued_timerEvents (delay : Option Nat) (f : ConnectorFunctor) :
    (timerEvents delay).count (.queued f) = 0 := by
  cases delay <;> simp [timerEvents]

/-- How often an entry occurs after one more. -/
theorem count_concat (l : List Nat) (m n : Nat) :
    (l ++ [m]).count n = l.count n + if n = m then 1 else 0 := by
  rw [List.count_append]
  by_cases hn : n = m
  · simp [hn]
  · simp [hn, Ne.symm hn]

/-- **The step.** Whatever a connector does, it keeps account of its sockets. -/
theorem Owns.of_does {closed handed : List Nat} {resets : Nat} (h : Owns c closed handed resets)
    (hdoes : Does c events d) :
    Owns d (closed ++ closedIn events) (handed ++ handedIn events)
      (resets + events.count (.queued .resetChannel)) := by
  cases hdoes with
  | nothing => simpa [closedIn, handedIn] using h
  | begun hfrom hfree hstate hchannel hsockets =>
      have howns := h.begun hfree hstate hchannel hsockets
      simpa [closedIn, handedIn] using howns
  | refused delay hfrom hstate hchannel hsockets =>
      rw [List.count_append, count_queued_timerEvents, closedIn_append, closedIn_timerEvents,
        handedIn_append, handedIn_timerEvents]
      refine h.refused (by simp [hfrom]) (by simp [hstate]) hchannel hsockets fun n => ?_
      show (closed ++ [c.sockets]).count n + (handed ++ []).count n = _
      rw [count_concat, List.append_nil]
      omega
  | @ended _ channel delay hfrom hin hstate hdelay hchannel hsockets =>
      rw [List.count_append, count_queued_timerEvents, closedIn_append, closedIn_timerEvents,
        handedIn_append, handedIn_timerEvents]
      refine h.settle hfrom hin hstate hchannel hsockets fun n => ?_
      show (closed ++ [channel.fd]).count n + (handed ++ []).count n = _
      rw [count_concat, List.append_nil]
      omega
  | @connected _ channel hfrom hconnect hin hstate hchannel hsockets =>
      refine h.settle hfrom hin (by simp [hstate]) hchannel hsockets fun n => ?_
      show (closed ++ []).count n + (handed ++ [channel.fd]).count n = _
      rw [count_concat, List.append_nil]
      omega

end Connector

/-! ## Runs -/

/-- A connector with its loop and the sockets it has given away. -/
structure ConnectorRun where
  connector : Connector
  /-- The functors of the connector that the loop has not yet run. -/
  queue : List ConnectorFunctor
  /-- The timers of `retry` that have not fired; they cannot be cancelled. -/
  timers : Nat
  closed : List Nat
  handed : List Nat

/-- What can happen to a connector next. -/
inductive ConnectorStep where
  | start (savedErrno : ConnectErrno)
  | stop
  | restart (savedErrno : ConnectErrno)
  | stopInLoop
  | resetChannel
  /-- A timer of `retry` calls `startInLoop`. -/
  | timer (savedErrno : ConnectErrno)
  /-- The poller reports the channel; `err` and `selfConnect` are what `handleWrite` would find. -/
  | handleEvent (revents : BitVec 32) (err : Nat) (selfConnect : Bool)

namespace ConnectorRun

open Connector

/-- What an event of the connector does outside of it. -/
def absorb (s : ConnectorRun) : ConnectorEvent → ConnectorRun
  | .socket _ => s
  | .close sockfd => { s with closed := s.closed ++ [sockfd] }
  | .newConnection sockfd => { s with handed := s.handed ++ [sockfd] }
  | .queued f => { s with queue := s.queue ++ [f] }
  | .runAfter _ => { s with timers := s.timers + 1 }

/-- A function of the connector has returned. -/
def after (s : ConnectorRun) (r : Outcome) : ConnectorRun :=
  r.2.foldl absorb { s with connector := r.1 }

/-- A step of the connector; the functors can be run in any order. -/
def exec (s : ConnectorRun) : ConnectorStep → Checked ConnectorRun
  | .start savedErrno => do return s.after (← s.connector.start savedErrno)
  | .stop => return s.after s.connector.stop
  | .restart savedErrno => do return s.after (← s.connector.restart savedErrno)
  | .stopInLoop => do
      return after { s with queue := s.queue.erase .stopInLoop } (← s.connector.stopInLoop)
  | .resetChannel => do
      return { s with queue := s.queue.erase .resetChannel, connector := ← s.connector.resetChannel }
  | .timer savedErrno => do
      return after { s with timers := s.timers - 1 } (← s.connector.startInLoop savedErrno)
  | .handleEvent revents err selfConnect => do
      return s.after (← s.connector.handleEvent revents err selfConnect)

/-- What may happen: a functor is run when it is queued, a timer fires when it is set, the channel gets
events when there is one, and `restart` is called when a connection was made. -/
def Enabled (s : ConnectorRun) : ConnectorStep → Prop
  | .start _ | .stop => True
  | .restart _ => s.connector.state = .kConnected
  | .stopInLoop => .stopInLoop ∈ s.queue
  | .resetChannel => .resetChannel ∈ s.queue
  | .timer _ => 0 < s.timers
  | .handleEvent _ _ _ => s.connector.channel ≠ none

end ConnectorRun

/-- A connector from its construction on. -/
def connectorMachine : Machine ConnectorRun ConnectorStep where
  init s := s = ⟨Connector.new, [], 0, [], []⟩
  enabled := ConnectorRun.Enabled
  exec := ConnectorRun.exec

namespace ConnectorRun

open Connector

/-- The account that a connector keeps of its sockets. -/
def Owns (s : ConnectorRun) : Prop :=
  s.connector.Owns s.closed s.handed (s.queue.count .resetChannel)

/-- What the events of a call add to the account. -/
theorem foldl_absorb (events : List ConnectorEvent) (s : ConnectorRun) :
    (events.foldl absorb s).connector = s.connector ∧
    (events.foldl absorb s).closed = s.closed ++ closedIn events ∧
    (events.foldl absorb s).handed = s.handed ++ handedIn events ∧
    (events.foldl absorb s).queue.count .resetChannel =
      s.queue.count .resetChannel + events.count (.queued .resetChannel) := by
  induction events generalizing s with
  | nil => simp [closedIn, handedIn]
  | cons e events ih =>
      obtain ⟨hconnector, hclosed, hhanded, hqueue⟩ := ih (s.absorb e)
      rw [List.foldl_cons, hconnector, hclosed, hhanded, hqueue]
      cases e with
      | queued f =>
          cases f with
          | stopInLoop => simp [absorb, closedIn, handedIn]
          | resetChannel =>
              simp [absorb, closedIn, handedIn]
              omega
      | socket | close | newConnection | runAfter => simp [absorb, closedIn, handedIn]

variable {s t : ConnectorRun}

/-- What a connector does keeps the account. -/
theorem Owns.after (h : s.Owns) {r : Outcome} (hdoes : Does s.connector r.2 r.1) : (s.after r).Owns := by
  obtain ⟨hconnector, hclosed, hhanded, hqueue⟩ := foldl_absorb r.2 { s with connector := r.1 }
  unfold Owns ConnectorRun.after
  rw [hconnector, hclosed, hhanded, hqueue]
  exact Connector.Owns.of_does h hdoes

/-- At most one destruction is queued. -/
theorem Owns.resets_eq_one (h : s.Owns) (hqueued : .resetChannel ∈ s.queue) :
    s.queue.count .resetChannel = 1 := by
  have hpos := List.count_pos_iff.mpr hqueued
  have hresets := h.resets
  split_ifs at hresets
  · exact hresets
  · omega

/-- Every completed step keeps the account. -/
theorem Owns.step (h : s.Owns) {a : ConnectorStep} (henabled : s.Enabled a) (ht : s.exec a = .ok t) :
    t.Owns := by
  cases a with
  | start savedErrno =>
      obtain ⟨r, hr, heq⟩ := Checked.bind_eq_ok.mp ht
      cases heq
      have howns : Owns { s with connector := { s.connector with connect_ := true } } :=
        h.congr Iff.rfl rfl rfl
      exact howns.after (startInLoop_does hr).1
  | stop =>
      cases ht
      have howns : Connector.Owns { s.connector with connect_ := false } s.closed s.handed
          (s.queue.count .resetChannel) := h.congr Iff.rfl rfl rfl
      simpa [Owns, ConnectorRun.after, stop, absorb] using howns
  | restart savedErrno =>
      obtain ⟨r, hr, heq⟩ := Checked.bind_eq_ok.mp ht
      cases heq
      have hstate : s.connector.state = .kConnected := henabled
      have howns : Owns { s with connector := { s.connector with
          state := .kDisconnected, retryDelayMs := kInitRetryDelayMs, connect_ := true } } :=
        h.congr (by simp [hstate]) rfl rfl
      exact howns.after (startInLoop_does hr).1
  | stopInLoop =>
      obtain ⟨r, hr, heq⟩ := Checked.bind_eq_ok.mp ht
      cases heq
      have howns : Owns { s with queue := s.queue.erase .stopInLoop } := by
        unfold Owns
        rw [List.count_erase_of_ne (by decide)]
        exact h
      exact howns.after (stopInLoop_does hr).1
  | resetChannel =>
      obtain ⟨c, hc, heq⟩ := Checked.bind_eq_ok.mp ht
      cases heq
      have hone : s.queue.count .resetChannel = 0 + 1 := h.resets_eq_one henabled
      have hfree : c = { s.connector with channel := none } := resetChannel_cases hc
      unfold Owns
      rw [List.count_erase_self, hone, hfree]
      unfold Owns at h
      rw [hone] at h
      exact h.reset
  | timer savedErrno =>
      obtain ⟨r, hr, heq⟩ := Checked.bind_eq_ok.mp ht
      cases heq
      have howns : Owns { s with timers := s.timers - 1 } := h
      exact howns.after (startInLoop_does hr).1
  | handleEvent revents err selfConnect =>
      obtain ⟨r, hr, heq⟩ := Checked.bind_eq_ok.mp ht
      cases heq
      exact h.after (handleEvent_does hr).1

/-- A socket is handed over by `handleWrite` only, and not if there was an error. -/
theorem handed_cases {a : ConnectorStep} (ht : s.exec a = .ok t) {n : Nat} (hn : n ∈ t.handed)
    (hnew : n ∉ s.handed) :
    s.connector.connect_ = true ∧ ∃ revents, a = .handleEvent revents 0 false := by
  have hafter {s' : ConnectorRun} {r : Outcome} (hn : n ∈ (s'.after r).handed) (hnew : n ∉ s'.handed) :
      .newConnection n ∈ r.2 := by
    unfold ConnectorRun.after at hn
    rw [(foldl_absorb r.2 _).2.2.1, List.mem_append] at hn
    rcases hn with hn | hn
    · exact absurd hn hnew
    · simp only [handedIn, List.mem_filterMap] at hn
      obtain ⟨e, he, heq⟩ := hn
      cases e <;> simp at heq
      rw [← heq]
      exact he
  cases a with
  | start | restart | timer =>
      obtain ⟨r, hr, heq⟩ := Checked.bind_eq_ok.mp ht
      cases heq
      exact absurd (hafter hn hnew) ((startInLoop_does hr).2 n)
  | stop =>
      cases ht
      exact absurd hn hnew
  | stopInLoop =>
      obtain ⟨r, hr, heq⟩ := Checked.bind_eq_ok.mp ht
      cases heq
      exact absurd (hafter hn hnew) ((stopInLoop_does hr).2 n)
  | resetChannel =>
      obtain ⟨c, hc, heq⟩ := Checked.bind_eq_ok.mp ht
      cases heq
      exact absurd hn hnew
  | handleEvent revents err selfConnect =>
      obtain ⟨r, hr, heq⟩ := Checked.bind_eq_ok.mp ht
      cases heq
      have hmem := hafter hn hnew
      obtain ⟨hdoes, hclean⟩ := handleEvent_does hr
      obtain ⟨rfl, rfl⟩ := hclean n hmem
      exact ⟨(hdoes.of_newConnection hmem).2, revents, rfl⟩

end ConnectorRun

open Connector in
/-- **Who owns the sockets.** In every state of every run: a socket is closed by the connector or handed to
`newConnectionCallback_` at most once, and never both; while it is neither, the connector is connecting and
the channel of the socket is the one in the poller; in the other states no channel of the connector is in
the poller; and only a pass of the channel hands a socket over, with `connect_` set, when the socket has no
error and is not connected to itself. -/
theorem connector_owns_sockets {s : ConnectorRun} (hs : connectorMachine.Reachable s) :
    (∀ n, s.closed.count n + s.handed.count n ≤ 1) ∧
    (∀ n < s.connector.sockets, n ∉ s.closed → n ∉ s.handed →
      s.connector.state = .kConnecting ∧
        ∃ channel, s.connector.channel = some ⟨n, channel⟩ ∧ channel.addedToLoop = true) ∧
    (s.connector.state ≠ .kConnecting →
      ∀ channel, s.connector.channel = some channel → channel.channel.addedToLoop = false) ∧
    ∀ a t, s.exec a = .ok t → ∀ n ∈ t.handed, n ∉ s.handed →
      s.connector.connect_ = true ∧ ∃ revents, a = .handleEvent revents 0 false := by
  have h : s.Owns := by
    refine hs.induction ?_ fun s a t h henabled ht => h.step henabled ht
    rintro _ rfl
    exact .new
  refine ⟨?_, ?_, ?_, ?_⟩
  · intro n
    rw [h.settled]
    split_ifs <;> omega
  · intro n hn hclosed hhanded
    have hsettled := h.settled n
    rw [List.count_eq_zero.mpr hclosed, List.count_eq_zero.mpr hhanded] at hsettled
    have hattempt : s.connector.attempt = some n := by
      by_contra hne
      rw [if_pos ⟨hn, hne⟩] at hsettled
      omega
    refine ⟨h.connecting.mpr (by simp [hattempt]), ?_⟩
    simp only [attempt, Option.map_eq_some_iff, Option.filter_eq_some_iff] at hattempt
    obtain ⟨channel, ⟨hchannel, hadded⟩, rfl⟩ := hattempt
    exact ⟨channel.channel, hchannel, hadded⟩
  · intro hstate channel hchannel
    have hattempt := mt h.connecting.mpr hstate
    by_contra hadded
    apply hattempt
    simp [attempt, hchannel, hadded]
  · intro a t ht n hn hnew
    exact ConnectorRun.handed_cases ht hn hnew

/-- The first attempt is refused at once and the second one after a while; the socket of the third one is in
the hands of the connector until it is handed over. -/
theorem connector_owns_sockets_retried : ∃ s t, connectorMachine.Reachable s ∧ s.closed = [0, 1] ∧
    (s.connector.state = .kConnecting ∧
      ∃ channel, s.connector.channel = some ⟨2, channel⟩ ∧ channel.addedToLoop = true) ∧
    s.exec (.handleEvent POLLOUT 0 false) = .ok t ∧ t.handed = [2] ∧ s.connector.connect_ = true ∧
    (∀ n, t.closed.count n + t.handed.count n ≤ 1) ∧
    ∀ channel, t.connector.channel = some channel → channel.channel.addedToLoop = false := by
  have h0 : connectorMachine.Reachable ⟨Connector.new, [], 0, [], []⟩ := .of_init rfl
  have h1 := h0.step (a := ConnectorStep.start .ECONNREFUSED) trivial rfl
  have h2 := h1.step (a := ConnectorStep.timer .EINPROGRESS) Nat.one_pos rfl
  have h3 := h2.step (a := ConnectorStep.handleEvent POLLOUT 111 false) (Option.some_ne_none _) rfl
  have h4 := h3.step (a := ConnectorStep.resetChannel) List.mem_cons_self rfl
  have h5 := h4.step (a := ConnectorStep.timer .EINPROGRESS) Nat.one_pos rfl
  have h6 := h5.step (a := ConnectorStep.handleEvent POLLOUT 0 false) (Option.some_ne_none _) rfl
  obtain ⟨-, hattempt, -, hhanded⟩ := connector_owns_sockets h5
  obtain ⟨hsettled, -, hremoved, -⟩ := connector_owns_sockets h6
  have hconnect := hhanded (.handleEvent POLLOUT 0 false) _ rfl 2 List.mem_cons_self List.not_mem_nil
  exact ⟨_, _, h5, rfl, hattempt 2 (by decide) (by decide) (by decide), rfl, rfl, hconnect.1, hsettled,
    hremoved nofun⟩

end Muduo.Net
