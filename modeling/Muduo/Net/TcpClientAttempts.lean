import Muduo.Net.TcpClient

/-! # One attempt at a time

The asynchronous sources that act on a `Connector` (calls of the user, timers that are not cancelled, closed
connections, queued functors) do not keep out of each other's way: `tcpClient_second_connect_fails` is a run in
which an assertion fails. `tcpClient_one_attempt` says that in the runs that are `Careful` none can fail and
that there is never more than one attempt. -/

namespace Muduo.Net

open Support

/-! ## Functions that do not fail -/

namespace Connector

variable {c : Connector}

/-- Without a channel an attempt can be begun. -/
theorem startInLoop_ok (hstate : c.state = .kDisconnected) (hfree : c.channel = none)
    (savedErrno : ConnectErrno) : ∃ r, c.startInLoop savedErrno = .ok r := by
  unfold startInLoop
  rw [assert_pos hstate, Checked.ok_bind]
  split_ifs
  · have hconnecting : ∃ d, { c with sockets := c.sockets + 1 }.connecting c.sockets = .ok d := by
      rw [connecting, assert_pos hfree]
      exact ⟨_, rfl⟩
    obtain ⟨d, hd⟩ := hconnecting
    cases savedErrno <;> simp [connect, hd]
  · exact ⟨_, rfl⟩

/-- The channel is out of the poller. -/
theorem removeAndResetChannel_eq {channel : FdChannel} (h : c.channel = some channel) :
    c.removeAndResetChannel = .ok
      ({ c with channel := some ⟨channel.fd, removedChannel⟩ }, channel.fd, [.queued .resetChannel]) := by
  rw [removeAndResetChannel, h]
  rfl

/-- `stopInLoop` returns. -/
theorem stopInLoop_ok (h : c.state = .kConnecting → c.channel ≠ none) : ∃ r, c.stopInLoop = .ok r := by
  unfold stopInLoop
  split_ifs with hstate
  · obtain ⟨channel, hchannel⟩ := Option.ne_none_iff_exists'.mp (h hstate)
    have hremoved : { c with state := .kDisconnected }.removeAndResetChannel = _ :=
      removeAndResetChannel_eq hchannel
    dsimp only
    rw [hremoved]
    exact ⟨_, rfl⟩
  · exact ⟨_, rfl⟩

/-- `resetChannel` returns. -/
theorem resetChannel_ok (h : c.attempt = none) : ∃ d, c.resetChannel = .ok d := by
  unfold resetChannel
  split
  · exact ⟨_, rfl⟩
  · rename_i channel hchannel
    have hadded : channel.channel.addedToLoop = false := by
      by_contra hadded
      simp [attempt, hchannel, hadded] at h
    rw [assert_pos hadded]
    exact ⟨_, rfl⟩

/-- The connector can take any of the callbacks. -/
def Ready (c : Connector) : Prop :=
  c.state = .kDisconnected ∨ c.state = .kConnecting ∧ c.channel ≠ none

/-- An error ends an attempt, and then there is none. -/
theorem Ready.handleError (h : c.Ready) : c.handleError.Sat fun r => r.1.Ready := by
  unfold Connector.handleError
  rcases h with hstate | ⟨hstate, hchannel⟩
  · rw [if_neg (by simp [hstate])]
    exact .ok (.inl hstate)
  · obtain ⟨channel, hchannel⟩ := Option.ne_none_iff_exists'.mp hchannel
    rw [if_pos hstate, removeAndResetChannel_eq hchannel, Checked.ok_bind]
    obtain ⟨delay, -, hdisconnected, -⟩ :=
      retry_eq { c with channel := some ⟨channel.fd, removedChannel⟩ } channel.fd
    exact .ok (.inl hdisconnected)

/-- `handleWrite` returns. -/
theorem Ready.handleWrite (h : c.Ready) (err : Nat) (selfConnect : Bool) :
    ∃ r, c.handleWrite err selfConnect = .ok r := by
  unfold Connector.handleWrite
  rcases h with hstate | ⟨hstate, hchannel⟩
  · rw [if_neg (by simp [hstate]), assert_pos hstate]
    exact ⟨_, rfl⟩
  · obtain ⟨channel, hchannel⟩ := Option.ne_none_iff_exists'.mp hchannel
    rw [if_pos hstate, removeAndResetChannel_eq hchannel, Checked.ok_bind]
    dsimp only
    split_ifs <;> exact ⟨_, rfl⟩

/-- A callback that is not the write callback leaves the connector ready. -/
theorem Ready.callback (h : c.Ready) (err : Nat) (selfConnect : Bool) {callback : ChannelCallback}
    (hcallback : callback ≠ .writeCallback) :
    (c.callback err selfConnect callback).Sat fun r => r.1.Ready := by
  cases callback with
  | writeCallback => exact absurd rfl hcallback
  | errorCallback => exact h.handleError
  | closeCallback | readCallback => exact .ok h

/-- The callbacks return, if none follows a write. -/
theorem Ready.runCallbacks (h : c.Ready) (err : Nat) (selfConnect : Bool)
    {callbacks : List ChannelCallback} (hcallbacks : .writeCallback ∉ callbacks.dropLast) :
    ∃ r, c.runCallbacks err selfConnect callbacks = .ok r := by
  induction callbacks generalizing c with
  | nil => exact ⟨_, rfl⟩
  | cons callback callbacks ih =>
      unfold Connector.runCallbacks
      by_cases hwrite : callback = .writeCallback
      · -- it is the last one
        have hlast : callbacks = [] := by
          by_contra hne
          rw [List.dropLast_cons_of_ne_nil hne] at hcallbacks
          simp [hwrite] at hcallbacks
        obtain ⟨r, hr⟩ := h.handleWrite err selfConnect
        rw [hwrite, hlast, Connector.callback, hr]
        exact ⟨_, rfl⟩
      · obtain ⟨r, hr, hready⟩ := h.callback err selfConnect hwrite
        have hrest : .writeCallback ∉ callbacks.dropLast := by
          intro hmem
          cases callbacks with
          | nil => simp at hmem
          | cons => exact hcallbacks (List.mem_cons_of_mem _ hmem)
        obtain ⟨r', hr'⟩ := ih hready hrest
        rw [hr, Checked.ok_bind]
        dsimp only
        rw [hr']
        exact ⟨_, rfl⟩

/-- `handleEvent` returns. -/
theorem Ready.handleEvent (h : c.Ready) (revents : BitVec 32) (err : Nat) (selfConnect : Bool) :
    ∃ r, c.handleEvent revents err selfConnect = .ok r := by
  apply h.runCallbacks
  unfold Channel.handleEventWithGuard
  split_ifs <;> decide

end Connector

namespace ClientLoop

open Connector

/-! ## What a connector leaves behind in its loop -/

/-- The functors queued in a list of events. -/
def queuedIn (events : List ConnectorEvent) : List ClientFunctor :=
  events.filterMap fun
    | .queued f => some (.connector f)
    | _ => none

/-- The timers started in a list of events. -/
def timersIn (events : List ConnectorEvent) : Nat :=
  events.countP fun
    | .runAfter _ => true
    | _ => false

/-- Without a new connection, only the queue, the timers and the closed sockets change. -/
theorem after_eq (s : ClientLoop) {r : Outcome} (hnone : ∀ n, .newConnection n ∉ r.2) :
    s.after r = { s with
      connector := r.1
      closed := s.closed ++ closedIn r.2
      pendingFunctors := s.pendingFunctors ++ queuedIn r.2
      timers := s.timers + timersIn r.2 } := by
  obtain ⟨c, events⟩ := r
  unfold after
  induction events generalizing s with
  | nil => simp [closedIn, queuedIn, timersIn]
  | cons e events ih =>
      have hrest : ∀ n, .newConnection n ∉ events := fun n hn => hnone n (List.mem_cons_of_mem _ hn)
      cases e with
      | newConnection n => exact absurd List.mem_cons_self (hnone n)
      | socket n => exact (ih s hrest).trans (by simp [closedIn, queuedIn, timersIn])
      | close n =>
          refine (ih (s.absorb (.close n)) hrest).trans ?_
          simp [absorb, closedIn, queuedIn, timersIn]
      | queued f =>
          refine (ih (s.absorb (.queued f)) hrest).trans ?_
          simp [absorb, queueInLoop, closedIn, queuedIn, timersIn]
      | runAfter delay =>
          refine (ih (s.absorb (.runAfter delay)) hrest).trans ?_
          simp [absorb, closedIn, queuedIn, timersIn]
          omega

/-- The connector queues functors of its own only. -/
theorem mem_queuedIn {f : ClientFunctor} {events : List ConnectorEvent} (h : f ∈ queuedIn events) :
    ∃ g, f = .connector g := by
  simp only [queuedIn, List.mem_filterMap] at h
  obtain ⟨e, -, he⟩ := h
  cases e <;> simp at he
  exact ⟨_, he.symm⟩

/-- The functors that are queued, by their events. -/
theorem count_queuedIn (events : List ConnectorEvent) (f : ConnectorFunctor) :
    (queuedIn events).count (.connector f) = events.count (.queued f) := by
  induction events with
  | nil => rfl
  | cons e events ih =>
      cases e with
      | queued g =>
          have hcons : queuedIn (.queued g :: events) = .connector g :: queuedIn events := rfl
          rw [hcons, List.count_cons, List.count_cons, ih]
          simp
      | socket | close | newConnection | runAfter =>
          rw [List.count_cons_of_ne (by simp), ← ih]
          rfl

/-- A timer is started by a connector that goes back to the start, and only one. -/
theorem timersIn_of_does {c d : Connector} {events : List ConnectorEvent} (h : Does c events d) :
    timersIn events = 0 ∨ timersIn events = 1 ∧ d.state = .kDisconnected := by
  have htimers (delay : Option Nat) (before : List ConnectorEvent) (hbefore : timersIn before = 0) :
      timersIn (before ++ timerEvents delay) = 0 ∨
        delay ≠ none ∧ timersIn (before ++ timerEvents delay) = 1 := by
    unfold timersIn at hbefore ⊢
    cases delay <;> simp [hbefore, timerEvents]
  cases h with
  | nothing | begun | connected => exact .inl rfl
  | refused delay hfrom hstate =>
      rcases htimers delay [.socket c.sockets, .close c.sockets] rfl with hzero | ⟨-, hone⟩
      · exact .inl hzero
      · exact .inr ⟨hone, hstate⟩
  | @ended _ channel delay hfrom hin hstate hdelay =>
      rcases htimers delay [.queued .resetChannel, .close channel.fd] rfl with hzero | ⟨hsome, hone⟩
      · exact .inl hzero
      · exact .inr ⟨hone, hdelay hsome⟩

/-- Nothing was handed over. -/
theorem handedIn_eq_nil {events : List ConnectorEvent} (h : ∀ n, .newConnection n ∉ events) :
    handedIn events = [] := by
  rw [handedIn, List.filterMap_eq_nil_iff]
  intro e he
  cases e with
  | newConnection n => exact absurd he (h n)
  | socket | close | queued | runAfter => rfl

/-! ## The invariant -/

/-- The functors in the order in which they will be run. -/
def queue (s : ClientLoop) : List ClientFunctor := s.functors ++ s.pendingFunctors

/-- What holds between two steps of a careful client. -/
structure Inv (s : ClientLoop) : Prop where
  owns : s.connector.Owns s.closed s.handed (s.queue.count (.connector .resetChannel))
  timers : s.timers = 0 ∨ s.timers = 1 ∧ s.connector.state = .kDisconnected
  open_iff : ∀ conn, s.Open conn ↔ s.connection = some conn
  connected : s.connection ≠ none → s.connector.state = .kConnected
  fresh : ∀ conn, s.nextConnId ≤ conn → s.states conn = .kConnecting
  known : ∀ conn, .forceCloseInLoop conn ∈ s.queue → conn < s.nextConnId
  destroyed : ∀ conn, .connectDestroyed conn ∈ s.queue → s.states conn = .kDisconnected
  activeConnector : s.activeConnector = true → s.connector.state = .kConnecting
  active : ∀ conn ∈ s.activeConnections, s.connection = some conn ∧ ¬ s.ResetPending
  /-- The channel of the attempt that led to a connection is destroyed before the connection is closed. -/
  order : s.queue.Pairwise fun f g => g = .connector .resetChannel →
    ∀ conn, f = .forceCloseInLoop conn → s.connection ≠ some conn
  handling : s.eventHandling = true → s.functors = []
  idle : s.eventHandling = false → s.activeConnector = false ∧ s.activeConnections = [] ∧
    (s.connection ≠ none → .connector .resetChannel ∉ s.pendingFunctors)

/-- The invariant holds at the start. -/
theorem Inv.new : Inv new where
  owns := .new
  timers := .inl rfl
  open_iff conn := by simp [ClientLoop.new, Open]
  connected h := absurd rfl h
  fresh _ _ := rfl
  known conn h := by simp [ClientLoop.new, queue] at h
  destroyed conn h := by simp [ClientLoop.new, queue] at h
  activeConnector h := by simp [ClientLoop.new] at h
  active conn h := by simp [ClientLoop.new] at h
  order := .nil
  handling _ := rfl
  idle _ := ⟨rfl, rfl, fun h => absurd rfl h⟩

variable {s : ClientLoop}

/-- While there is no connection, the connector can do what does not lead to one. -/
theorem Inv.after (h : Inv s) (hnone : s.connection = none) (hactive : s.activeConnector = false)
    {r : Outcome} (hdoes : Does s.connector r.2 r.1) (hno : ∀ n, .newConnection n ∉ r.2)
    (htimers : s.timers = 0) : Inv (s.after r) := by
  have howns := h.owns.of_does hdoes
  rw [handedIn_eq_nil hno, List.append_nil] at howns
  rw [after_eq s hno]
  have hqueue (f : ClientFunctor) (hf : f ∈ s.functors ++ (s.pendingFunctors ++ queuedIn r.2)) :
      f ∈ s.queue ∨ ∃ g, f = .connector g := by
    rw [← List.append_assoc, List.mem_append] at hf
    exact hf.imp id mem_queuedIn
  constructor
  · have hcount : (s.functors ++ (s.pendingFunctors ++ queuedIn r.2)).count (.connector .resetChannel) =
        s.queue.count (.connector .resetChannel) + r.2.count (.queued .resetChannel) := by
      rw [← List.append_assoc, List.count_append, count_queuedIn]
      rfl
    show Connector.Owns r.1 (s.closed ++ closedIn r.2) s.handed
      ((s.functors ++ (s.pendingFunctors ++ queuedIn r.2)).count (.connector .resetChannel))
    rw [hcount]
    exact howns
  · show s.timers + timersIn r.2 = 0 ∨ s.timers + timersIn r.2 = 1 ∧ _
    rw [htimers, Nat.zero_add]
    exact timersIn_of_does hdoes
  · exact h.open_iff
  · exact fun hsome => absurd hnone hsome
  · exact h.fresh
  · intro conn hconn
    rcases hqueue _ hconn with hconn | ⟨g, hg⟩
    · exact h.known conn hconn
    · cases hg
  · intro conn hconn
    rcases hqueue _ hconn with hconn | ⟨g, hg⟩
    · exact h.destroyed conn hconn
    · cases hg
  · intro hconnector
    rw [hactive] at hconnector
    cases hconnector
  · intro conn hconn
    have hsome := (h.active conn hconn).1
    rw [hnone] at hsome
    cases hsome
  · refine List.pairwise_of_forall fun f g _ conn _ => ?_
    show s.connection ≠ some conn
    rw [hnone]
    exact (Option.some_ne_none conn).symm
  · exact h.handling
  · intro hidle
    exact ⟨hactive, (h.idle hidle).2.1, fun hsome => absurd hnone hsome⟩

/-- Without a connected connector there is no connection. -/
theorem Inv.connection_eq_none (h : Inv s) (hstate : s.connector.state ≠ .kConnected) :
    s.connection = none := not_not.mp (mt h.connected hstate)

/-- Outside an attempt no event of it is active. -/
theorem Inv.activeConnector_eq_false (h : Inv s) (hstate : s.connector.state ≠ .kConnecting) :
    s.activeConnector = false := eq_false_of_ne_true (mt h.activeConnector hstate)

/-- Only a disconnected connector has a retry pending. -/
theorem Inv.timers_eq_zero (h : Inv s) (hstate : s.connector.state ≠ .kDisconnected) : s.timers = 0 := by
  rcases h.timers with hzero | ⟨-, hdisconnected⟩
  · exact hzero
  · exact absurd hdisconnected hstate

/-- Outside an attempt there is none. -/
theorem Inv.attempt_eq_none (h : Inv s) (hstate : s.connector.state ≠ .kConnecting) :
    s.connector.attempt = none := not_not.mp (mt h.owns.connecting.mpr hstate)

/-- During an attempt there is a channel. -/
theorem Inv.channel_ne_none (h : Inv s) (hstate : s.connector.state = .kConnecting) :
    s.connector.channel ≠ none := by
  intro hnone
  exact h.owns.connecting.mp hstate (attempt_of_none hnone)

/-- Between attempts, and when the last channel is destroyed, the connector has no channel. -/
theorem Inv.channel_eq_none (h : Inv s) (hstate : s.connector.state ≠ .kConnecting)
    (hreset : ¬ s.ResetPending) : s.connector.channel = none := by
  have hresets := h.owns.resets
  have hcount : s.queue.count (.connector .resetChannel) = 0 := List.count_eq_zero.mpr hreset
  by_contra hchannel
  rw [hcount, if_pos ⟨hchannel, h.attempt_eq_none hstate⟩] at hresets
  cases hresets

/-- An attempt can be begun when the connector is disconnected, and nothing of an earlier one is left. -/
theorem Inv.start (h : Inv s) (hstate : s.connector.state = .kDisconnected) (htimers : s.timers = 0)
    (hreset : ¬ s.ResetPending) (savedErrno : ConnectErrno) :
    ∃ r, s.connector.startInLoop savedErrno = .ok r ∧ Inv (s.after r) := by
  have hconnecting : s.connector.state ≠ .kConnecting := by simp [hstate]
  obtain ⟨r, hr⟩ := startInLoop_ok hstate (h.channel_eq_none hconnecting hreset) savedErrno
  obtain ⟨hdoes, hno⟩ := startInLoop_does hr
  exact ⟨r, hr, h.after (h.connection_eq_none (by simp [hstate])) (h.activeConnector_eq_false hconnecting)
    hdoes hno htimers⟩

/-- A functor other than `resetChannel` is queued. -/
theorem Inv.queueInLoop (h : Inv s) {f : ClientFunctor} (hreset : f ≠ .connector .resetChannel)
    (hknown : ∀ conn, f = .forceCloseInLoop conn → conn < s.nextConnId)
    (hdestroyed : ∀ conn, f = .connectDestroyed conn → s.states conn = .kDisconnected) :
    Inv (s.queueInLoop f) := by
  have hqueue : (s.queueInLoop f).queue = s.queue ++ [f] := (List.append_assoc ..).symm
  have hmem (g : ClientFunctor) (hg : g ∈ (s.queueInLoop f).queue) : g ∈ s.queue ∨ f = g := by
    rw [hqueue, List.mem_append, List.mem_singleton] at hg
    exact hg.imp id Eq.symm
  have hpending : (s.queueInLoop f).ResetPending → s.ResetPending :=
    fun hg => (hmem _ hg).resolve_right hreset
  refine { h with
    owns := ?_, known := ?_, destroyed := ?_, active := ?_, order := ?_, idle := ?_ }
  · rw [hqueue, List.count_append, List.count_singleton, if_neg (by simpa using hreset)]
    exact h.owns
  · intro conn hconn
    exact (hmem _ hconn).elim (h.known conn) (hknown conn)
  · intro conn hconn
    exact (hmem _ hconn).elim (h.destroyed conn) (hdestroyed conn)
  · intro conn hconn
    exact ⟨(h.active conn hconn).1, mt hpending (h.active conn hconn).2⟩
  · rw [hqueue, List.pairwise_append]
    refine ⟨h.order, List.pairwise_singleton .., fun g _ e he heq => ?_⟩
    rw [List.mem_singleton] at he
    exact absurd (he.symm.trans heq) hreset
  · intro hidle
    obtain ⟨hconnector, hconnections, hpending⟩ := h.idle hidle
    refine ⟨hconnector, hconnections, fun hsome hmem => ?_⟩
    rcases List.mem_append.mp hmem with hmem | hmem
    · exact hpending hsome hmem
    · exact hreset (List.mem_singleton.mp hmem).symm

/-- Other connections stay open. -/
theorem open_setState_of_ne {conn other : Nat} (h : other ≠ conn) (state : StateE) :
    (s.setState conn state).Open other ↔ s.Open other := by
  simp [Open, setState, h]

/-- The state that was set. -/
theorem states_setState_self (s : ClientLoop) (conn : Nat) (state : StateE) :
    (s.setState conn state).states conn = state := by simp [setState]

/-- The states of the others stay. -/
theorem states_setState_of_ne {conn other : Nat} (h : other ≠ conn) (state : StateE) :
    (s.setState conn state).states other = s.states other := by simp [setState, h]

/-- An open connection has been made. -/
theorem Inv.lt_of_open (h : Inv s) {conn : Nat} (hopen : s.Open conn) : conn < s.nextConnId := by
  by_contra hlt
  have hfresh := h.fresh conn (by omega)
  rw [Open, hfresh] at hopen
  simp at hopen

/-- An open connection stays open when it is to be closed. -/
theorem Inv.disconnecting (h : Inv s) {conn : Nat} (hopen : s.Open conn) :
    Inv (s.setState conn .kDisconnecting) := by
  have hlt := h.lt_of_open hopen
  have hopen' : (s.setState conn .kDisconnecting).Open conn := .inr (states_setState_self ..)
  refine { h with open_iff := ?_, fresh := ?_, destroyed := ?_ }
  · intro other
    by_cases hne : other = conn
    · rw [hne]
      exact iff_of_true hopen' ((h.open_iff conn).mp hopen)
    · rw [open_setState_of_ne hne]
      exact h.open_iff other
  · intro other hother
    have hge : s.nextConnId ≤ other := hother
    rw [states_setState_of_ne (by omega)]
    exact h.fresh other hge
  · intro other hother
    have hclosed := h.destroyed other hother
    have hne : other ≠ conn := by
      rintro rfl
      rw [Open, hclosed] at hopen
      simp at hopen
    rw [states_setState_of_ne hne]
    exact hclosed

/-- A connection is closed and forgotten. -/
theorem Inv.closed (h : Inv s) {conn : Nat} (hconn : s.connection = some conn)
    (hactive : s.activeConnections = []) :
    Inv { s.setState conn .kDisconnected with connection := none } := by
  have hlt := h.lt_of_open ((h.open_iff conn).mpr hconn)
  have hstate : s.connector.state = .kConnected := h.connected (by simp [hconn])
  refine { h with
    open_iff := ?_, connected := ?_, fresh := ?_, destroyed := ?_, active := ?_, order := ?_, idle := ?_ }
  · intro other
    refine iff_of_false ?_ (Option.some_ne_none other).symm
    by_cases hne : other = conn
    · rintro (hopen | hopen) <;> rw [hne, states_setState_self] at hopen <;> cases hopen
    · show ¬ (s.setState conn .kDisconnected).Open other
      rw [open_setState_of_ne hne, h.open_iff, hconn]
      exact fun heq => hne (Option.some.inj heq).symm
  · exact fun hsome => absurd rfl hsome
  · intro other hother
    have hge : s.nextConnId ≤ other := hother
    show (s.setState conn .kDisconnected).states other = _
    rw [states_setState_of_ne (by omega)]
    exact h.fresh other hge
  · intro other hother
    show (s.setState conn .kDisconnected).states other = _
    by_cases hne : other = conn
    · rw [hne, states_setState_self]
    · rw [states_setState_of_ne hne]
      exact h.destroyed other hother
  · intro other hother
    have hmem : other ∈ s.activeConnections := hother
    rw [hactive] at hmem
    simp at hmem
  · exact List.pairwise_of_forall fun f g _ other _ => (Option.some_ne_none other).symm
  · intro hidle
    exact ⟨(h.idle hidle).1, (h.idle hidle).2.1, fun hsome => absurd rfl hsome⟩

/-- The connection is closed; if it is to be made again, nothing of its attempt is in the way. -/
theorem Inv.handleClose (h : Inv s) {conn : Nat} (hconn : s.connection = some conn)
    (hactive : s.activeConnections = []) (hreset : ¬ s.ResetPending) (savedErrno : ConnectErrno) :
    (s.handleClose conn savedErrno).Sat Inv := by
  have hstate : s.connector.state = .kConnected := h.connected (by simp [hconn])
  unfold ClientLoop.handleClose removeConnection
  refine Checked.Sat.assert ((h.open_iff conn).mpr hconn) (Checked.Sat.assert hconn ?_)
  set s₁ : ClientLoop := ClientLoop.queueInLoop
    { s.setState conn .kDisconnected with connection := none } (.connectDestroyed conn) with hs₁
  have h₁ : Inv s₁ := by
    refine (h.closed hconn hactive).queueInLoop (by simp) (by simp) fun other hother => ?_
    cases hother
    exact states_setState_self ..
  dsimp only
  split_ifs
  · set s₂ : ClientLoop := { s₁ with connector := { s.connector with
      state := .kDisconnected, retryDelayMs := kInitRetryDelayMs, connect_ := true } } with hs₂
    have hinactive : s.activeConnector = false := h.activeConnector_eq_false (by simp [hstate])
    have hreset₂ : ¬ s₂.ResetPending := by
      intro hmem
      have hmem' : .connector .resetChannel ∈
          s.functors ++ (s.pendingFunctors ++ [.connectDestroyed conn]) := hmem
      exact hreset (by simpa [ResetPending] using hmem')
    have h₂ : Inv s₂ := by
      refine { h₁ with owns := ?_, timers := ?_, connected := ?_, activeConnector := ?_ }
      · refine h₁.owns.congr ?_ rfl rfl
        show .kDisconnected = States.kConnecting ↔ s.connector.state = .kConnecting
        simp [hstate]
      · exact .inl (h.timers_eq_zero (by simp [hstate]))
      · exact fun hsome => absurd rfl hsome
      · intro hactive
        rw [show s₂.activeConnector = s.activeConnector from rfl, hinactive] at hactive
        cases hactive
    obtain ⟨r, hr, hinv⟩ := h₂.start rfl (h.timers_eq_zero (by simp [hstate])) hreset₂ savedErrno
    have hrestart : s₁.connector.restart savedErrno = .ok r := hr
    rw [hrestart]
    exact .ok hinv
  · exact .ok h₁

/-! ## The steps -/

/-- A new connection comes before everything that can close it. -/
theorem Inv.newConnection (h : Inv s) (hhandling : s.eventHandling = true) {d : Connector}
    {channel : FdChannel} (hfrom : s.connector.state = .kConnecting)
    (hstate : d.state = .kConnected)
    (hdoes : Does s.connector [.queued .resetChannel, .newConnection channel.fd] d) :
    Inv (ClientLoop.after { s with activeConnector := false }
      (d, [.queued .resetChannel, .newConnection channel.fd])) := by
  have hnone : s.connection = none := h.connection_eq_none (by simp [hfrom])
  have hfresh : s.states s.nextConnId = .kConnecting := h.fresh _ le_rfl
  set t : ClientLoop := ClientLoop.after { s with activeConnector := false }
    (d, [.queued .resetChannel, .newConnection channel.fd]) with ht
  have hstates : t.states = Function.update s.states s.nextConnId .kConnected := rfl
  have hqueue : t.queue = s.queue ++ [.connector .resetChannel] := (List.append_assoc ..).symm
  have hmem (f : ClientFunctor) (hf : f ∈ t.queue) : f ∈ s.queue ∨ f = .connector .resetChannel := by
    rw [hqueue, List.mem_append, List.mem_singleton] at hf
    exact hf
  constructor
  · have howns := h.owns.of_does hdoes
    rw [show closedIn [.queued .resetChannel, .newConnection channel.fd] = [] from rfl,
      List.append_nil] at howns
    rw [hqueue, List.count_append]
    exact howns
  · exact .inl (h.timers_eq_zero (by simp [hfrom]))
  · intro conn
    show t.states conn = _ ∨ t.states conn = _ ↔ some s.nextConnId = some conn
    rw [hstates]
    by_cases hconn : conn = s.nextConnId
    · simp [hconn]
    · have hclosed : ¬ s.Open conn := by
        rw [h.open_iff, hnone]
        exact (Option.some_ne_none conn).symm
      rw [Function.update_of_ne hconn]
      exact iff_of_false hclosed fun heq => hconn (Option.some.inj heq).symm
  · intro _
    exact hstate
  · intro conn hconn
    have hge : s.nextConnId + 1 ≤ conn := hconn
    rw [hstates, Function.update_of_ne (by omega)]
    exact h.fresh conn (by omega)
  · intro conn hconn
    have hlt := h.known conn ((hmem _ hconn).resolve_right (by simp))
    exact Nat.lt_succ_of_lt hlt
  · intro conn hconn
    have hclosed := h.destroyed conn ((hmem _ hconn).resolve_right (by simp))
    have hne : conn ≠ s.nextConnId := by
      rintro rfl
      rw [hfresh] at hclosed
      cases hclosed
    rw [hstates, Function.update_of_ne hne]
    exact hclosed
  · intro hactive
    cases hactive
  · intro conn hconn
    have hsome := (h.active conn hconn).1
    rw [hnone] at hsome
    cases hsome
  · refine List.pairwise_of_forall_mem_list fun f hf g _ _ conn hclose => ?_
    subst hclose
    have hlt := h.known conn ((hmem _ hf).resolve_right (by simp))
    intro heq
    have : s.nextConnId = conn := Option.some.inj heq
    omega
  · exact h.handling
  · intro hidle
    rw [show t.eventHandling = s.eventHandling from rfl, hhandling] at hidle
    cases hidle

/-- The channel of the connector has an event. -/
theorem Inv.connectorEvent (h : Inv s) (hhandling : s.eventHandling = true)
    (hactive : s.activeConnector = true) (revents : BitVec 32) (err : Nat) (selfConnect : Bool) :
    (s.exec (.connectorEvent revents err selfConnect)).Sat Inv := by
  have hfrom := h.activeConnector hactive
  obtain ⟨⟨d, events⟩, hr⟩ :=
    Ready.handleEvent (.inr ⟨hfrom, h.channel_ne_none hfrom⟩) revents err selfConnect
  have hdoes := (handleEvent_does hr).1
  rw [exec, hr]
  refine .ok ?_
  by_cases hno : ∀ n, .newConnection n ∉ events
  · have h' : Inv { s with activeConnector := false } :=
      { h with
        activeConnector := fun hfalse => by cases hfalse
        idle := fun hidle => ⟨rfl, (h.idle hidle).2⟩ }
    exact h'.after (h.connection_eq_none (by simp [hfrom])) rfl hdoes hno
      (h.timers_eq_zero (by simp [hfrom]))
  · push Not at hno
    obtain ⟨n, hn⟩ := hno
    cases hdoes with
    | nothing | begun => simp at hn
    | refused delay | ended delay => cases delay <;> simp [timerEvents] at hn
    | connected hfrom' hconnect hin hstate hchannel' hsockets =>
        exact h.newConnection hhandling hfrom hstate (.connected hfrom' hconnect hin hstate hchannel' hsockets)

/-- The functor to be run is the first queued. -/
theorem queue_eq_cons {f : ClientFunctor} {functors : List ClientFunctor}
    (hfunctors : s.functors = f :: functors) : s.queue = f :: (functors ++ s.pendingFunctors) := by
  rw [queue, hfunctors]
  rfl

/-- A functor is taken from the queue, and the connector keeps its state. -/
theorem Inv.dequeue (h : Inv s) {f : ClientFunctor} {functors : List ClientFunctor}
    (hfunctors : s.functors = f :: functors) (hhandling : s.eventHandling = false) {d : Connector}
    (hstate : d.state = s.connector.state)
    (howns : d.Owns s.closed s.handed
      ((functors ++ s.pendingFunctors).count (.connector .resetChannel))) :
    Inv { s with functors, connector := d } := by
  have hqueue := queue_eq_cons hfunctors
  have hmem (g : ClientFunctor) (hg : g ∈ functors ++ s.pendingFunctors) : g ∈ s.queue := by
    rw [hqueue]
    exact List.mem_cons_of_mem f hg
  refine { h with
    owns := howns, timers := ?_, connected := ?_, known := ?_, destroyed := ?_, activeConnector := ?_,
    active := ?_, order := ?_, handling := ?_ }
  · rw [hstate]
    exact h.timers
  · rw [hstate]
    exact h.connected
  · exact fun conn hconn => h.known conn (hmem _ hconn)
  · exact fun conn hconn => h.destroyed conn (hmem _ hconn)
  · rw [hstate]
    exact h.activeConnector
  · intro conn hconn
    exact ⟨(h.active conn hconn).1, fun hreset => (h.active conn hconn).2 (hmem _ hreset)⟩
  · have horder := h.order
    rw [hqueue] at horder
    exact horder.of_cons
  · intro htrue
    rw [show s.eventHandling = true from htrue] at hhandling
    cases hhandling

/-- Taking the next functor keeps the invariant, unless it is `resetChannel`. -/
theorem Inv.tail (h : Inv s) {f : ClientFunctor} {functors : List ClientFunctor}
    (hfunctors : s.functors = f :: functors) (hf : f ≠ .connector .resetChannel)
    (hhandling : s.eventHandling = false) : Inv { s with functors } := by
  have howns := h.owns
  rw [queue_eq_cons hfunctors, List.count_cons_of_ne hf] at howns
  exact h.dequeue hfunctors hhandling rfl howns

/-- `resetChannel` destroys the channel of an attempt that is over. -/
theorem Inv.resetChannel (h : Inv s) {functors : List ClientFunctor}
    (hfunctors : s.functors = .connector .resetChannel :: functors) (hhandling : s.eventHandling = false)
    (savedErrno : ConnectErrno) :
    (ClientLoop.runFunctor { s with functors } savedErrno (.connector .resetChannel)).Sat Inv := by
  have howns := h.owns
  rw [queue_eq_cons hfunctors, List.count_cons_self] at howns
  have hresets := howns.resets
  split_ifs at hresets with hcond
  obtain ⟨d, hd⟩ := resetChannel_ok hcond.2
  have hcount : (functors ++ s.pendingFunctors).count (.connector .resetChannel) = 0 := by omega
  unfold ClientLoop.runFunctor
  dsimp only
  rw [hd, resetChannel_cases hd]
  have hreset := howns.reset
  rw [← hcount] at hreset
  exact .ok (h.dequeue hfunctors hhandling rfl hreset)

/-- The loop runs the next functor. -/
theorem Inv.runFunctor (h : Inv s) {f : ClientFunctor} {functors : List ClientFunctor}
    (hfunctors : s.functors = f :: functors) (hhandling : s.eventHandling = false)
    (savedErrno : ConnectErrno) :
    (ClientLoop.runFunctor { s with functors } savedErrno f).Sat Inv := by
  obtain ⟨hinactive, hconnections, -⟩ := h.idle hhandling
  cases f with
  | connector f =>
      cases f with
      | resetChannel => exact h.resetChannel hfunctors hhandling savedErrno
      | stopInLoop =>
          have h' := h.tail hfunctors (by simp) hhandling
          unfold ClientLoop.runFunctor
          dsimp only
          by_cases hfrom : s.connector.state = .kConnecting
          · obtain ⟨r, hr⟩ := stopInLoop_ok fun _ => h.channel_ne_none hfrom
            obtain ⟨hdoes, hno⟩ := stopInLoop_does hr
            rw [hr]
            exact .ok (h'.after (h.connection_eq_none (by simp [hfrom])) hinactive hdoes hno
              (h.timers_eq_zero (by simp [hfrom])))
          · rw [stopInLoop, if_neg hfrom]
            exact .ok h'
  | forceCloseInLoop conn =>
      have h' := h.tail hfunctors (by simp) hhandling
      unfold ClientLoop.runFunctor
      dsimp only
      split_ifs with hopen
      · -- whatever destroys the channel of the attempt has been run
        have hconn := (h'.open_iff conn).mp hopen
        refine h'.handleClose hconn hconnections ?_ savedErrno
        intro hreset
        have horder := h.order
        rw [queue, hfunctors, List.cons_append, List.pairwise_cons] at horder
        exact horder.1 _ hreset rfl conn rfl hconn
      · exact .ok h'
  | connectDestroyed conn =>
      have h' := h.tail hfunctors (by simp) hhandling
      have hclosed := h.destroyed conn (by rw [queue, hfunctors]; exact List.mem_cons_self)
      unfold ClientLoop.runFunctor
      dsimp only
      rw [if_neg (by simp [hclosed])]
      exact .ok h'

/-- `poll` reports channels that are in the poller. -/
theorem Inv.poll (h : Inv s) {connector : Bool} {connections : List Nat}
    (henabled : s.Enabled (.poll connector connections)) :
    (s.exec (.poll connector connections)).Sat Inv := by
  obtain ⟨hidle, hfunctors, hconnector, hconnections⟩ := henabled
  refine .ok { h with activeConnector := ?_, active := ?_, handling := ?_, idle := ?_ }
  · intro hactive
    exact h.owns.connecting.mpr (hconnector hactive)
  · intro conn hconn
    have hsome := (h.open_iff conn).mp (hconnections conn hconn)
    refine ⟨hsome, fun hreset => (h.idle hidle).2.2 (by simp [hsome]) ?_⟩
    have hmem : .connector .resetChannel ∈ s.functors ++ s.pendingFunctors := hreset
    rw [hfunctors] at hmem
    exact hmem
  · exact fun _ => hfunctors
  · intro hfalse
    cases hfalse

/-- The connection with an event is the only one. -/
theorem Inv.connectionEvent (h : Inv s) {conn : Nat} (hactive : conn ∈ s.activeConnections)
    (savedErrno : ConnectErrno) : (s.exec (.connectionEvent conn savedErrno)).Sat Inv := by
  obtain ⟨hsome, hreset⟩ := h.active conn hactive
  have hconnections : s.activeConnections.filter (· ≠ conn) = [] := by
    rw [List.filter_eq_nil_iff]
    intro other hother
    have heq := (h.active other hother).1
    rw [hsome] at heq
    simp [(Option.some.inj heq).symm]
  have h' : Inv { s with activeConnections := s.activeConnections.filter (· ≠ conn) } :=
    { h with
      active := fun other hother => h.active other (List.mem_of_mem_filter hother)
      idle := fun hidle => ⟨(h.idle hidle).1, hconnections, (h.idle hidle).2.2⟩ }
  exact h'.handleClose hsome hconnections hreset savedErrno

/-- Nothing that was reported outlasts the handling of the events. -/
theorem Inv.doPendingFunctors (h : Inv s) (hhandling : s.eventHandling = true) :
    (s.exec .doPendingFunctors).Sat Inv := by
  have hfunctors := h.handling hhandling
  set t : ClientLoop := { s with
    eventHandling := false, activeConnector := false, activeConnections := []
    functors := s.pendingFunctors, pendingFunctors := [] } with ht
  have hqueue : t.queue = s.queue := by
    rw [queue, queue, hfunctors]
    exact List.append_nil _
  have h' : Inv t := by
    refine { h with
      owns := ?_, known := ?_, destroyed := ?_, activeConnector := ?_, active := ?_, order := ?_,
      handling := ?_, idle := ?_ }
    · rw [hqueue]
      exact h.owns
    · rw [hqueue]
      exact h.known
    · rw [hqueue]
      exact h.destroyed
    · intro hfalse
      cases hfalse
    · intro conn hconn
      cases hconn
    · rw [hqueue]
      exact h.order
    · intro hfalse
      cases hfalse
    · intro _
      exact ⟨rfl, rfl, fun _ => List.not_mem_nil⟩
  exact .ok h'

/-- Every step of a careful client keeps the invariant, and fails no assertion. -/
theorem Inv.step (h : Inv s) {a : ClientStep} (henabled : s.Enabled a) (hcareful : s.Careful a) :
    (s.exec a).Sat Inv := by
  cases a with
  | connect savedErrno =>
      obtain ⟨hstate, htimers, hreset⟩ := hcareful
      set s' : ClientLoop :=
        { s with connect_ := true, connector := { s.connector with connect_ := true } } with hs'
      have h' : Inv s' := { h with owns := h.owns.congr Iff.rfl rfl rfl }
      obtain ⟨r, hr, hinv⟩ := h'.start hstate htimers hreset savedErrno
      have hstart : s.connector.start savedErrno = .ok r := hr
      rw [exec, ClientLoop.connect, hstart]
      exact .ok hinv
  | disconnect =>
      have h' : Inv { s with connect_ := false } := { h with }
      show Checked.Sat (.ok s.disconnect) Inv
      refine .ok ?_
      unfold ClientLoop.disconnect
      dsimp only
      split
      · exact h'
      · split_ifs with hopen
        · exact h'.disconnecting (.inl hopen)
        · exact h'
  | stop =>
      have h' : Inv { s with connect_ := false, connector := { s.connector with connect_ := false } } :=
        { h with owns := h.owns.congr Iff.rfl rfl rfl }
      have hqueued : Inv (ClientLoop.queueInLoop
          { s with connect_ := false, connector := { s.connector with connect_ := false } }
          (.connector .stopInLoop)) := h'.queueInLoop (by simp) (by simp) (by simp)
      exact .ok hqueued
  | enableRetry =>
      have h' : Inv { s with retry := true } := { h with }
      exact .ok h'
  | forceClose conn =>
      refine .ok ?_
      unfold ClientLoop.forceClose
      split_ifs with hopen
      · refine (h.disconnecting hopen).queueInLoop (by simp) ?_ (by simp)
        intro other hother
        cases hother
        exact h.lt_of_open hopen
      · exact h
  | poll connector connections => exact h.poll henabled
  | connectorEvent revents err selfConnect =>
      exact h.connectorEvent henabled.1 henabled.2 revents err selfConnect
  | connectionEvent conn savedErrno => exact h.connectionEvent henabled.2 savedErrno
  | timer savedErrno =>
      obtain ⟨-, hpos⟩ := henabled
      obtain ⟨hone, hstate⟩ : s.timers = 1 ∧ s.connector.state = .kDisconnected :=
        h.timers.resolve_left (by omega)
      have hzero : s.timers - 1 = 0 := by omega
      have h' : Inv { s with timers := s.timers - 1 } := { h with timers := .inl hzero }
      obtain ⟨r, hr, hinv⟩ := h'.start hstate hzero hcareful savedErrno
      have hstart : s.connector.startInLoop savedErrno = .ok r := hr
      rw [exec, hstart]
      exact .ok hinv
  | doPendingFunctors => exact h.doPendingFunctors henabled
  | runFunctor savedErrno =>
      obtain ⟨hhandling, hne⟩ := henabled
      obtain ⟨f, functors, hfunctors⟩ := List.exists_cons_of_ne_nil hne
      unfold exec
      dsimp only
      rw [hfunctors]
      exact h.runFunctor hfunctors hhandling savedErrno

/-- The attempt in progress is the one that the connector is at. -/
theorem Inv.inProgress_iff (h : Inv s) (n : Nat) : s.InProgress n ↔ s.connector.attempt = some n := by
  have hsettled := h.owns.settled n
  constructor
  · rintro ⟨hn, hclosed, hhanded⟩
    by_contra hne
    rw [List.count_eq_zero.mpr hclosed, List.count_eq_zero.mpr hhanded, if_pos ⟨hn, hne⟩] at hsettled
    omega
  · intro hattempt
    rw [if_neg fun hcond => hcond.2 hattempt] at hsettled
    exact ⟨h.owns.attempt_lt n hattempt, List.count_eq_zero.mp (by omega), List.count_eq_zero.mp (by omega)⟩

end ClientLoop

open ClientLoop in
/-- **One attempt at a time.** In every run of a client whose steps are careful: no assertion can fail, in
particular `startInLoop` finds the connector disconnected and `connecting` finds no channel; there is at most
one attempt in progress; and none while a `resetChannel` is queued, so that it destroys no channel but the one
it was queued for. -/
theorem tcpClient_one_attempt {s : ClientLoop} (hs : (tcpClient.restrict Careful).Reachable s) :
    (tcpClient.restrict Careful).Safe s ∧
    (∀ m n, s.InProgress m → s.InProgress n → m = n) ∧
    (s.ResetPending → ∀ n, ¬ s.InProgress n) := by
  obtain ⟨h, hsafe⟩ : Inv s ∧ (tcpClient.restrict Careful).Safe s := by
    refine Machine.invariant ?_ (fun s a h ha => h.step ha.1 ha.2) hs
    rintro _ rfl
    exact .new
  refine ⟨hsafe, ?_, ?_⟩
  · intro m n hm hn
    rw [h.inProgress_iff] at hm hn
    rw [hm] at hn
    exact Option.some.inj hn
  · intro hreset n hn
    rw [h.inProgress_iff] at hn
    have hresets := h.owns.resets
    have hpos : 0 < s.queue.count (.connector .resetChannel) := List.count_pos_iff.mpr hreset
    rw [if_neg (by simp [hn])] at hresets
    omega

/-- A client whose first attempt is in progress. -/
def ClientLoop.connecting : ClientLoop :=
  { ClientLoop.new with
    connector :=
      { Connector.new with
        connect_ := true, state := .kConnecting, sockets := 1
        channel := some ⟨0, Channel.new.enableWriting⟩ } }

/-- The first socket is the attempt in progress. -/
theorem tcpClient_one_attempt_connecting :
    ClientLoop.connecting.InProgress 0 ∧ ¬ ClientLoop.connecting.ResetPending := by
  have hs : (tcpClient.restrict ClientLoop.Careful).Reachable ClientLoop.connecting :=
    (Machine.Reachable.of_init rfl).step (a := ClientStep.connect .EINPROGRESS)
      ⟨trivial, rfl, rfl, List.not_mem_nil⟩ rfl
  have hprogress : ClientLoop.connecting.InProgress 0 :=
    ⟨Nat.zero_lt_one, List.not_mem_nil, List.not_mem_nil⟩
  exact ⟨hprogress, fun hreset => (tcpClient_one_attempt hs).2.2 hreset 0 hprogress⟩

/-- A client with its first connection, and the channel that its connector still has. -/
def ClientLoop.established (channel : Option Connector.FdChannel) : ClientLoop :=
  { ClientLoop.new with
    connector :=
      { Connector.new with connect_ := true, state := .kConnected, sockets := 1, channel }
    nextConnId := 2
    connection := some 1
    states := Function.update (fun _ => .kConnecting) 1 .kConnected
    handed := [0] }

/-- A connection is made and closed by the peer, and then the user calls `connect()` again: the connector is
still in the state `kConnected`. -/
theorem tcpClient_second_connect_fails : ∃ s : ClientLoop,
    tcpClient.Reachable s ∧ s.connection = none ∧ s.connector.state = .kConnected ∧
      tcpClient.enabled s (.connect .EINPROGRESS) ∧
      s.exec (.connect .EINPROGRESS) = .error "state_ == kDisconnected" := by
  have hnew : tcpClient.Reachable ClientLoop.new := .of_init rfl
  have hconnect : tcpClient.Reachable ClientLoop.connecting :=
    hnew.step (a := ClientStep.connect .EINPROGRESS) trivial rfl
  have hpoll : tcpClient.Reachable
      { ClientLoop.connecting with eventHandling := true, activeConnector := true } :=
    hconnect.step (a := ClientStep.poll true []) ⟨rfl, rfl, by decide, by simp⟩ rfl
  have hevent : tcpClient.Reachable
      { ClientLoop.established (some ⟨0, Connector.removedChannel⟩) with
        eventHandling := true, pendingFunctors := [.connector .resetChannel] } :=
    hpoll.step (a := ClientStep.connectorEvent POLLOUT 0 false) ⟨rfl, rfl⟩ rfl
  have hfunctors : tcpClient.Reachable
      { ClientLoop.established (some ⟨0, Connector.removedChannel⟩) with
        functors := [.connector .resetChannel] } :=
    hevent.step (a := ClientStep.doPendingFunctors) rfl rfl
  have hreset : tcpClient.Reachable (.established none) :=
    hfunctors.step (a := ClientStep.runFunctor .success) ⟨rfl, by decide⟩ rfl
  have hpoll' : tcpClient.Reachable
      { ClientLoop.established none with eventHandling := true, activeConnections := [1] } :=
    hreset.step (a := ClientStep.poll false [1]) ⟨rfl, rfl, by decide, by decide⟩ rfl
  have hclose := hpoll'.step (a := ClientStep.connectionEvent 1 .success) ⟨rfl, by decide⟩ rfl
  exact ⟨_, hclose, rfl, rfl, trivial, rfl⟩

end Muduo.Net
