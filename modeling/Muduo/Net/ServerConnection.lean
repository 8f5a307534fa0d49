import Muduo.Net.TcpConnectionState
import Muduo.Support.Machine

/-! # A connection of `net::TcpServer`

A `TcpConnection` made by `TcpServer::newConnection`, with the functor queue of its I/O loop, its
delayed closes, and the part of the server that owns it: the entry in `connections_`, the removal
queued in the base loop, and `~TcpServer`. The machine `serverConnection` takes functors, channel
events and user calls in every order, with the connection in the server's own loop (`sameLoop`) or in
a loop of the thread pool. `connectDestroyed` is reached from `removeConnectionInLoop` or from
`~TcpServer`, and `connectDestroyed_clean_iff` says exactly when it leaves the connection clean:
unless a close has been requested and is not yet carried out. -/

namespace Muduo.Net

open Support TcpConnection

/-! ## The machine -/

/-- What the queue of the I/O loop holds for this connection. -/
inductive IoFunctor where
  | connectEstablished
  | conn (f : Functor)
  | connectDestroyed
  deriving DecidableEq, Repr

/-- A connection with its loop and its server. -/
structure Life where
  conn : TcpConnection
  /-- `pendingFunctors_` of the I/O loop, as far as they concern the connection. -/
  queue : List IoFunctor
  /-- The timers of `forceCloseWithDelay` that have not fired. -/
  delayedCloses : Nat
  /-- Whether `connections_` of the server holds the connection. -/
  inMap : Bool
  /-- Whether `removeConnectionInLoop` is queued in the base loop. -/
  removalQueued : Bool
  serverAlive : Bool
  /-- All that the connection did, in order. -/
  trace : List Event

/-- The state in which `connectionCallback_` was called, if the event is that call. -/
def Event.callbackState : Event → Option StateE
  | .connectionCallback state => some state
  | _ => none

namespace Life

/-- `TcpServer::newConnection` up to the `runInLoop` of `connectEstablished`. -/
def start (writeCompleteCallback highWaterMarkCallback : Bool) : Life :=
  { conn := TcpConnection.new writeCompleteCallback highWaterMarkCallback
    queue := []
    delayedCloses := 0
    inMap := true
    removalQueued := false
    serverAlive := true
    trace := [] }

/-- `TcpServer::removeConnectionInLoop(conn)`. -/
def removeConnectionInLoop (s : Life) : Checked Life := do
  let n := if s.inMap then 1 else 0
  assert (n = 1) "n == 1"
  return { s with
    inMap := false, removalQueued := false, queue := s.queue ++ [.connectDestroyed] }

/-- `TcpServer::removeConnection(conn)`. Once the server is gone there is nobody to do it; that the
source then makes a call on a destroyed object is not modelled, the connection just goes on. -/
def removeConnection (sameLoop : Bool) (s : Life) : Checked Life :=
  if ¬ s.serverAlive then return s
  else if sameLoop then s.removeConnectionInLoop
  else return { s with removalQueued := true }

/-- What an event of the connection does to its loop and its server. -/
def absorb (sameLoop : Bool) (s : Life) : Event → Checked Life
  | .queued f => return { s with queue := s.queue ++ [.conn f] }
  | .runAfterForceClose => return { s with delayedCloses := s.delayedCloses + 1 }
  | .closeCallback => s.removeConnection sameLoop
  | _ => return s -- what concerns the socket or the user only

/-- The events of a call, taken up one after the other. -/
def absorbAll (sameLoop : Bool) (s : Life) : List Event → Checked Life
  | [] => return s
  | e :: evs => do
      let s ← s.absorb sameLoop e
      s.absorbAll sameLoop evs

/-- A function of the connection has returned. -/
def after (sameLoop : Bool) (s : Life) (r : Outcome) : Checked Life :=
  { s with conn := r.1, trace := s.trace ++ r.2 }.absorbAll sameLoop r.2

/-- The states in which `connectionCallback_` has been called, in order. -/
def callbacks (s : Life) : List StateE := s.trace.filterMap Event.callbackState

/-- The end that every connection should come to: nothing is watched, `~TcpConnection` finds it
disconnected, and the user heard once that it is up and then once that it is down. -/
def CleanEnd (s : Life) : Prop :=
  s.conn.channel.isNoneEvent = true ∧ s.conn.state = .kDisconnected ∧
    s.callbacks = [.kConnected, .kDisconnected]

end Life

/-- What can happen to the connection next; a `callback` is what the user's callback does on the way
and a `res` the result of a system call. -/
inductive LifeStep where
  /-- The I/O loop runs the functor at the head of its queue. -/
  | runFunctor (callback : List UserCall) (res : WriteResult)
  | handleRead (res : Buffer.ReadResult) (callback : List UserCall) (unread : ByteQueue → ByteQueue)
  | handleWrite (res : WriteResult)
  | handleClose (callback : List UserCall)
  | userCall (inLoop : Bool) (call : UserCall)
  /-- A timer of `forceCloseWithDelay` is due and calls `forceClose`. -/
  | delayedClose
  /-- The base loop runs the queued `removeConnectionInLoop`. -/
  | removeConnectionInLoop
  | destroyServer (callback : List UserCall)

namespace Life

/-- A step of the connection, its loop or its server. -/
def exec (sameLoop : Bool) (s : Life) : LifeStep → Checked Life
  | .runFunctor callback res =>
      match s.queue with
      | [] => return s -- nothing is pending
      | .connectEstablished :: queue => do
          after sameLoop { s with queue } (← s.conn.connectEstablished callback)
      | .conn f :: queue => do
          after sameLoop { s with queue } (← s.conn.runFunctor callback res f)
      | .connectDestroyed :: queue => do
          after sameLoop { s with queue } (← s.conn.connectDestroyed callback)
  | .handleRead res callback unread => do
      s.after sameLoop (← s.conn.handleRead res callback unread)
  | .handleWrite res => do s.after sameLoop (← s.conn.handleWrite res)
  | .handleClose callback => do s.after sameLoop (← s.conn.handleClose callback)
  | .userCall inLoop call => do s.after sameLoop (← s.conn.call inLoop call)
  | .delayedClose =>
      after sameLoop { s with delayedCloses := s.delayedCloses - 1 } s.conn.forceClose
  | .removeConnectionInLoop => s.removeConnectionInLoop
  | .destroyServer callback =>
      let t := { s with serverAlive := false, inMap := false }
      if s.inMap then
        -- `runInLoop`: at once in the loop of the server, queued in any other
        if sameLoop then do t.after sameLoop (← s.conn.connectDestroyed callback)
        else return { t with queue := s.queue ++ [.connectDestroyed] }
      else return t

/-- What may happen. Only a watched channel gets events, a `write` takes at most what it is given, and
user code calls neither `startRead` nor `stopRead`. -/
def Enabled (s : Life) : LifeStep → Prop
  | .runFunctor callback _ => ∀ call ∈ callback, LifeCall call
  | .handleRead _ callback _ | .handleClose callback =>
      s.conn.channel.isNoneEvent = false ∧ ∀ call ∈ callback, LifeCall call
  | .handleWrite res =>
      s.conn.channel.isNoneEvent = false ∧
        ∀ n, res = .ok n → n ≤ s.conn.outputBuffer.content.length
  | .userCall _ call => LifeCall call
  | .delayedClose => 0 < s.delayedCloses
  | .removeConnectionInLoop => s.serverAlive = true ∧ s.removalQueued = true
  | .destroyServer callback => s.serverAlive = true ∧ ∀ call ∈ callback, LifeCall call

end Life

/-- The machine of one server connection. In the server's own loop `newConnection` runs
`connectEstablished` itself, otherwise it queues it in the I/O loop. A call of another thread is one step
here: its test of the state, its change of it and the functor that it queues are not interleaved with the
loop. The machine of `ConnectionThreads` splits such a call into its reads and writes. -/
def serverConnection (sameLoop : Bool) : Machine Life LifeStep where
  init s := ∃ writeComplete highWaterMark,
    if sameLoop then
      ∃ callback r, (∀ call ∈ callback, LifeCall call) ∧
        (Life.start writeComplete highWaterMark).conn.connectEstablished callback = .ok r ∧
        (Life.start writeComplete highWaterMark).after sameLoop r = .ok s
    else s = { Life.start writeComplete highWaterMark with queue := [.connectEstablished] }
  enabled := Life.Enabled
  exec := Life.exec sameLoop

/-- The steps that run `connectDestroyed`: the functor queued by `removeConnectionInLoop` or by
`~TcpServer`, and `~TcpServer` itself in the loop of the connection. -/
def Life.Destroys (sameLoop : Bool) (s : Life) : LifeStep → Prop
  | .runFunctor _ _ => s.queue.head? = some .connectDestroyed
  | .destroyServer _ => s.inMap = true ∧ sameLoop = true
  | _ => False

/-! ## The invariant -/

/-- The callbacks that a connection in a given state has made. -/
def StateE.expectedCallbacks : StateE → List StateE
  | .kConnecting => []
  | .kConnected | .kDisconnecting => [.kConnected]
  | .kDisconnected => [.kConnected, .kDisconnected]

/-- What holds between any two steps. -/
structure LifeInv (sameLoop : Bool) (s : Life) : Prop where
  /-- An unestablished connection is in another loop, whose first functor establishes it. -/
  connecting : s.conn.state = .kConnecting → sameLoop = false ∧
    ∃ queue, s.queue = .connectEstablished :: queue ∧ .connectEstablished ∉ queue
  /-- It is established only once. -/
  established : s.conn.state ≠ .kConnecting → .connectEstablished ∉ s.queue
  queued : ∀ f, .conn f ∈ s.queue → (Event.queued f).isQuiet = true
  /-- An open connection watches for input, also while it is closing. -/
  isReading : s.conn.state = .kConnected ∨ s.conn.state = .kDisconnecting →
    s.conn.channel.isReading = true
  isNoneEvent : s.conn.state = .kConnecting ∨ s.conn.state = .kDisconnected →
    s.conn.channel.isNoneEvent = true
  callbacks : s.callbacks = s.conn.state.expectedCallbacks
  /-- The server gives up only closed connections, unless it goes away itself. -/
  owned : s.serverAlive = true → s.inMap = false → s.conn.state = .kDisconnected
  held : s.inMap = true → s.serverAlive = true ∧ .connectDestroyed ∉ s.queue
  removal : s.serverAlive = true → s.removalQueued = true →
    s.inMap = true ∧ s.conn.state = .kDisconnected

namespace LifeInv

variable {sameLoop : Bool} {s : Life}

/-- Quiet events only add functors of the connection to the queue and timers to the loop. -/
theorem absorbAll_quiet (sameLoop : Bool) (s : Life) {evs : List Event}
    (hevs : ∀ e ∈ evs, e.isQuiet = true) :
    ∃ fs : List Functor, ∃ n, (∀ f ∈ fs, (Event.queued f).isQuiet = true) ∧
      s.absorbAll sameLoop evs
        = .ok { s with queue := s.queue ++ fs.map .conn, delayedCloses := n } := by
  -- on the events, with the queue and the timers growing on the way
  induction evs generalizing s with
  | nil => exact ⟨[], s.delayedCloses, by simp, by simp [Life.absorbAll]⟩
  | cons e evs ih =>
      have hhead : e.isQuiet = true := hevs e (List.mem_cons_self ..)
      have hrest : ∀ e ∈ evs, e.isQuiet = true := fun e he => hevs e (List.mem_cons_of_mem _ he)
      cases e with
      | queued f =>
          obtain ⟨fs, n, hfs, h⟩ := ih { s with queue := s.queue ++ [.conn f] } hrest
          refine ⟨f :: fs, n, ?_, ?_⟩
          · intro g hg
            rcases List.mem_cons.mp hg with rfl | hg
            · exact hhead
            · exact hfs g hg
          · rw [List.map_cons, List.append_cons]
            exact h
      | runAfterForceClose =>
          exact ih { s with delayedCloses := s.delayedCloses + 1 } hrest
      | connectionCallback _ | closeCallback => cases hhead
      | sendInLoop _ | written _ | shutdownWrite _ _ | messageCallback => exact ih s hrest

/-- Quiet events are no callbacks. -/
theorem filterMap_callbackState_quiet {evs : List Event} (hevs : ∀ e ∈ evs, e.isQuiet = true) :
    evs.filterMap Event.callbackState = [] := by
  rw [List.filterMap_eq_nil_iff]
  intro e he
  have hquiet := hevs e he
  cases e with
  | connectionCallback _ => cases hquiet
  | _ => rfl

/-- Functors of the connection at the end of the queue hide none of the other two. -/
theorem mem_append_conn {f : IoFunctor} (hf : ∀ g, f ≠ .conn g) (queue : List IoFunctor)
    (fs : List Functor) : f ∈ queue ++ fs.map .conn ↔ f ∈ queue := by
  rw [List.mem_append, List.mem_map]
  constructor
  · rintro (h | ⟨g, -, rfl⟩)
    · exact h
    · exact absurd rfl (hf g)
  · exact .inl

/-- The functor of `connectDestroyed` at the end of the queue hides no other. -/
theorem mem_of_mem_append_destroyed {f : IoFunctor} {queue : List IoFunctor}
    (hmem : f ∈ queue ++ [.connectDestroyed]) (hf : f ≠ .connectDestroyed) : f ∈ queue := by
  rcases List.mem_append.mp hmem with hmem | hmem
  · exact hmem
  · exact absurd (List.mem_singleton.mp hmem) hf

/-- A calm function of an established connection keeps the invariant. -/
theorem after_calm (h : LifeInv sameLoop s) (hstate : s.conn.state ≠ .kConnecting) {r : Outcome}
    (hcalm : Calm s.conn r.1 r.2) : (s.after sameLoop r).Sat (LifeInv sameLoop) := by
  obtain ⟨fs, n, hfs, heq⟩ := absorbAll_quiet sameLoop
    { s with conn := r.1, trace := s.trace ++ r.2 } hcalm.quiet
  refine ⟨_, heq, ?_⟩
  have hstays : r.1.state ≠ .kConnecting := by
    rcases hcalm.state with hs | ⟨-, hs⟩
    · rwa [hs]
    · rw [hs]
      decide
  refine
    { connecting := fun hc => absurd hc hstays
      established := fun _ => ?_
      queued := fun f hf => ?_
      isReading := fun hopen => ?_
      isNoneEvent := fun hnone => ?_
      callbacks := ?_
      owned := fun halive hmap => hcalm.state_closed (h.owned halive hmap)
      held := fun hmap => ⟨(h.held hmap).1, ?_⟩
      removal := fun halive hq => (h.removal halive hq).imp_right hcalm.state_closed }
  -- the queue has only grown by functors of the connection
  · rw [mem_append_conn (f := .connectEstablished) (fun _ => nofun)]
    exact h.established hstate
  · rcases List.mem_append.mp hf with hf | hf
    · exact h.queued f hf
    · obtain ⟨g, hg, hgf⟩ := List.mem_map.mp hf
      cases hgf
      exact hfs f hg
  · refine hcalm.reading.trans (h.isReading ?_)
    rcases hcalm.state with hs | ⟨hs, -⟩
    · rwa [hs] at hopen
    · exact .inl hs
  · -- nothing calm ends unwatched but what was closed before, and that keeps its channel
    have hd : s.conn.state = .kDisconnected := by
      rcases hcalm.state with hs | ⟨-, hs⟩
      · rw [hs] at hnone
        exact hnone.resolve_left hstate
      · rw [hs] at hnone
        rcases hnone with hn | hn <;> cases hn
    show r.1.channel.isNoneEvent = true
    rw [hcalm.closed hd]
    exact h.isNoneEvent (.inr hd)
  · show (s.trace ++ r.2).filterMap _ = r.1.state.expectedCallbacks
    rw [List.filterMap_append, filterMap_callbackState_quiet hcalm.quiet, List.append_nil]
    refine h.callbacks.trans ?_
    rcases hcalm.state with hs | ⟨hs, hs'⟩
    · rw [hs]
    · rw [hs, hs']
      rfl
  · rw [mem_append_conn (f := .connectDestroyed) (fun _ => nofun)]
    exact (h.held hmap).2

/-- The functor at the head is taken from the queue of an established connection. -/
theorem pop (h : LifeInv sameLoop s) {f : IoFunctor} {queue : List IoFunctor}
    (hqueue : s.queue = f :: queue) (hstate : s.conn.state ≠ .kConnecting) :
    LifeInv sameLoop { s with queue } := by
  have hsub : ∀ g, g ∈ queue → g ∈ s.queue := fun g hg => by
    rw [hqueue]
    exact List.mem_cons_of_mem _ hg
  exact
    { h with
      connecting := fun hc => absurd hc hstate
      established := fun hc hmem => h.established hc (hsub _ hmem)
      queued := fun g hg => h.queued g (hsub _ hg)
      held := fun hmap => ⟨(h.held hmap).1, fun hmem => (h.held hmap).2 (hsub _ hmem)⟩ }

/-! ### Closing -/

/-- An open connection has been closed and the user told so. -/
theorem close (h : LifeInv sameLoop s)
    (hopen : s.conn.state = .kConnected ∨ s.conn.state = .kDisconnecting) {channel : Channel}
    (hnone : channel.isNoneEvent = true) {evs : List Event}
    (hevs : evs.filterMap Event.callbackState = [.kDisconnected]) :
    LifeInv sameLoop { s with
      conn := { s.conn with state := .kDisconnected, channel }, trace := s.trace ++ evs } := by
  have hnot : s.conn.state ≠ .kDisconnected ∧ s.conn.state ≠ .kConnecting := by
    rcases hopen with hs | hs <;> rw [hs] <;> decide
  have hexpected : s.conn.state.expectedCallbacks = [.kConnected] := by
    rcases hopen with hs | hs <;> rw [hs] <;> rfl
  refine
    { connecting := fun hc => nomatch hc
      established := fun _ => h.established hnot.2
      queued := h.queued
      isReading := fun hc => by rcases hc with hc | hc <;> cases hc
      isNoneEvent := fun _ => hnone
      callbacks := ?_
      owned := fun _ _ => rfl
      held := h.held
      removal := fun halive hq => absurd (h.removal halive hq).2 hnot.1 }
  show (s.trace ++ evs).filterMap _ = _
  have hcb : s.trace.filterMap Event.callbackState = [.kConnected] := h.callbacks.trans hexpected
  rw [List.filterMap_append, hcb, hevs]
  rfl

/-- `removeConnectionInLoop` of a closed connection that the server still holds. -/
theorem removeConnectionInLoop_sat (h : LifeInv sameLoop s) (hmap : s.inMap = true)
    (hstate : s.conn.state = .kDisconnected) :
    s.removeConnectionInLoop.Sat (LifeInv sameLoop) := by
  refine Checked.Sat.assert (if_pos hmap) (.ok ?_)
  exact
    { h with
      connecting := fun hc => by rw [hstate] at hc; cases hc
      established := fun hc hin => h.established hc (mem_of_mem_append_destroyed hin nofun)
      queued := fun f hf => h.queued f (mem_of_mem_append_destroyed hf nofun)
      owned := fun _ _ => hstate
      held := nofun
      removal := nofun }

/-- `removeConnection` of a closed connection, which a live server still holds. -/
theorem removeConnection_sat (h : LifeInv sameLoop s) (hstate : s.conn.state = .kDisconnected)
    (hmap : s.serverAlive = true → s.inMap = true) :
    (s.removeConnection sameLoop).Sat (LifeInv sameLoop) := by
  unfold Life.removeConnection
  split
  · exact .ok h
  · next halive =>
    have hmap' := hmap (by simpa using halive)
    split
    · exact h.removeConnectionInLoop_sat hmap' hstate
    · exact .ok { h with removal := fun _ _ => ⟨hmap', hstate⟩ }

/-- `handleClose` of an open connection. -/
theorem after_handleClose (h : LifeInv sameLoop s)
    (hopen : s.conn.state = .kConnected ∨ s.conn.state = .kDisconnecting)
    {callback : List UserCall} (hcalls : ∀ call ∈ callback, LifeCall call) :
    (s.conn.handleClose callback >>= s.after sameLoop).Sat (LifeInv sameLoop) := by
  rw [handleClose_eq hcalls hopen, Checked.ok_bind]
  have hevs : [Event.connectionCallback .kDisconnected, .closeCallback].filterMap Event.callbackState
      = [.kDisconnected] := rfl
  have hclosed := h.close hopen (Channel.isNoneEvent_disableAll s.conn.channel) hevs
  have hmap : s.serverAlive = true → s.inMap = true := by
    intro halive
    -- a live server gives up closed connections only, and this one is open
    by_contra hmap
    have hd := h.owned halive (by simpa using hmap)
    rw [hd] at hopen
    rcases hopen with hs | hs <;> cases hs
  -- `connectionCallback_` touches neither the loop nor the server, `closeCallback_` removes
  exact (hclosed.removeConnection_sat rfl hmap).bind fun t ht => .ok ht

/-- `handleClose` after the functor that calls it has been taken from the queue, or not. -/
theorem after_forceCloseInLoop (h : LifeInv sameLoop s) (hstate : s.conn.state ≠ .kConnecting)
    {callback : List UserCall} (hcalls : ∀ call ∈ callback, LifeCall call) :
    (s.conn.forceCloseInLoop callback >>= s.after sameLoop).Sat (LifeInv sameLoop) := by
  unfold forceCloseInLoop
  split
  · next hopen => exact h.after_handleClose hopen hcalls
  · exact h.after_calm hstate (.refl s.conn)

/-! ### Establishing -/

/-- `connectEstablished` of a new connection, whose functor is not in the queue any more. -/
theorem after_connectEstablished (hstate : s.conn.state = .kConnecting)
    (hqueue : .connectEstablished ∉ s.queue)
    (hqueued : ∀ f, .conn f ∈ s.queue → (Event.queued f).isQuiet = true)
    (hcallbacks : s.callbacks = [])
    (howned : s.serverAlive = true → s.inMap = true ∧ s.removalQueued = false)
    (hheld : s.inMap = true → s.serverAlive = true ∧ .connectDestroyed ∉ s.queue)
    {callback : List UserCall} (hcalls : ∀ call ∈ callback, LifeCall call) :
    (s.conn.connectEstablished callback >>= s.after sameLoop).Sat (LifeInv sameLoop) := by
  -- the state in which the user hears of the connection
  let up : Life := { s with
    conn := { s.conn with state := .kConnected, channel := s.conn.channel.enableReading }
    trace := s.trace ++ [.connectionCallback .kConnected] }
  have hup : LifeInv sameLoop up :=
    { connecting := nofun
      established := fun _ => hqueue
      queued := hqueued
      isReading := fun _ => Channel.isReading_enableReading _
      isNoneEvent := fun hc => by rcases hc with hc | hc <;> cases hc
      callbacks := by
        show (s.trace ++ _).filterMap _ = _
        have hcb : s.trace.filterMap Event.callbackState = [] := hcallbacks
        rw [List.filterMap_append, hcb]
        rfl
      owned := fun halive hmap => by
        rw [(howned halive).1] at hmap
        cases hmap
      held := hheld
      removal := fun halive hq => by
        rw [(howned halive).2] at hq
        cases hq }
  refine (connectEstablished_sat hcalls hstate).bind ?_
  rintro ⟨conn, -⟩ ⟨evs, rfl, hcalm⟩
  obtain ⟨t, ht, hinv⟩ := hup.after_calm (r := (conn, evs)) nofun hcalm
  refine ⟨t, ?_, hinv⟩
  rw [← ht]
  show Life.absorbAll sameLoop { s with conn, trace := s.trace ++ _ :: evs } evs
    = Life.absorbAll sameLoop { s with conn, trace := s.trace ++ [_] ++ evs } evs
  rw [List.append_cons]

/-- The functor of `connectEstablished` finds the connection as it needs it. -/
theorem runFunctor_connectEstablished (h : LifeInv sameLoop s) {queue : List IoFunctor}
    (hqueue : s.queue = .connectEstablished :: queue)
    {callback : List UserCall} (hcalls : ∀ call ∈ callback, LifeCall call) :
    (s.conn.connectEstablished callback >>= Life.after sameLoop { s with queue }).Sat
      (LifeInv sameLoop) := by
  have hstate : s.conn.state = .kConnecting := by
    by_contra hne -- otherwise the functor would have run already
    refine h.established hne ?_
    rw [hqueue]
    exact List.mem_cons_self ..
  obtain ⟨-, queue', hqueue', hnot⟩ := h.connecting hstate
  obtain rfl : queue = queue' := by
    rw [hqueue] at hqueue'
    exact (List.cons.inj hqueue').2
  have hsub : ∀ g, g ∈ queue → g ∈ s.queue := fun g hg => by
    rw [hqueue]
    exact List.mem_cons_of_mem _ hg
  have hcallbacks : s.callbacks = [] := by
    rw [h.callbacks, hstate]
    rfl
  have hopen : s.conn.state ≠ .kDisconnected := by
    rw [hstate]
    decide
  refine after_connectEstablished (s := { s with queue }) hstate hnot
    (fun f hf => h.queued f (hsub _ hf)) hcallbacks (fun halive => ⟨?_, ?_⟩)
    (fun hmap => ⟨(h.held hmap).1, fun hmem => (h.held hmap).2 (hsub _ hmem)⟩) hcalls
  · by_contra hmap
    exact hopen (h.owned halive (by simpa using hmap))
  · by_contra hq
    exact hopen (h.removal halive (by simpa using hq)).2

/-! ### Destroying -/

/-- `connectDestroyed` of a connection that is open or closed ends clean. -/
theorem after_connectDestroyed (h : LifeInv sameLoop s)
    (hstate : s.conn.state = .kConnected ∨ s.conn.state = .kDisconnected)
    {callback : List UserCall} (hcalls : ∀ call ∈ callback, LifeCall call) :
    (s.conn.connectDestroyed callback >>= s.after sameLoop).Sat
      fun t => LifeInv sameLoop t ∧ t.CleanEnd := by
  rcases hstate with hs | hs
  · rw [connectDestroyed_connected hcalls hs, Checked.ok_bind]
    have hevs : [Event.connectionCallback .kDisconnected].filterMap Event.callbackState
        = [.kDisconnected] := rfl
    have hnone : ({ s.conn.channel.disableAll with addedToLoop := false } : Channel).isNoneEvent
        = true := rfl
    have hclosed := h.close (.inl hs) hnone hevs
    exact .ok ⟨hclosed, hnone, rfl, hclosed.callbacks⟩
  · have hne : s.conn.state ≠ .kConnected := by
      rw [hs]
      decide
    have hnone : s.conn.channel.isNoneEvent = true := h.isNoneEvent (.inr hs)
    rw [connectDestroyed_other hne, Channel.remove, assert_pos hnone]
    have htrace : s.trace ++ [] = s.trace := List.append_nil _
    have hcallbacks : s.callbacks = [.kConnected, .kDisconnected] := by
      rw [h.callbacks, hs]
      rfl
    refine .ok ⟨?_, hnone, hs, by rwa [Life.callbacks, htrace]⟩
    exact
      { h with
        isReading := h.isReading
        isNoneEvent := fun _ => hnone
        callbacks := by
          rw [Life.callbacks, htrace]
          exact h.callbacks }

/-- `connectDestroyed` of a connection that is closing fails the assertion of `Channel::remove`. -/
theorem connectDestroyed_disconnecting (h : LifeInv sameLoop s)
    (hstate : s.conn.state = .kDisconnecting) (callback : List UserCall) :
    s.conn.connectDestroyed callback = .error "isNoneEvent()" := by
  have hne : s.conn.state ≠ .kConnected := by
    rw [hstate]
    decide
  -- `shutdown()` only half-closes, and the channel still watches for input
  have hwatched := Channel.isNoneEvent_of_isReading _ (h.isReading (.inr hstate))
  rw [connectDestroyed_other hne, Channel.remove, assert_neg (by simp [hwatched])]
  rfl

/-- The server may go away. -/
theorem serverGone (h : LifeInv sameLoop s) :
    LifeInv sameLoop { s with serverAlive := false, inMap := false } :=
  { h with
    connecting := h.connecting
    established := h.established
    queued := h.queued
    isReading := h.isReading
    isNoneEvent := h.isNoneEvent
    callbacks := h.callbacks
    owned := nofun
    held := nofun
    removal := nofun }

/-- The functor of `connectDestroyed` joins the queue of a connection without a server. -/
theorem queueDestroyed (h : LifeInv sameLoop s) (hmap : s.inMap = false) :
    LifeInv sameLoop { s with queue := s.queue ++ [.connectDestroyed] } := by
  refine
    { h with
      connecting := fun hc => ?_
      established := fun hc hin => h.established hc (mem_of_mem_append_destroyed hin nofun)
      queued := fun f hf => h.queued f (mem_of_mem_append_destroyed hf nofun)
      held := fun hc => by rw [hmap] at hc; cases hc }
  obtain ⟨hloop, queue, hqueue, hnot⟩ := h.connecting hc
  refine ⟨hloop, queue ++ [.connectDestroyed], ?_, fun hin => ?_⟩
  · rw [hqueue]
    rfl
  · exact hnot (mem_of_mem_append_destroyed hin nofun)

/-! ### Every step -/

/-- An established connection runs a functor of its own. -/
theorem runFunctor_conn (h : LifeInv sameLoop s) (hstate : s.conn.state ≠ .kConnecting) {f : Functor}
    (hf : (Event.queued f).isQuiet = true) {callback : List UserCall}
    (hcalls : ∀ call ∈ callback, LifeCall call) (res : WriteResult) :
    (s.conn.runFunctor callback res f >>= s.after sameLoop).Sat (LifeInv sameLoop) := by
  by_cases hclose : f = .forceCloseInLoop
  · subst hclose
    exact h.after_forceCloseInLoop hstate hcalls
  · exact (runFunctor_calm s.conn hf hclose hcalls res).bind fun r hr => h.after_calm hstate hr

/-- Only an open connection watches anything. -/
theorem open_of_watched (h : LifeInv sameLoop s) (hwatched : s.conn.channel.isNoneEvent = false) :
    s.conn.state = .kConnected ∨ s.conn.state = .kDisconnecting := by
  cases hs : s.conn.state with
  | kConnected => exact .inl rfl
  | kDisconnecting => exact .inr rfl
  | kConnecting =>
      rw [h.isNoneEvent (.inl hs)] at hwatched
      cases hwatched
  | kDisconnected =>
      rw [h.isNoneEvent (.inr hs)] at hwatched
      cases hwatched

/-- `handleRead` of an open connection. -/
theorem after_handleRead (h : LifeInv sameLoop s)
    (hopen : s.conn.state = .kConnected ∨ s.conn.state = .kDisconnecting)
    (res : Buffer.ReadResult) {callback : List UserCall}
    (hcalls : ∀ call ∈ callback, LifeCall call) (unread : ByteQueue → ByteQueue) :
    (s.conn.handleRead res callback unread >>= s.after sameLoop).Sat (LifeInv sameLoop) := by
  have hstate : s.conn.state ≠ .kConnecting := by
    rcases hopen with hs | hs <;> rw [hs] <;> decide
  match res with
  | .ok [] => exact h.after_handleClose hopen hcalls
  | .error _ => exact h.after_calm hstate (.refl s.conn)
  | .ok (b :: data) =>
      exact (handleRead_calm s.conn b data hcalls unread).bind fun r hr => h.after_calm hstate hr

/-- A call of user code, before the connection is established, while it is open, or after. -/
theorem after_call (h : LifeInv sameLoop s) (inLoop : Bool) {call : UserCall}
    (hcall : LifeCall call) :
    (s.conn.call inLoop call >>= s.after sameLoop).Sat (LifeInv sameLoop) := by
  by_cases hstate : s.conn.state = .kConnecting
  · rw [call_idle inLoop hcall (.inl hstate), Checked.ok_bind]
    refine .ok { h with callbacks := ?_ }
    rw [Life.callbacks, List.append_nil]
    exact h.callbacks
  · exact (call_calm s.conn inLoop hcall).bind fun r hr => h.after_calm hstate hr

/-- While a connection is not established, nothing but `connectEstablished` heads the queue. -/
theorem not_connecting_of_head (h : LifeInv sameLoop s) {f : IoFunctor} {queue : List IoFunctor}
    (hqueue : s.queue = f :: queue) (hf : f ≠ .connectEstablished) :
    s.conn.state ≠ .kConnecting := by
  intro hc
  obtain ⟨-, queue', hqueue', -⟩ := h.connecting hc
  rw [hqueue] at hqueue'
  exact hf (List.cons.inj hqueue').1

/-- A step that runs `connectDestroyed` ends clean, unless the connection is closing. -/
theorem destroys_sat (h : LifeInv sameLoop s) {a : LifeStep} (ha : s.Enabled a)
    (hd : s.Destroys sameLoop a) (hstate : s.conn.state ≠ .kDisconnecting) :
    (s.exec sameLoop a).Sat fun t => LifeInv sameLoop t ∧ t.CleanEnd := by
  have hends : s.conn.state ≠ .kConnecting →
      s.conn.state = .kConnected ∨ s.conn.state = .kDisconnected := by
    intro hc
    cases hs : s.conn.state with
    | kConnected => exact .inl rfl
    | kDisconnected => exact .inr rfl
    | kConnecting => exact absurd hs hc
    | kDisconnecting => exact absurd hs hstate
  cases a with
  | runFunctor callback res =>
      obtain ⟨queue, hqueue⟩ : ∃ queue, s.queue = .connectDestroyed :: queue :=
        List.head?_eq_some_iff.mp hd
      have hc := h.not_connecting_of_head hqueue nofun
      simp only [Life.exec, hqueue]
      exact (h.pop hqueue hc).after_connectDestroyed (hends hc) ha
  | destroyServer callback =>
      have hc : s.conn.state ≠ .kConnecting := fun hc => by
        rw [hd.2] at h
        cases (h.connecting hc).1
      simp only [Life.exec, hd.1, hd.2, if_true]
      rw [hd.2] at h
      exact h.serverGone.after_connectDestroyed (hends hc) ha.2
  | _ => exact hd.elim

/-- A step that runs `connectDestroyed` while the connection is closing fails. -/
theorem destroys_error (h : LifeInv sameLoop s) {a : LifeStep} (hd : s.Destroys sameLoop a)
    (hstate : s.conn.state = .kDisconnecting) :
    s.exec sameLoop a = .error "isNoneEvent()" := by
  cases a with
  | runFunctor callback res =>
      obtain ⟨queue, hqueue⟩ : ∃ queue, s.queue = .connectDestroyed :: queue :=
        List.head?_eq_some_iff.mp hd
      simp only [Life.exec, hqueue, h.connectDestroyed_disconnecting hstate, Checked.error_bind]
  | destroyServer callback =>
      simp only [Life.exec, hd.1, hd.2, if_true, h.connectDestroyed_disconnecting hstate,
        Checked.error_bind]
  | _ => exact hd.elim

/-- Every other step passes its assertions and keeps the invariant. -/
theorem step_sat (h : LifeInv sameLoop s) {a : LifeStep} (ha : s.Enabled a)
    (hd : ¬ s.Destroys sameLoop a) : (s.exec sameLoop a).Sat (LifeInv sameLoop) := by
  cases a with
  | runFunctor callback res =>
      unfold Life.exec
      match hqueue : s.queue with
      | [] => exact .ok h
      | .connectEstablished :: queue => exact h.runFunctor_connectEstablished hqueue ha
      | .conn f :: queue =>
          have hc := h.not_connecting_of_head hqueue nofun
          have hf : (Event.queued f).isQuiet = true := h.queued f (by rw [hqueue]; exact .head _)
          exact (h.pop hqueue hc).runFunctor_conn hc hf ha res
      -- this one is `destroys_sat`
      | .connectDestroyed :: queue => exact absurd (List.head?_eq_some_iff.mpr ⟨queue, hqueue⟩) hd
  | handleRead res callback unread =>
      exact h.after_handleRead (h.open_of_watched ha.1) res ha.2 unread
  | handleWrite res =>
      have hopen := h.open_of_watched ha.1
      have hne : s.conn.state ≠ .kDisconnected ∧ s.conn.state ≠ .kConnecting := by
        rcases hopen with hs | hs <;> rw [hs] <;> decide
      exact (handleWrite_calm s.conn hne.1 ha.2).bind fun r hr => h.after_calm hne.2 hr
  | handleClose callback => exact h.after_handleClose (h.open_of_watched ha.1) ha.2
  | userCall inLoop call => exact h.after_call inLoop ha
  | delayedClose =>
      -- the timer is gone, and what it does is a call like that of user code
      have htimer : LifeInv sameLoop { s with delayedCloses := s.delayedCloses - 1 } := { h with }
      have hcall : LifeCall .forceClose := trivial
      exact htimer.after_call true hcall
  | removeConnectionInLoop =>
      obtain ⟨hmap, hstate⟩ := h.removal ha.1 ha.2
      exact h.removeConnectionInLoop_sat hmap hstate
  | destroyServer callback =>
      unfold Life.exec
      dsimp only
      split
      · next hmap =>
          split
          · next hloop => exact absurd ⟨hmap, hloop⟩ hd
          · exact .ok (h.serverGone.queueDestroyed rfl)
      · exact .ok h.serverGone

/-- The invariant holds at the start. -/
theorem of_init (hs : (serverConnection sameLoop).init s) : LifeInv sameLoop s := by
  obtain ⟨writeComplete, highWaterMark, hs⟩ := hs
  cases sameLoop with
  | true =>
      obtain ⟨callback, r, hcalls, hr, hafter⟩ := hs
      refine (after_connectEstablished (s := Life.start writeComplete highWaterMark) rfl
        List.not_mem_nil (fun _ => nofun) rfl (fun _ => ⟨rfl, rfl⟩)
        (fun _ => ⟨rfl, List.not_mem_nil⟩) hcalls).of_eq_ok ?_
      rw [hr]
      exact hafter
  | false =>
      obtain rfl := hs
      exact
        { connecting := fun _ => ⟨rfl, [], rfl, List.not_mem_nil⟩
          established := fun hc => absurd rfl hc
          queued := by simp
          isReading := fun hc => by rcases hc with hc | hc <;> cases hc
          isNoneEvent := fun _ => rfl
          callbacks := rfl
          owned := nofun
          held := fun _ => ⟨rfl, by simp⟩
          removal := nofun }

/-- The invariant holds in every reachable state. -/
theorem of_reachable (hs : (serverConnection sameLoop).Reachable s) : LifeInv sameLoop s := by
  refine hs.induction (fun _ => of_init) fun s a t h ha ht => ?_
  -- a step that ran `connectDestroyed` and returned did not find the connection closing
  by_cases hd : s.Destroys sameLoop a
  · by_cases hstate : s.conn.state = .kDisconnecting
    · have herror : s.exec sameLoop a = .ok t := ht
      rw [h.destroys_error hd hstate] at herror
      cases herror
    · exact ((h.destroys_sat ha hd hstate).of_eq_ok ht).1
  · exact (h.step_sat ha hd).of_eq_ok ht

end LifeInv

/-- As long as the server lives, only a connection that is closed is on its way to
`connectDestroyed`. -/
theorem removeConnection_disconnected {sameLoop : Bool} {s : Life}
    (hs : (serverConnection sameLoop).Reachable s) (halive : s.serverAlive = true)
    (hqueue : .connectDestroyed ∈ s.queue) : s.conn.state = .kDisconnected := by
  have h := LifeInv.of_reachable hs
  refine h.owned halive ?_
  by_contra hmap
  exact (h.held (by simpa using hmap)).2 hqueue

/-- **When a connection ends clean.** Whatever happened before, a step that runs `connectDestroyed`
passes every assertion and leaves the channel unwatched, the connection disconnected and the user told
once that it was up and once that it is down, exactly when the connection is not closing. -/
theorem connectDestroyed_clean_iff {sameLoop : Bool} {s : Life} {a : LifeStep}
    (hs : (serverConnection sameLoop).Reachable s) (ha : s.Enabled a)
    (hd : s.Destroys sameLoop a) :
    (s.exec sameLoop a).Sat Life.CleanEnd ↔ s.conn.state ≠ .kDisconnecting := by
  have h := LifeInv.of_reachable hs
  constructor
  · intro hsat hstate
    rw [h.destroys_error hd hstate] at hsat
    exact Checked.not_sat_error hsat
  · intro hstate
    exact (h.destroys_sat ha hd hstate).mono fun t ht => ht.2

/-- A connection in the server's own loop, just established. -/
def Life.established : Life :=
  { Life.start false false with
    conn := { TcpConnection.new false false with
      state := .kConnected, channel := Channel.new.enableReading }
    trace := [.connectionCallback .kConnected] }

/-- An established connection may start a run. -/
theorem established_init : (serverConnection true).init Life.established :=
  ⟨false, false, [], (Life.established.conn, Life.established.trace), nofun, rfl, rfl⟩

/-- An established connection ends clean when its server is destroyed. -/
theorem connectDestroyed_clean_established :
    (Life.established.exec true (.destroyServer [])).Sat Life.CleanEnd :=
  (connectDestroyed_clean_iff (a := .destroyServer []) (.of_init established_init) ⟨rfl, nofun⟩
    ⟨rfl, rfl⟩).mpr (by decide)

/-- The server is destroyed after `shutdown()` was called on an established connection, and the
assertion of `Channel::remove` fails. -/
theorem connectDestroyed_after_shutdown_fails :
    ∃ s, (serverConnection true).init Life.established ∧
      (serverConnection true).Run Life.established [.userCall true .shutdown] s ∧
      s.Enabled (.destroyServer []) ∧ s.Destroys true (.destroyServer []) ∧
      s.exec true (.destroyServer []) = .error "isNoneEvent()" :=
  ⟨_, established_init, .snoc (.nil _) trivial rfl, ⟨rfl, nofun⟩, ⟨rfl, rfl⟩, rfl⟩

end Muduo.Net
