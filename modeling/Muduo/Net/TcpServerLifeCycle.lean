import Muduo.Net.TcpServer

/-! # The life of the connections of a server

Every connection goes through the stages accepted, established, closed, removed and destroyed, each
once, and its events are handled while it is established. A connection that is on its way from one loop
to another has exactly one functor on its way with it, `Stage.functor`: that is the invariant
`ServerInv` of the machine `tcpServer`. A step works on one connection, and `Focus` is the invariant
with that connection taken out and described on its own, so that the lemmas about the functions of the
server need not speak of the other connections. The main result is `tcpServer_lifeCycle`. -/

namespace Muduo.Net

open Support TcpConnection

/-! ## Names -/

namespace TcpServer

variable (server : TcpServer)

/-- An address and a port take at most 51 characters. -/
theorem length_ipPort_le : server.ipPort.length ≤ 51 := by
  have hip := server.ip_length
  have hport : (Nat.toDigits 10 server.port).length ≤ 5 := by
    refine (Nat.length_toDigits_le_iff (by decide) (by decide)).mpr ?_
    exact server.port.isLt.trans (by decide)
  rw [ipPort, List.length_append, List.length_cons]
  omega

/-- The 64 characters of the buffer are just enough for an `int`. -/
theorem connName_eq {n : Nat} (hn : n < 2 ^ 31) :
    server.connName n = server.name ++ ('-' :: server.ipPort ++ '#' :: Nat.toDigits 10 n) := by
  have hip := server.length_ipPort_le
  have hdigits : (Nat.toDigits 10 n).length ≤ 10 := by
    refine (Nat.length_toDigits_le_iff (by decide) (by decide)).mpr ?_
    exact hn.trans (by decide)
  rw [connName, List.take_of_length_le]
  simp only [List.length_append, List.length_cons]
  omega

/-- Different numbers give different names. -/
theorem connName_inj {m n : Nat} (hm : m < 2 ^ 31) (hn : n < 2 ^ 31)
    (h : server.connName m = server.connName n) : m = n := by
  rw [connName_eq server hm, connName_eq server hn] at h
  have htail := List.append_cancel_left (List.append_cancel_left h)
  have hdigits : Nat.toDigits 10 m = Nat.toDigits 10 n := (List.cons.inj htail).2
  calc
    m = Nat.ofDigitChars 10 (Nat.toDigits 10 m) 0 := Nat.ofDigitChars_ten_toDigits.symm
    _ = Nat.ofDigitChars 10 (Nat.toDigits 10 n) 0 := by rw [hdigits]
    _ = n := Nat.ofDigitChars_ten_toDigits

end TcpServer

/-! ## Stages -/

/-- How far a connection has come. -/
inductive Stage where
  | accepted
  | established
  | closed -- by `handleClose`
  | removed -- from `connections_`
  | destroyed
  deriving DecidableEq, Repr

namespace Stage

/-- What has been executed for a connection at this stage, with `k` events of its channel. -/
def history (k : Nat) : Stage → List Milestone
  | .accepted => []
  | .established => .connectEstablished :: List.replicate k .handleEvent
  | .closed => .connectEstablished :: List.replicate k .handleEvent ++ [.handleClose]
  | .removed =>
      .connectEstablished :: List.replicate k .handleEvent ++ [.handleClose, .removeConnectionInLoop]
  | .destroyed =>
      .connectEstablished :: List.replicate k .handleEvent ++
        [.handleClose, .removeConnectionInLoop, .connectDestroyed]

/-- The functor that brings a connection with the I/O loop `loop` on to its next stage, and the loop in
which it waits. An established connection goes on by an event, and a destroyed one not at all. -/
def functor (loop : LoopId) (id : Nat) : Stage → Option (LoopId × ServerFunctor)
  | .accepted => some (loop, .connectEstablished id)
  | .closed => some (.base, .removeConnectionInLoop id)
  | .removed => some (loop, .connectDestroyed id)
  | .established | .destroyed => none

/-- Whether `connections_` holds the connection. -/
def held : Stage → Bool
  | .accepted | .established | .closed => true
  | .removed | .destroyed => false

/-- How the object stands at this stage. -/
def Fits (c : TcpConnection) : Stage → Prop
  | .accepted => c.state = .kConnecting ∧ c.channel.isNoneEvent = true
  | .established => (c.state = .kConnected ∨ c.state = .kDisconnecting) ∧ c.channel.isReading = true
  | .closed | .removed | .destroyed => c.state = .kDisconnected ∧ c.channel.isNoneEvent = true

/-- The connection is at this stage. -/
def Of (stage : Stage) (c : ServedConnection) : Prop :=
  stage.Fits c.conn ∧ ∃ k, c.history = stage.history k

variable {stage : Stage}

/-- What is calm keeps the stage of a connection that is established. -/
theorem Fits.calm {c c' : TcpConnection} {evs : List Event} (h : stage.Fits c)
    (hne : stage ≠ .accepted) (hcalm : Calm c c' evs) : stage.Fits c' := by
  have hclosed (hd : c.state = .kDisconnected ∧ c.channel.isNoneEvent = true) :
      c'.state = .kDisconnected ∧ c'.channel.isNoneEvent = true := by
    rw [hcalm.closed hd.1]
    exact ⟨hcalm.state_closed hd.1, hd.2⟩
  cases stage with
  | accepted => exact absurd rfl hne
  | established =>
      refine ⟨?_, hcalm.reading.trans h.2⟩
      rcases hcalm.state with hs | ⟨-, hs⟩
      · rw [hs]
        exact h.1
      · exact .inr hs
  | closed | removed | destroyed => exact hclosed h

/-- Past `accepted` a connection is established or closed. -/
theorem Fits.established_or_closed {c : TcpConnection} (h : stage.Fits c) (hne : stage ≠ .accepted) :
    stage = .established ∨ (c.state = .kDisconnected ∧ c.channel.isNoneEvent = true) := by
  cases stage with
  | accepted => exact absurd rfl hne
  | established => exact .inl rfl
  | closed | removed | destroyed => exact .inr h

/-- Past `accepted` a connection has a history. -/
theorem history_ne_nil (hne : stage ≠ .accepted) (k : Nat) : stage.history k ≠ [] := by
  cases stage <;> simp_all [history]

/-- Only an established connection is watched. -/
theorem Fits.established_of_watched {c : TcpConnection} (h : stage.Fits c)
    (hwatched : c.channel.isNoneEvent = false) : stage = .established := by
  cases stage with
  | established => rfl
  | accepted | closed | removed | destroyed =>
      rw [h.2] at hwatched
      cases hwatched

end Stage

/-! ## Events -/

/-- The callbacks after which a connection may be closed. -/
def ChannelCallback.mayClose (cb : ChannelCallback) : Bool :=
  cb = .closeCallback || cb = .readCallback

/-- In one event at most one callback closes. -/
theorem IoResults.Admissible.countP_mayClose_le {io : IoResults} {revents : BitVec 32}
    (h : io.Admissible revents) :
    (Channel.handleEventWithGuard revents).countP ChannelCallback.mayClose ≤ 1 := by
  unfold Channel.handleEventWithGuard
  by_cases hclose : revents &&& POLLHUP ≠ 0 ∧ revents &&& POLLIN = 0
  · have hin := h.hangUp hclose.1 hclose.2
    rw [if_pos hclose, hin, if_neg fun hne : (0 : BitVec 32) ≠ 0 => hne rfl]
    split <;> split <;> simp [ChannelCallback.mayClose]
  · rw [if_neg hclose]
    split <;> split <;> split <;> simp [ChannelCallback.mayClose]

/-! ## The invariant -/

namespace ServerFunctor

/-- The connection that a functor is about. -/
def id : ServerFunctor → Nat
  | .connectEstablished id | .conn id _ | .removeConnectionInLoop id | .connectDestroyed id => id

/-- The functor brings the connection `id` on to another stage. -/
def Moves (id : Nat) (m : ServerFunctor) : Prop :=
  m = .connectEstablished id ∨ m = .removeConnectionInLoop id ∨ m = .connectDestroyed id

/-- A functor that moves a connection has its number. -/
theorem Moves.id_eq {id : Nat} {m : ServerFunctor} (h : m.Moves id) : m.id = id := by
  rcases h with rfl | rfl | rfl <;> rfl

/-- A functor of the connection itself moves none. -/
theorem not_moves_conn (id id' : Nat) (f : Functor) : ¬ (conn id' f).Moves id := by
  simp [Moves]

end ServerFunctor

/-- What the queues and `connections_` hold for a connection: the functor `tok` that brings it on, other
functors only after it was established, and its name or not. -/
structure Pending (s : ServerState) (id : Nat) (c : ServedConnection)
    (tok : Option (LoopId × ServerFunctor)) (held : Bool) : Prop where
  sole : s.queues.Sole (ServerFunctor.Moves id) tok
  conn : ∀ loop f, .conn id f ∈ s.queues loop →
    loop = c.loop ∧ (Event.queued f).isQuiet = true ∧ c.history ≠ []
  lookup : s.connections.lookup c.name = if held then some id else none

/-- A connection between two steps. -/
def Rests (s : ServerState) (id : Nat) (c : ServedConnection) : Prop :=
  ∃ stage : Stage, stage.Of c ∧ Pending s id c (stage.functor c.loop id) stage.held

/-- What holds at any time of the server as a whole. -/
structure Consistent (server : TcpServer) (s : ServerState) : Prop where
  nextConnId : s.nextConnId = s.conns.length + 1
  accepts : s.conns.length < 2 ^ 31
  name : ∀ id c, s.conns[id]? = some c → c.name = server.connName (id + 1)
  queued : ∀ loop m, m ∈ s.queues loop → m.id < s.conns.length
  listed : ∀ name id, s.connections.lookup name = some id →
    ∃ c, s.conns[id]? = some c ∧ c.name = name

/-- What holds between any two steps. -/
structure ServerInv (server : TcpServer) (s : ServerState) : Prop extends Consistent server s where
  rests : ∀ id c, s.conns[id]? = some c → Rests s id c

/-- The connection `id` is in the hands of a function, and all others are as between two steps. -/
structure Focus (server : TcpServer) (s : ServerState) (id : Nat) (c : ServedConnection)
    (tok : Option (LoopId × ServerFunctor)) (held : Bool) : Prop extends Consistent server s where
  get : s.conns[id]? = some c
  others : ∀ id' c', id' ≠ id → s.conns[id']? = some c' → Rests s id' c'
  pending : Pending s id c tok held

/-- The connection `id` is at a stage, and all is as between two steps. -/
def At (server : TcpServer) (s : ServerState) (id : Nat) (stage : Stage) : Prop :=
  ∃ c, stage.Of c ∧ Focus server s id c (stage.functor c.loop id) stage.held

/-- The connection `id` was established, and may be closed by now. -/
def WasEstablished (server : TcpServer) (s : ServerState) (id : Nat) : Prop :=
  ∃ stage, stage ≠ .accepted ∧ At server s id stage

variable {server : TcpServer} {s : ServerState} {id : Nat} {c : ServedConnection}
  {tok : Option (LoopId × ServerFunctor)} {held : Bool} {loop : LoopId}

/-- A stage comes with the invariant. -/
theorem At.serverInv {stage : Stage} (h : At server s id stage) : ServerInv server s := by
  obtain ⟨c, hof, hfocus⟩ := h
  refine { hfocus.toConsistent with rests := fun id' c' hget => ?_ }
  by_cases hid : id' = id
  · subst hid
    obtain rfl : c = c' := Option.some.inj (hfocus.get.symm.trans hget)
    exact ⟨stage, hof, hfocus.pending⟩
  · exact hfocus.others id' c' hid hget

/-- Having been established comes with the invariant. -/
theorem WasEstablished.serverInv (h : WasEstablished server s id) : ServerInv server s := by
  obtain ⟨stage, -, hat⟩ := h
  exact hat.serverInv

/-- Any connection can be taken out. -/
theorem ServerInv.at_of_get (h : ServerInv server s) (hget : s.conns[id]? = some c) :
    ∃ stage : Stage, stage.Of c ∧ Focus server s id c (stage.functor c.loop id) stage.held := by
  obtain ⟨stage, hof, hpending⟩ := h.rests id c hget
  refine ⟨stage, hof, { h.toConsistent with get := hget, others := ?_, pending := hpending }⟩
  exact fun id' c' _ => h.rests id' c'

/-! ### Frames

What is done for one connection does not matter for the others. -/

section Frames

variable {t : ServerState} {m : ServerFunctor} {rest : List ServerFunctor}

/-- A connection rests as well where no less is pending for it. -/
theorem Rests.imp (h : Rests s id c)
    (himp : ∀ tok held, Pending s id c tok held → Pending t id c tok held) : Rests t id c := by
  obtain ⟨stage, hof, hpending⟩ := h
  exact ⟨stage, hof, himp _ _ hpending⟩

/-- A functor of another connection is queued. -/
theorem Pending.queueInLoop_other (h : Pending s id c tok held) (hm : m.id ≠ id) :
    Pending (s.queueInLoop loop m) id c tok held := by
  refine { h with sole := h.sole.post_other ?_, conn := fun loop' f hmem => ?_ }
  · exact fun hmoves => hm hmoves.id_eq
  rcases Mailboxes.mem_post.mp hmem with hmem | ⟨-, rfl⟩
  · exact h.conn loop' f hmem
  · exact absurd rfl hm

/-- A functor that does not move the connection is taken out. -/
theorem Pending.pop_other (h : Pending s id c tok held) (hq : s.queues loop = m :: rest)
    (hm : ¬ m.Moves id) : Pending { s with queues := s.queues.pop loop } id c tok held :=
  { h with
    sole := h.sole.pop_other hq hm
    conn := fun loop' f hmem => h.conn loop' f (Mailboxes.mem_of_mem_pop hmem) }

/-- Another connection leaves the map. -/
theorem Pending.erase_other (h : Pending s id c tok held) {name : List Char} (hname : c.name ≠ name) :
    Pending { s with connections := s.connections.erase name } id c tok held :=
  { h with lookup := (Finmap.lookup_erase_ne hname).trans h.lookup }

/-- Another connection enters the map. -/
theorem Pending.insert_other (h : Pending s id c tok held) {name : List Char} {id' : Nat}
    (hname : c.name ≠ name) :
    Pending { s with connections := s.connections.insert name id' } id c tok held :=
  { h with lookup := (Finmap.lookup_insert_of_ne _ hname).trans h.lookup }

end Frames

/-! ### Working on one connection -/

/-- A noted history is not empty. -/
theorem ServedConnection.history_note_ne_nil (c : ServedConnection) (m : Milestone) :
    (c.note m).history ≠ [] := by
  simp [ServedConnection.note]

/-- A connection that is there is found. -/
theorem ServerState.get_eq (h : s.conns[id]? = some c) : s.get id = .ok c := by
  rw [ServerState.get, h]

/-- A connection that is there has a number below the next. -/
theorem ServerState.id_lt_of_get (h : s.conns[id]? = some c) : id < s.conns.length :=
  (List.getElem?_eq_some_iff.mp h).1

/-- Connections are told apart by their names. -/
theorem Consistent.id_eq_of_name (h : Consistent server s) {id' : Nat} {c' : ServedConnection}
    (hget : s.conns[id]? = some c) (hget' : s.conns[id']? = some c') (hname : c.name = c'.name) :
    id = id' := by
  have haccepts := h.accepts
  have hid := ServerState.id_lt_of_get hget
  have hid' := ServerState.id_lt_of_get hget'
  rw [h.name id c hget, h.name id' c' hget'] at hname
  exact Nat.succ.inj (server.connName_inj (by omega) (by omega) hname)

namespace Focus

/-- The object changes. -/
theorem update (h : Focus server s id c tok held) {f : ServedConnection → ServedConnection}
    (hname : (f c).name = c.name) (hloop : (f c).loop = c.loop)
    (hhistory : c.history ≠ [] → (f c).history ≠ []) :
    Focus server (s.update id f) id (f c) tok held := by
  have hlength : (s.update id f).conns.length = s.conns.length := List.length_modify ..
  have hself : (s.update id f).conns[id]? = some (f c) := by
    rw [ServerState.update, List.getElem?_modify_eq, h.get]
    rfl
  have hne : ∀ id', id' ≠ id → (s.update id f).conns[id']? = s.conns[id']? := fun id' hid =>
    List.getElem?_modify_ne _ _ hid.symm
  refine
    { nextConnId := by rw [hlength]; exact h.nextConnId
      accepts := by rw [hlength]; exact h.accepts
      name := fun id' c' hget => ?_
      queued := fun loop m hm => by rw [hlength]; exact h.queued loop m hm
      listed := fun name id' hlookup => ?_
      get := hself
      others := fun id' c' hid hget => ?_
      pending :=
        { sole := h.pending.sole
          conn := fun loop g hg => ?_
          lookup := by rw [hname]; exact h.pending.lookup } }
  · by_cases hid : id' = id
    · subst hid
      obtain rfl : f c = c' := Option.some.inj (hself.symm.trans hget)
      exact hname.trans (h.name id' c h.get)
    · rw [hne id' hid] at hget
      exact h.name id' c' hget
  · obtain ⟨c', hget, hc'⟩ := h.listed name id' hlookup
    by_cases hid : id' = id
    · subst hid
      obtain rfl : c = c' := Option.some.inj (h.get.symm.trans hget)
      exact ⟨f c, hself, hname.trans hc'⟩
    · exact ⟨c', (hne id' hid).trans hget, hc'⟩
  · rw [hne id' hid] at hget
    exact (h.others id' c' hid hget).imp fun _ _ hp => ⟨hp.sole, hp.conn, hp.lookup⟩
  · obtain ⟨hg, hquiet, hnil⟩ := h.pending.conn loop g hg
    exact ⟨hg.trans hloop.symm, hquiet, hhistory hnil⟩

/-- A functor about the connection joins a queue. -/
theorem queueInLoop (h : Focus server s id c tok held) {m : ServerFunctor} (hm : m.id = id)
    {tok' : Option (LoopId × ServerFunctor)} (hpending : Pending (s.queueInLoop loop m) id c tok' held) :
    Focus server (s.queueInLoop loop m) id c tok' held := by
  refine { h with
    queued := fun loop' m' hmem => ?_
    others := fun id' c' hid hget => ?_
    pending := hpending }
  · rcases Mailboxes.mem_post.mp hmem with hmem | ⟨-, rfl⟩
    · exact h.queued loop' m' hmem
    · rw [hm]
      exact ServerState.id_lt_of_get h.get
  · refine (h.others id' c' hid hget).imp fun _ _ hp => hp.queueInLoop_other ?_
    rw [hm]
    exact hid.symm

/-- A quiet functor of the connection is queued. -/
theorem queueInLoop_conn (h : Focus server s id c tok held) {f : Functor}
    (hquiet : (Event.queued f).isQuiet = true) (hhistory : c.history ≠ []) :
    Focus server (s.queueInLoop c.loop (.conn id f)) id c tok held := by
  refine h.queueInLoop rfl ?_
  refine { h.pending with
    sole := h.pending.sole.post_other (ServerFunctor.not_moves_conn id id f)
    conn := fun loop g hg => ?_ }
  rcases Mailboxes.mem_post.mp hg with hg | ⟨hloop, heq⟩
  · exact h.pending.conn loop g hg
  · cases heq
    exact ⟨hloop, hquiet, hhistory⟩

/-- The functor that moves the connection is queued. -/
theorem queueInLoop_moves (h : Focus server s id c none held) {m : ServerFunctor} (hm : m.Moves id) :
    Focus server (s.queueInLoop loop m) id c (some (loop, m)) held := by
  refine h.queueInLoop hm.id_eq ?_
  refine { h.pending with sole := h.pending.sole.post, conn := fun loop' g hg => ?_ }
  rcases Mailboxes.mem_post.mp hg with hg | ⟨-, rfl⟩
  · exact h.pending.conn loop' g hg
  · exact absurd hm (ServerFunctor.not_moves_conn id id g)

/-- A loop takes a functor about the connection from its queue. -/
theorem pop (h : Focus server s id c tok held) {m : ServerFunctor} {rest : List ServerFunctor}
    (hq : s.queues loop = m :: rest) (hm : m.id = id) {tok' : Option (LoopId × ServerFunctor)}
    (hsole : (s.queues.pop loop).Sole (ServerFunctor.Moves id) tok') :
    Focus server { s with queues := s.queues.pop loop } id c tok' held := by
  refine { h with
    queued := fun loop' m' hmem => h.queued loop' m' (Mailboxes.mem_of_mem_pop hmem)
    others := fun id' c' hid hget => ?_
    pending := { h.pending with
      sole := hsole
      conn := fun loop' g hg => h.pending.conn loop' g (Mailboxes.mem_of_mem_pop hg) } }
  refine (h.others id' c' hid hget).imp fun _ _ hp => hp.pop_other hq fun hmoves => hid ?_
  exact hmoves.id_eq.symm.trans hm

/-- A loop takes the functor that brings the connection on. -/
theorem pop_moves (h : Focus server s id c tok held) {m : ServerFunctor} {rest : List ServerFunctor}
    (hq : s.queues loop = m :: rest) (hm : m.Moves id) :
    tok = some (loop, m) ∧ Focus server { s with queues := s.queues.pop loop } id c none held := by
  obtain ⟨htok, hsole⟩ := h.pending.sole.pop hq hm
  exact ⟨htok, h.pop hq hm.id_eq hsole⟩

/-- `connections_` forgets the connection. -/
theorem erase (h : Focus server s id c tok held) :
    Focus server { s with connections := s.connections.erase c.name } id c tok false := by
  refine { h with
    listed := fun name id' hlookup => ?_
    others := fun id' c' hid hget => ?_
    pending := { h.pending with lookup := Finmap.lookup_erase _ _ } }
  · by_cases hname : name = c.name
    · subst hname
      rw [Finmap.lookup_erase] at hlookup
      cases hlookup
    · rw [Finmap.lookup_erase_ne hname] at hlookup
      exact h.listed name id' hlookup
  · refine (h.others id' c' hid hget).imp fun _ _ hp => hp.erase_other fun hname => hid ?_
    exact h.id_eq_of_name hget h.get hname

/-- Quiet events queue functors of the connection, and do nothing else. -/
theorem absorb_quiet (h : Focus server s id c tok held) (hhistory : c.history ≠ [])
    {evs : List Event} (hevs : ∀ e ∈ evs, e.isQuiet = true) :
    (evs.foldlM (ServerState.absorb c.loop id) s).Sat
      fun t => Focus server t id c tok held := by
  refine Checked.Sat.foldlM (fun t e hmem ht => ?_) h
  have he := hevs e hmem
  cases e with
  | queued f => exact .ok (ht.queueInLoop_conn he hhistory)
  | closeCallback => cases he
  | _ => exact .ok ht

/-- The events of a quiet function are queued. -/
theorem after_quiet (h : Focus server s id c tok held) (hhistory : c.history ≠ []) {r : Outcome}
    (hevs : ∀ e ∈ r.2, e.isQuiet = true) :
    (s.after c.loop id r).Sat fun t => Focus server t id { c with conn := r.1 } tok held := by
  have hset : Focus server (s.update id fun c => { c with conn := r.1 }) id { c with conn := r.1 }
      tok held := h.update rfl rfl fun hne => hne
  exact hset.absorb_quiet hhistory hevs

/-- A milestone is noted. -/
theorem note (h : Focus server s id c tok held) (m : Milestone) :
    Focus server (s.update id (·.note m)) id (c.note m) tok held :=
  h.update rfl rfl fun _ => c.history_note_ne_nil m

/-- A call reaches the connection. -/
theorem call_eq (h : Focus server s id c tok held) (f : TcpConnection → Checked Outcome) :
    s.call id f = f c.conn >>= s.after c.loop id := by
  rw [ServerState.call, ServerState.get_eq h.get]
  rfl

/-! ### From stage to stage -/

/-- `connectEstablished` makes it established. -/
theorem connectEstablished (h : Focus server s id c none true) (hof : Stage.accepted.Of c)
    {callback : List UserCall} (hcalls : ∀ call ∈ callback, LifeCall call) :
    (s.connectEstablished c.loop id callback).Sat fun t => At server t id .established := by
  obtain ⟨⟨hstate, -⟩, k, hk⟩ := hof
  have hnoted := h.note .connectEstablished
  rw [ServerState.connectEstablished, ServerState.get_eq h.get, Checked.ok_bind, assert_pos rfl,
    Checked.ok_bind, hnoted.call_eq]
  refine (connectEstablished_sat hcalls hstate).bind ?_
  rintro ⟨conn, -⟩ ⟨evs, rfl, hcalm⟩
  -- the first event is the callback to the user, which is no matter of the server
  have hafter := hnoted.after_quiet (r := (conn, evs)) (c.history_note_ne_nil _) hcalm.quiet
  refine Checked.Sat.mono hafter fun t ht => ⟨_, ⟨?_, 0, ?_⟩, ht⟩
  · have hup : Stage.established.Fits
        { c.conn with state := .kConnected, channel := c.conn.channel.enableReading } :=
      ⟨.inl rfl, Channel.isReading_enableReading _⟩
    exact hup.calm (by decide) hcalm
  · show c.history ++ _ = _
    rw [hk]
    rfl

/-- `removeConnectionInLoop` finds the connection in `connections_`. -/
theorem removeConnectionInLoop (h : Focus server s id c none true) (hof : Stage.closed.Of c) :
    (s.removeConnectionInLoop .base id).Sat fun t => At server t id .removed := by
  have hmem : c.name ∈ s.connections := Finmap.mem_iff.mpr ⟨id, h.pending.lookup⟩
  rw [ServerState.removeConnectionInLoop, assert_pos rfl, Checked.ok_bind,
    ServerState.get_eq h.get, Checked.ok_bind, if_pos hmem]
  refine Checked.Sat.assert rfl ?_
  obtain ⟨hfits, k, hk⟩ := hof
  have hremoved : Stage.removed.Of (c.note .removeConnectionInLoop) := by
    refine ⟨hfits, k, ?_⟩
    rw [ServedConnection.note, hk]
    simp [Stage.history]
  exact .ok ⟨_, hremoved, (h.erase.note _).queueInLoop_moves (.inr (.inr rfl))⟩

/-- `connectDestroyed` makes it destroyed. -/
theorem connectDestroyed (h : Focus server s id c none false) (hof : Stage.removed.Of c)
    (callback : List UserCall) :
    (s.connectDestroyed c.loop id callback).Sat fun t => At server t id .destroyed := by
  obtain ⟨⟨hstate, hnone⟩, k, hk⟩ := hof
  have hnoted := h.note .connectDestroyed
  have hne : c.conn.state ≠ .kConnected := by
    rw [hstate]
    decide
  rw [ServerState.connectDestroyed, ServerState.get_eq h.get, Checked.ok_bind, assert_pos rfl,
    Checked.ok_bind, hnoted.call_eq]
  have hconn : (c.note .connectDestroyed).conn.connectDestroyed callback
      = .ok ({ c.conn with channel := { c.conn.channel with addedToLoop := false } }, []) := by
    show c.conn.connectDestroyed callback = _
    rw [connectDestroyed_other hne, Channel.remove, assert_pos hnone]
    rfl
  rw [hconn, Checked.ok_bind]
  refine (hnoted.after_quiet (c.history_note_ne_nil _) (List.forall_mem_nil _)).mono fun t ht => ?_
  refine ⟨_, ?_, ht⟩
  refine ⟨⟨hstate, hnone⟩, k, ?_⟩
  show c.history ++ _ = _
  rw [hk]
  simp [Stage.history]

end Focus

namespace At

variable {stage : Stage}

/-- A calm function of a connection does not change its stage. -/
theorem call_calm (h : At server s id stage) (hne : stage ≠ .accepted)
    {f : TcpConnection → Checked Outcome}
    (hf : ∀ c, stage.Fits c → (f c).Sat fun r => Calm c r.1 r.2) :
    (s.call id f).Sat fun t => At server t id stage := by
  obtain ⟨c, ⟨hfits, k, hk⟩, hfocus⟩ := h
  have hhistory : c.history ≠ [] := by
    rw [hk]
    exact Stage.history_ne_nil hne k
  rw [hfocus.call_eq]
  refine (hf c.conn hfits).bind fun r hcalm => ?_
  refine (hfocus.after_quiet hhistory hcalm.quiet).mono fun t ht => ?_
  exact ⟨{ c with conn := r.1 }, ⟨hfits.calm hne hcalm, k, hk⟩, ht⟩

/-- `handleClose` of an established connection hands it to the base loop. -/
theorem call_handleClose (h : At server s id .established) {callback : List UserCall}
    (hcalls : ∀ call ∈ callback, LifeCall call) :
    (s.call id (·.handleClose callback)).Sat fun t => WasEstablished server t id := by
  obtain ⟨c, ⟨⟨hstate, -⟩, k, hk⟩, hfocus⟩ := h
  -- the closed connection
  let down := { c with
    conn := { c.conn with state := .kDisconnected, channel := c.conn.channel.disableAll } }
  have hdown : Focus server (s.update id fun c => { c with conn := down.conn }) id down none true :=
    hfocus.update rfl rfl fun hne => hne
  have hnoted := hdown.note .handleClose
  have hof : Stage.closed.Of (down.note .handleClose) := by
    refine ⟨⟨rfl, rfl⟩, k, ?_⟩
    show c.history ++ _ = _
    rw [hk]
    rfl
  have hafter : s.after c.loop id (down.conn, [.connectionCallback .kDisconnected, .closeCallback])
      = ((s.update id fun c => { c with conn := down.conn }).update id
          (·.note .handleClose)).removeConnection c.loop id := by
    show (ServerState.removeConnection _ c.loop id >>= pure) = _
    exact bind_pure _
  rw [hfocus.call_eq, handleClose_eq hcalls hstate, Checked.ok_bind, hafter,
    ServerState.removeConnection]
  split
  · next hbase =>
      rw [hbase]
      exact (hnoted.removeConnectionInLoop hof).mono fun t ht => ⟨.removed, by decide, ht⟩
  · exact .ok ⟨.closed, by decide, _, hof, hnoted.queueInLoop_moves (.inr (.inl rfl))⟩

/-- `forceCloseInLoop` closes an established connection at most. -/
theorem call_forceCloseInLoop (h : At server s id .established) {callback : List UserCall}
    (hcalls : ∀ call ∈ callback, LifeCall call) :
    (s.call id (·.forceCloseInLoop callback)).Sat fun t => WasEstablished server t id := by
  have hclose := h.call_handleClose hcalls
  obtain ⟨c, hof, hfocus⟩ := h
  have hopen : c.conn.forceCloseInLoop callback = c.conn.handleClose callback := if_pos hof.1.1
  rw [hfocus.call_eq] at hclose ⊢
  rwa [hopen]

/-- `handleRead` of an established connection, which may be the end of it. -/
theorem call_handleRead (h : At server s id .established) (res : Buffer.ReadResult)
    {callback : List UserCall} (hcalls : ∀ call ∈ callback, LifeCall call)
    (unread : ByteQueue → ByteQueue) :
    (s.call id (·.handleRead res callback unread)).Sat fun t => WasEstablished server t id := by
  match res with
  | .ok [] => exact h.call_handleClose hcalls
  | .ok (b :: data) =>
      refine (h.call_calm (by decide) fun c _ => handleRead_calm c b data hcalls unread).mono ?_
      exact fun t ht => ⟨_, by decide, ht⟩
  | .error _ =>
      refine (h.call_calm (by decide) fun c _ => .ok (.refl c)).mono ?_
      exact fun t ht => ⟨_, by decide, ht⟩

/-- `handleWrite`, also when the connection was closed in the same event. -/
theorem call_handleWrite (h : At server s id stage) (hne : stage ≠ .accepted)
    {write : List Byte → WriteResult} (hwrite : ∀ bytes n, write bytes = .ok n → n ≤ bytes.length) :
    (s.call id fun c => c.handleWrite (write c.outputBuffer.content)).Sat
      fun t => At server t id stage := by
  refine h.call_calm hne fun c hfits => ?_
  rcases hfits.established_or_closed hne with rfl | ⟨-, hnone⟩
  · refine handleWrite_calm c ?_ fun n => hwrite _ n
    rcases hfits.1 with hs | hs <;> rw [hs] <;> decide
  · rw [handleWrite_idle (Channel.isWriting_of_isNoneEvent _ hnone)]
    exact .ok (.refl c)

/-! ### The events of a channel -/

/-- The callbacks that are left when the connection may be closed already. -/
theorem handleCallback_late {io : IoResults} {revents : BitVec 32} (hio : io.Admissible revents)
    {cb : ChannelCallback} (hcb : cb.mayClose = false) (h : At server s id stage)
    (hne : stage ≠ .accepted) :
    (ServerState.handleCallback id io s cb).Sat fun t => At server t id stage := by
  cases cb with
  | errorCallback => exact .ok h
  | writeCallback => exact h.call_handleWrite hne hio.write
  | closeCallback | readCallback => cases hcb

/-- The callbacks of a channel, of which one may close. -/
theorem handleCallbacks {io : IoResults} {revents : BitVec 32} (hio : io.Admissible revents)
    {cbs : List ChannelCallback} (hcbs : cbs.countP ChannelCallback.mayClose ≤ 1)
    (h : At server s id .established) :
    (cbs.foldlM (ServerState.handleCallback id io) s).Sat fun t => WasEstablished server t id := by
  induction cbs generalizing s with
  | nil => exact .ok ⟨_, by decide, h⟩
  | cons cb cbs ih =>
      rw [List.foldlM_cons]
      by_cases hcb : cb.mayClose = true
      · -- this is the only one of its kind, whatever the stage is after it
        have hlate : ∀ cb' ∈ cbs, cb'.mayClose = false := by
          rw [List.countP_cons_of_pos hcb] at hcbs
          have hzero : cbs.countP ChannelCallback.mayClose = 0 := by omega
          simpa using List.countP_eq_zero.mp hzero
        have hfirst : (ServerState.handleCallback id io s cb).Sat fun t => WasEstablished server t id := by
          cases cb with
          | closeCallback => exact h.call_handleClose hio.callback
          | readCallback => exact h.call_handleRead _ hio.callback _
          | errorCallback | writeCallback => cases hcb
        refine hfirst.bind fun t ht => Checked.Sat.foldlM (fun u cb' hmem hu => ?_) ht
        obtain ⟨stage, hne, hat⟩ := hu
        exact (handleCallback_late hio (hlate cb' hmem) hat hne).mono fun v hv => ⟨stage, hne, hv⟩
      · rw [List.countP_cons_of_neg hcb] at hcbs
        have hcb : cb.mayClose = false := by simpa using hcb
        exact (handleCallback_late hio hcb h (by decide)).bind fun t ht => ih hcbs ht

/-- An event is noted. -/
theorem note_handleEvent (h : At server s id .established) :
    At server (s.update id (·.note .handleEvent)) id .established := by
  obtain ⟨c, ⟨hfits, k, hk⟩, hfocus⟩ := h
  refine ⟨c.note .handleEvent, ⟨hfits, k + 1, ?_⟩, hfocus.note _⟩
  rw [ServedConnection.note, hk, Stage.history, Stage.history, List.replicate_succ']
  rfl

/-! ### Functors -/

/-- A functor that an established connection has queued, also when it is closed by now. -/
theorem call_runFunctor (h : At server s id stage) (hne : stage ≠ .accepted) {f : Functor}
    (hquiet : (Event.queued f).isQuiet = true) {callback : List UserCall}
    (hcalls : ∀ call ∈ callback, LifeCall call) (res : WriteResult) :
    (s.call id (·.runFunctor callback res f)).Sat fun t => WasEstablished server t id := by
  have hcalm {g : TcpConnection → Checked Outcome}
      (hg : ∀ c, stage.Fits c → (g c).Sat fun r => Calm c r.1 r.2) :
      (s.call id g).Sat fun t => WasEstablished server t id :=
    (h.call_calm hne hg).mono fun t ht => ⟨stage, hne, ht⟩
  by_cases hclose : f = .forceCloseInLoop
  · subst hclose
    by_cases hstage : stage = .established
    · subst hstage
      exact h.call_forceCloseInLoop hcalls
    · -- the connection was closed before the functor came to run
      refine hcalm fun c hfits => ?_
      have hstate := ((hfits.established_or_closed hne).resolve_left hstage).1
      show (c.forceCloseInLoop callback).Sat _
      rw [forceCloseInLoop_closed callback hstate]
      exact .ok (.refl c)
  · exact hcalm fun c _ => runFunctor_calm c hquiet hclose hcalls res

/-- A loop takes a functor that a connection had queued. -/
theorem runConnFunctor (hof : stage.Of c)
    (hfocus : Focus server s id c (stage.functor c.loop id) stage.held) {f : Functor}
    {rest : List ServerFunctor} (hq : s.queues loop = .conn id f :: rest) {callback : List UserCall}
    (hcalls : ∀ call ∈ callback, LifeCall call) (res : WriteResult) :
    (ServerState.runConnFunctor { s with queues := s.queues.pop loop } loop id callback res f).Sat
      fun t => WasEstablished server t id := by
  have hmem : .conn id f ∈ s.queues loop := by
    rw [hq]
    exact List.mem_cons_self ..
  obtain ⟨hloop, hquiet, hhistory⟩ := hfocus.pending.conn loop f hmem
  have hne : stage ≠ .accepted := by
    rintro rfl
    obtain ⟨-, k, hk⟩ := hof
    exact hhistory hk
  have hsole := hfocus.pending.sole.pop_other hq (ServerFunctor.not_moves_conn id id f)
  have hpop := hfocus.pop hq rfl hsole
  rw [ServerState.runConnFunctor, ServerState.get_eq hpop.get, Checked.ok_bind,
    assert_pos fun _ => hloop, Checked.ok_bind]
  exact call_runFunctor ⟨c, hof, hpop⟩ hne hquiet hcalls res

end At

/-! ## Every step keeps the invariant -/

namespace ServerInv

/-- The state of `newConnection` before the connection is handed to its loop. -/
theorem accept (h : ServerInv server s) (hid : s.nextConnId < 2 ^ 31) (next : Nat)
    (hc : c.name = server.connName s.nextConnId) :
    Focus server
      { s with
        nextConnId := s.nextConnId + 1
        next
        connections := s.connections.insert c.name s.conns.length
        conns := s.conns ++ [c] }
      s.conns.length c none true := by
  have hnext := h.nextConnId
  have hself : (s.conns ++ [c])[s.conns.length]? = some c := List.getElem?_concat_length
  have hlength : (s.conns ++ [c]).length = s.conns.length + 1 := List.length_append
  have hkept {id' : Nat} {c' : ServedConnection} (hget : s.conns[id']? = some c') :
      (s.conns ++ [c])[id']? = some c' := by
    rw [List.getElem?_append_left (ServerState.id_lt_of_get hget), hget]
  have hold {id' : Nat} {c' : ServedConnection} (hne : id' ≠ s.conns.length)
      (hget : (s.conns ++ [c])[id']? = some c') : s.conns[id']? = some c' := by
    have hlt := (List.getElem?_eq_some_iff.mp hget).1
    rwa [List.getElem?_append_left (by omega)] at hget
  -- no functor knows the connection yet
  have hfresh : ∀ loop m, m ∈ s.queues loop → m.id ≠ s.conns.length := fun loop m hm =>
    (h.queued loop m hm).ne
  refine
    { nextConnId := by rw [hnext, hlength]
      accepts := by rw [hlength, ← hnext]; exact hid
      name := fun id' c' hget => ?_
      queued := fun loop m hm => by rw [hlength]; exact (h.queued loop m hm).trans (Nat.lt_succ_self _)
      listed := fun name id' hlookup => ?_
      get := hself
      others := fun id' c' hne hget => ?_
      pending :=
        { sole := fun loop m hm => ?_
          conn := fun loop f hf => absurd rfl (hfresh loop _ hf)
          lookup := Finmap.lookup_insert _ } }
  · by_cases hne : id' = s.conns.length
    · subst hne
      obtain rfl : c = c' := Option.some.inj (hself.symm.trans hget)
      rw [hc, hnext]
    · exact h.name id' c' (hold hne hget)
  · by_cases hname : name = c.name
    · subst hname
      rw [Finmap.lookup_insert] at hlookup
      cases hlookup
      exact ⟨c, hself, rfl⟩
    · rw [Finmap.lookup_insert_of_ne _ hname] at hlookup
      obtain ⟨c', hget, hc'⟩ := h.listed name id' hlookup
      exact ⟨c', hkept hget, hc'⟩
  · have hget := hold hne hget
    have hname : c'.name ≠ c.name := by
      intro hname
      rw [h.name id' c' hget, hc] at hname
      have hlt := ServerState.id_lt_of_get hget
      have := server.connName_inj (by omega) hid hname
      omega
    refine (h.rests id' c' hget).imp fun _ _ hp => ?_
    exact ⟨hp.sole, hp.conn, (hp.insert_other hname).lookup⟩
  · exact List.count_eq_zero.mpr fun hmem => hfresh loop m hmem hm.id_eq

/-- `newConnection` keeps the invariant. -/
theorem newConnection (h : ServerInv server s) (hid : s.nextConnId < 2 ^ 31)
    {writeComplete highWaterMark : Bool} {callback : List UserCall}
    (hcalls : ∀ call ∈ callback, LifeCall call) :
    (s.newConnection server writeComplete highWaterMark callback).Sat (ServerInv server) := by
  rw [ServerState.newConnection]
  obtain ⟨ioLoop, next⟩ := server.getNextLoop s.next
  dsimp only
  let c : ServedConnection :=
    { loop := ioLoop
      name := server.connName s.nextConnId
      conn := TcpConnection.new writeComplete highWaterMark
      history := [] }
  have hfocus := h.accept (c := c) hid next rfl
  have hof : Stage.accepted.Of c := ⟨⟨rfl, rfl⟩, 0, rfl⟩
  split
  · next hbase =>
      obtain rfl := hbase
      exact (hfocus.connectEstablished hof hcalls).mono fun t ht => ht.serverInv
  · have hat : At server _ s.conns.length .accepted :=
      ⟨c, hof, hfocus.queueInLoop_moves (.inl rfl)⟩
    exact .ok hat.serverInv

/-- A functor keeps the invariant. -/
theorem runFunctor (h : ServerInv server s) (loop : LoopId) {callback : List UserCall}
    (hcalls : ∀ call ∈ callback, LifeCall call) (res : WriteResult) :
    (s.runFunctor loop callback res).Sat (ServerInv server) := by
  rw [ServerState.runFunctor]
  cases hq : s.queues loop with
  | nil => exact .ok h
  | cons m rest =>
      have hid : m.id < s.conns.length := h.queued loop m (by rw [hq]; exact List.mem_cons_self ..)
      obtain ⟨stage, hof, hfocus⟩ := h.at_of_get (List.getElem?_eq_getElem hid)
      cases m with
      | connectEstablished id =>
          obtain ⟨hstage, hpop⟩ := hfocus.pop_moves hq (.inl rfl)
          cases stage <;> cases hstage
          exact (hpop.connectEstablished hof hcalls).mono fun t ht => ht.serverInv
      | removeConnectionInLoop id =>
          obtain ⟨hstage, hpop⟩ := hfocus.pop_moves hq (.inr (.inl rfl))
          cases stage <;> cases hstage
          exact (hpop.removeConnectionInLoop hof).mono fun t ht => ht.serverInv
      | connectDestroyed id =>
          obtain ⟨hstage, hpop⟩ := hfocus.pop_moves hq (.inr (.inr rfl))
          cases stage <;> cases hstage
          exact (hpop.connectDestroyed hof callback).mono fun t ht => ht.serverInv
      | conn id f =>
          exact (At.runConnFunctor hof hfocus hq hcalls res).mono fun t ht => ht.serverInv

/-- An event keeps the invariant. -/
theorem handleEvent (h : ServerInv server s) (hget : s.conns[id]? = some c)
    (hwatched : c.conn.channel.isNoneEvent = false) {revents : BitVec 32} {io : IoResults}
    (hio : io.Admissible revents) :
    (s.handleEvent id revents io).Sat (ServerInv server) := by
  obtain ⟨stage, hof, hfocus⟩ := h.at_of_get hget
  obtain rfl := hof.1.established_of_watched hwatched
  have hat : At server s id .established := ⟨c, hof, hfocus⟩
  have hevent := hat.note_handleEvent.handleCallbacks hio hio.countP_mayClose_le
  exact hevent.mono fun t ht => ht.serverInv

/-- A call of user code keeps the invariant. -/
theorem userCall (h : ServerInv server s) (hid : id < s.conns.length) {call : UserCall}
    (hcall : LifeCall call) : (s.call id (·.call true call)).Sat (ServerInv server) := by
  obtain ⟨stage, hof, hfocus⟩ := h.at_of_get (List.getElem?_eq_getElem hid)
  by_cases hne : stage = .accepted
  · subst hne
    -- nobody knows the connection yet, and a call does nothing
    rw [hfocus.call_eq, call_idle true hcall (.inl hof.1.1), Checked.ok_bind]
    have hsame := hfocus.update (f := fun c' => { c' with conn := s.conns[id].conn }) rfl rfl
      fun hne => hne
    have hat : At server _ id .accepted := ⟨_, hof, hsame⟩
    exact .ok hat.serverInv
  · have hat : At server s id stage := ⟨_, hof, hfocus⟩
    refine (hat.call_calm hne fun c _ => TcpConnection.call_calm c true hcall).mono ?_
    exact fun t ht => ht.serverInv

/-- Every step keeps the invariant, and no assertion fails. -/
theorem step (h : ServerInv server s) (a : ServerStep) (ha : s.Enabled a) :
    (s.exec server a).Sat (ServerInv server) := by
  cases a with
  | accept writeComplete highWaterMark callback => exact h.newConnection ha.1 ha.2
  | runFunctor loop callback res => exact h.runFunctor loop ha res
  | handleEvent id revents io =>
      obtain ⟨⟨c, hget, hwatched⟩, hio⟩ := ha
      exact h.handleEvent hget hwatched hio
  | userCall id call => exact h.userCall ha.1 ha.2

/-- The invariant holds at the start. -/
theorem new : ServerInv server ServerState.new where
  nextConnId := rfl
  accepts := by decide
  name := by simp [ServerState.new]
  queued := by simp [ServerState.new, Mailboxes.empty]
  listed := by simp [ServerState.new]
  rests := by simp [ServerState.new]

/-! ## The life cycle -/

/-- Milestones come in their order. -/
theorem history_ordered (h : ServerInv server s) (hget : s.conns[id]? = some c) :
    ∃ k, c.history <+: .connectEstablished :: List.replicate k .handleEvent ++
      [.handleClose, .removeConnectionInLoop, .connectDestroyed] := by
  obtain ⟨stage, ⟨-, k, hk⟩, -⟩ := h.rests id c hget
  refine ⟨k, ?_⟩
  rw [hk]
  cases stage <;> simp [Stage.history]

/-- A connection that is closed and not destroyed has a functor on its way. -/
theorem destroyed_of_closed (h : ServerInv server s) (hempty : ∀ loop, s.queues loop = [])
    (hget : s.conns[id]? = some c) (hclosed : .handleClose ∈ c.history) :
    .connectDestroyed ∈ c.history := by
  obtain ⟨stage, ⟨-, k, hk⟩, hpending⟩ := h.rests id c hget
  have hnone : stage.functor c.loop id = none := by
    refine hpending.sole.eq_none hempty fun loop m hm => ?_
    cases stage <;> simp_all [Stage.functor, ServerFunctor.Moves]
  rw [hk] at hclosed ⊢
  cases stage <;> simp_all [Stage.functor, Stage.history]

/-- `connections_` holds what is accepted and not yet removed. -/
theorem lookup_iff (h : ServerInv server s) (name : List Char) (id : Nat) :
    s.connections.lookup name = some id ↔
      ∃ c, s.conns[id]? = some c ∧ c.name = name ∧ .removeConnectionInLoop ∉ c.history := by
  have hheld {c : ServedConnection} (hget : s.conns[id]? = some c) :
      s.connections.lookup c.name = some id ↔ .removeConnectionInLoop ∉ c.history := by
    obtain ⟨stage, ⟨-, k, hk⟩, hpending⟩ := h.rests id c hget
    rw [hpending.lookup, hk]
    cases stage <;> simp [Stage.held, Stage.history]
  constructor
  · intro hlookup
    obtain ⟨c, hget, rfl⟩ := h.listed name id hlookup
    exact ⟨c, hget, rfl, (hheld hget).mp hlookup⟩
  · rintro ⟨c, hget, rfl, hnot⟩
    exact (hheld hget).mpr hnot

/-- No two connections have the same name. -/
theorem nodup_names (h : ServerInv server s) : (s.conns.map (·.name)).Nodup := by
  rw [List.nodup_iff_getElem?_ne_getElem?]
  intro i j hij hj heq
  rw [List.length_map] at hj
  have hget := List.getElem?_eq_getElem hj
  have hget' := List.getElem?_eq_getElem (hij.trans hj)
  rw [List.getElem?_map, List.getElem?_map, hget, hget'] at heq
  exact hij.ne (h.id_eq_of_name hget' hget (Option.some.inj heq))

end ServerInv

/-- **The life cycle of connections.** In every run of a server, whichever loops it has and however their
steps interleave, no assertion fails; what is executed for a connection is `connectEstablished`, events
of its channel, `handleClose`, `removeConnectionInLoop` and `connectDestroyed`, in this order and as far as
it got; whenever all queues are empty, what is closed is destroyed; and `connections_` holds exactly the
connections that were not yet removed, under names that are all different. -/
theorem tcpServer_lifeCycle {server : TcpServer} {s : ServerState}
    (hs : (tcpServer server).Reachable s) :
    (tcpServer server).Safe s ∧
    (∀ (id : Nat) (c : ServedConnection), s.conns[id]? = some c →
      ∃ k, c.history <+: .connectEstablished :: List.replicate k .handleEvent ++
        [.handleClose, .removeConnectionInLoop, .connectDestroyed]) ∧
    ((∀ loop, s.queues loop = []) → ∀ (id : Nat) (c : ServedConnection), s.conns[id]? = some c →
      .handleClose ∈ c.history → .connectDestroyed ∈ c.history) ∧
    (∀ name id, s.connections.lookup name = some id ↔
      ∃ c, s.conns[id]? = some c ∧ c.name = name ∧ .removeConnectionInLoop ∉ c.history) ∧
    (s.conns.map (·.name)).Nodup := by
  obtain ⟨hinv, hsafe⟩ := Machine.invariant (P := ServerInv server)
    (fun s hs => by rw [hs]; exact .new) (fun s a h ha => h.step a ha) hs
  refine ⟨hsafe, fun id c hget => hinv.history_ordered hget, ?_, hinv.lookup_iff, hinv.nodup_names⟩
  exact fun hempty id c hget hclosed => hinv.destroyed_of_closed hempty hget hclosed

/-- A server with one thread in its pool. -/
def oneThread : TcpServer :=
  { name := "echo".toList
    ip := "127.0.0.1".toList
    ip_length := by decide
    port := 2007
    numThreads := 1 }

/-- The peer closes at once. -/
def endOfFile : IoResults :=
  { read := .ok [], write := fun _ => .ok 0, callback := [], unread := fun input => input }

/-- A connection that goes from the base loop to the other one and back, twice. -/
theorem tcpServer_lifeCycle_oneThread :
    ∃ s, (tcpServer oneThread).Reachable s ∧
      s.conns.map (·.history) = [[.connectEstablished, .handleEvent, .handleClose,
        .removeConnectionInLoop, .connectDestroyed]] ∧
      (s.conns.map (·.name)).Nodup := by
  have hinit : (tcpServer oneThread).Reachable ServerState.new := .of_init rfl
  have hendOfFile : endOfFile.Admissible POLLIN := ⟨nofun, by simp [endOfFile], nofun⟩
  have haccepts : (tcpServer oneThread).enabled ServerState.new (.accept false false []) :=
    ⟨by decide, nofun⟩
  have hruns (t : ServerState) (loop : LoopId) :
      (tcpServer oneThread).enabled t (.runFunctor loop [] (.ok 0)) := nofun
  have haccepted := hinit.step haccepts rfl
  have hestablished := haccepted.step (hruns _ (.pool 0)) rfl
  have hclosed := hestablished.step
    (show (tcpServer oneThread).enabled _ (.handleEvent 0 POLLIN endOfFile) from
      ⟨⟨_, rfl, rfl⟩, hendOfFile⟩) rfl
  have hremoved := hclosed.step (hruns _ .base) rfl
  have hdestroyed := hremoved.step (hruns _ (.pool 0)) rfl
  exact ⟨_, hdestroyed, rfl, (tcpServer_lifeCycle hdestroyed).2.2.2.2⟩

end Muduo.Net
