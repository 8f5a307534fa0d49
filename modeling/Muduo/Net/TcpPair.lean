import Muduo.Net.ConnectionBytes

/-! # Two connections

The two ends of a TCP connection, each a `TcpConnection` with the functor queue of its loop. User code calls on
either end at any time, from any thread and in the callbacks; either end may shut down its side, close or be
destroyed. The kernel carries the bytes that it has taken from one end to the other, in order; how many arrive with
one `read` is up to it. `pair_streams` says what holds of both directions, in every run. -/

namespace Muduo.Net

open Support TcpConnection Event

/-! ## The model -/

/-- One end. -/
structure PairEnd where
  conn : TcpConnection
  /-- `pendingFunctors_` of the loop, as far as they concern the connection. -/
  queue : List Functor
  /-- All that the connection did, in order. -/
  trace : List Event
  /-- The bytes that `handleRead` has read, in order. -/
  received : List Byte
  /-- Whether the connection was destroyed, which closes its socket. -/
  destroyed : Bool

/-- The two ends; the peer of the end `b` is `!b`. -/
abbrev TcpPair := Bool → PairEnd

/-- What can happen at an end; a `callback` is what the user's callback does on the way and a `res` the result of
a system call. -/
inductive EndStep where
  /-- The loop runs the functor at the head of its queue. -/
  | runFunctor (callback : List UserCall) (res : WriteResult)
  | handleRead (res : Buffer.ReadResult) (callback : List UserCall) (unread : ByteQueue → ByteQueue)
  | handleWrite (res : WriteResult)
  | handleClose (callback : List UserCall)
  | connectDestroyed (callback : List UserCall)
  | userCall (inLoop : Bool) (call : UserCall)
  /-- `~TcpConnection()`. -/
  | destroy

/-- The bytes that a step has read. -/
def EndStep.bytesRead : EndStep → List Byte
  | .handleRead (.ok data) _ _ => data
  | _ => []

/-- The step that destroys the connection. -/
def EndStep.isDestroy : EndStep → Bool
  | .destroy => true
  | _ => false

namespace PairEnd

/-- The connection `c` when `connectEstablished` has called `connectionCallback_`. What the callback calls comes
after that. -/
def established (c : TcpConnection) : PairEnd :=
  { conn := { c with state := .kConnected, channel := c.channel.enableReading }
    queue := []
    trace := [.connectionCallback .kConnected]
    received := []
    destroyed := false }

variable (e : PairEnd)

/-- The member function of a step. -/
def run : EndStep → Checked Outcome
  | .runFunctor callback res =>
      match e.queue with
      | [] => return (e.conn, []) -- nothing is pending
      | f :: _ => e.conn.runFunctor callback res f
  | .handleRead res callback unread => e.conn.handleRead res callback unread
  | .handleWrite res => e.conn.handleWrite res
  | .handleClose callback => e.conn.handleClose callback
  | .connectDestroyed callback => e.conn.connectDestroyed callback
  | .userCall inLoop call => e.conn.call inLoop call
  | .destroy => do
      assert (e.conn.state = .kDisconnected) "state_ == kDisconnected"
      return (e.conn, [])

/-- The functors that are left when a step takes its own. -/
def queueLeft : EndStep → List Functor
  | .runFunctor _ _ => e.queue.tail
  | _ => e.queue

/-- What a step does at one end. -/
def exec (a : EndStep) : Checked PairEnd := do
  let (conn, events) ← e.run a
  return { conn
           queue := e.queueLeft a ++ events.filterMap Event.functor
           trace := e.trace ++ events
           received := e.received ++ a.bytesRead
           destroyed := e.destroyed || a.isDestroy }

end PairEnd

/-- The kernel answers to the `write` of a call as `K` says. -/
def UserCall.Writes (K : Kernel) : UserCall → Prop
  | .send message res => K message.length res
  | _ => True

/-- The kernel answers to the writes of a step as `K` says. -/
def EndStep.Writes (K : Kernel) (e : PairEnd) : EndStep → Prop
  | .runFunctor callback res => (∀ call ∈ callback, call.Writes K) ∧
      ∀ message, e.queue.head? = some (.sendInLoop message) → K message.length res
  | .handleRead _ callback _ | .handleClose callback | .connectDestroyed callback =>
      ∀ call ∈ callback, call.Writes K
  | .handleWrite res => K e.conn.outputBuffer.content.length res
  | .userCall _ call => call.Writes K
  | .destroy => True

namespace TcpPair

variable (s : TcpPair) (b : Bool)

/-- The bytes on their way from the end `b` to its peer. -/
def inFlight : List Byte := (accepted (s b).trace).drop (s !b).received.length

/-- No more bytes will come from the end `b`. -/
def Finished : Prop := ¬ Open (s b).trace ∨ (s b).destroyed = true

/-- The kernel at the end `b`: no error that means a broken connection before the half-close, and errors only after
it. If the peer is destroyed, it may answer anything. -/
def kernel : Kernel := fun len res =>
  (s !b).destroyed = false → (Open (s b).trace → WriteOk len res) ∧ (¬ Open (s b).trace → Refused res)

/-- What the kernel reports at the end `b`. A `read` gets bytes on their way from the peer, or the end of the file
when there are none and no more will come; a hang-up means that both directions are finished. -/
def Reports : EndStep → Prop
  | .handleRead (.ok []) _ _ => s.inFlight (!b) = [] ∧ s.Finished (!b)
  | .handleRead (.ok data) _ _ => data <+: s.inFlight (!b)
  | .handleClose _ => s.inFlight (!b) = [] ∧ s.Finished (!b) ∧ ¬ Open (s b).trace
  | _ => True

/-- The user's callback takes bytes from the front of the buffer, and the last reference to a connection goes with
its functors. -/
def Proper : EndStep → Prop
  | .handleRead _ _ unread => ∃ n, ∀ q, (unread q).content = q.content.drop n
  | .destroy => (s b).queue = []
  | _ => True

/-- When a step is possible at the end `b`. -/
structure Enabled (a : EndStep) : Prop where
  alive : (s b).destroyed = false
  writes : a.Writes (s.kernel b) (s b)
  reports : s.Reports b a
  proper : s.Proper b a

end TcpPair

/-- Two connected ends. -/
def tcpPair : Machine TcpPair (Bool × EndStep) where
  init s := ∃ c : Bool → TcpConnection,
    (∀ b, (c b).Fresh ∧ (c b).inputBuffer.content = []) ∧ s = fun b => .established (c b)
  enabled s a := s.Enabled a.1 a.2
  exec s a := return Function.update s a.1 (← (s a.1).exec a.2)

/-! ## One end -/

/-- A call over a kernel is one over a wider kernel. -/
theorem UserCall.Writes.mono {K K' : Kernel} (hK : ∀ len res, K len res → K' len res) {call : UserCall}
    (h : call.Writes K) : call.Writes K' := by
  cases call with
  | send message res => exact hK _ _ h
  | _ => trivial

/-- A step over a kernel is one over a wider kernel. -/
theorem EndStep.Writes.mono {K K' : Kernel} (hK : ∀ len res, K len res → K' len res) {e : PairEnd} {a : EndStep}
    (h : a.Writes K e) : a.Writes K' e := by
  cases a with
  | runFunctor callback res =>
      exact ⟨fun call hmem => (h.1 call hmem).mono hK, fun message hhead => hK _ _ (h.2 message hhead)⟩
  | handleRead _ callback _ => exact fun call hmem => (h call hmem).mono hK
  | handleClose callback => exact fun call hmem => (h call hmem).mono hK
  | connectDestroyed callback => exact fun call hmem => (h call hmem).mono hK
  | handleWrite res => exact hK _ _ h
  | userCall inLoop call => exact UserCall.Writes.mono hK h
  | destroy => trivial

/-- A call over any kernel is a legal call. -/
theorem UserCall.Writes.callOk {call : UserCall} (h : call.Writes WriteOk) : CallOk call := by
  cases call with
  | send message res => exact h
  | _ => trivial

/-- A call over a kernel that refuses is refused. -/
theorem UserCall.Writes.callRefused {call : UserCall} (h : call.Writes fun _ => Refused) : CallRefused call := by
  cases call with
  | send message res => exact h
  | _ => trivial

namespace PairEnd

variable {e e' : PairEnd} {a : EndStep} {r : Outcome}

/-- What a step leaves at its end. -/
theorem exec_eq_ok (h : e.exec a = .ok e') :
    ∃ r, e.run a = .ok r ∧ e'.conn = r.1 ∧ e'.trace = e.trace ++ r.2 ∧ e'.received = e.received ++ a.bytesRead ∧
      e'.destroyed = (e.destroyed || a.isDestroy) := by
  obtain ⟨r, hr, h⟩ := Checked.bind_eq_ok.mp h
  cases h
  exact ⟨r, hr, rfl, rfl, rfl, rfl⟩

/-- A connection that was closed was not closed before. -/
theorem live_of_handleClose {c : TcpConnection} {callback : List UserCall} (hr : c.handleClose callback = .ok r) :
    c.state = .kConnected ∨ c.state = .kDisconnecting := (Checked.assert_bind_eq_ok.mp hr).1

/-- The output stream, over a kernel that takes bytes. -/
theorem run_inv (h : OutputInv e.conn e.trace) (hwrites : a.Writes WriteOk e) (hr : e.run a = .ok r) :
    OutputInv r.1 (e.trace ++ r.2) := by
  cases a with
  | runFunctor callback res =>
      simp only [run] at hr
      cases hqueue : e.queue with
      | nil =>
          rw [hqueue] at hr
          cases hr
          exact h.idle
      | cons f queue =>
          rw [hqueue] at hr
          refine runFunctor_inv h (fun call hmem => (hwrites.1 call hmem).callOk) (fun message hf => ?_) hr
          refine hwrites.2 message ?_
          rw [hqueue, hf]
          rfl
  | handleRead res callback unread =>
      refine (handleRead_inv h (fun call hmem => (hwrites call hmem).callOk) ?_).of_eq_ok hr
      rintro rfl
      exact live_of_handleClose hr
  | handleWrite res => exact (handleWrite_inv h hwrites).of_eq_ok hr
  | handleClose callback =>
      refine (handleClose_inv h (fun call hmem => (hwrites call hmem).callOk) ?_).of_eq_ok hr
      exact live_of_handleClose hr
  | connectDestroyed callback => exact connectDestroyed_inv h (fun call hmem => (hwrites call hmem).callOk) hr
  | userCall inLoop call => exact (call_inv h inLoop call (UserCall.Writes.callOk hwrites)).of_eq_ok hr
  | destroy =>
      obtain ⟨-, hr⟩ := Checked.assert_bind_eq_ok.mp hr
      cases hr
      exact h.idle

/-- What a step writes, and what it leaves in the input buffer. -/
theorem run_settled (refused : Prop) (hquiet : e.conn.Quiet) (hwrites : refused → a.Writes (fun _ => Refused) e)
    (hproper : ∀ res callback unread, a = .handleRead res callback unread →
      ∃ n, ∀ q, (unread q).content = q.content.drop n)
    (hr : e.run a = .ok r) :
    Settled refused r ∧
      ∃ n, r.1.inputBuffer.content = (e.conn.inputBuffer.content ++ a.bytesRead).drop n := by
  -- but for `handleRead`, the input buffer is left alone
  have hsame (h : Settled refused r ∧ r.1.inputBuffer = e.conn.inputBuffer) (hread : a.bytesRead = []) :
      Settled refused r ∧
        ∃ n, r.1.inputBuffer.content = (e.conn.inputBuffer.content ++ a.bytesRead).drop n := by
    refine ⟨h.1, 0, ?_⟩
    rw [h.2, hread, List.append_nil, List.drop_zero]
  have hmild (h : Mild refused e.conn r) : Settled refused r ∧ r.1.inputBuffer = e.conn.inputBuffer :=
    ⟨h.settled hquiet, h.input⟩
  cases a with
  | runFunctor callback res =>
      refine hsame ?_ rfl
      simp only [run] at hr
      cases hqueue : e.queue with
      | nil =>
          rw [hqueue] at hr
          cases hr
          exact hmild (.refl _)
      | cons f queue =>
          rw [hqueue] at hr
          refine runFunctor_settled hquiet (fun h call hmem => ((hwrites h).1 call hmem).callRefused)
            (fun h message hf => (hwrites h).2 message ?_) hr
          rw [hqueue, hf]
          rfl
  | handleRead res callback unread =>
      cases res with
      | error errno =>
          cases hr
          exact hsame (hmild (.refl _)) rfl
      | ok data =>
          cases data with
          | nil => exact hsame (handleClose_settled hr) rfl
          | cons b data =>
              obtain ⟨n, hn⟩ := hproper _ _ _ rfl
              obtain ⟨hsettled, hinput⟩ :=
                handleRead_settled hquiet (fun h call hmem => (hwrites h call hmem).callRefused) hr
              refine ⟨hsettled, n, ?_⟩
              rw [hinput, hn, ByteQueue.content_readFd]
              rfl
  | handleWrite res => exact hsame (hmild (handleWrite_mild hwrites hquiet hr)) rfl
  | handleClose callback => exact hsame (handleClose_settled hr) rfl
  | connectDestroyed callback => exact hsame (connectDestroyed_settled hquiet hr) rfl
  | userCall inLoop call =>
      exact hsame (hmild (call_mild (fun h => UserCall.Writes.callRefused (hwrites h)) hr)) rfl
  | destroy =>
      obtain ⟨-, hr⟩ := Checked.assert_bind_eq_ok.mp hr
      cases hr
      exact hsame (hmild (.refl _)) rfl

/-- What holds of an end by itself. -/
structure Inv (e : PairEnd) : Prop where
  quiet : e.conn.Quiet
  /-- The user has taken bytes from the front of what was read. -/
  input : e.conn.inputBuffer.content <:+ e.received

end PairEnd

/-- What holds of the direction from one end to the other. -/
structure Carried (sender receiver : PairEnd) : Prop where
  live : receiver.destroyed = false → Sender sender.conn sender.trace ∧ receiver.received <+: accepted sender.trace
  le : receiver.received <+: passed sender.trace

namespace TcpPair

variable {s : TcpPair} {b : Bool} {a : EndStep} {e : PairEnd}

/-- The user takes a front part of the input. -/
theorem Enabled.unread (ha : s.Enabled b a) (res : Buffer.ReadResult) (callback : List UserCall)
    (unread : ByteQueue → ByteQueue) (heq : a = .handleRead res callback unread) :
    ∃ n, ∀ q, (unread q).content = q.content.drop n := by
  subst heq
  exact ha.proper

/-- A step keeps what holds of an end by itself. -/
theorem Enabled.inv (ha : s.Enabled b a) (h : (s b).Inv) (he : (s b).exec a = .ok e) : e.Inv := by
  obtain ⟨r, hr, hconn, -, hreceived, -⟩ := PairEnd.exec_eq_ok he
  obtain ⟨hsettled, n, hinput⟩ := PairEnd.run_settled False h.quiet (fun h => h.elim) ha.unread hr
  refine ⟨hconn ▸ hsettled.quiet, ?_⟩
  rw [hconn, hreceived, hinput]
  obtain ⟨taken, htaken⟩ := h.input
  rw [← htaken, List.append_assoc]
  exact (List.drop_suffix _ _).trans (List.suffix_append ..)

/-- A step of the sender. -/
theorem Enabled.carried_left (ha : s.Enabled b a) (hquiet : (s b).conn.Quiet) (h : Carried (s b) (s !b))
    (he : (s b).exec a = .ok e) : Carried e (s !b) := by
  obtain ⟨r, hr, hconn, htrace, -, -⟩ := PairEnd.exec_eq_ok he
  refine ⟨fun halive => ?_, ?_⟩
  · obtain ⟨hsender, hle⟩ := h.live halive
    have hrefused (hopen : ¬ Open (s b).trace) : a.Writes (fun _ => Refused) (s b) :=
      ha.writes.mono fun len res hres => (hres halive).2 hopen
    have hinv (hopen : Open (s b).trace) (hout : OutputInv (s b).conn (s b).trace) :
        OutputInv r.1 ((s b).trace ++ r.2) :=
      PairEnd.run_inv hout (ha.writes.mono fun len res hres => (hres halive).1 hopen) hr
    rw [hconn, htrace]
    refine ⟨hsender.step hinv (PairEnd.run_settled _ hquiet hrefused ha.unread hr).1, ?_⟩
    rw [accepted_append]
    exact hle.trans (List.prefix_append ..)
  · rw [htrace, passed_append]
    exact h.le.trans (List.prefix_append ..)

/-- What the receiver has read and what is on its way are together what the kernel has taken. -/
theorem received_append_inFlight (h : (s !b).received <+: accepted (s b).trace) :
    (s !b).received ++ s.inFlight b = accepted (s b).trace := by
  obtain ⟨rest, hrest⟩ := h
  rw [inFlight, ← hrest, List.drop_left]

/-- What is read was in flight. -/
theorem Enabled.bytesRead_prefix (ha : s.Enabled b a) : a.bytesRead <+: s.inFlight (!b) := by
  cases a with
  | handleRead res callback unread =>
      cases res with
      | error errno => exact List.nil_prefix
      | ok data =>
          cases data with
          | nil => exact List.nil_prefix
          | cons byte data => exact ha.reports
  | _ => exact List.nil_prefix

/-- A step of the receiver. -/
theorem Enabled.carried_right (ha : s.Enabled b a) (h : Carried (s !b) (s b)) (he : (s b).exec a = .ok e) :
    Carried (s !b) e := by
  obtain ⟨r, hr, -, -, hreceived, hdestroyed⟩ := PairEnd.exec_eq_ok he
  obtain ⟨hsender, hle⟩ := h.live ha.alive
  have hread : (s b).received ++ a.bytesRead <+: accepted (s !b).trace := by
    have hall := received_append_inFlight (s := s) (b := !b) (by rw [Bool.not_not]; exact hle)
    rw [Bool.not_not] at hall
    rw [← hall]
    exact (List.prefix_append_right_inj _).mpr ha.bytesRead_prefix
  rw [← hreceived] at hread
  exact ⟨fun _ => ⟨hsender, hread⟩, hread.trans hsender.le⟩

/-- `connectEstablished` with a callback that does nothing. -/
theorem connectEstablished_nil {c : TcpConnection} (hstate : c.state = .kConnecting) :
    c.connectEstablished [] = .ok ((PairEnd.established c).conn, (PairEnd.established c).trace) := by
  rw [connectEstablished, assert_pos hstate]
  rfl

/-- What holds between two steps. -/
structure Inv (s : TcpPair) : Prop where
  ends : ∀ b, (s b).Inv
  carried : ∀ b, Carried (s b) (s !b)

namespace Inv

/-- The invariant holds for two fresh connections. -/
theorem established {c : Bool → TcpConnection} (hc : ∀ b, (c b).Fresh ∧ (c b).inputBuffer.content = []) :
    Inv fun b => .established (c b) := by
  have hsender (b : Bool) : Sender (PairEnd.established (c b)).conn (PairEnd.established (c b)).trace := by
    obtain ⟨hfresh, -⟩ := hc b
    have hnone : ∀ call ∈ ([] : List UserCall), CallOk call := by simp
    have hinv := (connectEstablished_inv hnone hfresh.state hfresh.output hfresh.channel).of_eq_ok
      (connectEstablished_nil hfresh.state)
    refine ⟨fun _ => hinv, fun tr₁ state pending tr₂ heq _ hstate => ?_, List.nil_prefix⟩
    exact (hinv.halfClose tr₁ state pending tr₂ heq hstate).2
  refine ⟨fun b => ⟨fun hstate => ?_, ?_⟩, fun b => ⟨fun _ => ⟨hsender b, List.nil_prefix⟩, List.nil_prefix⟩⟩
  · cases hstate
  · show (c b).inputBuffer.content <:+ []
    rw [(hc b).2]

/-- A step of one end keeps the invariant. -/
theorem step (h : Inv s) (ha : s.Enabled b a) (he : (s b).exec a = .ok e) : Inv (Function.update s b e) := by
  have hself : Function.update s b e b = e := Function.update_self ..
  have hpeer : Function.update s b e (!b) = s !b := Function.update_of_ne (by simp) ..
  refine ⟨fun d => ?_, fun d => ?_⟩
  · by_cases hd : d = b
    · rw [hd, hself]
      exact ha.inv (h.ends b) he
    · rw [Function.update_of_ne hd]
      exact h.ends d
  · rcases Bool.eq_or_eq_not d b with rfl | rfl
    · rw [hself, hpeer]
      exact ha.carried_left (h.ends d).quiet (h.carried d) he
    · rw [hpeer, Bool.not_not, hself]
      refine ha.carried_right ?_ he
      have hcarried := h.carried (!b)
      rwa [Bool.not_not] at hcarried

/-- The invariant holds in every reachable state. -/
theorem of_reachable (hs : tcpPair.Reachable s) : Inv s := by
  refine hs.induction (P := Inv) ?_ ?_
  · rintro _ ⟨c, hc, rfl⟩
    exact established hc
  · rintro s ⟨b, a⟩ t h ha ht
    obtain ⟨e, he, ht⟩ := Checked.bind_eq_ok.mp ht
    cases ht
    exact h.step ha he

end Inv

end TcpPair

end Muduo.Net
