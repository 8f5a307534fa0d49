import Muduo.Net.EPollPoller
import Mathlib.Algebra.Order.Ring.Nat

/-! # `EPollPoller::poll`

Waiting for events, over a kernel that knows what is the case on each descriptor. The events come in a vector that
may be too short for them, and that is doubled when it was filled; or `epoll_wait` fails. `EPollState.poll_delivers`
says what is reported in every run of calls on channels and calls of `poll`. -/

namespace Muduo.Net

open Support

/-- What the kernel reports of a descriptor on which `ready` is the case: what is watched, and errors and hang-ups
in any case. -/
def occurring (events ready : BitVec 32) : BitVec 32 := ready &&& (events ||| POLLERR ||| POLLHUP)

/-- An error is reported whatever is watched. -/
theorem occurring_POLLERR (events : BitVec 32) : occurring events POLLERR = POLLERR := by
  ext i hi
  simp only [occurring, BitVec.getElem_and, BitVec.getElem_or]
  cases POLLERR[i] <;> simp

/-! ## The code -/

/-- An answer of `epoll_wait`, for at most `size` events: descriptors of the interest list on which something has
happened, and all of them if there are fewer. -/
structure EpollWait {ι : Type} (list : EpollList ι) (size : Nat) (ready : Int → BitVec 32) (fds : List Int) :
    Prop where
  nodup : fds.Nodup
  length_le : fds.length ≤ size
  happened : ∀ fd ∈ fds, ∃ e, list.lookup fd = some e ∧ occurring e.events (ready fd) ≠ 0
  all : fds.length < size → ∀ fd e, list.lookup fd = some e → occurring e.events (ready fd) ≠ 0 → fd ∈ fds

/-- `epoll_wait` reports at most as many descriptors as there are in the interest list. -/
theorem EpollWait.length_le_card {ι : Type} {list : EpollList ι} {size : Nat} {ready : Int → BitVec 32}
    {fds : List Int} (h : EpollWait list size ready fds) : fds.length ≤ list.keys.card := by
  rw [← List.toFinset_card_of_nodup h.nodup]
  refine Finset.card_le_card fun fd hfd => ?_
  obtain ⟨e, he, -⟩ := h.happened fd (List.mem_toFinset.mp hfd)
  rw [Finmap.mem_keys]
  exact Finmap.mem_of_lookup_eq_some he

/-- With room for the whole interest list, `epoll_wait` can answer, and there is room to spare. -/
theorem EpollWait.exists_of_card_lt {ι : Type} (list : EpollList ι) {size : Nat} (hsize : list.keys.card < size)
    (ready : Int → BitVec 32) : ∃ fds, EpollWait list size ready fds ∧ fds.length < size := by
  set happened := list.keys.filter fun fd => ∃ e, list.lookup fd = some e ∧ occurring e.events (ready fd) ≠ 0
  have hlength : happened.toList.length < size := by
    rw [Finset.length_toList]
    exact lt_of_le_of_lt (Finset.card_filter_le ..) hsize
  refine ⟨happened.toList, ⟨happened.nodup_toList, hlength.le, fun fd hfd => ?_, fun _ fd e he hne => ?_⟩, hlength⟩
  · rw [Finset.mem_toList, Finset.mem_filter] at hfd
    exact hfd.2
  · rw [Finset.mem_toList, Finset.mem_filter, Finmap.mem_keys]
    exact ⟨Finmap.mem_of_lookup_eq_some he, e, he, hne⟩

/-- What `epoll_wait` writes into the vector for these descriptors. -/
def epollEvents {ι : Type} (list : EpollList ι) (ready : Int → BitVec 32) (fds : List Int) : List (EpollEvent ι) :=
  fds.filterMap fun fd => (list.lookup fd).map fun e => ⟨occurring e.events (ready fd), e.ptr⟩

namespace EPollPoller

variable {ι : Type} [DecidableEq ι] (p : EPollPoller ι)

/-- `channel->set_revents(revents)`. -/
def setRevents (c : ι) (revents : BitVec 32) : EPollPoller ι :=
  { p with toPoller := p.toPoller.set c { p.store c with revents } }

/-- A turn of the loop in `fillActiveChannels`. -/
def fillChannel : EPollPoller ι × List ι → EpollEvent ι → Checked (EPollPoller ι × List ι)
  | (p, activeChannels), event => do
      let channel := event.ptr
      let fd := (p.store channel).fd
      assert (p.channels.lookup fd ≠ none) "it != channels_.end()"
      assert (p.channels.lookup fd = some channel) "it->second == channel"
      return (p.setRevents channel event.events, activeChannels ++ [channel])

/-- `fillActiveChannels(numEvents, activeChannels)`, where `events_` begins with `events`. -/
def fillActiveChannels (size : Nat) (events : List (EpollEvent ι)) (activeChannels : List ι) :
    Checked (EPollPoller ι × List ι) := do
  assert (events.length ≤ size) "implicit_cast<size_t>(numEvents) <= events_.size()"
  events.foldlM fillChannel (p, activeChannels)

end EPollPoller

/-- `EPollPoller::kInitEventListSize`. -/
def kInitEventListSize : Nat := 16

/-- `EINTR`. -/
def eINTR : Int := 4

/-- An `EPollPoller` with `events_`, and what `poll` has reported last. -/
structure EPollState (ι : Type) where
  poller : EPollPoller ι
  /-- `events_.size()`. -/
  size : Nat
  activeChannels : List ι
  /-- How many calls of `poll` have filled `events_`. -/
  filled : Nat
  /-- The largest interest list at a call of `poll`. -/
  peak : Nat
  /-- The errors of `epoll_wait` that went to `LOG_SYSERR`. -/
  logged : List Int

/-- What a loop does with its poller. -/
inductive EPollStep (ι : Type) where
  | call (call : ChannelCall ι)
  /-- `poll`, when `epoll_wait` reports the descriptors `fds`. -/
  | poll (ready : Int → BitVec 32) (fds : List Int)
  /-- `poll`, when `epoll_wait` fails. -/
  | failedPoll (errno : Int)

namespace EPollState

variable {ι : Type} [DecidableEq ι] (s : EPollState ι)

/-- `EPollPoller(loop)`. -/
def new (fd : ι → Int) : EPollState ι :=
  { poller := .new fd, size := kInitEventListSize, activeChannels := [], filled := 0, peak := 0, logged := [] }

/-- `poll(timeoutMs, activeChannels)`, with the events that `epoll_wait` has returned or its `errno`. -/
def poll (answer : Except Int (List (EpollEvent ι))) : Checked (EPollState ι) := do
  let s := { s with activeChannels := [], peak := max s.peak s.poller.interest.keys.card }
  match answer with
  | .ok events =>
      if 0 < events.length then
        let (poller, activeChannels) ← s.poller.fillActiveChannels s.size events s.activeChannels
        let s := { s with poller, activeChannels }
        if events.length = s.size then return { s with size := s.size * 2, filled := s.filled + 1 } else return s
      else return s
  | .error savedErrno =>
      if savedErrno ≠ eINTR then return { s with logged := s.logged ++ [savedErrno] } else return s

/-- A step of the loop. -/
def exec : EPollStep ι → Checked (EPollState ι)
  | .call call => do
      let poller ← s.poller.call call
      return { s with poller }
  | .poll ready fds => s.poll (.ok (epollEvents s.poller.interest ready fds))
  | .failedPoll errno => s.poll (.error errno)

/-- When a step is possible: `epoll_wait` answers as the kernel does, or fails. -/
def Enabled : EPollStep ι → Prop
  | .call call => s.poller.Enabled call
  | .poll ready fds => EpollWait s.poller.interest s.size ready fds
  | .failedPoll _ => True

end EPollState

/-- The poller of a loop, with its waiting. -/
def ePolling (ι : Type) [DecidableEq ι] : Machine (EPollState ι) (EPollStep ι) where
  init s := ∃ fd, s = EPollState.new fd
  enabled := EPollState.Enabled
  exec := EPollState.exec

namespace EPollPoller

variable {ι : Type} {p q r : EPollPoller ι} {events : List (EpollEvent ι)}

/-- The channels of the events have got them, and nothing else has changed. -/
structure Filled (p q : EPollPoller ι) (events : List (EpollEvent ι)) : Prop where
  channels : q.channels = p.channels
  interest : q.interest = p.interest
  errors : q.errors = p.errors
  reported : ∀ e ∈ events, q.store e.ptr = { p.store e.ptr with revents := e.events }
  others : ∀ c, c ∉ events.map EpollEvent.ptr → q.store c = p.store c

/-- A channel has kept all but its `revents`. -/
theorem Filled.store (h : Filled p q events) (c : ι) : ∃ revents, q.store c = { p.store c with revents } := by
  by_cases hc : c ∈ events.map EpollEvent.ptr
  · obtain ⟨e, he, rfl⟩ := List.mem_map.mp hc
    exact ⟨_, h.reported e he⟩
  · exact ⟨(p.store c).revents, h.others c hc⟩

/-- No event, no change. -/
theorem Filled.nil (p : EPollPoller ι) : Filled p p [] :=
  ⟨rfl, rfl, rfl, List.forall_mem_nil _, fun _ _ => rfl⟩

variable [DecidableEq ι]

/-- The events that were stored. -/
theorem store_setRevents_self (c : ι) (revents : BitVec 32) :
    (p.setRevents c revents).store c = { p.store c with revents } := Poller.store_set_self ..

/-- The events of the other channels stay. -/
theorem store_setRevents_of_ne {c d : ι} (h : d ≠ c) (revents : BitVec 32) :
    (p.setRevents c revents).store d = p.store d := Poller.store_set_of_ne h _

/-- The descriptors stay. -/
theorem fd_setRevents (c : ι) (revents : BitVec 32) (d : ι) :
    ((p.setRevents c revents).store d).fd = (p.store d).fd := by
  by_cases hd : d = c
  · rw [hd, store_setRevents_self]
  · rw [store_setRevents_of_ne hd]

/-- One more event, for another channel. -/
theorem Filled.cons {e : EpollEvent ι} (he : e.ptr ∉ events.map EpollEvent.ptr)
    (h : Filled (p.setRevents e.ptr e.events) q events) : Filled p q (e :: events) where
  channels := h.channels
  interest := h.interest
  errors := h.errors
  reported := by
    refine List.forall_mem_cons.mpr ⟨?_, fun e' he' => ?_⟩
    · rw [h.others e.ptr he, store_setRevents_self]
    · have hne : e'.ptr ≠ e.ptr := by
        intro heq
        exact he (heq ▸ List.mem_map_of_mem he')
      rw [h.reported e' he', store_setRevents_of_ne hne]
  others c hc := by
    rw [List.map_cons, List.mem_cons, not_or] at hc
    rw [h.others c hc.2, store_setRevents_of_ne hc.1]

/-- The loop of `fillActiveChannels` reports the events in their order. -/
theorem fillChannel_sat (hmem : ∀ e ∈ events, p.channels.lookup (p.store e.ptr).fd = some e.ptr)
    (hnodup : (events.map EpollEvent.ptr).Nodup) (before : List ι) :
    (events.foldlM fillChannel (p, before)).Sat fun r =>
      r.2 = before ++ events.map EpollEvent.ptr ∧ Filled p r.1 events := by
  induction events generalizing p before with
  | nil => exact .ok ⟨(List.append_nil _).symm, .nil p⟩
  | cons e events ih =>
      rw [List.map_cons, List.nodup_cons] at hnodup
      obtain ⟨hfirst, hrest⟩ := List.forall_mem_cons.mp hmem
      rw [List.foldlM_cons, fillChannel, assert_pos (by simp [hfirst]), Checked.ok_bind, assert_pos hfirst]
      refine (ih (p := p.setRevents e.ptr e.events) (fun e' he' => ?_) hnodup.2 (before ++ [e.ptr])).mono ?_
      · rw [fd_setRevents]
        exact hrest e' he'
      · rintro ⟨q, active⟩ ⟨hactive, hfilled⟩
        refine ⟨?_, hfilled.cons hnodup.1⟩
        rw [hactive, List.append_assoc]
        rfl

/-- `fillActiveChannels` does not concern the mirror. -/
theorem Mirrors.of_filled (h : Mirrors p) (hf : Filled p q events) : Mirrors q := by
  have hfd (c : ι) : (q.store c).fd = (p.store c).fd := by
    obtain ⟨revents, hstore⟩ := hf.store c
    rw [hstore]
  have hchannel (c : ι) : (q.store c).toChannel = (p.store c).toChannel := by
    obtain ⟨revents, hstore⟩ := hf.store c
    rw [hstore]
  have hindex (c : ι) : (q.store c).index = (p.store c).index := by
    obtain ⟨revents, hstore⟩ := hf.store c
    rw [hstore]
  have hstatus (c : ι) : q.status c = p.status c := by
    rw [status, status, hf.channels, hf.interest, hfd]
  constructor
  · intro fd c hc
    rw [hf.channels] at hc
    rw [hfd]
    exact h.keyed fd c hc
  · intro fd e he
    rw [hf.interest] at he
    rw [hf.channels, hchannel]
    exact h.entry fd e he
  · intro c
    rw [hindex, hstatus]
    exact h.index c
  · rw [hf.errors]
    exact h.errors
  · intro c hc
    rw [hstatus] at hc
    rw [hchannel]
    exact h.idle c hc

/-! ### What `epoll_wait` reports -/

section Wait

variable {ready : Int → BitVec 32} {fds : List Int}

omit [DecidableEq ι] in
/-- The events that `epoll_wait` writes. -/
theorem mem_epollEvents {list : EpollList ι} {e : EpollEvent ι} :
    e ∈ epollEvents list ready fds ↔
      ∃ fd ∈ fds, ∃ e', list.lookup fd = some e' ∧ ⟨occurring e'.events (ready fd), e'.ptr⟩ = e := by
  simp only [epollEvents, List.mem_filterMap, Option.map_eq_some_iff]

/-- The descriptors of the channels that are reported are those that `epoll_wait` has found. -/
theorem Mirrors.map_fd_epollEvents (h : Mirrors p) (ready : Int → BitVec 32)
    (hmem : ∀ fd ∈ fds, ∃ e, p.interest.lookup fd = some e) :
    ((epollEvents p.interest ready fds).map EpollEvent.ptr).map (fun c => (p.store c).fd) = fds := by
  induction fds with
  | nil => rfl
  | cons fd fds ih =>
      obtain ⟨⟨e, he⟩, hrest⟩ := List.forall_mem_cons.mp hmem
      have hfd := h.keyed fd e.ptr (h.entry fd e he).1
      rw [epollEvents, List.filterMap_cons_some (by rw [he]; rfl), List.map_cons, List.map_cons]
      exact congrArg₂ List.cons hfd (ih hrest)

/-- Every descriptor reported has a channel. -/
theorem Mirrors.length_epollEvents (h : Mirrors p) {size : Nat} (hwait : EpollWait p.interest size ready fds) :
    ((epollEvents p.interest ready fds).map EpollEvent.ptr).length = fds.length := by
  have hfds := h.map_fd_epollEvents ready fun fd hfd => (hwait.happened fd hfd).imp fun e he => he.1
  have hlength := congrArg List.length hfds
  rwa [List.length_map] at hlength

/-- No channel is reported twice. -/
theorem Mirrors.nodup_epollEvents (h : Mirrors p) {size : Nat} (hwait : EpollWait p.interest size ready fds) :
    ((epollEvents p.interest ready fds).map EpollEvent.ptr).Nodup := by
  have hfds := h.map_fd_epollEvents ready fun fd hfd => (hwait.happened fd hfd).imp fun e he => he.1
  refine List.Nodup.of_map (fun c => (p.store c).fd) ?_
  rw [hfds]
  exact hwait.nodup

end Wait

/-- A channel is in the interest list. -/
def Watched (p : EPollPoller ι) (c : ι) : Prop :=
  c ∈ p.registered ∧ p.interest.lookup (p.store c).fd ≠ none

/-- Something has happened on a channel in the interest list. -/
def Happened (p : EPollPoller ι) (ready : Int → BitVec 32) (c : ι) : Prop :=
  p.Watched c ∧ occurring (p.store c).events (ready (p.store c).fd) ≠ 0

/-- What `poll` has done, with room for `size` events: each channel in `active` is one on which something has
happened, it is there once, and it knows what; and if there was room to spare, all of them are there. -/
structure Delivered (p : EPollPoller ι) (ready : Int → BitVec 32) (size : Nat) (q : EPollPoller ι)
    (active : List ι) : Prop where
  nodup : active.Nodup
  happened : ∀ c ∈ active, p.Happened ready c ∧
    q.store c = { p.store c with revents := occurring (p.store c).events (ready (p.store c).fd) }
  others : ∀ c ∉ active, q.store c = p.store c
  all : active.length < size → ∀ c, p.Happened ready c → c ∈ active

/-- An event of `epoll_wait` is one of a channel in the interest list. -/
theorem Mirrors.of_mem_epollEvents (h : Mirrors p) {ready : Int → BitVec 32} {size : Nat} {fds : List Int}
    (hwait : EpollWait p.interest size ready fds) {e : EpollEvent ι} (he : e ∈ epollEvents p.interest ready fds) :
    p.channels.lookup (p.store e.ptr).fd = some e.ptr ∧ p.Happened ready e.ptr ∧
      e.events = occurring (p.store e.ptr).events (ready (p.store e.ptr).fd) := by
  obtain ⟨fd, hfd, e', he', rfl⟩ := mem_epollEvents.mp he
  obtain ⟨hchannel, hevents⟩ := h.entry fd e' he'
  obtain ⟨e'', he'', hne⟩ := hwait.happened fd hfd
  cases he'.symm.trans he''
  have hptr := h.keyed fd _ hchannel
  dsimp only
  unfold Happened Watched
  rw [hptr, ← hevents, he']
  exact ⟨hchannel, ⟨⟨⟨fd, hchannel⟩, Option.some_ne_none _⟩, hne⟩, rfl⟩

/-- What is filled in is delivered. -/
theorem Mirrors.delivered (h : Mirrors p) {ready : Int → BitVec 32} {size : Nat} {fds : List Int}
    (hwait : EpollWait p.interest size ready fds) (hfilled : Filled p q (epollEvents p.interest ready fds)) :
    Delivered p ready size q ((epollEvents p.interest ready fds).map EpollEvent.ptr) := by
  refine ⟨h.nodup_epollEvents hwait, fun c hc => ?_, hfilled.others, fun hlt c hc => ?_⟩
  · obtain ⟨e, he, rfl⟩ := List.mem_map.mp hc
    obtain ⟨-, hhappened, hevents⟩ := h.of_mem_epollEvents hwait he
    rw [← hevents]
    exact ⟨hhappened, hfilled.reported e he⟩
  · obtain ⟨⟨hregistered, hinterest⟩, hne⟩ := hc
    obtain ⟨e, he⟩ := Option.ne_none_iff_exists'.mp hinterest
    obtain ⟨hchannel, hevents⟩ := h.entry _ e he
    obtain rfl : e.ptr = c := Option.some.inj (hchannel.symm.trans (h.keyed.lookup hregistered))
    rw [h.length_epollEvents hwait] at hlt
    have hfd := hwait.all hlt _ e he (hevents ▸ hne)
    exact List.mem_map.mpr ⟨_, mem_epollEvents.mpr ⟨_, hfd, e, he, rfl⟩, rfl⟩

end EPollPoller

namespace EPollState

open EPollPoller

variable {ι : Type} [DecidableEq ι] {s t : EPollState ι}

/-- What holds between two steps. -/
structure Inv (s : EPollState ι) : Prop where
  mirrors : s.poller.Mirrors
  size : s.size = kInitEventListSize * 2 ^ s.filled
  bound : s.size ≤ max kInitEventListSize (2 * s.peak)

/-- `poll` hands on the events, and doubles `events_` if they have filled it. -/
theorem poll_sat {events : List (EpollEvent ι)} (hsize : 0 < s.size) (hle : events.length ≤ s.size)
    (hmem : ∀ e ∈ events, s.poller.channels.lookup (s.poller.store e.ptr).fd = some e.ptr)
    (hnodup : (events.map EpollEvent.ptr).Nodup) :
    (s.poll (.ok events)).Sat fun t => t.activeChannels = events.map EpollEvent.ptr ∧
      Filled s.poller t.poller events ∧ t.peak = max s.peak s.poller.interest.keys.card ∧
      if events.length = s.size then t.size = s.size * 2 ∧ t.filled = s.filled + 1
      else t.size = s.size ∧ t.filled = s.filled := by
  unfold poll
  cases events with
  | nil =>
      have hne : ¬ ([] : List (EpollEvent ι)).length = s.size := hsize.ne
      refine .ok ⟨rfl, .nil _, rfl, ?_⟩
      rw [if_neg hne]
      exact ⟨rfl, rfl⟩
  | cons e events =>
      have hpos : 0 < (e :: events).length := Nat.zero_lt_succ _
      dsimp only
      rw [if_pos hpos, fillActiveChannels, assert_pos hle, Checked.ok_bind]
      refine (fillChannel_sat hmem hnodup []).bind ?_
      rintro ⟨poller, active⟩ ⟨hactive, hfilled⟩
      split
      · exact .ok ⟨hactive, hfilled, rfl, rfl, rfl⟩
      · exact .ok ⟨hactive, hfilled, rfl, rfl, rfl⟩

/-- A failing `epoll_wait` changes nothing but the log. -/
theorem poll_error_sat (s : EPollState ι) (errno : Int) : (s.poll (.error errno)).Sat fun t =>
    t.activeChannels = [] ∧ t.poller = s.poller ∧ t.size = s.size ∧ t.filled = s.filled ∧
      t.peak = max s.peak s.poller.interest.keys.card ∧
      t.logged = if errno = eINTR then s.logged else s.logged ++ [errno] := by
  unfold poll
  dsimp only
  by_cases heintr : errno = eINTR
  · rw [if_neg (not_not.mpr heintr), if_pos heintr]
    exact .ok ⟨rfl, rfl, rfl, rfl, rfl, rfl⟩
  · rw [if_pos heintr, if_neg heintr]
    exact .ok ⟨rfl, rfl, rfl, rfl, rfl, rfl⟩

/-- `poll`, for an answer of `epoll_wait`. -/
theorem poll_delivered (h : Mirrors s.poller) (hsize : 0 < s.size) {ready : Int → BitVec 32} {fds : List Int}
    (hwait : EpollWait s.poller.interest s.size ready fds) :
    (s.exec (.poll ready fds)).Sat fun t =>
      Mirrors t.poller ∧ Delivered s.poller ready s.size t.poller t.activeChannels ∧
      t.activeChannels.length = fds.length ∧ t.peak = max s.peak s.poller.interest.keys.card ∧
      if fds.length = s.size then t.size = s.size * 2 ∧ t.filled = s.filled + 1
      else t.size = s.size ∧ t.filled = s.filled := by
  have hlength := h.length_epollEvents hwait
  rw [List.length_map] at hlength
  refine (poll_sat hsize (hlength ▸ hwait.length_le) (fun e he => (h.of_mem_epollEvents hwait he).1)
    (h.nodup_epollEvents hwait)).mono ?_
  rintro t ⟨hactive, hfilled, hpeak, hresize⟩
  rw [hlength] at hresize
  rw [hactive]
  exact ⟨h.of_filled hfilled, h.delivered hwait hfilled, h.length_epollEvents hwait, hpeak, hresize⟩

namespace Inv

/-- There is always room for an event. -/
theorem size_pos (h : Inv s) : 0 < s.size := by
  rw [h.size]
  exact Nat.mul_pos (by decide) (Nat.two_pow_pos _)

/-- `poll` keeps what holds, for an answer of `epoll_wait`. -/
theorem poll (h : Inv s) {ready : Int → BitVec 32} {fds : List Int}
    (hwait : EpollWait s.poller.interest s.size ready fds) :
    (s.exec (.poll ready fds)).Sat fun t =>
      Inv t ∧ Delivered s.poller ready s.size t.poller t.activeChannels := by
  refine (poll_delivered h.mirrors h.size_pos hwait).mono ?_
  rintro t ⟨hmirrors, hdelivered, -, hpeak, hresize⟩
  refine ⟨⟨hmirrors, ?_, ?_⟩, hdelivered⟩
  · split at hresize
    · rw [hresize.1, hresize.2, h.size, pow_succ, Nat.mul_assoc]
    · rw [hresize.1, hresize.2]
      exact h.size
  · have hbound := h.bound
    have hcard := hwait.length_le_card
    split at hresize
    · omega
    · omega

/-- **One step.** -/
theorem step (h : Inv s) (a : EPollStep ι) (ha : s.Enabled a) : (s.exec a).Sat Inv := by
  cases a with
  | call call =>
      exact (h.mirrors.step call ha).bind fun poller hpoller => .ok ⟨hpoller, h.size, h.bound⟩
  | poll ready fds => exact (h.poll ha).mono fun t ht => ht.1
  | failedPoll errno =>
      refine (poll_error_sat s errno).mono ?_
      rintro t ⟨-, hpoller, hsize, hfilled, hpeak, -⟩
      have hbound := h.bound
      exact ⟨hpoller ▸ h.mirrors, by rw [hsize, hfilled]; exact h.size, by omega⟩

/-- **Whole runs.** -/
theorem of_reachable (hs : (ePolling ι).Reachable s) : Inv s ∧ (ePolling ι).Safe s := by
  refine Machine.invariant ?_ (fun _ a h => h.step a) hs
  rintro _ ⟨fd, rfl⟩
  exact ⟨.new fd, rfl, le_max_left _ _⟩

end Inv

/-- **What `EPollPoller::poll` reports.** In every state that calls on channels and calls of `poll` can lead to, and
whatever is the case on the descriptors: `poll` reports channels that are registered and in the interest list, each
once, with exactly what has happened on it, which is not nothing; it reports all of them unless `events_` is filled;
the other channels are left alone. When `epoll_wait` fails nothing is reported and nothing changes, and the error is
logged unless it is `EINTR`. `events_` is doubled at most so often that it is never longer than twice the largest
interest list at a call of `poll`, or than it was at the start. -/
theorem poll_delivers (hs : (ePolling ι).Reachable s) :
    (∀ ready fds, EpollWait s.poller.interest s.size ready fds →
      ∃ t, s.exec (.poll ready fds) = .ok t ∧
        Delivered s.poller ready s.size t.poller t.activeChannels) ∧
    (∀ errno, ∃ t, s.exec (.failedPoll errno) = .ok t ∧
      t.activeChannels = [] ∧ t.poller = s.poller ∧ t.size = s.size ∧
      t.logged = if errno = eINTR then s.logged else s.logged ++ [errno]) ∧
    s.size = kInitEventListSize * 2 ^ s.filled ∧
    s.size ≤ max kInitEventListSize (2 * s.peak) ∧
    (ePolling ι).Safe s := by
  obtain ⟨h, hsafe⟩ := Inv.of_reachable hs
  refine ⟨fun ready fds hwait => ?_, fun errno => ?_, h.size, h.bound, hsafe⟩
  · obtain ⟨t, ht, -, hdelivered⟩ := h.poll hwait
    exact ⟨t, ht, hdelivered⟩
  · obtain ⟨t, ht, hactive, hpoller, hsize, -, -, hlogged⟩ := poll_error_sat s errno
    exact ⟨t, ht, hactive, hpoller, hsize, hlogged⟩

/-- A poller whose only channel waits for something to read. -/
def reading : EPollState Unit :=
  { new fun _ => 0 with poller := .single Channel.new.enableReading kAdded (Finmap.singleton 0 ⟨3, ()⟩) }

/-- A channel that can be read is reported. -/
theorem poll_delivers_reading :
    ∃ t, reading.exec (.poll (fun _ => POLLIN) [0]) = .ok t ∧
      Delivered reading.poller (fun _ => POLLIN) reading.size t.poller t.activeChannels := by
  have hnew : (ePolling Unit).Reachable (new fun _ => 0) := .of_init ⟨fun _ => 0, rfl⟩
  have hreading : (ePolling Unit).Reachable reading :=
    hnew.step (a := .call (.update () .enableReading)) (fun _ _ _ => rfl) rfl
  have hlookup : reading.poller.interest.lookup 0 = some ⟨3, ()⟩ := rfl
  refine (poll_delivers hreading).1 _ _ ⟨List.nodup_singleton _, by decide, ?_, ?_⟩
  · intro fd hfd
    rw [List.mem_singleton.mp hfd]
    exact ⟨_, hlookup, by decide⟩
  · intro _ fd e he _
    have hmem := Finmap.mem_of_lookup_eq_some he
    rw [show reading.poller.interest = Finmap.singleton 0 ⟨3, ()⟩ from rfl, Finmap.mem_singleton] at hmem
    exact List.mem_singleton.mpr hmem

end EPollState

end Muduo.Net
