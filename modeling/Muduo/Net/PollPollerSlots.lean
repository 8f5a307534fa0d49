import Muduo.Net.PollPoller
import Muduo.Support.SlotTable

/-! # The entries of the poller

`PollInv` is the representation invariant of `PollPoller`; its core is a `SlotTable`: the channels in
`channels_` and the entries of `pollfds_` correspond to each other through `index()`. It is kept by updates
and removals. `pollPoller_represents` says that it holds along every run, that a removal touches nobody else,
and that `fillActiveChannels` reports exactly the channels on which something happened. -/

namespace Muduo.Net

open Support

/-! ## The invariant -/

/-- An entry that can stand for a channel: it has the descriptor, or the one that means to ignore it, and
the events the channel watches. -/
def PollPoller.Fits {ι : Type} (p : PollPoller ι) (c : ι) (pfd : PollFd) : Prop :=
  (pfd.fd = (p.store c).fd ∨ pfd.fd = -(p.store c).fd - 1) ∧
    pfd.events.signExtend 32 = (p.store c).events

/-- The representation invariant of `PollPoller`. -/
structure PollInv {ι : Type} (p : PollPoller ι) : Prop where
  keyed : p.toPoller.Keyed
  size : p.channels.keys.card = p.pollfds.length
  fd_nonneg : ∀ c ∈ p.registered, 0 ≤ (p.store c).fd
  index_nonneg : ∀ c ∈ p.registered, 0 ≤ (p.store c).index
  /-- The channels and the entries correspond to each other. -/
  table : SlotTable p.registered (fun c => (p.store c).index.toNat) p.pollfds p.Fits
  narrow : ∀ c, (p.store c).Narrow

namespace PollInv

open PollPoller

variable {ι : Type} {p : PollPoller ι} {c d : ι}

/-- The invariant holds at the start. -/
theorem new (fd : ι → Int) : PollInv (PollPoller.new fd) := by
  have hnone : (PollPoller.new fd).registered = ∅ := by
    ext c
    constructor
    · rintro ⟨fd, hfd⟩
      cases hfd
    · intro hc
      cases hc
  constructor
  · intro fd c hc
    cases hc
  · rfl
  · simp [hnone]
  · simp [hnone]
  · rw [hnone]
    exact SlotTable.empty _ _
  · intro c
    exact Channel.narrow_new

/-- The position of a channel is inside `pollfds_`. -/
theorem index_lt (h : PollInv p) (hc : c ∈ p.registered) : (p.store c).index < p.pollfds.length := by
  have hpos := h.table.pos_lt hc
  have hnonneg := h.index_nonneg c hc
  omega

/-- A registered channel finds its entry. -/
theorem getElem?_slot (h : PollInv p) (hc : c ∈ p.registered) :
    p.pollfds[(p.store c).index.toNat]? = some (p.slot c) := by
  obtain ⟨pfd, hpfd, -⟩ := h.table.fits c hc
  rw [hpfd, slot, pollfdAt, List.getD_eq_getElem?_getD, hpfd]
  rfl

/-- The entry of a channel fits it. -/
theorem fits_slot (h : PollInv p) (hc : c ∈ p.registered) : p.Fits c (p.slot c) := by
  obtain ⟨pfd, hpfd, hfits⟩ := h.table.fits c hc
  rw [h.getElem?_slot hc] at hpfd
  cases hpfd
  exact hfits

/-- Every channel has its own entry. -/
theorem slots (h : PollInv p) : SlotTable p.registered (fun c => (p.store c).index.toNat) p.pollfds
    fun c pfd => pfd = p.slot c where
  fits := by
    intro c hc
    exact ⟨_, h.getElem?_slot hc, rfl⟩
  onto := h.table.onto
  inj := h.table.inj

/-- A `short` keeps the events of a channel. -/
theorem signExtend_events (h : PollInv p) (c : ι) (op : ChannelOp) :
    ((op.apply (p.store c).toChannel).events.setWidth 16).signExtend 32
      = (op.apply (p.store c).toChannel).events := op.narrow_apply (h.narrow c)

variable [DecidableEq ι]

/-! ## A channel is updated -/

/-- The entry that an update writes for a channel that has one. -/
def entry (ch : PolledChannel) : PollFd :=
  { fd := if ch.isNoneEvent then -ch.fd - 1 else ch.fd, events := ch.events.setWidth 16, revents := 0 }

/-- `updateChannel` on a channel that has an entry. -/
theorem updateChannel_eq {q : PollPoller ι} (hlookup : q.channels.lookup (q.store c).fd = some c)
    (hindex : 0 ≤ (q.store c).index) (hlt : (q.store c).index < q.pollfds.length)
    (hfd : (q.slot c).fd = (q.store c).fd ∨ (q.slot c).fd = -(q.store c).fd - 1) :
    q.updateChannel c
      = .ok { q with pollfds := q.pollfds.set (q.store c).index.toNat (entry (q.store c)) } := by
  have hne : q.channels.lookup (q.store c).fd ≠ none := by simp [hlookup]
  rw [slot] at hfd
  unfold updateChannel
  dsimp only
  rw [if_neg (by omega), assert_pos hne, Checked.ok_bind, assert_pos hlookup, Checked.ok_bind,
    assertIndex, assert_pos ⟨hindex, hlt⟩, Checked.ok_bind, assert_pos hfd]
  rfl

/-- `updateChannel` on a channel that has no entry. -/
theorem updateChannel_new {q : PollPoller ι} (hindex : (q.store c).index < 0)
    (hfree : q.channels.lookup (q.store c).fd = none) :
    q.updateChannel c = .ok { q with
      toPoller :=
        { q.toPoller.setIndex c q.pollfds.length with channels := q.channels.insert (q.store c).fd c }
      pollfds := q.pollfds ++ [⟨(q.store c).fd, (q.store c).events.setWidth 16, 0⟩] } := by
  unfold updateChannel
  dsimp only
  rw [if_pos hindex, assert_pos hfree, Checked.ok_bind]
  simp

/-- `updateChannel` on a channel that has an index and is not in `channels_`, as after a removal. -/
theorem updateChannel_removed {q : PollPoller ι} (hindex : 0 ≤ (q.store c).index)
    (hnone : q.channels.lookup (q.store c).fd = none) :
    q.updateChannel c = .error "channels_.find(channel->fd()) != channels_.end()" := by
  unfold updateChannel
  dsimp only
  rw [if_neg (by omega), assert_neg (not_not_intro hnone)]
  rfl

/-- An operation on a removed channel that still has an index fails. -/
theorem call_update_removed (hindex : 0 ≤ (p.store c).index)
    (hnone : p.channels.lookup (p.store c).fd = none) (op : ChannelOp) :
    p.call (.update c op) = .error "channels_.find(channel->fd()) != channels_.end()" := by
  have hself : (p.toPoller.apply c op).store c = _ := Poller.store_set_self ..
  apply updateChannel_removed
  · rw [hself]
    exact hindex
  · rw [hself]
    exact hnone

/-- What an operation on a channel does. -/
structure Updated (p : PollPoller ι) (c : ι) (op : ChannelOp) (q : PollPoller ι) : Prop where
  inv : PollInv q
  registered : q.registered = insert c p.registered
  toChannel : (q.store c).toChannel = op.apply (p.store c).toChannel
  fd : (q.store c).fd = (p.store c).fd
  store_of_ne : ∀ d ≠ c, q.store d = p.store d
  slot_of_ne : ∀ d ∈ p.registered, d ≠ c → q.slot d = p.slot d

/-- A channel in `channels_` is updated in place. -/
theorem call_update (h : PollInv p) (hc : c ∈ p.registered) (op : ChannelOp) :
    (p.call (.update c op)).Sat fun q => Updated p c op q ∧ q.slot c = entry (q.store c) := by
  set q : PollPoller ι := { p with toPoller := p.toPoller.apply c op } with hq
  have hself : q.store c = { p.store c with toChannel := op.apply (p.store c).toChannel } :=
    Poller.store_set_self ..
  have hother : ∀ d ≠ c, q.store d = p.store d := fun d hd => Poller.store_set_of_ne hd _
  have hindex : ∀ d, (q.store d).index = (p.store d).index := Poller.index_set rfl
  have hfd : ∀ d, (q.store d).fd = (p.store d).fd := Poller.fd_set rfl
  have hslot : q.slot c = p.slot c := by
    rw [slot, hindex]
    rfl
  have heq : p.call (.update c op) = .ok { q with
      pollfds := p.pollfds.set (p.store c).index.toNat (entry (q.store c)) } := by
    rw [← hindex]
    apply updateChannel_eq
    · rw [hfd]
      exact h.keyed.lookup hc
    · rw [hindex]
      exact h.index_nonneg c hc
    · rw [hindex]
      exact h.index_lt hc
    · rw [hslot, hfd]
      exact (h.fits_slot hc).1
  refine ⟨_, heq, ⟨?_, ?_, ?_, hfd c, hother, ?_⟩, ?_⟩
  · constructor
    · exact h.keyed.set rfl
    · rw [List.length_set]
      exact h.size
    · intro d hd
      rw [hfd]
      exact h.fd_nonneg d hd
    · intro d hd
      rw [hindex]
      exact h.index_nonneg d hd
    · refine (h.table.set (Q := q.Fits) hc ⟨?_, ?_⟩ ?_).congr (fun d _ => by rw [hindex]) fun _ _ _ => id
      · rw [hfd, entry, hfd]
        split
        · exact .inr rfl
        · exact .inl rfl
      · rw [entry, hself]
        exact h.signExtend_events c op
      · intro d _ hd pfd hfits
        rw [Fits, hother d hd]
        exact hfits
    · exact Poller.forall_set h.narrow (op.narrow_apply (h.narrow c))
  · exact (Set.insert_eq_of_mem hc).symm
  · rw [hself]
  · intro d hd hdc
    have hne : (p.store c).index.toNat ≠ (p.store d).index.toNat :=
      fun heq => hdc (h.table.inj hd hc heq.symm)
    show (p.pollfds.set _ _).getD (q.store d).index.toNat default = _
    rw [hindex, List.getD_eq_getElem?_getD, List.getElem?_set_ne hne, h.getElem?_slot hd]
    rfl
  · show (p.pollfds.set _ _).getD (q.store c).index.toNat default = _
    rw [hindex, List.getD_eq_getElem?_getD, List.getElem?_set_self (h.table.pos_lt hc)]
    rfl

/-- `updateChannel` gives a new channel an entry at the end. -/
theorem call_new_eq (hnew : (p.store c).index < 0)
    (hfree : p.channels.lookup (p.store c).fd = none) (op : ChannelOp) :
    (p.call (.update c op)).Sat fun q =>
      q.store c = { p.store c with
        toChannel := op.apply (p.store c).toChannel, index := p.pollfds.length } ∧
      (∀ d ≠ c, q.store d = p.store d) ∧ q.channels = p.channels.insert (p.store c).fd c ∧
      q.pollfds = p.pollfds ++
        [⟨(p.store c).fd, (op.apply (p.store c).toChannel).events.setWidth 16, 0⟩] := by
  set q : PollPoller ι := { p with toPoller := p.toPoller.apply c op }
  have hself : q.store c = { p.store c with toChannel := op.apply (p.store c).toChannel } :=
    Poller.store_set_self ..
  have heq : p.call (.update c op) = _ :=
    updateChannel_new (q := q) (by rwa [hself]) (by rwa [hself])
  refine ⟨_, heq, ?_, ?_, ?_, ?_⟩
  · refine (Poller.store_set_self ..).trans ?_
    rw [hself]
  · intro d hd
    exact (Poller.store_set_of_ne hd _).trans (Poller.store_set_of_ne hd _)
  · rw [hself]
    rfl
  · rw [hself]

/-- A channel that has never been registered gets an entry at the end. -/
theorem call_update_new (h : PollInv p) (hnew : (p.store c).index < 0) (hpos : 0 ≤ (p.store c).fd)
    (hfree : ∀ d ∈ p.registered, (p.store d).fd ≠ (p.store c).fd) (op : ChannelOp) :
    (p.call (.update c op)).Sat fun q => Updated p c op q ∧ (q.slot c).fd = (p.store c).fd := by
  have hlookup : p.channels.lookup (p.store c).fd = none := by
    rw [Option.eq_none_iff_forall_ne_some]
    intro d hd
    exact hfree d ⟨_, hd⟩ (h.keyed _ d hd)
  have hc : c ∉ p.registered := fun hc => hfree c hc rfl
  refine (call_new_eq hnew hlookup op).mono fun q hq => ?_
  obtain ⟨hself, hother, hchannels, hpollfds⟩ := hq
  have hreg : q.registered = insert c p.registered := by
    rw [← Poller.registered_insert hlookup, Poller.registered, hchannels]
    rfl
  have hne : ∀ d ∈ p.registered, d ≠ c := fun d hd hdc => hc (hdc ▸ hd)
  have hslot : q.slot c
      = ⟨(p.store c).fd, (op.apply (p.store c).toChannel).events.setWidth 16, 0⟩ := by
    rw [slot, pollfdAt, hself, hpollfds, List.getD_eq_getElem?_getD]
    simp
  refine ⟨⟨?_, hreg, ?_, ?_, hother, ?_⟩, ?_⟩
  · constructor
    · intro fd d hd
      rw [hchannels] at hd
      by_cases hfd : fd = (p.store c).fd
      · rw [hfd, Finmap.lookup_insert] at hd
        cases hd
        rw [hself, hfd]
      · rw [Finmap.lookup_insert_of_ne _ hfd] at hd
        rw [hother d (hne d ⟨fd, hd⟩)]
        exact h.keyed fd d hd
    · have hkeys : q.channels.keys = insert (p.store c).fd p.channels.keys := by
        ext fd
        rw [hchannels, Finmap.mem_keys, Finmap.mem_insert, Finset.mem_insert, Finmap.mem_keys]
      rw [hkeys, Finset.card_insert_of_notMem, h.size, hpollfds, List.length_append,
        List.length_singleton]
      rw [Finmap.mem_keys, ← Finmap.lookup_eq_none]
      exact hlookup
    · rw [hreg]
      rintro d (rfl | hd)
      · rw [hself]
        exact hpos
      · rw [hother d (hne d hd)]
        exact h.fd_nonneg d hd
    · rw [hreg]
      rintro d (rfl | hd)
      · rw [hself]
        exact Int.natCast_nonneg _
      · rw [hother d (hne d hd)]
        exact h.index_nonneg d hd
    · rw [hreg, hpollfds]
      refine SlotTable.push (h.table.congr (fun _ _ => rfl) ?_) hc ⟨.inl ?_, ?_⟩ ?_ ?_
      · intro d hd pfd hfits
        rw [Fits, hother d (hne d hd)]
        exact hfits
      · rw [hself]
      · rw [hself]
        exact h.signExtend_events c op
      · rw [hself]
        rfl
      · intro d hd
        rw [hother d (hne d hd)]
    · intro d
      by_cases hd : d = c
      · rw [hd, hself]
        exact op.narrow_apply (h.narrow c)
      · rw [hother d hd]
        exact h.narrow d
  · rw [hself]
  · rw [hself]
  · intro d hd hdc
    rw [slot, pollfdAt, hother d hdc, hpollfds, List.getD_eq_getElem?_getD,
      List.getElem?_append_left (h.table.pos_lt hd), h.getElem?_slot hd]
    rfl
  · rw [hslot]

/-! ## A channel is removed -/

/-- The part of `removeChannel` that both ends share: the assertions hold. -/
theorem removeChannel_eq {q : PollPoller ι} (hlookup : q.channels.lookup (q.store c).fd = some c)
    (hnone : (q.store c).isNoneEvent = true) (hindex : 0 ≤ (q.store c).index)
    (hlt : (q.store c).index < q.pollfds.length) (hfd : (q.slot c).fd = -(q.store c).fd - 1)
    (hevents : (q.slot c).events.signExtend 32 = (q.store c).events) :
    q.removeChannel c =
      if (q.store c).index = q.pollfds.length - 1 then
        .ok { q with channels := q.channels.erase (q.store c).fd, pollfds := q.pollfds.dropLast }
      else
        let last := (q.pollfdAt (q.pollfds.length - 1)).fd
        match (q.channels.erase (q.store c).fd).lookup (if last < 0 then -last - 1 else last) with
        | none => .error "channels_[channelAtEnd]"
        | some moved => .ok { q.toPoller.setIndex moved (q.store c).index with
            channels := q.channels.erase (q.store c).fd
            pollfds := (q.swapWithLast (q.store c).index).dropLast } := by
  have hne : q.channels.lookup (q.store c).fd ≠ none := by simp [hlookup]
  rw [slot] at hfd hevents
  unfold removeChannel
  dsimp only
  rw [assert_pos hne, Checked.ok_bind, assert_pos hlookup, Checked.ok_bind, assert_pos hnone,
    Checked.ok_bind, assertIndex, assert_pos ⟨hindex, hlt⟩, Checked.ok_bind, assert_pos ⟨hfd, hevents⟩,
    Checked.ok_bind, if_neg hne, assert_pos rfl, Checked.ok_bind]
  rfl

/-- `removeChannel` on a channel whose entry is not ignored. -/
theorem removeChannel_watched {q : PollPoller ι} (hlookup : q.channels.lookup (q.store c).fd = some c)
    (hnone : (q.store c).isNoneEvent = true) (hindex : 0 ≤ (q.store c).index)
    (hlt : (q.store c).index < q.pollfds.length) (hfd : (q.slot c).fd ≠ -(q.store c).fd - 1) :
    q.removeChannel c =
      .error "pfd.fd == -channel->fd()-1 && pfd.events == channel->events()" := by
  have hne : q.channels.lookup (q.store c).fd ≠ none := by simp [hlookup]
  rw [slot] at hfd
  unfold removeChannel
  dsimp only
  rw [assert_pos hne, Checked.ok_bind, assert_pos hlookup, Checked.ok_bind, assert_pos hnone,
    Checked.ok_bind, assertIndex, assert_pos ⟨hindex, hlt⟩, Checked.ok_bind,
    assert_neg fun h => hfd h.1]
  rfl

omit [DecidableEq ι] in
/-- The swap with the last entry and the pop are one removal. -/
theorem dropLast_swapWithLast (p : PollPoller ι) {idx : Int} (hidx : idx.toNat < p.pollfds.length) :
    (p.swapWithLast idx).dropLast = swapRemove p.pollfds idx.toNat := by
  have hlast : p.pollfds.getLast? = some (p.pollfdAt (p.pollfds.length - 1 : Nat)) := by
    rw [List.getLast?_eq_getElem?, pollfdAt, Int.toNat_natCast, List.getD_eq_getElem?_getD,
      List.getElem?_eq_getElem (by omega)]
    rfl
  rw [swapWithLast, swapRemove, hlast]
  have hset := dropLast_set_last (p.pollfds.set idx.toNat (p.pollfdAt (p.pollfds.length - 1 : Nat)))
    (p.pollfdAt idx)
  rw [List.length_set] at hset
  exact hset

omit [DecidableEq ι] in
/-- The descriptor of the last entry, whether or not it is ignored, is the one of its channel. -/
theorem channelAtEnd_eq (h : PollInv p) (hd : d ∈ p.registered)
    (hlast : (p.store d).index = p.pollfds.length - 1) :
    (if (p.pollfdAt (p.pollfds.length - 1)).fd < 0 then -(p.pollfdAt (p.pollfds.length - 1)).fd - 1
      else (p.pollfdAt (p.pollfds.length - 1)).fd) = (p.store d).fd := by
  have hfits := (h.fits_slot hd).1
  have hnonneg := h.fd_nonneg d hd
  rw [slot, hlast] at hfits
  split <;> omega

/-- What the removal of a channel does. -/
structure Removed (p : PollPoller ι) (c : ι) (q : PollPoller ι) : Prop where
  inv : PollInv q
  registered : q.registered = p.registered \ {c}
  fd : ∀ d, (q.store d).fd = (p.store d).fd
  events : ∀ d, (q.store d).events = (p.store d).events
  slot_of_ne : ∀ d ∈ p.registered, d ≠ c → q.slot d = p.slot d
  /-- The removed channel has an index, too: it is not reset. -/
  index_nonneg : ∀ d ∈ p.registered, 0 ≤ (q.store d).index
  index_of_notMem : ∀ d ∉ p.registered, (q.store d).index = (p.store d).index

omit [DecidableEq ι] in
/-- A channel is removed when it leaves `channels_` and every other one keeps its entry. -/
theorem removed_of_slots (h : PollInv p) (hc : c ∈ p.registered) {q : PollPoller ι}
    (hchannels : q.channels = p.channels.erase (p.store c).fd)
    (hfd : ∀ d, (q.store d).fd = (p.store d).fd)
    (hevents : ∀ d, (q.store d).events = (p.store d).events)
    (hindex : ∀ d ∈ p.registered, 0 ≤ (q.store d).index)
    (hindex' : ∀ d ∉ p.registered, (q.store d).index = (p.store d).index)
    (hlen : q.pollfds.length = p.pollfds.length - 1)
    (hslots : SlotTable (p.registered \ {c}) (fun d => (q.store d).index.toNat) q.pollfds
      fun d pfd => pfd = p.slot d) : Removed p c q := by
  have hreg : q.registered = p.registered \ {c} := by
    rw [← Poller.registered_erase h.keyed hc, Poller.registered, hchannels]
    rfl
  have hslot : ∀ d ∈ p.registered, d ≠ c → q.slot d = p.slot d := by
    intro d hd hdc
    obtain ⟨pfd, hpfd, rfl⟩ := hslots.fits d ⟨hd, hdc⟩
    rw [slot, pollfdAt, List.getD_eq_getElem?_getD, hpfd]
    rfl
  refine ⟨?_, hreg, hfd, hevents, hslot, hindex, hindex'⟩
  constructor
  · intro fd d hd
    rw [hfd]
    rw [hchannels] at hd
    by_cases hkey : fd = (p.store c).fd
    · rw [hkey, Finmap.lookup_erase] at hd
      cases hd
    · rw [Finmap.lookup_erase_ne hkey] at hd
      exact h.keyed fd d hd
  · have hmem : (p.store c).fd ∈ p.channels.keys := by
      rw [Finmap.mem_keys]
      exact Finmap.mem_of_lookup_eq_some (h.keyed.lookup hc)
    rw [hchannels, Finmap.keys_erase, Finset.card_erase_of_mem hmem, h.size, hlen]
  · rw [hreg]
    intro d hd
    rw [hfd]
    exact h.fd_nonneg d hd.1
  · rw [hreg]
    intro d hd
    exact hindex d hd.1
  · rw [hreg]
    refine hslots.congr (fun _ _ => rfl) ?_
    rintro d hd _ rfl
    rw [Fits, hfd, hevents]
    exact h.fits_slot hd.1
  · intro d
    rw [Channel.Narrow, hevents]
    exact h.narrow d

/-- Two pollers that differ only in what a poller does not look at. -/
structure SameSlots (p q : PollPoller ι) : Prop where
  channels : q.channels = p.channels
  pollfds : q.pollfds = p.pollfds
  fd : ∀ d, (q.store d).fd = (p.store d).fd
  events : ∀ d, (q.store d).events = (p.store d).events
  index : ∀ d, (q.store d).index = (p.store d).index

omit [DecidableEq ι] in
/-- The same entry for a channel. -/
theorem SameSlots.slot {q : PollPoller ι} (hq : SameSlots p q) (c : ι) : q.slot c = p.slot c := by
  rw [PollPoller.slot, PollPoller.slot, pollfdAt, pollfdAt, hq.index, hq.pollfds]

omit [DecidableEq ι] in
/-- A registered channel is found in both. -/
theorem SameSlots.find {q : PollPoller ι} (hq : SameSlots p q) (h : PollInv p) (hc : c ∈ p.registered) :
    q.channels.lookup (q.store c).fd = some c ∧ 0 ≤ (q.store c).index ∧
      (q.store c).index < q.pollfds.length := by
  rw [hq.channels, hq.fd, hq.index, hq.pollfds]
  exact ⟨h.keyed.lookup hc, h.index_nonneg c hc, h.index_lt hc⟩

omit [DecidableEq ι] in
/-- The same interest in both. -/
theorem SameSlots.isNoneEvent {q : PollPoller ι} (hq : SameSlots p q) (c : ι) :
    (q.store c).isNoneEvent = (p.store c).isNoneEvent := by
  rw [Channel.isNoneEvent, hq.events]
  rfl

/-- `Channel::remove()` resets a flag of the channel. -/
theorem SameSlots.removing (p : PollPoller ι) (c : ι) :
    SameSlots p { p with toPoller := p.toPoller.set c { p.store c with addedToLoop := false } } where
  channels := rfl
  pollfds := rfl
  fd := Poller.fd_set rfl
  index := Poller.index_set rfl
  events d := by
    show ((p.toPoller.set c { p.store c with addedToLoop := false }).store d).events = _
    by_cases hd : d = c
    · rw [hd, Poller.store_set_self]
    · rw [Poller.store_set_of_ne hd]

/-- The call of `remove` is `removeChannel` on the same slots. -/
theorem call_remove_eq (hnone : (p.store c).isNoneEvent = true) :
    ∃ q, SameSlots p q ∧ p.call (.remove c) = q.removeChannel c := by
  refine ⟨_, .removing p c, ?_⟩
  rw [call, Poller.beginRemove_eq hnone, Checked.ok_bind]

/-- A channel whose entry is not ignored cannot be removed. -/
theorem call_remove_watched (h : PollInv p) (hc : c ∈ p.registered)
    (hnone : (p.store c).isNoneEvent = true) (hwatched : (p.slot c).fd ≠ -(p.store c).fd - 1) :
    p.call (.remove c) =
      .error "pfd.fd == -channel->fd()-1 && pfd.events == channel->events()" := by
  obtain ⟨q, hq, hcall⟩ := call_remove_eq hnone
  obtain ⟨hlookup, hnonneg, hlt⟩ := hq.find h hc
  rw [← hq.slot, ← hq.fd] at hwatched
  rw [← hq.isNoneEvent] at hnone
  rw [hcall, removeChannel_watched hlookup hnone hnonneg hlt hwatched]

omit [DecidableEq ι] in
/-- The channel of the last entry is removed. -/
theorem removed_last (h : PollInv p) (hc : c ∈ p.registered)
    (hlast : (p.store c).index = p.pollfds.length - 1) {q : PollPoller ι} (hq : SameSlots p q) :
    Removed p c
      { q with channels := q.channels.erase (p.store c).fd, pollfds := q.pollfds.dropLast } := by
  refine h.removed_of_slots hc ?_ hq.fd hq.events ?_ (fun d _ => hq.index d) ?_ ?_
  · rw [hq.channels]
  · intro d hd
    rw [hq.index]
    exact h.index_nonneg d hd
  · rw [hq.pollfds]
    exact List.length_dropLast ..
  · rw [hq.pollfds]
    refine (h.slots.pop hc ?_).congr ?_ fun _ _ _ => id
    · rw [hlast]
      omega
    · intro d _
      exact congrArg Int.toNat (hq.index d)

/-- The channel of another entry is removed, and the last entry takes its place. -/
theorem removed_swap (h : PollInv p) (hc : c ∈ p.registered) (hd : d ∈ p.registered) (hdc : d ≠ c)
    (hlast : (p.store d).index = p.pollfds.length - 1) {q : PollPoller ι} (hq : SameSlots p q) :
    Removed p c
      { q.toPoller.setIndex d (p.store c).index with
        channels := q.channels.erase (p.store c).fd
        pollfds := (q.swapWithLast (p.store c).index).dropLast } := by
  have hpos : (p.store c).index.toNat < q.pollfds.length := by
    rw [hq.pollfds]
    exact h.table.pos_lt hc
  have hother (e : ι) (he : e ≠ d) :
      ((q.toPoller.setIndex d (p.store c).index).store e).index = (p.store e).index := by
    rw [Poller.store_setIndex_of_ne he, hq.index]
  refine h.removed_of_slots hc ?_ ?_ ?_ ?_ ?_ ?_ ?_
  · rw [hq.channels]
  · intro e
    exact (Poller.fd_setIndex ..).trans (hq.fd e)
  · intro e
    exact (Poller.events_setIndex ..).trans (hq.events e)
  · intro e he
    by_cases hed : e = d
    · rw [hed, Poller.index_setIndex_self]
      exact h.index_nonneg c hc
    · rw [hother e hed]
      exact h.index_nonneg e he
  · intro e he
    exact hother e fun hed => he (hed ▸ hd)
  · rw [dropLast_swapWithLast q hpos, length_swapRemove, hq.pollfds]
  · rw [dropLast_swapWithLast q hpos, hq.pollfds]
    refine h.slots.swapRemove hc hd hdc ?_ ?_ ?_
    · rw [hlast]
      omega
    · rw [Poller.index_setIndex_self]
    · intro e _ hed
      rw [hother e hed]

/-- A channel that watches nothing, and whose entry says so, can be removed. -/
theorem call_remove (h : PollInv p) (hc : c ∈ p.registered) (hnone : (p.store c).isNoneEvent = true)
    (hignored : (p.slot c).fd = -(p.store c).fd - 1) :
    (p.call (.remove c)).Sat (Removed p c) := by
  obtain ⟨q, hq, hcall⟩ := call_remove_eq hnone
  have hevents := (h.fits_slot hc).2
  rw [← hq.slot, ← hq.events] at hevents
  rw [← hq.slot, ← hq.fd] at hignored
  rw [← hq.isNoneEvent] at hnone
  obtain ⟨hlookup, hnonneg, hlt⟩ := hq.find h hc
  rw [hcall, removeChannel_eq hlookup hnone hnonneg hlt hignored hevents, hq.index, hq.fd, hq.pollfds]
  by_cases hlast : (p.store c).index = p.pollfds.length - 1
  · rw [if_pos hlast, ← hq.pollfds]
    exact .ok (h.removed_last hc hlast hq)
  · -- the last entry is the one of another channel, which moves
    have hpos := h.table.pos_lt hc
    obtain ⟨d, hd, hdpos⟩ := h.table.onto (p.pollfds.length - 1) (by omega)
    have hdindex := h.index_nonneg d hd
    have hdlast : (p.store d).index = p.pollfds.length - 1 := by omega
    have hdc : d ≠ c := by
      rintro rfl
      exact hlast hdlast
    have hend : (q.channels.erase (p.store c).fd).lookup (p.store d).fd = some d := by
      rw [Finmap.lookup_erase_ne (fun heq => hdc (h.keyed.eq_of_fd hd hc heq)), hq.channels]
      exact h.keyed.lookup hd
    have hentry : q.pollfdAt (p.pollfds.length - 1) = p.pollfdAt (p.pollfds.length - 1) := by
      rw [pollfdAt, pollfdAt, hq.pollfds]
    rw [if_neg hlast]
    dsimp only
    rw [hentry, h.channelAtEnd_eq hd hdlast, hend]
    exact .ok (h.removed_swap hc hd hdc hdlast hq)

end PollInv

/-! ## Runs -/

/-- What holds between two calls. -/
structure PollHistoryInv {ι : Type} (s : PollHistory ι) : Prop where
  poller : PollInv s.poller
  /-- Channels that were never used have no position. -/
  unused : ∀ c ∉ s.poller.registered, c ∉ s.removed → (s.poller.store c).index < 0

namespace PollHistoryInv

open PollInv

variable {ι : Type} {s : PollHistory ι}

/-- The invariant holds at the start. -/
theorem new (fd : ι → Int) : PollHistoryInv ⟨PollPoller.new fd, []⟩ where
  poller := PollInv.new fd
  unused := by
    intro c _ _
    show (-1 : Int) < 0
    decide

/-- An operation keeps the invariant. -/
theorem of_updated [DecidableEq ι] (h : PollHistoryInv s) {c : ι} {op : ChannelOp} {q : PollPoller ι}
    (hq : Updated s.poller c op q) : PollHistoryInv ⟨q, s.removed⟩ where
  poller := hq.inv
  unused := by
    intro d hd hremoved
    rw [hq.registered, Set.mem_insert_iff, not_or] at hd
    rw [hq.store_of_ne d hd.1]
    exact h.unused d hd.2 hremoved

/-- A removal keeps the invariant. -/
theorem of_removed [DecidableEq ι] (h : PollHistoryInv s) {c : ι} {q : PollPoller ι} (hq : Removed s.poller c q) :
    PollHistoryInv ⟨q, c :: s.removed⟩ where
  poller := hq.inv
  unused := by
    intro d hd hremoved
    rw [List.mem_cons, not_or] at hremoved
    have hreg : d ∉ s.poller.registered := by
      intro hmem
      rw [hq.registered] at hd
      exact hd ⟨hmem, hremoved.1⟩
    rw [hq.index_of_notMem d hreg]
    exact h.unused d hreg hremoved.2

variable [DecidableEq ι]

/-- Every call that a user may make passes all assertions and keeps the invariant. -/
theorem step (h : PollHistoryInv s) (call : ChannelCall ι) (ha : s.Enabled call) :
    (s.exec call).Sat PollHistoryInv := by
  cases call with
  | update c op =>
      obtain ⟨hremoved, hpos, hdistinct⟩ := ha
      by_cases hc : c ∈ s.poller.registered
      · exact (h.poller.call_update hc op).bind fun q hq => .ok (h.of_updated hq.1)
      · have hfree : ∀ d ∈ s.poller.registered, (s.poller.store d).fd ≠ (s.poller.store c).fd := by
          intro d hd heq
          rw [hdistinct d hd heq] at hd
          exact hc hd
        refine (h.poller.call_update_new (h.unused c hc hremoved) hpos hfree op).bind fun q hq => ?_
        exact .ok (h.of_updated hq.1)
  | remove c =>
      obtain ⟨hhas, hnone, hignored⟩ := ha
      have hc := (Poller.mem_registered h.poller.keyed).mpr hhas
      exact (h.poller.call_remove hc hnone hignored).bind fun q hq => .ok (h.of_removed hq)

/-- Every reachable state keeps the invariant, and no call fails. -/
theorem of_reachable (hs : (pollPoller ι).Reachable s) : PollHistoryInv s ∧ (pollPoller ι).Safe s := by
  refine Machine.invariant (P := PollHistoryInv) ?_ (fun _ call h ha => h.step call ha) hs
  rintro _ ⟨fd, rfl⟩
  exact new fd

end PollHistoryInv

/-! ## What has happened -/

/-- The entries on which something has happened. -/
def PollFd.happened (pfds : List PollFd) : List PollFd := pfds.filter fun pfd => 0 < pfd.revents.toInt

/-- An entry with events is reported. -/
theorem PollFd.happened_cons_of_pos {pfd : PollFd} (hpos : 0 < pfd.revents.toInt) (pfds : List PollFd) :
    happened (pfd :: pfds) = pfd :: happened pfds := by
  simp [happened, hpos]

/-- An entry without events is passed over. -/
theorem PollFd.happened_cons_of_not_pos {pfd : PollFd} (hpos : ¬ 0 < pfd.revents.toInt)
    (pfds : List PollFd) : happened (pfd :: pfds) = happened pfds := by
  simp [happened, hpos]

/-- The channels in `active` are the ones of the entries `pfds` on which something has happened, in the order
of the entries and each once, and they know what it was. -/
structure Reported {ι : Type} (p : Poller ι) (pfds : List PollFd) (active : List ι) (q : Poller ι) :
    Prop where
  order : active.map some = (PollFd.happened pfds).map fun pfd => p.channels.lookup pfd.fd
  nodup : active.Nodup
  revents : ∀ pfd ∈ PollFd.happened pfds, ∀ c, p.channels.lookup pfd.fd = some c →
    q.store c = { p.store c with revents := pfd.revents.signExtend 32 }
  store_of_notMem : ∀ c ∉ active, q.store c = p.store c
  channels : q.channels = p.channels

namespace Reported

variable {ι : Type} {p q : Poller ι} {pfds : List PollFd} {active : List ι} {pfd : PollFd} {c : ι}

/-- A reported channel has an entry. -/
theorem exists_entry (h : Reported p pfds active q) (hc : c ∈ active) :
    ∃ pfd ∈ PollFd.happened pfds, p.channels.lookup pfd.fd = some c := by
  have hmem : some c ∈ active.map some := List.mem_map_of_mem hc
  rw [h.order] at hmem
  exact List.mem_map.mp hmem

/-- No entry, no channel. -/
theorem nil (p : Poller ι) (hnone : PollFd.happened pfds = []) : Reported p pfds [] p where
  order := by simp [hnone]
  nodup := List.nodup_nil
  revents := by simp [hnone]
  store_of_notMem := by simp
  channels := rfl

/-- A report on the rest is a report on all, if nothing has happened on the first entry. -/
theorem skip (h : Reported p pfds active q) (hpos : ¬ 0 < pfd.revents.toInt) :
    Reported p (pfd :: pfds) active q := by
  refine ⟨?_, h.nodup, ?_, h.store_of_notMem, h.channels⟩
  · rw [PollFd.happened_cons_of_not_pos hpos]
    exact h.order
  · rw [PollFd.happened_cons_of_not_pos hpos]
    exact h.revents

variable [DecidableEq ι]

/-- One more entry at the front. -/
theorem cons (hkeyed : p.Keyed) (hpos : 0 < pfd.revents.toInt)
    (hc : p.channels.lookup pfd.fd = some c) (hfd : ∀ pfd' ∈ PollFd.happened pfds, pfd'.fd ≠ pfd.fd)
    (h : Reported (p.set c { p.store c with revents := pfd.revents.signExtend 32 }) pfds active q) :
    Reported p (pfd :: pfds) (c :: active) q := by
  have hhappened := PollFd.happened_cons_of_pos hpos pfds
  -- the channel does not come again, because its descriptor does not
  have hnot : c ∉ active := by
    intro hmem
    obtain ⟨pfd', hmem', hlookup⟩ := h.exists_entry hmem
    have hfd' := hkeyed _ c hlookup
    rw [hkeyed _ c hc] at hfd'
    exact hfd pfd' hmem' hfd'.symm
  constructor
  · rw [hhappened, List.map_cons, List.map_cons, h.order, hc]
    rfl
  · exact List.nodup_cons.mpr ⟨hnot, h.nodup⟩
  · rw [hhappened]
    intro pfd' hmem d hd
    rcases List.mem_cons.mp hmem with rfl | hmem
    · rw [hc] at hd
      cases hd
      rw [h.store_of_notMem c hnot, Poller.store_set_self]
    · rw [h.revents pfd' hmem d hd, Poller.store_set_of_ne]
      rintro rfl
      have hfd' := hkeyed _ d hd
      rw [hkeyed _ d hc] at hfd'
      exact hfd pfd' hmem hfd'.symm
  · intro d hd
    rw [List.mem_cons, not_or] at hd
    rw [h.store_of_notMem d hd.2, Poller.store_set_of_ne hd.1]
  · rw [h.channels, Poller.channels_set]

end Reported

/-- The loop of `fillActiveChannels` reports the entries that are left. -/
theorem fillFrom_sat {ι : Type} [DecidableEq ι] {pfds : List PollFd} {p : Poller ι} (hkeyed : p.Keyed)
    (hmem : ∀ pfd ∈ PollFd.happened pfds, ∃ c, p.channels.lookup pfd.fd = some c)
    (hnodup : ((PollFd.happened pfds).map PollFd.fd).Nodup) (before : List ι) :
    (PollPoller.fillFrom p before pfds (PollFd.happened pfds).length).Sat fun r =>
      ∃ active, r.2 = before ++ active ∧ Reported p pfds active r.1 := by
  induction pfds generalizing p before with
  | nil => exact .ok ⟨[], (List.append_nil _).symm, .nil p rfl⟩
  | cons pfd pfds ih =>
      rw [PollPoller.fillFrom]
      by_cases hpos : 0 < pfd.revents.toInt
      · rw [PollFd.happened_cons_of_pos hpos] at hmem hnodup ⊢
        rw [List.map_cons, List.nodup_cons] at hnodup
        obtain ⟨c, hc⟩ := hmem pfd (List.mem_cons_self ..)
        rw [if_neg (by simp), if_pos hpos, hc]
        refine .assert (hkeyed _ c hc) ?_
        set ch : PolledChannel := { p.store c with revents := pfd.revents.signExtend 32 }
        have hkeyed' : (p.set c ch).Keyed := hkeyed.set rfl
        have hlen : ((pfd :: PollFd.happened pfds).length : Int) - 1 = (PollFd.happened pfds).length := by
          simp
        rw [hlen]
        refine (ih hkeyed' ?_ hnodup.2 _).mono ?_
        · intro pfd' hmem'
          exact hmem pfd' (List.mem_cons_of_mem _ hmem')
        · rintro ⟨q, all⟩ ⟨active, hall, hreport⟩
          refine ⟨c :: active, ?_, hreport.cons hkeyed hpos hc ?_⟩
          · rw [hall, List.append_assoc]
            rfl
          · intro pfd' hmem' hfd
            exact hnodup.1 (hfd ▸ List.mem_map_of_mem hmem')
      · rw [PollFd.happened_cons_of_not_pos hpos] at hmem hnodup ⊢
        by_cases hnone : PollFd.happened pfds = []
        · rw [hnone, if_pos (by simp)]
          exact .ok ⟨[], (List.append_nil _).symm, (Reported.nil p hnone).skip hpos⟩
        · have hlen := List.length_pos_iff.mpr hnone
          rw [if_neg (by omega), if_neg hpos]
          refine (ih hkeyed hmem hnodup before).mono ?_
          rintro r ⟨active, hr, h⟩
          exact ⟨active, hr, h.skip hpos⟩

namespace PollInv

open PollPoller

variable {ι : Type} {p : PollPoller ι}

/-- An entry that is not ignored is the one of a channel with its descriptor. -/
theorem exists_channel (h : PollInv p) {n : Nat} {pfd : PollFd} (hn : p.pollfds[n]? = some pfd)
    (hpos : 0 ≤ pfd.fd) :
    ∃ c ∈ p.registered, (p.store c).index.toNat = n ∧ (p.store c).fd = pfd.fd := by
  obtain ⟨c, hc, hindex⟩ := h.table.onto n (List.getElem?_eq_some_iff.mp hn).1
  have hslot := h.getElem?_slot hc
  rw [hindex, hn] at hslot
  have hfits := (h.fits_slot hc).1
  rw [← Option.some.inj hslot] at hfits
  have hnonneg := h.fd_nonneg c hc
  exact ⟨c, hc, hindex, by omega⟩

/-- Entries that are not ignored have different descriptors. -/
theorem pairwise_fd (h : PollInv p) :
    p.pollfds.Pairwise fun a b => 0 ≤ a.fd → 0 ≤ b.fd → a.fd ≠ b.fd := by
  rw [List.pairwise_iff_getElem]
  intro i j hi hj hij ha hb heq
  obtain ⟨c, hc, hci, hcfd⟩ := h.exists_channel (List.getElem?_eq_getElem hi) ha
  obtain ⟨d, hd, hdj, hdfd⟩ := h.exists_channel (List.getElem?_eq_getElem hj) hb
  have hcd := h.keyed.eq_of_fd hc hd (by rw [hcfd, hdfd, heq])
  rw [hcd, hdj] at hci
  omega

/-- What the kernel writes does not concern the invariant. -/
theorem withRevents (h : PollInv p) {revents : List (BitVec 16)}
    (hlen : revents.length = p.pollfds.length) : PollInv (p.withRevents revents) where
  keyed := h.keyed
  size := by
    rw [PollPoller.withRevents, List.length_zipWith, hlen, Nat.min_self]
    exact h.size
  fd_nonneg := h.fd_nonneg
  index_nonneg := h.index_nonneg
  table := by
    constructor
    · intro c hc
      have hlt := h.table.pos_lt hc
      obtain ⟨pfd, hpfd, hfits⟩ := h.table.fits c hc
      obtain ⟨r, hr⟩ : ∃ r, revents[(p.store c).index.toNat]? = some r :=
        ⟨_, List.getElem?_eq_getElem (hlen.symm ▸ hlt)⟩
      refine ⟨{ pfd with revents := r }, ?_, hfits⟩
      exact List.getElem?_zipWith_eq_some.mpr ⟨pfd, r, hpfd, hr, rfl⟩
    · intro n hn
      rw [PollPoller.withRevents, List.length_zipWith, hlen, Nat.min_self] at hn
      exact h.table.onto n hn
    · exact h.table.inj
  narrow := h.narrow

variable [DecidableEq ι]

/-- `fillActiveChannels` reports the entries on which something has happened. -/
theorem fillActiveChannels_sat (h : PollInv p)
    (hpos : ∀ pfd ∈ PollFd.happened p.pollfds, 0 ≤ pfd.fd) (before : List ι) :
    (p.fillActiveChannels (PollFd.happened p.pollfds).length before).Sat fun r =>
      ∃ active, r.2 = before ++ active ∧ Reported p.toPoller p.pollfds active r.1.toPoller := by
  refine (fillFrom_sat h.keyed ?_ ?_ before).bind ?_
  · intro pfd hmem
    obtain ⟨n, hn⟩ := List.mem_iff_getElem?.mp (List.mem_of_mem_filter hmem)
    obtain ⟨c, hc, -, hfd⟩ := h.exists_channel hn (hpos pfd hmem)
    refine ⟨c, ?_⟩
    rw [← hfd]
    exact h.keyed.lookup hc
  · have hpair := h.pairwise_fd.sublist (List.filter_sublist (p := fun pfd => 0 < pfd.revents.toInt))
    rw [List.Nodup, List.pairwise_map]
    exact hpair.imp_of_mem fun ha hb hne => hne (hpos _ ha) (hpos _ hb)
  · rintro r ⟨active, hr, hreport⟩
    exact .ok ⟨active, hr, hreport⟩

end PollInv

open PollPoller in
/-- **The representation of `PollPoller`.** In every state that calls on channels can lead to: `channels_`
and `pollfds_` have the same size; the positions of the channels are all the positions in `pollfds_`; each
channel has an entry with its descriptor, or the one that means to ignore it, and its events; no assertion
of a call can fail; a removal takes out the given channel and leaves the entries of the others as they are;
and when something has happened on entries that are not ignored, `fillActiveChannels` appends their channels
in the order of the entries, each once and with what has happened. -/
theorem pollPoller_represents {ι : Type} [DecidableEq ι] {s : PollHistory ι}
    (hs : (pollPoller ι).Reachable s) :
    s.poller.channels.keys.card = s.poller.pollfds.length ∧
    Set.BijOn (fun c => (s.poller.store c).index) s.poller.registered
      {i | 0 ≤ i ∧ i < s.poller.pollfds.length} ∧
    (∀ c ∈ s.poller.registered, ∃ pfd,
      s.poller.pollfds[(s.poller.store c).index.toNat]? = some pfd ∧ s.poller.Fits c pfd) ∧
    (pollPoller ι).Safe s ∧
    (∀ c t, s.Enabled (.remove c) → s.exec (.remove c) = .ok t →
      t.poller.registered = s.poller.registered \ {c} ∧
        ∀ d ∈ s.poller.registered, d ≠ c → t.poller.slot d = s.poller.slot d) ∧
    ∀ revents before, revents.length = s.poller.pollfds.length →
      (∀ pfd ∈ PollFd.happened (s.poller.withRevents revents).pollfds, 0 ≤ pfd.fd) →
      ((s.poller.withRevents revents).fillActiveChannels
        (PollFd.happened (s.poller.withRevents revents).pollfds).length before).Sat fun r =>
          ∃ active, r.2 = before ++ active ∧
            Reported s.poller.toPoller (s.poller.withRevents revents).pollfds active r.1.toPoller := by
  obtain ⟨⟨h, -⟩, hsafe⟩ := PollHistoryInv.of_reachable hs
  refine ⟨h.size, ⟨?_, ?_, ?_⟩, h.table.fits, hsafe, ?_, ?_⟩
  · intro c hc
    exact ⟨h.index_nonneg c hc, h.index_lt hc⟩
  · intro c hc d hd heq
    exact h.table.inj hc hd (congrArg Int.toNat heq)
  · rintro i ⟨hi, hlt⟩
    obtain ⟨c, hc, hpos⟩ := h.table.onto i.toNat (by omega)
    have hnonneg := h.index_nonneg c hc
    refine ⟨c, hc, ?_⟩
    show (s.poller.store c).index = i
    omega
  · rintro c t ⟨hhas, hnone, hignored⟩ ht
    have hc := (Poller.mem_registered h.keyed).mpr hhas
    obtain ⟨q, hq, heq⟩ := Checked.bind_eq_ok.mp ht
    cases heq
    have hremoved := (h.call_remove hc hnone hignored).of_eq_ok hq
    exact ⟨hremoved.registered, hremoved.slot_of_ne⟩
  · intro revents before hlen hpos
    exact (h.withRevents hlen).fillActiveChannels_sat hpos before

/-- The descriptors of two channels. -/
def PollHistory.twoFds (c : Bool) : Int := if c then 4 else 3

/-- A call on one of two channels with different descriptors. -/
theorem PollHistory.enabled_twoFds {s : PollHistory Bool} (c : Bool) (op : ChannelOp) (hremoved : s.removed = [])
    (hfd : ∀ d, (s.poller.store d).fd = twoFds d) : (pollPoller Bool).enabled s (.update c op) := by
  refine ⟨by rw [hremoved]; exact List.not_mem_nil, ?_, fun d _ heq => ?_⟩
  · rw [hfd]
    cases c <;> decide
  · rw [hfd, hfd] at heq
    cases c <;> cases d <;> first | rfl | exact absurd heq (by decide)

/-- The first of two channels is removed, so the entry of the second moves to its place. -/
theorem pollPoller_represents_swapped : ∃ s t : PollHistory Bool, (pollPoller Bool).Reachable s ∧
    s.exec (.remove false) = .ok t ∧ (s.poller.store true).index = 1 ∧ (t.poller.store true).index = 0 ∧
    t.poller.registered = s.poller.registered \ {false} ∧ t.poller.slot true = s.poller.slot true ∧
    t.poller.channels.keys.card = 1 := by
  have h0 : (pollPoller Bool).Reachable ⟨PollPoller.new PollHistory.twoFds, []⟩ := .of_init ⟨_, rfl⟩
  have h1 := h0.step (PollHistory.enabled_twoFds false .enableReading rfl fun d => rfl) rfl
  have h2 := h1.step (PollHistory.enabled_twoFds true .enableWriting rfl fun d => by cases d <;> rfl) rfl
  have h3 := h2.step (PollHistory.enabled_twoFds false .disableAll rfl fun d => by cases d <;> rfl) rfl
  have h4 := h3.step (a := ChannelCall.remove false) ⟨rfl, rfl, rfl⟩ rfl
  obtain ⟨-, -, -, -, hremove, -⟩ := pollPoller_represents h3
  obtain ⟨hregistered, hslot⟩ := hremove false _ ⟨rfl, rfl, rfl⟩ rfl
  exact ⟨_, _, h3, rfl, rfl, rfl, hregistered, hslot true ⟨4, rfl⟩ nofun, (pollPoller_represents h4).1⟩

end Muduo.Net
