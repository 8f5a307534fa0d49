import Muduo.Net.Poller

/-! # `net::PollPoller`

The poller on `poll(2)`, `net/poller/PollPoller.cpp`. It keeps a `struct pollfd` for each channel in
`channels_`, and each channel knows the position of its own: `index()`. A channel that watches nothing
keeps its entry with the descriptor `-fd-1`, which the kernel ignores. Removing a channel moves the last
entry to the place of the removed one, and the channel of that entry is told so. -/

namespace Muduo.Net

open Support

/-- A `struct pollfd`. -/
structure PollFd where
  fd : Int
  events : BitVec 16
  revents : BitVec 16
  deriving DecidableEq, Repr, Inhabited

/-- `PollPoller`: the array given to `poll`, over what both pollers share. -/
structure PollPoller (ι : Type) extends Poller ι where
  pollfds : List PollFd

namespace PollPoller

variable {ι : Type} [DecidableEq ι]

/-- The constructor. -/
def new (fd : ι → Int) : PollPoller ι := { Poller.new fd with pollfds := [] }

variable (p : PollPoller ι)

/-- `pollfds_[idx]`. -/
def pollfdAt (idx : Int) : PollFd := p.pollfds.getD idx.toNat default

/-- The assertion that an index is one of `pollfds_`. -/
def assertIndex (idx : Int) : Checked Unit :=
  assert (0 ≤ idx ∧ idx < p.pollfds.length) "0 <= idx && idx < static_cast<int>(pollfds_.size())"

/-- `PollPoller::updateChannel`. -/
def updateChannel (channel : ι) : Checked (PollPoller ι) := do
  let ch := p.store channel
  if ch.index < 0 then
    -- a new one, add to `pollfds_`
    assert (p.channels.lookup ch.fd = none) "channels_.find(channel->fd()) == channels_.end()"
    let pfd : PollFd := { fd := ch.fd, events := ch.events.setWidth 16, revents := 0 }
    let pollfds := p.pollfds ++ [pfd]
    let idx : Int := pollfds.length - 1
    let poller := p.toPoller.setIndex channel idx
    return { poller with channels := p.channels.insert pfd.fd channel, pollfds }
  else
    -- update an existing one
    assert (p.channels.lookup ch.fd ≠ none) "channels_.find(channel->fd()) != channels_.end()"
    assert (p.channels.lookup ch.fd = some channel) "channels_[channel->fd()] == channel"
    let idx := ch.index
    p.assertIndex idx
    let pfd := p.pollfdAt idx
    assert (pfd.fd = ch.fd ∨ pfd.fd = -ch.fd - 1)
      "pfd.fd == channel->fd() || pfd.fd == -channel->fd()-1"
    let pfd : PollFd :=
      { fd := if ch.isNoneEvent then -ch.fd - 1 else ch.fd -- ignored while nothing is watched
        events := ch.events.setWidth 16
        revents := 0 }
    return { p with pollfds := p.pollfds.set idx.toNat pfd }

/-- `iter_swap(pollfds_.begin()+idx, pollfds_.end()-1)`. -/
def swapWithLast (idx : Int) : List PollFd :=
  let last := p.pollfds.length - 1
  (p.pollfds.set idx.toNat (p.pollfdAt last)).set last (p.pollfdAt idx)

/-- `PollPoller::removeChannel`. -/
def removeChannel (channel : ι) : Checked (PollPoller ι) := do
  let ch := p.store channel
  assert (p.channels.lookup ch.fd ≠ none) "channels_.find(channel->fd()) != channels_.end()"
  assert (p.channels.lookup ch.fd = some channel) "channels_[channel->fd()] == channel"
  assert ch.isNoneEvent "channel->isNoneEvent()"
  let idx := ch.index
  p.assertIndex idx
  let pfd := p.pollfdAt idx
  assert (pfd.fd = -ch.fd - 1 ∧ pfd.events.signExtend 32 = ch.events)
    "pfd.fd == -channel->fd()-1 && pfd.events == channel->events()"
  let n := if p.channels.lookup ch.fd = none then 0 else 1
  assert (n = 1) "n == 1"
  let channels := p.channels.erase ch.fd
  if idx = p.pollfds.length - 1 then
    return { p with channels, pollfds := p.pollfds.dropLast }
  else
    let channelAtEnd := (p.pollfdAt (p.pollfds.length - 1)).fd
    let pollfds := p.swapWithLast idx
    let channelAtEnd := if channelAtEnd < 0 then -channelAtEnd - 1 else channelAtEnd
    match channels.lookup channelAtEnd with
    | none => .error "channels_[channelAtEnd]" -- a null pointer would be used
    | some moved =>
        return { p.toPoller.setIndex moved idx with channels, pollfds := pollfds.dropLast }

/-- A call on a channel of the loop, which ends in a call of the poller. -/
def call : ChannelCall ι → Checked (PollPoller ι)
  | .update c op => updateChannel { p with toPoller := p.toPoller.apply c op } c
  | .remove c => do
      let poller ← p.toPoller.beginRemove c
      removeChannel { p with toPoller := poller } c

/-- The loop of `fillActiveChannels` over the rest of `pollfds_`. -/
def fillFrom (poller : Poller ι) (activeChannels : List ι) :
    List PollFd → Int → Checked (Poller ι × List ι)
  | [], _ => return (poller, activeChannels)
  | pfd :: rest, numEvents =>
      if numEvents ≤ 0 then return (poller, activeChannels)
      else if 0 < pfd.revents.toInt then
        match poller.channels.lookup pfd.fd with
        | none => .error "ch != channels_.end()"
        | some channel => do
            assert ((poller.store channel).fd = pfd.fd) "channel->fd() == pfd->fd"
            fillFrom
              (poller.set channel { poller.store channel with revents := pfd.revents.signExtend 32 })
              (activeChannels ++ [channel]) rest (numEvents - 1)
      else fillFrom poller activeChannels rest numEvents

/-- `fillActiveChannels(numEvents, activeChannels)`. -/
def fillActiveChannels (numEvents : Int) (activeChannels : List ι) :
    Checked (PollPoller ι × List ι) := do
  let (poller, activeChannels) ← fillFrom p.toPoller activeChannels p.pollfds numEvents
  return ({ p with toPoller := poller }, activeChannels)

/-- What `poll(2)` writes into `pollfds_`. -/
def withRevents (revents : List (BitVec 16)) : PollPoller ι :=
  { p with pollfds := p.pollfds.zipWith (fun pfd revents => { pfd with revents }) revents }

/-- The entry of a channel. -/
def slot (c : ι) : PollFd := p.pollfdAt (p.store c).index

end PollPoller

/-! ## Runs -/

/-- A poller with the channels that were removed from it. -/
structure PollHistory (ι : Type) where
  poller : PollPoller ι
  removed : List ι

namespace PollHistory

variable {ι : Type} [DecidableEq ι]

/-- A call of the poller, with the removals noted. -/
def exec (s : PollHistory ι) (call : ChannelCall ι) : Checked (PollHistory ι) := do
  let poller ← s.poller.call call
  let removed := match call with
    | .update _ _ => s.removed
    | .remove c => c :: s.removed
  return { poller, removed }

/-- What a user may do: no channel is used after its removal, the descriptors of the channels in
`channels_` are different, and a call meets the assertions at the head of the function. -/
def Enabled (s : PollHistory ι) : ChannelCall ι → Prop
  | .update c _ => c ∉ s.removed ∧ 0 ≤ (s.poller.store c).fd ∧
      ∀ d ∈ s.poller.registered, (s.poller.store d).fd = (s.poller.store c).fd → d = c
  | .remove c => s.poller.hasChannel c = true ∧ (s.poller.store c).isNoneEvent = true ∧
      (s.poller.slot c).fd = -(s.poller.store c).fd - 1

end PollHistory

/-- The `PollPoller` of a loop, from its construction on. -/
def pollPoller (ι : Type) [DecidableEq ι] : Machine (PollHistory ι) (ChannelCall ι) where
  init s := ∃ fd, s = ⟨PollPoller.new fd, []⟩
  enabled := PollHistory.Enabled
  exec := PollHistory.exec

end Muduo.Net
