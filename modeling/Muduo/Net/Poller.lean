import Muduo.Net.Channel
import Muduo.Support.Machine
import Mathlib.Data.Finmap

/-! # `net::Poller`

The base class of the pollers, `net/Poller.h`: the map `channels_` from descriptors to channels. A channel
is an object that the poller and its user both change, so a poller is modelled together with a store of
all the channels of its loop; `ι` are the addresses of the channels. A user acts on a poller only through
the operations of `Channel`, which end in a call of `updateChannel` or `removeChannel`. -/

namespace Muduo.Net

open Support

/-! ## Channels as a poller sees them -/

/-- A `Channel` with the members that only pollers use. -/
structure PolledChannel extends Channel where
  fd : Int
  index : Int
  revents : BitVec 32
  deriving DecidableEq, Repr

/-- `Channel(loop, fd)`. -/
def PolledChannel.new (fd : Int) : PolledChannel := { Channel.new with fd, index := -1, revents := 0 }

/-- The operations of `Channel` that change what is watched. -/
inductive ChannelOp where
  | enableReading
  | disableReading
  | enableWriting
  | disableWriting
  | disableAll
  deriving DecidableEq, Repr

/-- What an operation does to the channel before it calls `updateChannel`. -/
def ChannelOp.apply : ChannelOp → Channel → Channel
  | .enableReading => Channel.enableReading
  | .disableReading => Channel.disableReading
  | .enableWriting => Channel.enableWriting
  | .disableWriting => Channel.disableWriting
  | .disableAll => Channel.disableAll

/-- A call that a user makes on a channel. -/
inductive ChannelCall (ι : Type) where
  | update (channel : ι) (op : ChannelOp)
  | remove (channel : ι)
  deriving DecidableEq, Repr

/-- The events of a channel fit into the `short` of a `struct pollfd`. -/
def Channel.Narrow (c : Channel) : Prop := (c.events.setWidth 16).signExtend 32 = c.events

/-- The events of a new channel fit into a `short`. -/
theorem Channel.narrow_new : Channel.new.Narrow := by
  unfold Channel.Narrow
  decide

/-- The events of a channel are made of three bits only. -/
theorem ChannelOp.narrow_apply (op : ChannelOp) {c : Channel} (h : c.Narrow) : (op.apply c).Narrow := by
  unfold Channel.Narrow at h ⊢
  have hor : ∀ k : BitVec 32, (k.setWidth 16).signExtend 32 = k →
      ((c.events ||| k).setWidth 16).signExtend 32 = c.events ||| k := by
    intro k hk
    rw [BitVec.setWidth_or, BitVec.signExtend_or, h, hk]
  have hand : ∀ k : BitVec 32, (k.setWidth 16).signExtend 32 = k →
      ((c.events &&& k).setWidth 16).signExtend 32 = c.events &&& k := by
    intro k hk
    rw [BitVec.setWidth_and, BitVec.signExtend_and, h, hk]
  cases op with
  | enableReading => exact hor _ (by decide)
  | disableReading => exact hand _ (by decide)
  | enableWriting => exact hor _ (by decide)
  | disableWriting => exact hand _ (by decide)
  | disableAll =>
      show (Channel.kNoneEvent.setWidth 16).signExtend 32 = Channel.kNoneEvent
      decide

/-- What an operation makes of the events depends on the events only. -/
theorem ChannelOp.events_apply (op : ChannelOp) {c d : Channel} (h : c.events = d.events) :
    (op.apply c).events = (op.apply d).events := by
  cases op <;> simp [apply, Channel.enableReading, Channel.disableReading, Channel.enableWriting,
    Channel.disableWriting, Channel.disableAll, Channel.update, h]

/-! ## The base class -/

/-- The channels of a loop, with `channels_`. -/
structure Poller (ι : Type) where
  store : ι → PolledChannel
  channels : Finmap fun _ : Int => ι

namespace Poller

variable {ι : Type}

/-- Channels that have just been made, on the given descriptors. -/
def new (fd : ι → Int) : Poller ι := { store := fun c => PolledChannel.new (fd c), channels := ∅ }

/-- The channels that `channels_` holds. -/
def registered (p : Poller ι) : Set ι := {c | ∃ fd, p.channels.lookup fd = some c}

/-- Every channel in `channels_` is found under its descriptor. -/
def Keyed (p : Poller ι) : Prop := ∀ fd c, p.channels.lookup fd = some c → (p.store c).fd = fd

section Keyed

variable {p : Poller ι}

/-- A channel in `channels_` is found under its descriptor. -/
theorem Keyed.lookup (h : p.Keyed) {c : ι} (hc : c ∈ p.registered) :
    p.channels.lookup (p.store c).fd = some c := by
  obtain ⟨fd, hfd⟩ := hc
  rw [h fd c hfd]
  exact hfd

/-- A registered channel is found under its descriptor. -/
theorem Keyed.mem_registered_iff (h : p.Keyed) {c : ι} :
    c ∈ p.registered ↔ p.channels.lookup (p.store c).fd = some c := by
  constructor
  · intro hc
    exact h.lookup hc
  · intro hc
    exact ⟨_, hc⟩

/-- Two channels in `channels_` do not share a descriptor. -/
theorem Keyed.eq_of_fd (h : p.Keyed) {c d : ι} (hc : c ∈ p.registered) (hd : d ∈ p.registered)
    (hfd : (p.store c).fd = (p.store d).fd) : c = d := by
  have hlookup := h.lookup hc
  rw [hfd, h.lookup hd] at hlookup
  exact (Option.some.inj hlookup).symm

/-- A channel is put into `channels_`. -/
theorem registered_insert {c : ι} (hfree : p.channels.lookup (p.store c).fd = none) :
    registered { p with channels := p.channels.insert (p.store c).fd c } = insert c p.registered := by
  ext d
  constructor
  · rintro ⟨fd, hfd⟩
    by_cases hkey : fd = (p.store c).fd
    · rw [hkey, Finmap.lookup_insert] at hfd
      exact .inl (Option.some.inj hfd).symm
    · rw [Finmap.lookup_insert_of_ne _ hkey] at hfd
      exact .inr ⟨fd, hfd⟩
  · rintro (rfl | ⟨fd, hfd⟩)
    · exact ⟨_, Finmap.lookup_insert _⟩
    · refine ⟨fd, ?_⟩
      have hkey : fd ≠ (p.store c).fd := by
        rintro rfl
        rw [hfree] at hfd
        cases hfd
      rw [Finmap.lookup_insert_of_ne _ hkey]
      exact hfd

/-- A channel is taken out of `channels_`. -/
theorem registered_erase (h : p.Keyed) {c : ι} (hc : c ∈ p.registered) :
    registered { p with channels := p.channels.erase (p.store c).fd } = p.registered \ {c} := by
  ext d
  constructor
  · rintro ⟨fd, hfd⟩
    have hkey : fd ≠ (p.store c).fd := by
      rintro rfl
      rw [Finmap.lookup_erase] at hfd
      cases hfd
    rw [Finmap.lookup_erase_ne hkey] at hfd
    refine ⟨⟨fd, hfd⟩, ?_⟩
    rintro rfl
    exact hkey (h fd d hfd).symm
  · rintro ⟨⟨fd, hfd⟩, hdc⟩
    refine ⟨fd, ?_⟩
    have hkey : fd ≠ (p.store c).fd := by
      rintro rfl
      exact hdc (h.eq_of_fd ⟨_, hfd⟩ hc (h _ d hfd))
    rw [Finmap.lookup_erase_ne hkey]
    exact hfd

end Keyed

variable [DecidableEq ι] (p : Poller ι)

/-- `Poller::hasChannel`. -/
def hasChannel (c : ι) : Bool := p.channels.lookup (p.store c).fd = some c

/-- A member of a channel is written. -/
def set (c : ι) (channel : PolledChannel) : Poller ι :=
  { p with store := Function.update p.store c channel }

/-- `set_index(idx)` of a channel. -/
def setIndex (c : ι) (idx : Int) : Poller ι := p.set c { p.store c with index := idx }

/-- The operation on a channel, up to the call of the poller. -/
def apply (c : ι) (op : ChannelOp) : Poller ι :=
  p.set c { p.store c with toChannel := op.apply (p.store c).toChannel }

/-- `Channel::remove()`, up to the call of the poller. -/
def beginRemove (c : ι) : Checked (Poller ι) := do
  let channel ← (p.store c).toChannel.remove
  return p.set c { p.store c with toChannel := channel }

variable {p}

/-- A registered channel is one that `hasChannel` finds. -/
theorem mem_registered (h : p.Keyed) {c : ι} : c ∈ p.registered ↔ p.hasChannel c = true := by
  rw [h.mem_registered_iff, hasChannel, decide_eq_true_eq]

@[simp] theorem channels_set (c : ι) (ch : PolledChannel) : (p.set c ch).channels = p.channels := rfl

@[simp] theorem store_set_self (c : ι) (ch : PolledChannel) : (p.set c ch).store c = ch := by
  simp [set]

/-- Another channel stays as it is. -/
theorem store_set_of_ne {c d : ι} (h : d ≠ c) (ch : PolledChannel) :
    (p.set c ch).store d = p.store d := by
  simp [set, h]

/-- The descriptor of a channel is constant. -/
theorem fd_set {c : ι} {ch : PolledChannel} (h : ch.fd = (p.store c).fd) (d : ι) :
    ((p.set c ch).store d).fd = (p.store d).fd := by
  by_cases hdc : d = c
  · rw [hdc, store_set_self, h]
  · rw [store_set_of_ne hdc]

/-- The indices stay. -/
theorem index_set {c : ι} {ch : PolledChannel} (h : ch.index = (p.store c).index) (d : ι) :
    ((p.set c ch).store d).index = (p.store d).index := by
  by_cases hdc : d = c
  · rw [hdc, store_set_self, h]
  · rw [store_set_of_ne hdc]

@[simp] theorem index_setIndex_self (c : ι) (idx : Int) : ((p.setIndex c idx).store c).index = idx := by
  rw [setIndex, store_set_self]

/-- Another channel keeps its index. -/
theorem store_setIndex_of_ne {c d : ι} (h : d ≠ c) (idx : Int) :
    (p.setIndex c idx).store d = p.store d := store_set_of_ne h _

/-- The descriptors stay. -/
theorem fd_setIndex (c : ι) (idx : Int) (d : ι) : ((p.setIndex c idx).store d).fd = (p.store d).fd := by
  by_cases hdc : d = c
  · rw [hdc, setIndex, store_set_self]
  · rw [store_setIndex_of_ne hdc]

/-- The events stay. -/
theorem events_setIndex (c : ι) (idx : Int) (d : ι) :
    ((p.setIndex c idx).store d).events = (p.store d).events := by
  by_cases hdc : d = c
  · rw [hdc, setIndex, store_set_self]
  · rw [store_setIndex_of_ne hdc]

/-- What is true of all channels before a channel is written and of the written one is true after. -/
theorem forall_set {P : Channel → Prop} {c : ι} {ch : PolledChannel}
    (h : ∀ d, P (p.store d).toChannel) (hch : P ch.toChannel) (d : ι) :
    P ((p.set c ch).store d).toChannel := by
  by_cases hdc : d = c
  · rw [hdc, store_set_self]
    exact hch
  · rw [store_set_of_ne hdc]
    exact h d

/-- A channel that watches nothing passes the assertion of `Channel::remove()`. -/
theorem beginRemove_eq {c : ι} (h : (p.store c).isNoneEvent = true) :
    p.beginRemove c = .ok (p.set c { p.store c with addedToLoop := false }) := by
  rw [beginRemove, Channel.remove, assert_pos h]
  rfl

/-- A change that keeps the descriptor keeps the keys. -/
theorem Keyed.set (h : p.Keyed) {c : ι} {ch : PolledChannel} (hfd : ch.fd = (p.store c).fd) :
    (p.set c ch).Keyed := by
  intro fd d hd
  rw [fd_set hfd]
  exact h fd d hd

end Poller

end Muduo.Net
