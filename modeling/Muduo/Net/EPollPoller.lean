import Muduo.Net.Poller

/-! # `net::EPollPoller`

The poller over `epoll(4)`, `net/poller/EPollPoller.cpp`. The interest list is kept by the kernel; the poller
mirrors it in the member `index` of the channels, which is one of `kNew`, `kAdded` and `kDeleted`. The
interest list is a finite map on which adding fails for a descriptor that is there and changing or deleting
fails for one that is not.

The mirror is exact (`ePollPoller_mirrors`). It says which channels are in the list, not that those channels
watch something: `ePollPoller_watches_iff` characterises the runs in which the list has no idle channel. -/

namespace Muduo.Net

open Support

/-! ## The interest list of the kernel -/

/-- The operations of `epoll_ctl`. -/
inductive EpollOp where
  | add
  | mod
  | del
  deriving DecidableEq, Repr

/-- `struct epoll_event`, with `data.ptr`. -/
structure EpollEvent (ι : Type) where
  events : BitVec 32
  ptr : ι
  deriving DecidableEq, Repr

/-- An interest list. -/
abbrev EpollList (ι : Type) := Finmap fun _ : Int => EpollEvent ι

/-- `epoll_ctl(epollfd, op, fd, event)`; there is no result when it fails. -/
def epollCtl {ι : Type} (list : EpollList ι) (op : EpollOp) (fd : Int) (event : EpollEvent ι) :
    Option (EpollList ι) :=
  match op, (list.lookup fd).isSome with
  | .add, false => some (list.insert fd event)
  | .mod, true => some (list.insert fd event)
  | .del, true => some (list.erase fd)
  | _, _ => none

/-! ## The poller -/

/-- `kNew`: the poller has not seen the channel, or has removed it. -/
def kNew : Int := -1

/-- `kAdded`: the kernel watches the channel. -/
def kAdded : Int := 1

/-- `kDeleted`: the channel is in the map and the kernel does not watch it. -/
def kDeleted : Int := 2

/-- An `EPollPoller` with the channels of its loop and the interest list of `epollfd_`. `errors` are the
failed calls of `epoll_ctl` that were only logged. -/
structure EPollPoller (ι : Type) extends Poller ι where
  interest : EpollList ι
  errors : List (EpollOp × Int)

namespace EPollPoller

/-- `EPollPoller::operationToString`. -/
def operationToString : EpollOp → String
  | .add => "ADD"
  | .del => "DEL"
  | .mod => "MOD"

variable {ι : Type}

/-- The constructor: the kernel watches nothing. -/
def new (fd : ι → Int) : EPollPoller ι := { Poller.new fd with interest := ∅, errors := [] }

variable [DecidableEq ι] (p : EPollPoller ι)

/-- `EPollPoller::update`: one call of `epoll_ctl`. -/
def update (operation : EpollOp) (c : ι) : Checked (EPollPoller ι) :=
  let channel := p.store c
  match epollCtl p.interest operation channel.fd ⟨channel.events, c⟩ with
  | some interest => return { p with interest }
  | none =>
      if operation = .del then
        return { p with errors := p.errors ++ [(operation, channel.fd)] } -- LOG_SYSERR
      else -- LOG_SYSFATAL
        .error ("epoll_ctl op =" ++ operationToString operation ++ " fd =" ++ toString channel.fd)

/-- `channel->set_index(index)`. -/
def setIndex (c : ι) (index : Int) : EPollPoller ι := { p with toPoller := p.toPoller.setIndex c index }

/-- `EPollPoller::updateChannel`. -/
def updateChannel (c : ι) : Checked (EPollPoller ι) := do
  let index := (p.store c).index
  let fd := (p.store c).fd
  if index = kNew ∨ index = kDeleted then
    if index = kNew then
      assert (p.channels.lookup fd = none) "channels_.find(fd) == channels_.end()"
      let p := { p with channels := p.channels.insert fd c }
      (p.setIndex c kAdded).update .add c
    else
      assert (p.channels.lookup fd ≠ none) "channels_.find(fd) != channels_.end()"
      assert (p.channels.lookup fd = some c) "channels_[fd] == channel"
      (p.setIndex c kAdded).update .add c
  else
    assert (p.channels.lookup fd ≠ none) "channels_.find(fd) != channels_.end()"
    assert (p.channels.lookup fd = some c) "channels_[fd] == channel"
    assert (index = kAdded) "index == kAdded"
    if (p.store c).isNoneEvent then
      let p ← p.update .del c
      return p.setIndex c kDeleted
    else
      p.update .mod c

/-- `EPollPoller::removeChannel`. -/
def removeChannel (c : ι) : Checked (EPollPoller ι) := do
  let fd := (p.store c).fd
  assert (p.channels.lookup fd ≠ none) "channels_.find(fd) != channels_.end()"
  assert (p.channels.lookup fd = some c) "channels_[fd] == channel"
  assert ((p.store c).isNoneEvent = true) "channel->isNoneEvent()"
  let index := (p.store c).index
  assert (index = kAdded ∨ index = kDeleted) "index == kAdded || index == kDeleted"
  let n := if p.channels.lookup fd = none then 0 else 1
  let p := { p with channels := p.channels.erase fd }
  assert (n = 1) "n == 1"
  let p ← if index = kAdded then p.update .del c else pure p
  return p.setIndex c kNew

/-- A call on a channel of the loop, which ends in a call of the poller. -/
def call : ChannelCall ι → Checked (EPollPoller ι)
  | .update c op => updateChannel { p with toPoller := p.toPoller.apply c op } c
  | .remove c => do
      let poller ← p.toPoller.beginRemove c
      removeChannel { p with toPoller := poller } c

/-- What a user may do: the descriptors of the channels in `channels_` are different, and a channel is
removed when it is there and watches nothing. A removed channel may be used again. -/
def Enabled : ChannelCall ι → Prop
  | .update c _ => ∀ d ∈ p.registered, (p.store d).fd = (p.store c).fd → d = c
  | .remove c => p.hasChannel c = true ∧ (p.store c).isNoneEvent = true

end EPollPoller

/-- The `EPollPoller` of a loop, from its construction on. -/
def ePollPoller (ι : Type) [DecidableEq ι] : Machine (EPollPoller ι) (ChannelCall ι) where
  init p := ∃ fd, p = EPollPoller.new fd
  enabled := EPollPoller.Enabled
  exec := EPollPoller.call

/-! ## What a call does -/

namespace EPollPoller

variable {ι : Type} {p q r : EPollPoller ι} {c : ι}

/-- A descriptor that is not watched can be added. -/
theorem update_add {ch : PolledChannel} (hch : p.store c = ch) (h : p.interest.lookup ch.fd = none) :
    p.update .add c = .ok { p with interest := p.interest.insert ch.fd ⟨ch.events, c⟩ } := by
  subst hch
  simp [update, epollCtl, h]

/-- A descriptor that is watched can be modified. -/
theorem update_mod (h : p.interest.lookup (p.store c).fd ≠ none) :
    p.update .mod c =
      .ok { p with interest := p.interest.insert (p.store c).fd ⟨(p.store c).events, c⟩ } := by
  simp [update, epollCtl, Option.isSome_iff_ne_none.mpr h]

/-- A descriptor that is watched can be deleted. -/
theorem update_del (h : p.interest.lookup (p.store c).fd ≠ none) :
    p.update .del c = .ok { p with interest := p.interest.erase (p.store c).fd } := by
  simp [update, epollCtl, Option.isSome_iff_ne_none.mpr h]

/-- The two pollers differ in one channel and under its descriptor only. -/
structure Touches (p q : EPollPoller ι) (c : ι) : Prop where
  store : ∀ d, d ≠ c → q.store d = p.store d
  fd : (q.store c).fd = (p.store c).fd
  channels : ∀ fd, fd ≠ (p.store c).fd → q.channels.lookup fd = p.channels.lookup fd
  interest : ∀ fd, fd ≠ (p.store c).fd → q.interest.lookup fd = p.interest.lookup fd
  errors : q.errors = p.errors

/-- Two changes under one descriptor are one. -/
theorem Touches.trans (h : Touches p q c) (h' : Touches q r c) : Touches p r c where
  store d hd := (h'.store d hd).trans (h.store d hd)
  fd := h'.fd.trans h.fd
  channels fd hfd := (h'.channels fd (h.fd.symm ▸ hfd)).trans (h.channels fd hfd)
  interest fd hfd := (h'.interest fd (h.fd.symm ▸ hfd)).trans (h.interest fd hfd)
  errors := h'.errors.trans h.errors

variable [DecidableEq ι]

/-- A poller with a new index of a channel and new maps. -/
def write (p : EPollPoller ι) (c : ι) (index : Int) (channels : Finmap fun _ : Int => ι)
    (interest : EpollList ι) : EPollPoller ι :=
  { p.setIndex c index with channels, interest }

/-- The index that was written. -/
theorem store_write_self (index : Int) (channels : Finmap fun _ : Int => ι) (interest : EpollList ι) :
    (p.write c index channels interest).store c = { p.store c with index } :=
  Poller.store_set_self ..

/-- Writing the index that is there changes the interest list only. -/
theorem write_of_index (h : (p.store c).index = kAdded) (interest : EpollList ι) :
    p.write c kAdded p.channels interest = { p with interest } := by
  have hsame : Function.update p.store c { p.store c with index := kAdded } = p.store := by
    rw [← h]
    exact Function.update_eq_self c p.store
  show EPollPoller.mk _ interest p.errors = _
  simp only [Poller.setIndex, Poller.set, setIndex, hsame]

/-- Writing touches one channel only. -/
theorem Touches.write {index : Int} {channels : Finmap fun _ : Int => ι} {interest : EpollList ι}
    (hchannels : ∀ fd, fd ≠ (p.store c).fd → channels.lookup fd = p.channels.lookup fd)
    (hinterest : ∀ fd, fd ≠ (p.store c).fd → interest.lookup fd = p.interest.lookup fd) :
    Touches p (p.write c index channels interest) c where
  store _ hd := Poller.store_set_of_ne hd _
  fd := by rw [store_write_self]
  channels := hchannels
  interest := hinterest
  errors := rfl

/-- The value of `index` that mirrors where a channel is. -/
def status (p : EPollPoller ι) (c : ι) : Int :=
  if p.channels.lookup (p.store c).fd = some c then
    if p.interest.lookup (p.store c).fd = none then kDeleted else kAdded
  else kNew

/-- A channel is added when it is in the map and watched. -/
theorem status_eq_kAdded : p.status c = kAdded ↔
    p.channels.lookup (p.store c).fd = some c ∧ p.interest.lookup (p.store c).fd ≠ none := by
  unfold status kAdded kDeleted kNew
  split_ifs <;> simp_all

/-- A channel is deleted when it is in the map and not watched. -/
theorem status_eq_kDeleted : p.status c = kDeleted ↔
    p.channels.lookup (p.store c).fd = some c ∧ p.interest.lookup (p.store c).fd = none := by
  unfold status kAdded kDeleted kNew
  split_ifs <;> simp_all

/-- A channel is new when it is not in the map. -/
theorem status_eq_kNew : p.status c = kNew ↔ p.channels.lookup (p.store c).fd ≠ some c := by
  unfold status kAdded kDeleted kNew
  split_ifs <;> simp_all

/-- What `updateChannel` has done for a channel that is now `channel`. -/
structure Updated (p q : EPollPoller ι) (c : ι) (channel : Channel) : Prop extends Touches p q c where
  toChannel : (q.store c).toChannel = channel
  registered : q.channels.lookup (p.store c).fd = some c
  entry : q.interest.lookup (p.store c).fd =
    if p.status c = kAdded ∧ channel.isNoneEvent = true then none else some ⟨channel.events, c⟩
  index : (q.store c).index = q.status c

/-- Writing what `updateChannel` writes is an update. -/
theorem Updated.write {index : Int} {channels : Finmap fun _ : Int => ι} {interest : EpollList ι}
    (hchannels : ∀ fd, fd ≠ (p.store c).fd → channels.lookup fd = p.channels.lookup fd)
    (hinterest : ∀ fd, fd ≠ (p.store c).fd → interest.lookup fd = p.interest.lookup fd)
    (hself : channels.lookup (p.store c).fd = some c)
    (hentry : interest.lookup (p.store c).fd =
      if p.status c = kAdded ∧ (p.store c).isNoneEvent = true then none
      else some ⟨(p.store c).events, c⟩)
    (hindex : index = if interest.lookup (p.store c).fd = none then kDeleted else kAdded) :
    Updated p (p.write c index channels interest) c (p.store c).toChannel := by
  have htouches : Touches p (p.write c index channels interest) c := .write hchannels hinterest
  refine { htouches with toChannel := ?_, registered := hself, entry := hentry, index := ?_ }
  · rw [store_write_self]
  · unfold status
    rw [htouches.fd, store_write_self]
    show index = if channels.lookup (p.store c).fd = some c then _ else _
    rw [if_pos hself]
    exact hindex

/-- A channel that is not in the interest list is put there, watching something or not. -/
theorem update_add_sat (hstatus : p.status c ≠ kAdded) (hint : p.interest.lookup (p.store c).fd = none)
    (channels : Finmap fun _ : Int => ι)
    (hchannels : ∀ fd, fd ≠ (p.store c).fd → channels.lookup fd = p.channels.lookup fd)
    (hself : channels.lookup (p.store c).fd = some c) :
    ((setIndex { p with channels } c kAdded).update .add c).Sat (Updated p · c (p.store c).toChannel) := by
  have hstore : (setIndex { p with channels } c kAdded).store c = { p.store c with index := kAdded } :=
    Poller.store_set_self ..
  rw [update_add hstore hint]
  refine .ok (.write hchannels (fun _ hfd => Finmap.lookup_insert_of_ne _ hfd) hself ?_ ?_)
  · rw [Finmap.lookup_insert, if_neg fun h => hstatus h.1]
  · rw [Finmap.lookup_insert]
    rfl

/-- **`updateChannel`**, for a channel with the right index: it is in `channels_` afterwards, and in the
interest list unless it was there and watches nothing. -/
theorem updateChannel_sat (hindex : (p.store c).index = p.status c)
    (honly : ∀ d, p.channels.lookup (p.store c).fd = some d → d = c)
    (hentry : p.interest.lookup (p.store c).fd ≠ none → p.channels.lookup (p.store c).fd ≠ none) :
    (p.updateChannel c).Sat (Updated p · c (p.store c).toChannel) := by
  unfold updateChannel
  by_cases hch : p.channels.lookup (p.store c).fd = some c
  · have hsome : p.channels.lookup (p.store c).fd ≠ none := by simp [hch]
    by_cases hint : p.interest.lookup (p.store c).fd = none
    · have hdeleted := status_eq_kDeleted.mpr ⟨hch, hint⟩
      rw [hindex, hdeleted, if_pos (.inr rfl), if_neg (by decide)]
      refine Checked.Sat.assert hsome (Checked.Sat.assert hch ?_)
      exact update_add_sat (by rw [hdeleted]; decide) hint p.channels (fun _ _ => rfl) hch
    · have hadded := status_eq_kAdded.mpr ⟨hch, hint⟩
      rw [hindex, hadded, if_neg (by decide)]
      refine Checked.Sat.assert hsome (Checked.Sat.assert hch (Checked.Sat.assert rfl ?_))
      split_ifs with hnone
      · rw [update_del hint]
        refine .ok (.write (fun _ _ => rfl) (fun _ hfd => Finmap.lookup_erase_ne hfd) hch ?_ ?_)
        · rw [Finmap.lookup_erase, if_pos ⟨hadded, hnone⟩]
        · rw [Finmap.lookup_erase, if_pos rfl]
      · rw [update_mod hint, ← write_of_index (hindex.trans hadded)]
        refine .ok (.write (fun _ _ => rfl) (fun _ hfd => Finmap.lookup_insert_of_ne _ hfd) hch ?_ ?_)
        · rw [Finmap.lookup_insert, if_neg fun h => hnone h.2]
        · rw [Finmap.lookup_insert]
          rfl
  · have hnone : p.channels.lookup (p.store c).fd = none := by
      by_contra hne
      obtain ⟨d, hd⟩ := Option.ne_none_iff_exists'.mp hne
      exact hch (honly d hd ▸ hd)
    have hint : p.interest.lookup (p.store c).fd = none := by
      by_contra hne
      exact hentry hne hnone
    have hnew := status_eq_kNew.mpr hch
    rw [hindex, hnew, if_pos (.inl rfl), if_pos rfl]
    refine Checked.Sat.assert hnone ?_
    exact update_add_sat (by rw [hnew]; decide) hint _
      (fun _ hfd => Finmap.lookup_insert_of_ne _ hfd) (Finmap.lookup_insert _)

/-- What `removeChannel` has done for a channel. -/
structure Removed (p q : EPollPoller ι) (c : ι) : Prop extends Touches p q c where
  events : (q.store c).events = (p.store c).events
  channels_self : q.channels.lookup (p.store c).fd = none
  interest_self : q.interest.lookup (p.store c).fd = none
  index : (q.store c).index = kNew

/-- `removeChannel` succeeds for a channel that watches nothing. -/
theorem removeChannel_sat (hindex : (p.store c).index = p.status c)
    (hch : p.channels.lookup (p.store c).fd = some c) (hnone : (p.store c).isNoneEvent = true) :
    (p.removeChannel c).Sat (Removed p · c) := by
  have hsome : p.channels.lookup (p.store c).fd ≠ none := by simp [hch]
  have hremoved (interest : EpollList ι)
      (hinterest : ∀ fd, fd ≠ (p.store c).fd → interest.lookup fd = p.interest.lookup fd)
      (hself : interest.lookup (p.store c).fd = none) :
      Removed p (p.write c kNew (p.channels.erase (p.store c).fd) interest) c := by
    refine { Touches.write (fun _ hfd => Finmap.lookup_erase_ne hfd) hinterest with
      events := ?_, channels_self := Finmap.lookup_erase _ _, interest_self := hself, index := ?_ }
    · rw [store_write_self]
    · rw [store_write_self]
  unfold removeChannel
  refine Checked.Sat.assert hsome (Checked.Sat.assert hch (Checked.Sat.assert hnone ?_))
  by_cases hint : p.interest.lookup (p.store c).fd = none
  · rw [hindex, status_eq_kDeleted.mpr ⟨hch, hint⟩]
    refine Checked.Sat.assert (.inr rfl) (Checked.Sat.assert (if_neg hsome) ?_)
    rw [if_neg (by decide)]
    exact .ok (hremoved _ (fun _ _ => rfl) hint)
  · rw [hindex, status_eq_kAdded.mpr ⟨hch, hint⟩]
    refine Checked.Sat.assert (.inl rfl) (Checked.Sat.assert (if_neg hsome) ?_)
    rw [if_pos rfl, update_del (by exact hint)]
    exact .ok (hremoved _ (fun _ hfd => Finmap.lookup_erase_ne hfd) (Finmap.lookup_erase _ _))

/-! ## The mirror -/

/-- The poller mirrors the interest list, which has an entry with the current events for a channel. -/
structure Mirrors (p : EPollPoller ι) : Prop where
  keyed : p.Keyed
  entry : ∀ fd e, p.interest.lookup fd = some e →
    p.channels.lookup fd = some e.ptr ∧ e.events = (p.store e.ptr).events
  index : ∀ c, (p.store c).index = p.status c
  errors : p.errors = []
  idle : ∀ c, p.status c ≠ kAdded → (p.store c).isNoneEvent = true

omit [DecidableEq ι] in
@[simp] theorem channels_new (fd : ι → Int) : (EPollPoller.new fd).channels = ∅ := rfl

omit [DecidableEq ι] in
@[simp] theorem interest_new (fd : ι → Int) : (EPollPoller.new fd).interest = ∅ := rfl

/-- A new poller mirrors the empty interest list. -/
theorem Mirrors.new (fd : ι → Int) : Mirrors (EPollPoller.new fd) where
  keyed n c h := by simp at h
  entry n e h := by simp at h
  index c := by
    have hnew : (EPollPoller.new fd).status c = kNew := by
      rw [status_eq_kNew]
      simp
    rw [hnew]
    rfl
  errors := rfl
  idle _ _ := rfl

/-- The status of the other channels stays. -/
theorem Touches.status_eq (h : Touches p q c) (hp : ∀ d, p.channels.lookup (p.store c).fd = some d → d = c)
    (hq : ∀ d, q.channels.lookup (p.store c).fd = some d → d = c) {d : ι} (hd : d ≠ c) :
    q.status d = p.status d := by
  unfold status
  rw [h.store d hd]
  by_cases hfd : (p.store d).fd = (p.store c).fd
  · rw [hfd, if_neg fun heq => hd (hq d heq), if_neg fun heq => hd (hp d heq)]
  · rw [h.channels _ hfd, h.interest _ hfd]

/-- **The frame rule.** A call that touches one channel keeps the mirror when it is right for that channel
and nothing else stands under its descriptor. -/
theorem Mirrors.of_touches (h : Mirrors p) (ht : Touches p q c)
    (hp : ∀ d, p.channels.lookup (p.store c).fd = some d → d = c)
    (hq : ∀ d, q.channels.lookup (p.store c).fd = some d → d = c)
    (hentry : ∀ e, q.interest.lookup (p.store c).fd = some e →
      q.channels.lookup (p.store c).fd = some e.ptr ∧ e.events = (q.store e.ptr).events)
    (hindex : (q.store c).index = q.status c)
    (hidle : q.status c ≠ kAdded → (q.store c).isNoneEvent = true) : Mirrors q where
  keyed fd d hd := by
    by_cases hfd : fd = (p.store c).fd
    · subst hfd
      rw [hq d hd, ht.fd]
    · rw [ht.channels fd hfd] at hd
      have hkey := h.keyed fd d hd
      have hdc : d ≠ c := by
        rintro rfl
        exact hfd hkey.symm
      rw [ht.store d hdc]
      exact hkey
  entry fd e he := by
    by_cases hfd : fd = (p.store c).fd
    · subst hfd
      exact hentry e he
    · rw [ht.interest fd hfd] at he
      obtain ⟨hch, hevents⟩ := h.entry fd e he
      have hptr : e.ptr ≠ c := by
        intro heq
        exact hfd (heq ▸ (h.keyed fd e.ptr hch).symm)
      rw [ht.channels fd hfd, ht.store e.ptr hptr]
      exact ⟨hch, hevents⟩
  index d := by
    by_cases hdc : d = c
    · rw [hdc]
      exact hindex
    · rw [ht.store d hdc, ht.status_eq hp hq hdc]
      exact h.index d
  errors := ht.errors.trans h.errors
  idle d hd := by
    by_cases hdc : d = c
    · rw [hdc] at hd ⊢
      exact hidle hd
    · rw [ht.status_eq hp hq hdc] at hd
      rw [ht.store d hdc]
      exact h.idle d hd

omit [DecidableEq ι] in
/-- A call leaves the other channels in `channels_`, or out of it. -/
theorem Touches.mem_registered_iff (ht : Touches p q c) (hpkeyed : p.Keyed) (hqkeyed : q.Keyed)
    (hp : ∀ d, p.channels.lookup (p.store c).fd = some d → d = c)
    (hq : ∀ d, q.channels.lookup (p.store c).fd = some d → d = c) {d : ι} (hd : d ≠ c) :
    d ∈ q.registered ↔ d ∈ p.registered := by
  rw [hpkeyed.mem_registered_iff, hqkeyed.mem_registered_iff, ht.store d hd]
  by_cases hfd : (p.store d).fd = (p.store c).fd
  · rw [hfd]
    exact iff_of_false (fun heq => hd (hq d heq)) fun heq => hd (hp d heq)
  · rw [ht.channels _ hfd]

/-- An update keeps the mirror. -/
theorem Mirrors.of_updated (h : Mirrors p) {channel : Channel} (hu : Updated p q c channel)
    (hp : ∀ d, p.channels.lookup (p.store c).fd = some d → d = c) : Mirrors q := by
  refine h.of_touches hu.toTouches hp ?_ ?_ hu.index ?_
  · intro d hd
    rw [hu.registered] at hd
    exact (Option.some.inj hd).symm
  · intro e he
    rw [hu.entry] at he
    split_ifs at he
    cases he
    refine ⟨hu.registered, ?_⟩
    rw [hu.toChannel]
  · intro hd
    rw [ne_eq, status_eq_kAdded, hu.fd, hu.entry, hu.registered] at hd
    rw [hu.toChannel]
    by_contra hsome
    exact hd ⟨rfl, by rw [if_neg fun hcond => hsome hcond.2]; exact Option.some_ne_none _⟩

/-- A removal keeps the mirror. -/
theorem Mirrors.of_removed (h : Mirrors p) (hr : Removed p q c) (hnone : (p.store c).isNoneEvent = true)
    (hp : ∀ d, p.channels.lookup (p.store c).fd = some d → d = c) : Mirrors q := by
  have hnew : q.status c = kNew := by
    rw [status_eq_kNew, hr.fd, hr.channels_self]
    exact (Option.some_ne_none c).symm
  refine h.of_touches hr.toTouches hp ?_ ?_ (hr.index.trans hnew.symm) ?_
  · intro d hd
    rw [hr.channels_self] at hd
    cases hd
  · intro e he
    rw [hr.interest_self] at he
    cases he
  · intro _
    rw [Channel.isNoneEvent, hr.events]
    exact hnone

/-- An update registers the channel. -/
theorem Updated.registered_eq (h : Mirrors p) {channel : Channel} (hu : Updated p q c channel)
    (hp : ∀ d, p.channels.lookup (p.store c).fd = some d → d = c) :
    q.registered = insert c p.registered := by
  ext d
  by_cases hd : d = c
  · rw [hd]
    exact iff_of_true ⟨_, hu.registered⟩ (Set.mem_insert c _)
  · rw [Set.mem_insert_iff, or_iff_right hd]
    refine hu.mem_registered_iff h.keyed (h.of_updated hu hp).keyed hp (fun e he => ?_) hd
    rw [hu.registered] at he
    exact (Option.some.inj he).symm

/-- A removal takes the channel out. -/
theorem Removed.registered_eq (h : Mirrors p) (hr : Removed p q c)
    (hnone : (p.store c).isNoneEvent = true)
    (hp : ∀ d, p.channels.lookup (p.store c).fd = some d → d = c) :
    q.registered = p.registered \ {c} := by
  have hqkeyed := (h.of_removed hr hnone hp).keyed
  ext d
  by_cases hd : d = c
  · rw [hd]
    refine iff_of_false (fun hc => ?_) fun hc => hc.2 rfl
    rw [hqkeyed.mem_registered_iff, hr.fd, hr.channels_self] at hc
    cases hc
  · rw [Set.mem_sdiff, Set.mem_singleton_iff, and_iff_left hd]
    refine hr.mem_registered_iff h.keyed hqkeyed hp (fun e he => ?_) hd
    rw [hr.channels_self] at he
    cases he

/-! ## Calls -/

/-- A channel is written before the poller is called. -/
theorem Touches.set {ch : PolledChannel} (hfd : ch.fd = (p.store c).fd) :
    Touches p { p with toPoller := p.toPoller.set c ch } c where
  store _ hd := Poller.store_set_of_ne hd ch
  fd := (congrArg PolledChannel.fd (Poller.store_set_self c ch)).trans hfd
  channels _ _ := rfl
  interest _ _ := rfl
  errors := rfl

/-- The status depends on the descriptor only. -/
theorem status_set {ch : PolledChannel} (hfd : ch.fd = (p.store c).fd) :
    status { p with toPoller := p.toPoller.set c ch } c = p.status c := by
  unfold status
  rw [(Touches.set hfd).fd]
  rfl

/-- A call of an operation succeeds. -/
theorem Mirrors.call_update (h : Mirrors p) (op : ChannelOp)
    (hp : ∀ d, p.channels.lookup (p.store c).fd = some d → d = c) :
    (p.call (.update c op)).Sat (Updated p · c (op.apply (p.store c).toChannel)) := by
  set ch : PolledChannel := { p.store c with toChannel := op.apply (p.store c).toChannel } with hch
  set p₁ : EPollPoller ι := { p with toPoller := p.toPoller.set c ch } with hp₁
  have ht : Touches p p₁ c := .set rfl
  have hstore : p₁.store c = ch := Poller.store_set_self c ch
  have hstatus : p₁.status c = p.status c := status_set rfl
  have hindex : (p₁.store c).index = p₁.status c := by
    rw [hstatus, hstore]
    exact h.index c
  have hsat : (p₁.updateChannel c).Sat (Updated p₁ · c (p₁.store c).toChannel) := by
    refine updateChannel_sat hindex ?_ ?_
    · rw [ht.fd]
      exact hp
    · rw [ht.fd]
      intro hne
      obtain ⟨e, he⟩ := Option.ne_none_iff_exists'.mp hne
      show p.channels.lookup _ ≠ none
      rw [(h.entry _ e he).1]
      exact Option.some_ne_none _
  refine hsat.mono fun q hu => ?_
  have hreg := hu.registered
  have hentry := hu.entry
  rw [ht.fd] at hreg hentry
  rw [hstatus, hstore] at hentry
  exact { ht.trans hu.toTouches with
    toChannel := hu.toChannel.trans (congrArg PolledChannel.toChannel hstore)
    registered := hreg
    entry := hentry
    index := hu.index }

/-- A call of `remove` succeeds. -/
theorem Mirrors.call_remove (h : Mirrors p) (hch : p.channels.lookup (p.store c).fd = some c)
    (hnone : (p.store c).isNoneEvent = true) : (p.call (.remove c)).Sat (Removed p · c) := by
  set ch : PolledChannel := { p.store c with addedToLoop := false } with hch'
  set p₁ : EPollPoller ι := { p with toPoller := p.toPoller.set c ch } with hp₁
  have ht : Touches p p₁ c := .set rfl
  have hstore : p₁.store c = ch := Poller.store_set_self c ch
  have hindex : (p₁.store c).index = p₁.status c := by
    rw [show p₁.status c = p.status c from status_set rfl, hstore]
    exact h.index c
  have hsat : (p₁.removeChannel c).Sat (Removed p₁ · c) := by
    refine removeChannel_sat hindex ?_ ?_
    · rw [ht.fd]
      exact hch
    · rw [hstore]
      exact hnone
  rw [call, Poller.beginRemove_eq hnone]
  refine hsat.mono fun q hr => ?_
  have hchannels := hr.channels_self
  have hinterest := hr.interest_self
  rw [ht.fd] at hchannels hinterest
  exact { ht.trans hr.toTouches with
    events := hr.events.trans (by rw [hstore])
    channels_self := hchannels
    interest_self := hinterest
    index := hr.index }

/-- Every enabled call keeps the mirror. -/
theorem Mirrors.step (h : Mirrors p) (call : ChannelCall ι) (henabled : p.Enabled call) :
    (p.call call).Sat Mirrors := by
  cases call with
  | update c op =>
      have hp : ∀ d, p.channels.lookup (p.store c).fd = some d → d = c :=
        fun d hd => henabled d ⟨_, hd⟩ (h.keyed _ d hd)
      exact (h.call_update op hp).mono fun q hu => h.of_updated hu hp
  | remove c =>
      have hch : p.channels.lookup (p.store c).fd = some c := of_decide_eq_true henabled.1
      refine (h.call_remove hch henabled.2).mono fun q hr => h.of_removed hr henabled.2 fun d hd => ?_
      rw [hch] at hd
      exact (Option.some.inj hd).symm

/-- Every reachable poller mirrors the interest list, and no call fails. -/
theorem Mirrors.of_reachable (hp : (ePollPoller ι).Reachable p) :
    Mirrors p ∧ (ePollPoller ι).Safe p := by
  refine Machine.invariant ?_ (fun p call h => h.step call) hp
  rintro _ ⟨fd, rfl⟩
  exact .new fd

end EPollPoller

open EPollPoller in
/-- **The mirror of the interest list.** In every state that calls on channels can lead to: the index of a
channel tells whether it is in `channels_` and whether its descriptor is in the interest list; every call of
`epoll_ctl` has succeeded, and no call can lead to a fatal one or fail an assertion; every entry of the interest
list is that of a channel in `channels_` and has its events; and `hasChannel` finds exactly the channels in
`channels_`. -/
theorem ePollPoller_mirrors {ι : Type} [DecidableEq ι] {p : EPollPoller ι}
    (hp : (ePollPoller ι).Reachable p) :
    (∀ c, (p.store c).index = kNew ↔ c ∉ p.registered) ∧
    (∀ c, (p.store c).index = kDeleted ↔
      c ∈ p.registered ∧ p.interest.lookup (p.store c).fd = none) ∧
    (∀ c, (p.store c).index = kAdded ↔
      c ∈ p.registered ∧ p.interest.lookup (p.store c).fd ≠ none) ∧
    p.errors = [] ∧
    (ePollPoller ι).Safe p ∧
    (∀ fd e, p.interest.lookup fd = some e →
      e.ptr ∈ p.registered ∧ (p.store e.ptr).fd = fd ∧ e.events = (p.store e.ptr).events) ∧
    ∀ c, p.hasChannel c = true ↔ c ∈ p.registered := by
  obtain ⟨h, hsafe⟩ := Mirrors.of_reachable hp
  have hmem (c : ι) := (h.keyed.mem_registered_iff (c := c)).symm
  refine ⟨?_, ?_, ?_, h.errors, hsafe, ?_, ?_⟩
  · intro c
    rw [h.index, status_eq_kNew, ne_eq, hmem]
  · intro c
    rw [h.index, status_eq_kDeleted, hmem]
  · intro c
    rw [h.index, status_eq_kAdded, hmem]
  · intro fd e he
    obtain ⟨hch, hevents⟩ := h.entry fd e he
    exact ⟨⟨fd, hch⟩, h.keyed fd e.ptr hch, hevents⟩
  · intro c
    exact (Poller.mem_registered h.keyed).symm

/-- A poller with one channel, on the descriptor `0`. -/
def EPollPoller.single (channel : Channel) (index : Int) (interest : EpollList Unit) : EPollPoller Unit :=
  { store := fun _ => { channel with fd := 0, index, revents := 0 }
    channels := Finmap.singleton 0 ()
    interest
    errors := [] }

/-- One channel enabled for reading. -/
theorem EPollPoller.single_run :
    (ePollPoller Unit).Run (.new fun _ => 0) [.update () .enableReading]
      (.single Channel.new.enableReading kAdded (Finmap.singleton 0 ⟨3, ()⟩)) :=
  .single (fun _ _ _ => rfl) rfl

/-- Of two channels, on the descriptors 3 and 4, the first one is disabled after both were watched: it stays in
`channels_`, and only the second one is in the interest list. -/
theorem ePollPoller_mirrors_disabled : ∃ p : EPollPoller Bool, (ePollPoller Bool).Reachable p ∧
    (p.store false).index = kDeleted ∧ (false ∈ p.registered ∧ p.interest.lookup (p.store false).fd = none) ∧
    (p.store true).index = kAdded ∧ (true ∈ p.registered ∧ p.interest.lookup (p.store true).fd ≠ none) ∧
    p.errors = [] ∧ (ePollPoller Bool).Safe p := by
  have hlegal (p : EPollPoller Bool) (c : Bool) (op : ChannelOp)
      (hfd : ∀ d, (p.store d).fd = if d then 4 else 3) : (ePollPoller Bool).enabled p (.update c op) := by
    intro d _ heq
    rw [hfd, hfd] at heq
    cases c <;> cases d <;> first | rfl | exact absurd heq (by decide)
  have h0 : (ePollPoller Bool).Reachable (.new fun c => if c then 4 else 3) := .of_init ⟨_, rfl⟩
  have h1 := h0.step (hlegal _ false .enableReading fun d => rfl) rfl
  have h2 := h1.step (hlegal _ true .enableWriting fun d => by cases d <;> rfl) rfl
  have h3 := h2.step (hlegal _ false .disableAll fun d => by cases d <;> rfl) rfl
  obtain ⟨-, hdeleted, hadded, herrors, hsafe, -⟩ := ePollPoller_mirrors h3
  exact ⟨_, h3, rfl, (hdeleted false).mp rfl, rfl, (hadded true).mp rfl, herrors, hsafe⟩

/-! ## Idle channels -/

namespace EPollPoller

variable {ι : Type}

/-- A descriptor is in the interest list exactly when its channel in `channels_` watches something. -/
def WatchesAt (p : EPollPoller ι) (fd : Int) : Prop :=
  p.interest.lookup fd ≠ none ↔ ∃ c, p.channels.lookup fd = some c ∧ (p.store c).isNoneEvent = false

/-- The interest list has exactly the descriptors of the channels that watch something. -/
def Watches (p : EPollPoller ι) : Prop := ∀ fd, p.WatchesAt fd

/-- An operation that leaves a channel idle is made on a channel that watches something. -/
def KeepsInterest (p : EPollPoller ι) : ChannelCall ι → Prop
  | .update c op =>
      (op.apply (p.store c).toChannel).isNoneEvent = true → (p.store c).isNoneEvent = false
  | .remove _ => True

variable {p q : EPollPoller ι} {c : ι}

/-- At the start nothing is watched. -/
theorem Watches.new (fd : ι → Int) : (EPollPoller.new fd).Watches := by
  intro n
  simp [WatchesAt]

/-- Under another descriptor nothing changes. -/
theorem WatchesAt.of_touches (hkeyed : p.Keyed) (ht : Touches p q c) {fd : Int}
    (hfd : fd ≠ (p.store c).fd) (h : p.WatchesAt fd) : q.WatchesAt fd := by
  unfold WatchesAt at h ⊢
  rw [ht.interest fd hfd, ht.channels fd hfd, h]
  refine exists_congr fun d => and_congr_right fun hd => ?_
  have hdc : d ≠ c := by
    rintro rfl
    exact hfd (hkeyed fd d hd).symm
  rw [ht.store d hdc]

variable [DecidableEq ι]

/-- Where the interest list is right, the channels in it are those that watch something. -/
theorem Mirrors.status_eq_kAdded_iff (h : Mirrors p) (hw : p.WatchesAt (p.store c).fd) :
    p.status c = kAdded ↔ (p.store c).isNoneEvent = false := by
  constructor
  · intro hadded
    obtain ⟨hch, hint⟩ := status_eq_kAdded.mp hadded
    obtain ⟨d, hd, hnone⟩ := hw.mp hint
    rw [hch] at hd
    rw [Option.some.inj hd]
    exact hnone
  · intro hnone
    by_contra hne
    rw [h.idle c hne] at hnone
    cases hnone

/-- When the descriptor is in the list after an update. -/
theorem Updated.watchesAt_iff {channel : Channel} (hu : Updated p q c channel) :
    q.WatchesAt (p.store c).fd ↔ (channel.isNoneEvent = true → p.status c = kAdded) := by
  unfold WatchesAt
  rw [hu.entry, hu.registered]
  have hchannel : (∃ d, some c = some d ∧ (q.store d).isNoneEvent = false) ↔
      channel.isNoneEvent = false := by
    simp [hu.toChannel]
  rw [hchannel]
  cases hnone : channel.isNoneEvent <;> by_cases hadded : p.status c = kAdded <;> simp [hadded]

/-- **The step.** Where the interest list is right, it stays right exactly when the call does not leave an
idle channel idle. -/
theorem Mirrors.watches_iff (h : Mirrors p) (hw : p.Watches) {call : ChannelCall ι}
    (henabled : p.Enabled call) (hq : p.call call = .ok q) : q.Watches ↔ p.KeepsInterest call := by
  cases call with
  | update c op =>
      have hu := (h.call_update op fun d hd => henabled d ⟨_, hd⟩ (h.keyed _ d hd)).of_eq_ok hq
      show _ ↔ (_ → _)
      rw [← h.status_eq_kAdded_iff (hw _), ← hu.watchesAt_iff]
      constructor
      · intro hq
        exact hq _
      · intro hself fd
        by_cases hfd : fd = (p.store c).fd
        · rw [hfd]
          exact hself
        · exact (hw fd).of_touches h.keyed hu.toTouches hfd
  | remove c =>
      have hr := (h.call_remove (of_decide_eq_true henabled.1) henabled.2).of_eq_ok hq
      refine iff_of_true (fun fd => ?_) trivial
      by_cases hfd : fd = (p.store c).fd
      · rw [hfd, WatchesAt, hr.interest_self, hr.channels_self]
        simp
      · exact (hw fd).of_touches h.keyed hr.toTouches hfd

omit [DecidableEq ι] in
/-- No event can be delivered to an idle channel. -/
theorem Watches.silent (hw : p.Watches) (hmirrors : ∀ fd e, p.interest.lookup fd = some e →
    p.channels.lookup fd = some e.ptr) (hnone : (p.store c).isNoneEvent = true) (fd : Int)
    (e : EpollEvent ι) (he : p.interest.lookup fd = some e) : e.ptr ≠ c := by
  rintro rfl
  obtain ⟨d, hd, hsome⟩ := (hw fd).mp (by simp [he])
  rw [hmirrors fd e he] at hd
  cases hd
  rw [hnone] at hsome
  cases hsome

end EPollPoller

open EPollPoller in
/-- **Idle channels are not watched**, after every call of a run, exactly when no call of the run leaves an
idle channel idle: the branch of `updateChannel` for new and for deleted channels adds them to the interest
list without looking at their events. In such runs no event can be delivered to an idle channel. -/
theorem ePollPoller_watches_iff {ι : Type} [DecidableEq ι] {fd : ι → Int} {calls : List (ChannelCall ι)}
    {p : EPollPoller ι} (hrun : (ePollPoller ι).Run (.new fd) calls p) :
    ((∀ before q, before <+: calls → (ePollPoller ι).Run (.new fd) before q → q.Watches) ↔
      ((ePollPoller ι).restrict KeepsInterest).Run (.new fd) calls p) ∧
    (((ePollPoller ι).restrict KeepsInterest).Run (.new fd) calls p →
      ∀ c, (p.store c).isNoneEvent = true → ∀ n e, p.interest.lookup n = some e → e.ptr ≠ c) := by
  have hinit : (ePollPoller ι).init (.new fd) := ⟨fd, rfl⟩
  have halways := hrun.always_iff
    (fun s call t hs hw henabled ht => (Mirrors.of_reachable hs).1.watches_iff hw henabled ht)
    hinit (Watches.new fd)
  refine ⟨halways, fun hkeeps c hnone => ?_⟩
  have hmirrors := (Mirrors.of_reachable ⟨_, _, hinit, hrun⟩).1
  have hw : p.Watches := halways.mpr hkeeps calls p (List.prefix_refl _) hrun
  exact hw.silent (fun n e he => (hmirrors.entry n e he).1) hnone

/-- A channel is disabled and enabled again: it is out of the interest list in between. -/
theorem ePollPoller_watches_iff_enabled_again : ∃ p : EPollPoller Unit,
    (ePollPoller Unit).Run (.new fun _ => 0)
      ([.update () .enableReading] ++ [.update () .disableAll] ++ [.update () .enableWriting]) p ∧
    ∀ before q, before <+: [.update () .enableReading] ++ [.update () .disableAll] ++ [.update () .enableWriting] →
      (ePollPoller Unit).Run (.new fun _ => 0) before q → q.Watches := by
  have hlegal (p : EPollPoller Unit) (op : ChannelOp) : (ePollPoller Unit).enabled p (.update () op) :=
    fun _ _ _ => rfl
  have h1 : ((ePollPoller Unit).restrict EPollPoller.KeepsInterest).Run (.new fun _ => 0)
      [.update () .enableReading] (.single Channel.new.enableReading kAdded (Finmap.singleton 0 ⟨3, ()⟩)) :=
    .single ⟨hlegal _ _, fun hidle => absurd hidle (by decide)⟩ rfl
  have h2 : ((ePollPoller Unit).restrict EPollPoller.KeepsInterest).Run (.new fun _ => 0)
      ([.update () .enableReading] ++ [.update () .disableAll])
      (.single Channel.new.enableReading.disableAll kDeleted ∅) :=
    .snoc h1 ⟨hlegal _ _, fun _ => rfl⟩ rfl
  have h3 : ((ePollPoller Unit).restrict EPollPoller.KeepsInterest).Run (.new fun _ => 0)
      ([.update () .enableReading] ++ [.update () .disableAll] ++ [.update () .enableWriting])
      (.single Channel.new.enableReading.disableAll.enableWriting kAdded (Finmap.singleton 0 ⟨4, ()⟩)) :=
    .snoc h2 ⟨hlegal _ _, fun hidle => absurd hidle (by decide)⟩ rfl
  have hrun := h3.of_restrict
  exact ⟨_, hrun, (ePollPoller_watches_iff hrun).1.mpr h3⟩

/-- `stopRead()` and then `forceClose()` on a connection: `disableAll` is called on a channel that is
disabled, and puts it back into the interest list, where it gets `POLLHUP` and `POLLERR`. -/
theorem ePollPoller_watches_idle : ∃ p : EPollPoller Unit,
    (ePollPoller Unit).Run (.new fun _ => 0)
      [.update () .enableReading, .update () .disableReading, .update () .disableAll] p ∧
    (p.store ()).isNoneEvent = true ∧ p.interest.lookup 0 = some ⟨Channel.kNoneEvent, ()⟩ ∧ ¬ p.Watches := by
  have hlegal (p : EPollPoller Unit) (op : ChannelOp) : (ePollPoller Unit).enabled p (.update () op) :=
    fun _ _ _ => rfl
  refine ⟨.single Channel.new.enableReading.disableReading.disableAll kAdded
    (Finmap.singleton 0 ⟨Channel.kNoneEvent, ()⟩), ?_, rfl, rfl, ?_⟩
  · have hdisabled : (ePollPoller Unit).Run (.new fun _ => 0)
        ([.update () .enableReading] ++ [.update () .disableReading])
        (.single Channel.new.enableReading.disableReading kDeleted ∅) :=
      .snoc EPollPoller.single_run (hlegal _ _) rfl
    exact .snoc hdisabled (hlegal _ _) rfl
  · intro hw
    obtain ⟨c, -, hsome⟩ := (hw 0).mp (by decide)
    cases hsome

end Muduo.Net
