import Muduo.Net.EPollPolling
import Muduo.Net.PollerEquivalence

/-! # `PollPoller::poll`, and one poller in the place of the other

`PollPoller` gets the events in its own entries. It reports what `EPollPoller` reports as long as both watch the same
channels, and they do so until a call leaves idle a channel that `EPollPoller` has taken out of the interest list:
`pollers_report_alike_iff`. -/

namespace Muduo.Net

open Support

/-! ## `PollPoller` -/

/-- What `poll(2)` writes into an entry. -/
def PollFd.answer (ready : Int → BitVec 32) (pfd : PollFd) : BitVec 16 :=
  if pfd.fd < 0 then 0 else (occurring (pfd.events.signExtend 32) (ready pfd.fd)).setWidth 16

/-- The flags that the kernel knows leave the sign of a `short` alone. -/
def ReadyFlags (ready : Int → BitVec 32) : Prop := ∀ fd, (ready fd).toNat < 2 ^ 15

namespace PollPoller

variable {ι : Type} [DecidableEq ι] (p : PollPoller ι)

/-- `poll(timeoutMs, activeChannels)`. -/
def poll (ready : Int → BitVec 32) : Checked (PollPoller ι × List ι) :=
  let p := p.withRevents (p.pollfds.map (PollFd.answer ready))
  let numEvents := p.pollfds.countP fun pfd => pfd.revents ≠ 0
  if 0 < numEvents then p.fillActiveChannels numEvents [] else return (p, [])

/-- The entry of a channel is one that the kernel looks at. -/
def Watched (c : ι) : Prop := c ∈ p.registered ∧ (p.slot c).fd = (p.store c).fd

/-- Something has happened on a channel whose entry is not ignored. -/
def Happened (ready : Int → BitVec 32) (c : ι) : Prop :=
  p.Watched c ∧ occurring (p.store c).events (ready (p.store c).fd) ≠ 0

end PollPoller

section Flags

variable {ready : Int → BitVec 32} {x : BitVec 32}

/-- A small number goes through a `short`. -/
theorem toInt_setWidth (h : x.toNat < 2 ^ 15) : (x.setWidth 16).toInt = x.toNat := by
  have hnat : (x.setWidth 16).toNat = x.toNat := by
    rw [BitVec.toNat_setWidth]
    omega
  rw [BitVec.toInt_eq_toNat_of_lt (by omega), hnat]

/-- Widening gives the flags back. -/
theorem signExtend_setWidth (h : x.toNat < 2 ^ 15) : (x.setWidth 16).signExtend 32 = x := by
  apply BitVec.eq_of_toInt_eq
  rw [BitVec.toInt_signExtend_of_le (by decide), toInt_setWidth h, BitVec.toInt_eq_toNat_of_lt (by omega)]

/-- A flag is seen as a positive `short`. -/
theorem toInt_setWidth_pos_iff (h : x.toNat < 2 ^ 15) : 0 < (x.setWidth 16).toInt ↔ x ≠ 0 := by
  rw [toInt_setWidth h, Int.natCast_pos, Nat.pos_iff_ne_zero, ne_eq, ne_eq, ← BitVec.toNat_inj]
  rfl

/-- What occurs fits a `short`. -/
theorem toNat_occurring_lt (h : ReadyFlags ready) (events : BitVec 32) (fd : Int) :
    (occurring events (ready fd)).toNat < 2 ^ 15 := by
  rw [occurring, BitVec.toNat_and]
  exact lt_of_le_of_lt Nat.and_le_left (h fd)

/-- When an entry gets an answer. -/
theorem PollFd.answer_pos_iff (h : ReadyFlags ready) (pfd : PollFd) :
    0 < (answer ready pfd).toInt ↔ 0 ≤ pfd.fd ∧ occurring (pfd.events.signExtend 32) (ready pfd.fd) ≠ 0 := by
  unfold answer
  split
  · next hneg => exact iff_of_false (by simp) fun hpos => absurd hpos.1 (not_le.mpr hneg)
  · next hpos =>
      rw [toInt_setWidth_pos_iff (toNat_occurring_lt h ..), and_iff_right (not_lt.mp hpos)]

/-- An answer is never negative. -/
theorem PollFd.answer_ne_zero_iff (h : ReadyFlags ready) (pfd : PollFd) :
    answer ready pfd ≠ 0 ↔ 0 < (answer ready pfd).toInt := by
  constructor
  · intro hne
    rw [answer_pos_iff h]
    unfold answer at hne
    split at hne
    · exact absurd rfl hne
    · next hpos =>
        refine ⟨not_lt.mp hpos, fun hzero => hne ?_⟩
        rw [hzero]
        rfl
  · intro hpos hzero
    rw [hzero] at hpos
    exact absurd hpos (by decide)

end Flags

namespace PollInv

open PollPoller

variable {ι : Type} {p : PollPoller ι} {ready : Int → BitVec 32} {c : ι}

/-- The answers, entry by entry. -/
theorem pollfds_withRevents (p : PollPoller ι) (f : PollFd → BitVec 16) :
    (p.withRevents (p.pollfds.map f)).pollfds = p.pollfds.map fun pfd => { pfd with revents := f pfd } := by
  rw [PollPoller.withRevents, List.zipWith_map_right, List.zipWith_self]

/-- The entries that have an answer. -/
theorem mem_happened (h : ReadyFlags ready) {pfd : PollFd} :
    pfd ∈ PollFd.happened (p.withRevents (p.pollfds.map (PollFd.answer ready))).pollfds ↔
      ∃ old ∈ p.pollfds, 0 ≤ old.fd ∧ occurring (old.events.signExtend 32) (ready old.fd) ≠ 0 ∧
        { old with revents := PollFd.answer ready old } = pfd := by
  rw [pollfds_withRevents, PollFd.happened, List.mem_filter, List.mem_map]
  constructor
  · rintro ⟨⟨old, hold, rfl⟩, hpos⟩
    obtain ⟨hfd, hne⟩ := (PollFd.answer_pos_iff h old).mp (of_decide_eq_true hpos)
    exact ⟨old, hold, hfd, hne, rfl⟩
  · rintro ⟨old, hold, hfd, hne, rfl⟩
    exact ⟨⟨old, hold, rfl⟩, decide_eq_true ((PollFd.answer_pos_iff h old).mpr ⟨hfd, hne⟩)⟩

/-- `poll(2)` counts the entries on which something has happened. -/
theorem numEvents_eq (h : ReadyFlags ready) :
    (p.withRevents (p.pollfds.map (PollFd.answer ready))).pollfds.countP (fun pfd => pfd.revents ≠ 0) =
      (PollFd.happened (p.withRevents (p.pollfds.map (PollFd.answer ready))).pollfds).length := by
  rw [PollFd.happened, ← List.countP_eq_length_filter, pollfds_withRevents, List.countP_map, List.countP_map]
  refine List.countP_congr fun pfd _ => ?_
  simp only [Function.comp_apply, decide_eq_true_eq]
  exact PollFd.answer_ne_zero_iff h pfd

/-- The channel of an entry on which something has happened. -/
theorem lookup_happened (h : PollInv p) {pfd : PollFd} (hpfd : pfd ∈ p.pollfds) (hpos : 0 ≤ pfd.fd)
    (hc : p.channels.lookup pfd.fd = some c) : p.Watched c ∧ p.slot c = pfd := by
  obtain ⟨n, hn⟩ := List.mem_iff_getElem?.mp hpfd
  obtain ⟨d, hd, hindex, hfd⟩ := h.exists_channel hn hpos
  obtain rfl : d = c := by
    rw [← hfd, h.keyed.lookup hd] at hc
    exact Option.some.inj hc
  have hslot := h.getElem?_slot hd
  rw [hindex, hn] at hslot
  obtain rfl := Option.some.inj hslot
  exact ⟨⟨hd, hfd.symm⟩, rfl⟩

variable [DecidableEq ι]

/-- `poll` reports the entries on which something has happened. -/
theorem poll_reported (h : PollInv p) (hready : ReadyFlags ready) :
    (p.poll ready).Sat fun r =>
      Reported p.toPoller (p.withRevents (p.pollfds.map (PollFd.answer ready))).pollfds r.2 r.1.toPoller := by
  have hinv : PollInv (p.withRevents (p.pollfds.map (PollFd.answer ready))) := h.withRevents (List.length_map _)
  unfold poll
  dsimp only
  rw [numEvents_eq hready]
  split
  · refine (hinv.fillActiveChannels_sat (fun pfd hpfd => ?_) []).mono ?_
    · obtain ⟨old, -, hfd, -, rfl⟩ := (mem_happened hready).mp hpfd
      exact hfd
    · rintro r ⟨active, hactive, hreported⟩
      rw [hactive]
      exact hreported
  · next hzero =>
      rw [not_lt, Nat.le_zero, List.length_eq_zero_iff] at hzero
      exact .ok (.nil _ hzero)

/-- **`PollPoller::poll`**: the channels with an entry that is not ignored, on which something has happened, and
what it was. -/
theorem poll_sat (h : PollInv p) (hready : ReadyFlags ready) :
    (p.poll ready).Sat fun r => r.2.Nodup ∧
      ∀ c, (c ∈ r.2 ↔ p.Happened ready c) ∧
        (c ∈ r.2 → (r.1.store c).revents = occurring (p.store c).events (ready (p.store c).fd)) := by
  refine (h.poll_reported hready).mono fun r hr => ⟨hr.nodup, fun c => ?_⟩
  -- what has happened on the entry of a channel, in the words of the channel
  have hentry (hc : p.Watched c) : occurring ((p.slot c).events.signExtend 32) (ready (p.slot c).fd) =
      occurring (p.store c).events (ready (p.store c).fd) := by
    rw [hc.2, (h.fits_slot hc.1).2]
  have hmem (hc : c ∈ r.2) : p.Watched c ∧ occurring (p.store c).events (ready (p.store c).fd) ≠ 0 ∧
      (r.1.store c).revents = occurring (p.store c).events (ready (p.store c).fd) := by
    obtain ⟨pfd, hpfd, hlookup⟩ := hr.exists_entry hc
    have hrevents := hr.revents pfd hpfd c hlookup
    obtain ⟨old, hold, hfd, hne, rfl⟩ := (mem_happened hready).mp hpfd
    obtain ⟨hwatched, rfl⟩ := h.lookup_happened hold hfd hlookup
    rw [hentry hwatched] at hne
    refine ⟨hwatched, hne, ?_⟩
    rw [hrevents]
    show (PollFd.answer ready (p.slot c)).signExtend 32 = _
    rw [PollFd.answer, if_neg (not_lt.mpr hfd), hentry hwatched, signExtend_setWidth (toNat_occurring_lt hready ..)]
  refine ⟨⟨fun hc => ⟨(hmem hc).1, (hmem hc).2.1⟩, ?_⟩, fun hc => (hmem hc).2.2⟩
  rintro ⟨hwatched, hne⟩
  rw [← hentry hwatched] at hne
  have hold := List.mem_of_getElem? (h.getElem?_slot hwatched.1)
  have hfd : 0 ≤ (p.slot c).fd := hwatched.2.symm ▸ h.fd_nonneg c hwatched.1
  have hpfd := (mem_happened hready).mpr ⟨_, hold, hfd, hne, rfl⟩
  have hsome : some c ∈ r.2.map some := by
    rw [hr.order]
    refine List.mem_map.mpr ⟨_, hpfd, ?_⟩
    show p.channels.lookup (p.slot c).fd = some c
    rw [hwatched.2]
    exact h.keyed.lookup hwatched.1
  exact (List.mem_map_of_injective (Option.some_injective ι)).mp hsome

end PollInv

/-! ## One in the place of the other -/

variable {ι : Type}

/-- The two pollers watch the same channels. -/
def WatchAlike (p : PollPoller ι) (q : EPollPoller ι) : Prop := ∀ c, p.Watched c ↔ q.Watched c

variable [DecidableEq ι]

/-- The two pollers report the same channels with the same events, whatever is the case on the descriptors, if
`epoll_wait` has room to spare. -/
def ReportAlike (p : PollPoller ι) (q : EPollPoller ι) : Prop :=
  ∀ ready, ReadyFlags ready → ∀ (s : EPollState ι) fds, s.poller = q → fds.length < s.size →
    EpollWait q.interest s.size ready fds →
      ∃ p' active t, p.poll ready = .ok (p', active) ∧ s.exec (.poll ready fds) = .ok t ∧
        active.Perm t.activeChannels ∧ ∀ c ∈ active, (p'.store c).revents = (t.poller.store c).revents

/-- An operation does not leave idle a channel that was taken out of the interest list. -/
def EPollPoller.Stirs (q : EPollPoller ι) : ChannelCall ι → Prop
  | .update c op => q.status c = kDeleted → (op.apply (q.store c).toChannel).isNoneEvent = false
  | .remove _ => True

namespace PollersAgree

open ChannelCall EPollPoller

variable {fd : ι → Int} {before : List (ChannelCall ι)} {call : ChannelCall ι} {p p' : PollPoller ι}
  {q q' : EPollPoller ι} {c : ι}

/-- What `PollPoller` watches: the channels that watch something, and those with one operation. -/
theorem watched_iff (h : PollersAgree fd before p q) (hpos : ∀ c, 0 ≤ fd c) :
    p.Watched c ↔ c ∈ q.registered ∧ (before.countP (updates c) = 1 ∨ (q.store c).isNoneEvent = false) := by
  rw [PollPoller.Watched, ← h.registered]
  refine and_congr_right fun hc => ?_
  have hfd := hpos c
  rw [(h.slot c hc).2, PollInv.entry, h.isNoneEvent_eq, h.fd_left]
  by_cases hone : before.countP (updates c) = 1
  · simp [hone]
  · rw [if_neg hone, or_iff_right hone]
    cases (q.store c).isNoneEvent with
    | false => simp
    | true =>
        rw [if_pos rfl]
        exact iff_of_false (by dsimp only; omega) (by decide)

/-- A channel that was never updated is new to the other poller. -/
theorem count_eq_zero_iff (h : PollersAgree fd before p q) (hc : .remove c ∉ before) :
    before.countP (updates c) = 0 ↔ q.status c = kNew := by
  rw [status_eq_kNew, ne_eq, ← h.mirrors.keyed.mem_registered_iff, ← h.registered]
  constructor
  · intro hzero hmem
    have hcount := (h.slot c hmem).1
    omega
  · intro hmem
    exact (h.unused c hmem hc).1

/-- A call does not concern what is watched of the other channels. -/
theorem watched_of_touches (h : PollersAgree fd before p q) (hinj : Function.Injective fd)
    (h' : PollersAgree fd (before ++ [call]) p' q') (ht : Touches q q' c) {d : ι} (hd : d ≠ c)
    (hcount : (before ++ [call]).countP (updates d) = before.countP (updates d)) (hpos : ∀ c, 0 ≤ fd c) :
    (p'.Watched d ↔ p.Watched d) ∧ (q'.Watched d ↔ q.Watched d) := by
  have hregistered : d ∈ q'.registered ↔ d ∈ q.registered :=
    ht.mem_registered_iff h.mirrors.keyed h'.mirrors.keyed (fun e he => h.only hinj he rfl)
      (fun e he => h'.only hinj he ht.fd) hd
  have hfd : (q.store d).fd ≠ (q.store c).fd := by
    rw [h.fd_right, h.fd_right]
    exact fun heq => hd (hinj heq)
  rw [h.watched_iff hpos, h'.watched_iff hpos, hregistered, hcount, ht.store d hd]
  refine ⟨Iff.rfl, ?_⟩
  rw [Watched, Watched, hregistered, ht.store d hd, ht.interest _ hfd]

/-- **An operation** leaves the pollers watching the same channels exactly when it does not leave idle a channel
that was taken out of the interest list. -/
theorem watchAlike_update (h : PollersAgree fd before p q) (hinj : Function.Injective fd) (hpos : ∀ c, 0 ≤ fd c)
    (hw : WatchAlike p q) {op : ChannelOp} (hsuits : (update c op).Suits before)
    (h' : PollersAgree fd (before ++ [.update c op]) p' q') (hq : q.call (.update c op) = .ok q') :
    WatchAlike p' q' ↔ q.Stirs (.update c op) := by
  have hu := (h.mirrors.call_update op fun d hd => h.only hinj hd rfl).of_eq_ok hq
  have hother (d : ι) (hd : d ≠ c) : p'.Watched d ↔ q'.Watched d := by
    have hcount : (before ++ [update c op]).countP (updates d) = before.countP (updates d) := by
      rw [countP_update, if_neg hd.symm, Nat.add_zero]
    obtain ⟨hleft, hright⟩ := h.watched_of_touches hinj h' hu.toTouches hd hcount hpos
    rw [hleft, hright]
    exact hw d
  have hleft : p'.Watched c ↔
      q.status c = kNew ∨ (op.apply (q.store c).toChannel).isNoneEvent = false := by
    rw [h'.watched_iff hpos, countP_update, if_pos rfl, hu.toChannel, Nat.add_eq_right, h.count_eq_zero_iff hsuits]
    exact and_iff_right ⟨_, hu.registered⟩
  have hright : q'.Watched c ↔
      ¬ (q.status c = kAdded ∧ (op.apply (q.store c).toChannel).isNoneEvent = true) := by
    rw [Watched, hu.fd, hu.entry, and_iff_right ⟨_, hu.registered⟩]
    split_ifs with hcond <;> simp [hcond]
  have hself : (p'.Watched c ↔ q'.Watched c) ↔ q.Stirs (.update c op) := by
    rw [hleft, hright, Stirs]
    have hstatus : q.status c = kNew ∨ q.status c = kAdded ∨ q.status c = kDeleted := by
      unfold status
      split_ifs <;> simp
    cases (op.apply (q.store c).toChannel).isNoneEvent <;>
      rcases hstatus with hstatus | hstatus | hstatus <;> simp [hstatus, kNew, kAdded, kDeleted]
  rw [← hself]
  constructor
  · intro hall
    exact hall c
  · intro hc d
    by_cases hd : d = c
    · rw [hd]
      exact hc
    · exact hother d hd

/-- **A removal** leaves the pollers watching the same channels. -/
theorem watchAlike_remove (h : PollersAgree fd before p q) (hinj : Function.Injective fd) (hpos : ∀ c, 0 ≤ fd c)
    (hw : WatchAlike p q) (henabled : q.Enabled (.remove c))
    (h' : PollersAgree fd (before ++ [.remove c]) p' q') (hq : q.call (.remove c) = .ok q') :
    WatchAlike p' q' := by
  have hr := (h.mirrors.call_remove (of_decide_eq_true henabled.1) henabled.2).of_eq_ok hq
  intro d
  by_cases hd : d = c
  · have hnot : c ∉ q'.registered := by
      rw [h'.mirrors.keyed.mem_registered_iff, hr.fd, hr.channels_self]
      exact (Option.some_ne_none c).symm
    rw [hd, h'.watched_iff hpos]
    exact iff_of_false (fun hc => hnot hc.1) fun hc => hnot hc.1
  · obtain ⟨hleft, hright⟩ := h.watched_of_touches hinj h' hr.toTouches hd (countP_remove before c d) hpos
    rw [hleft, hright]
    exact hw d

/-- **The step.** -/
theorem watchAlike_iff (h : PollersAgree fd before p q) (hinj : Function.Injective fd) (hpos : ∀ c, 0 ≤ fd c)
    (hw : WatchAlike p q) (henabled : q.Enabled call) (hsuits : call.Suits before)
    (h' : PollersAgree fd (before ++ [call]) p' q') (hq : q.call call = .ok q') :
    WatchAlike p' q' ↔ q.Stirs call := by
  cases call with
  | update c op => exact h.watchAlike_update hinj hpos hw hsuits h' hq
  | remove c => exact iff_of_true (h.watchAlike_remove hinj hpos hw henabled h' hq) trivial

/-- What both pollers report, with room to spare. -/
theorem poll_sat (h : PollersAgree fd before p q) {ready : Int → BitVec 32} (hready : ReadyFlags ready)
    {s : EPollState ι} {fds : List Int} (hs : s.poller = q) (hroom : fds.length < s.size)
    (hwait : EpollWait q.interest s.size ready fds) :
    ∃ p' active t, p.poll ready = .ok (p', active) ∧ s.exec (.poll ready fds) = .ok t ∧
      active.Nodup ∧ t.activeChannels.Nodup ∧
      (∀ c, c ∈ active ↔ p.Watched c ∧ occurring (q.store c).events (ready (fd c)) ≠ 0) ∧
      (∀ c, c ∈ t.activeChannels ↔ q.Watched c ∧ occurring (q.store c).events (ready (fd c)) ≠ 0) ∧
      ∀ c, c ∈ active → c ∈ t.activeChannels → (p'.store c).revents = (t.poller.store c).revents := by
  subst hs
  obtain ⟨⟨p', active⟩, hp', hnodup, hactive⟩ := h.inv.poll_sat hready
  obtain ⟨t, ht, -, hdelivered, hlength, -⟩ := EPollState.poll_delivered h.mirrors (by omega) hwait
  refine ⟨p', active, t, hp', ht, hnodup, hdelivered.nodup, fun c => ?_, fun c => ⟨fun hc => ?_, fun hc => ?_⟩,
    fun c hleft hright => ?_⟩
  · rw [(hactive c).1, PollPoller.Happened, h.events, h.fd_left]
  · rw [← h.fd_right]
    exact (hdelivered.happened c hc).1
  · rw [← h.fd_right] at hc
    exact hdelivered.all (hlength ▸ hroom) c hc
  · rw [(hactive c).2 hleft, (hdelivered.happened c hright).2, h.events, h.fd_left, h.fd_right]

/-- The pollers report the same exactly when they watch the same channels: an error on a channel that only one of
them watches is reported by that one. -/
theorem reportAlike_iff (h : PollersAgree fd before p q) :
    ReportAlike p q ↔ WatchAlike p q := by
  constructor
  · intro hreport c
    set ready : Int → BitVec 32 := fun n => if n = fd c then POLLERR else 0
    have hready : ReadyFlags ready := by
      intro n
      simp only [ready]
      split <;> decide
    have herror : occurring (q.store c).events (ready (fd c)) ≠ 0 := by
      rw [show ready (fd c) = POLLERR from if_pos rfl, occurring_POLLERR]
      decide
    obtain ⟨fds, hwait, hroom⟩ := EpollWait.exists_of_card_lt q.interest (Nat.lt_succ_self _) ready
    set s : EPollState ι := { EPollState.new fd with poller := q, size := q.interest.keys.card + 1 }
    obtain ⟨p', active, t, hp', ht, -, -, hleft, hright, -⟩ := h.poll_sat hready (s := s) rfl hroom hwait
    obtain ⟨p'', active', t', hp'', ht', hperm, -⟩ := hreport ready hready s fds rfl hroom hwait
    cases hp'.symm.trans hp''
    cases ht.symm.trans ht'
    have hmem := hperm.mem_iff (a := c)
    rwa [hleft, hright, and_iff_left herror, and_iff_left herror] at hmem
  · intro hw ready hready s fds hs hroom hwait
    obtain ⟨p', active, t, hp', ht, hnodup, hnodup', hleft, hright, hrevents⟩ := h.poll_sat hready hs hroom hwait
    have hperm : active.Perm t.activeChannels := by
      rw [List.perm_ext_iff_of_nodup hnodup hnodup']
      intro c
      rw [hleft, hright, hw c]
    exact ⟨p', active, t, hp', ht, hperm, fun c hc => hrevents c hc (hperm.mem_iff.mp hc)⟩

end PollersAgree

section Sequences

open EPollPoller

variable {fd : ι → Int} {calls : List (ChannelCall ι)}

/-- The pollers watch the same channels all along exactly when no call leaves idle a channel that was taken out of
the interest list. -/
theorem WatchAlike.always_iff (hinj : Function.Injective fd) (hpos : ∀ c, 0 ≤ fd c) (hlegal : LegalCalls fd calls)
    (hsuits : ∀ before call, before ++ [call] <+: calls → call.Suits before) :
    (∀ before p q, before <+: calls → PollPoller.run fd before = .ok p → EPollPoller.run fd before = .ok q →
      WatchAlike p q) ↔
    ∀ before call, before ++ [call] <+: calls → ∀ q, EPollPoller.run fd before = .ok q → q.Stirs call := by
  induction calls using List.reverseRecOn with
  | nil =>
      constructor
      · intro _ before call hbefore
        simp at hbefore
      · intro _ before p q hbefore hp hq
        rw [List.prefix_nil.mp hbefore] at hp hq
        cases hp
        cases hq
        intro c
        have hnone : c ∉ (EPollPoller.new fd).registered := by
          rintro ⟨n, hn⟩
          simp at hn
        rw [(PollersAgree.new fd).watched_iff hpos]
        exact iff_of_false (fun hc => hnone hc.1) fun hc => hnone hc.1
  | append_singleton calls call ih =>
      have hprefix : calls <+: calls ++ [call] := List.prefix_append ..
      rw [forall_call_concat, ← ih (hlegal.of_prefix hprefix) (forall_call_concat.mp hsuits).1]
      obtain ⟨p, q, hp, hq, h⟩ :=
        PollersAgree.of_suits hinj hpos (hlegal.of_prefix hprefix) (forall_call_concat.mp hsuits).1
      obtain ⟨p', q', hp', hq', h'⟩ := PollersAgree.of_suits hinj hpos hlegal hsuits
      have henabled : q.Enabled call := hlegal calls call q (List.prefix_refl _) hq
      have hcall : q.call call = .ok q' := by
        rwa [EPollPoller.run_append, hq, Checked.ok_bind] at hq'
      have hstep (hw : WatchAlike p q) : WatchAlike p' q' ↔ q.Stirs call :=
        h.watchAlike_iff hinj hpos hw henabled (forall_call_concat.mp hsuits).2 h' hcall
      constructor
      · intro hall
        refine ⟨fun before p q hbefore => hall before p q (hbefore.trans hprefix), fun r hr => ?_⟩
        cases hq.symm.trans hr
        exact (hstep (hall calls p q hprefix hp hq)).mp (hall _ p' q' (List.prefix_refl _) hp' hq')
      · rintro ⟨hall, hstirs⟩ before r u hbefore hr hu
        rcases List.prefix_concat_iff.mp hbefore with rfl | hbefore
        · cases hp'.symm.trans hr
          cases hq'.symm.trans hu
          exact (hstep (hall calls p q (List.prefix_refl _) hp hq)).mpr (hstirs q hq)
        · exact hall before r u hbefore hr hu

/-- **When the pollers report the same.** Take channels with different descriptors, and a legal sequence of calls on
them that suits `PollPoller`. After each of the calls, and whatever is the case on the descriptors, both pollers
report the same channels, each once and with the same events, exactly when no call leaves idle a channel that
`EPollPoller` has taken out of the interest list: it would put it there again, and report its errors. -/
theorem pollers_report_alike_iff (hinj : Function.Injective fd) (hpos : ∀ c, 0 ≤ fd c)
    (hlegal : LegalCalls fd calls)
    (hsuits : ∀ before call, before ++ [call] <+: calls → call.Suits before) :
    (∀ before p q, before <+: calls → PollPoller.run fd before = .ok p → EPollPoller.run fd before = .ok q →
      ReportAlike p q) ↔
    ∀ before call, before ++ [call] <+: calls → ∀ q, EPollPoller.run fd before = .ok q → q.Stirs call := by
  rw [← WatchAlike.always_iff hinj hpos hlegal hsuits]
  refine forall₃_congr fun before p q => forall₃_congr fun hbefore hp hq => ?_
  obtain ⟨r, u, hr, hu, h⟩ := PollersAgree.of_suits hinj hpos (hlegal.of_prefix hbefore)
    fun pre call hpre => hsuits pre call (hpre.trans hbefore)
  cases hp.symm.trans hr
  cases hq.symm.trans hu
  exact h.reportAlike_iff

end Sequences

/-- A channel that is enabled and then disabled twice: a second `disableAll` puts it into the interest list of
`EPollPoller`. -/
theorem pollers_report_alike_iff_disabled_twice :
    ¬ ∀ before p q, before <+: [.update () .enableReading, .update () .disableAll, .update () .disableAll] →
      PollPoller.run (fun _ : Unit => 0) before = .ok p → EPollPoller.run (fun _ : Unit => 0) before = .ok q →
      ReportAlike p q := by
  have hdisabled : (ePollPoller Unit).Run (.new fun _ => 0)
      ([.update () .enableReading] ++ [.update () .disableAll])
      (.single Channel.new.enableReading.disableAll kDeleted ∅) :=
    .snoc EPollPoller.single_run (fun _ _ _ => rfl) rfl
  have htwice : ∃ p, (ePollPoller Unit).Run (.new fun _ => 0)
      (([.update () .enableReading] ++ [.update () .disableAll]) ++ [.update () .disableAll]) p :=
    ⟨_, .snoc hdisabled (fun _ _ _ => rfl) rfl⟩
  obtain ⟨p, hrun⟩ := htwice
  refine mt (pollers_report_alike_iff (fun _ _ _ => rfl) (fun _ => le_refl _) (.of_run hrun) ?_).mp ?_
  · show ∀ before call, before ++ [call] <+: (([] ++ [_]) ++ [_]) ++ [_] → _
    simp only [forall_call_concat]
    simp [ChannelCall.Suits]
  · intro hstirs
    have hlast := hstirs _ _ (List.prefix_refl _) _ (EPollPoller.run_of_run hdisabled)
    exact absurd (hlast rfl) (by decide)

end Muduo.Net
