import Muduo.Net.EPollPoller
import Muduo.Net.PollPollerSlots

/-! # One poller in the place of the other

`Poller::newDefaultPoller` takes a `PollPoller` or an `EPollPoller`, as an environment variable says. Both
are run here on the same sequence of operations on channels. They do not always agree: `PollPoller` does not
allow a channel to be used after its removal, and it does not allow a channel to be removed when the only
operation on it was the one that registered it. `pollers_interchangeable_iff` says that these are all the
differences. -/

namespace Muduo.Net

open Support

variable {ι : Type} [DecidableEq ι]

/-! ## Runs of both pollers -/

/-- A `PollPoller` after a sequence of calls. -/
def PollPoller.run (fd : ι → Int) (calls : List (ChannelCall ι)) : Checked (PollPoller ι) :=
  calls.foldlM PollPoller.call (.new fd)

/-- An `EPollPoller` after a sequence of calls. -/
def EPollPoller.run (fd : ι → Int) (calls : List (ChannelCall ι)) : Checked (EPollPoller ι) :=
  calls.foldlM EPollPoller.call (.new fd)

/-- The sequences that are considered: a channel is removed only when it watches nothing and `hasChannel`
finds it. -/
def LegalCalls (fd : ι → Int) (calls : List (ChannelCall ι)) : Prop :=
  ∀ before call p, before ++ [call] <+: calls → EPollPoller.run fd before = .ok p → p.Enabled call

/-- The two pollers cannot be told apart: after each call both have failed an assertion or none has, and
`hasChannel` gives the same answers. -/
def Interchangeable (fd : ι → Int) (calls : List (ChannelCall ι)) : Prop :=
  ∀ before, before <+: calls →
    ((∃ p, PollPoller.run fd before = .ok p) ↔ ∃ q, EPollPoller.run fd before = .ok q) ∧
    ∀ p q, PollPoller.run fd before = .ok p → EPollPoller.run fd before = .ok q →
      ∀ c, p.hasChannel c = q.hasChannel c

/-- The call is an operation on the channel `c`. -/
def ChannelCall.updates (c : ι) : ChannelCall ι → Bool
  | .update d _ => d = c
  | .remove _ => false

/-- The call is one that `PollPoller` accepts after the calls `before`: an operation on a channel that has
not been removed, or the removal of a channel on which there were two operations. -/
def ChannelCall.Suits (before : List (ChannelCall ι)) : ChannelCall ι → Prop
  | .update c _ => .remove c ∉ before
  | .remove c => 2 ≤ before.countP (updates c)

/-- An operation counts once. -/
theorem ChannelCall.countP_update (before : List (ChannelCall ι)) (c d : ι) (op : ChannelOp) :
    (before ++ [update c op]).countP (updates d) =
      before.countP (updates d) + if c = d then 1 else 0 := by
  simp [List.countP_append, updates]

/-- A removal does not count. -/
theorem ChannelCall.countP_remove (before : List (ChannelCall ι)) (c d : ι) :
    (before ++ [remove c]).countP (updates d) = before.countP (updates d) := by
  simp [List.countP_append, updates]

/-! ## The simulation -/

/-- How the two pollers are related after the calls `before`. -/
structure PollersAgree (fd : ι → Int) (before : List (ChannelCall ι)) (p : PollPoller ι)
    (q : EPollPoller ι) : Prop where
  inv : PollInv p
  mirrors : q.Mirrors
  fd_left : ∀ c, (p.store c).fd = fd c
  fd_right : ∀ c, (q.store c).fd = fd c
  events : ∀ c, (p.store c).events = (q.store c).events
  registered : p.registered = q.registered
  /-- A channel that was not used has no index. -/
  unused : ∀ c ∉ p.registered, .remove c ∉ before →
    before.countP (ChannelCall.updates c) = 0 ∧ (p.store c).index < 0
  /-- A removed channel has an index. -/
  removed : ∀ c, .remove c ∈ before → c ∉ p.registered ∧ 0 ≤ (p.store c).index
  /-- The first operation on a channel does not look at its events. -/
  slot : ∀ c ∈ p.registered, 0 < before.countP (ChannelCall.updates c) ∧
    (p.slot c).fd = if before.countP (ChannelCall.updates c) = 1 then fd c else (PollInv.entry (p.store c)).fd

namespace PollersAgree

open ChannelCall

variable {fd : ι → Int} {before : List (ChannelCall ι)} {p p' : PollPoller ι} {q q' : EPollPoller ι}
  {c : ι} {op : ChannelOp}

/-- The pollers agree at the start. -/
theorem new (fd : ι → Int) : PollersAgree fd [] (.new fd) (.new fd) := by
  have hnone : (PollPoller.new fd).registered = ∅ := by
    ext c
    refine iff_of_false ?_ (Set.notMem_empty c)
    rintro ⟨n, hn⟩
    cases hn
  constructor
  · exact PollInv.new fd
  · exact .new fd
  · exact fun _ => rfl
  · exact fun _ => rfl
  · exact fun _ => rfl
  · rfl
  · intro c _ _
    refine ⟨rfl, ?_⟩
    show (-1 : Int) < 0
    decide
  · intro c hc
    cases hc
  · intro c hc
    rw [hnone] at hc
    cases hc

/-- Where the descriptors are different, nothing else stands under the descriptor of a channel. -/
theorem only (h : PollersAgree fd before p q) (hinj : Function.Injective fd) {n : Int}
    (hn : q.channels.lookup n = some c) {d : ι} (hd : (q.store d).fd = n) : c = d := by
  apply hinj
  rw [← h.fd_right c, ← h.fd_right d, hd]
  exact h.mirrors.keyed n c hn

omit [DecidableEq ι] in
/-- Entries agree in their descriptor. -/
theorem entry_fd {a b : PolledChannel} (hfd : a.fd = b.fd) (hevents : a.events = b.events) :
    (PollInv.entry a).fd = (PollInv.entry b).fd := by
  have hnone : a.isNoneEvent = b.isNoneEvent := by
    rw [Channel.isNoneEvent, hevents]
    rfl
  simp [PollInv.entry, hnone, hfd]

/-- An operation on a channel keeps the agreement. -/
theorem of_updated (h : PollersAgree fd before p q) (hinj : Function.Injective fd)
    (hc : .remove c ∉ before) (hp : PollInv.Updated p c op p')
    (hq : EPollPoller.Updated q q' c (op.apply (q.store c).toChannel))
    (hslot : (p'.slot c).fd =
      if before.countP (updates c) = 0 then fd c else (PollInv.entry (p'.store c)).fd) :
    PollersAgree fd (before ++ [.update c op]) p' q' := by
  have honly : ∀ d, q.channels.lookup (q.store c).fd = some d → d = c := fun d hd => h.only hinj hd rfl
  have hremove (d : ι) : .remove d ∈ before ++ [.update c op] ↔ .remove d ∈ before := by simp
  constructor
  · exact hp.inv
  · exact h.mirrors.of_updated hq honly
  · intro d
    by_cases hd : d = c
    · rw [hd, hp.fd]
      exact h.fd_left c
    · rw [hp.store_of_ne d hd]
      exact h.fd_left d
  · intro d
    by_cases hd : d = c
    · rw [hd, hq.fd]
      exact h.fd_right c
    · rw [hq.store d hd]
      exact h.fd_right d
  · intro d
    by_cases hd : d = c
    · rw [hd, hp.toChannel, hq.toChannel]
      exact op.events_apply (h.events c)
    · rw [hp.store_of_ne d hd, hq.store d hd]
      exact h.events d
  · rw [hp.registered, hq.registered_eq h.mirrors honly, h.registered]
  · intro d hd hrm
    rw [hp.registered, Set.mem_insert_iff, not_or] at hd
    rw [countP_update, if_neg (Ne.symm hd.1), hp.store_of_ne d hd.1]
    exact h.unused d hd.2 (mt (hremove d).mpr hrm)
  · intro d hd
    rw [hremove] at hd
    have hdc : d ≠ c := by
      rintro rfl
      exact hc hd
    rw [hp.registered, Set.mem_insert_iff, not_or, hp.store_of_ne d hdc]
    exact ⟨⟨hdc, (h.removed d hd).1⟩, (h.removed d hd).2⟩
  · intro d hd
    by_cases hdc : d = c
    · rw [hdc, countP_update, if_pos rfl, hslot]
      exact ⟨by omega, by simp⟩
    · rw [hp.registered, Set.mem_insert_iff, or_iff_right hdc] at hd
      rw [countP_update, if_neg (Ne.symm hdc), hp.slot_of_ne d hd hdc, hp.store_of_ne d hdc]
      exact h.slot d hd

/-- The removal of a channel keeps the agreement. -/
theorem of_removed (h : PollersAgree fd before p q) (hinj : Function.Injective fd)
    (hc : c ∈ p.registered) (hnone : (q.store c).isNoneEvent = true) (hp : PollInv.Removed p c p')
    (hq : EPollPoller.Removed q q' c) : PollersAgree fd (before ++ [.remove c]) p' q' := by
  have honly : ∀ d, q.channels.lookup (q.store c).fd = some d → d = c := fun d hd => h.only hinj hd rfl
  have hremove (d : ι) : .remove d ∈ before ++ [.remove c] ↔ .remove d ∈ before ∨ d = c := by simp
  constructor
  · exact hp.inv
  · exact h.mirrors.of_removed hq hnone honly
  · intro d
    rw [hp.fd]
    exact h.fd_left d
  · intro d
    by_cases hd : d = c
    · rw [hd, hq.fd]
      exact h.fd_right c
    · rw [hq.store d hd]
      exact h.fd_right d
  · intro d
    rw [hp.events, h.events]
    by_cases hd : d = c
    · rw [hd, hq.events]
    · rw [hq.store d hd]
  · rw [hp.registered, hq.registered_eq h.mirrors hnone honly, h.registered]
  · intro d hd hrm
    rw [hremove, not_or] at hrm
    rw [hp.registered, Set.mem_sdiff, Set.mem_singleton_iff, and_iff_left hrm.2] at hd
    rw [countP_remove, hp.index_of_notMem d hd]
    exact h.unused d hd hrm.1
  · intro d hd
    rw [hp.registered, Set.mem_sdiff, Set.mem_singleton_iff]
    rcases (hremove d).mp hd with hd | rfl
    · obtain ⟨hreg, hindex⟩ := h.removed d hd
      rw [hp.index_of_notMem d hreg]
      exact ⟨fun hmem => hreg hmem.1, hindex⟩
    · exact ⟨fun hmem => hmem.2 rfl, hp.index_nonneg d hc⟩
  · intro d hd
    rw [hp.registered, Set.mem_sdiff, Set.mem_singleton_iff] at hd
    rw [countP_remove, hp.slot_of_ne d hd.1 hd.2, entry_fd (hp.fd d) (hp.events d)]
    exact h.slot d hd.1

/-- Both pollers see the same interest. -/
theorem isNoneEvent_eq (h : PollersAgree fd before p q) (c : ι) :
    (p.store c).isNoneEvent = (q.store c).isNoneEvent := by
  rw [Channel.isNoneEvent, h.events]
  rfl

/-- Both pollers hold the same channels. -/
theorem hasChannel_eq (h : PollersAgree fd before p q) (c : ι) : p.hasChannel c = q.hasChannel c := by
  rw [Bool.eq_iff_iff, ← Poller.mem_registered h.inv.keyed, ← Poller.mem_registered h.mirrors.keyed,
    h.registered]

/-- What `EPollPoller` admits for removal, `PollPoller` has as well. -/
theorem of_enabled_remove (h : PollersAgree fd before p q) (henabled : q.Enabled (.remove c)) :
    c ∈ p.registered ∧ (p.store c).isNoneEvent = true := by
  rw [Poller.mem_registered h.inv.keyed, h.hasChannel_eq, h.isNoneEvent_eq]
  exact henabled

/-- The calls that suit `PollPoller` pass its assertions. -/
theorem step (h : PollersAgree fd before p q) (hinj : Function.Injective fd) (hpos : ∀ c, 0 ≤ fd c)
    {call : ChannelCall ι} (henabled : q.Enabled call) (hsuits : call.Suits before) :
    (p.call call).Sat fun p' => ∀ q', q.call call = .ok q' → PollersAgree fd (before ++ [call]) p' q' := by
  cases call with
  | update c op =>
      have honly : ∀ d, q.channels.lookup (q.store c).fd = some d → d = c := fun d hd => h.only hinj hd rfl
      have hagree (p' : PollPoller ι) (hp : PollInv.Updated p c op p')
          (hslot : (p'.slot c).fd =
            if before.countP (updates c) = 0 then fd c else (PollInv.entry (p'.store c)).fd)
          (q' : EPollPoller ι) (hq' : q.call (.update c op) = .ok q') :
          PollersAgree fd (before ++ [.update c op]) p' q' :=
        h.of_updated hinj hsuits hp ((h.mirrors.call_update op honly).of_eq_ok hq') hslot
      by_cases hc : c ∈ p.registered
      · refine (h.inv.call_update hc op).mono fun p' hp' => hagree p' hp'.1 ?_
        have hcount := (h.slot c hc).1
        rw [if_neg (by omega), hp'.2]
      · obtain ⟨hcount, hindex⟩ := h.unused c hc hsuits
        have hfree : ∀ d ∈ p.registered, (p.store d).fd ≠ (p.store c).fd := by
          intro d hd heq
          rw [h.fd_left, h.fd_left] at heq
          exact hc (hinj heq ▸ hd)
        have hnonneg : 0 ≤ (p.store c).fd := by
          rw [h.fd_left]
          exact hpos c
        refine (h.inv.call_update_new hindex hnonneg hfree op).mono fun p' hp' => hagree p' hp'.1 ?_
        rw [if_pos hcount, hp'.2, h.fd_left]
  | remove c =>
      obtain ⟨hc, hnone'⟩ := h.of_enabled_remove henabled
      obtain ⟨hhas, hnone⟩ := henabled
      have hignored : (p.slot c).fd = -(p.store c).fd - 1 := by
        have htwo : 2 ≤ before.countP (updates c) := hsuits
        rw [(h.slot c hc).2, if_neg (by omega), PollInv.entry, if_pos hnone']
      refine (h.inv.call_remove hc hnone' hignored).mono fun p' hp' q' hq' => ?_
      have hremoved := (h.mirrors.call_remove (of_decide_eq_true hhas) hnone).of_eq_ok hq'
      exact h.of_removed hinj hc hnone hp' hremoved

/-- The other calls fail an assertion. -/
theorem suits_of_call (h : PollersAgree fd before p q) (hinj : Function.Injective fd)
    (hpos : ∀ c, 0 ≤ fd c) {call : ChannelCall ι} (henabled : q.Enabled call)
    (hcall : p.call call = .ok p') : call.Suits before := by
  cases call with
  | update c op =>
      intro hrm
      obtain ⟨hc, hindex⟩ := h.removed c hrm
      have hnone : p.channels.lookup (p.store c).fd = none := by
        rw [Option.eq_none_iff_forall_ne_some]
        intro d hd
        have heq := h.inv.keyed _ d hd
        rw [h.fd_left, h.fd_left] at heq
        exact hc ⟨_, hinj heq ▸ hd⟩
      rw [PollInv.call_update_removed hindex hnone] at hcall
      cases hcall
  | remove c =>
      obtain ⟨hc, hnone⟩ := h.of_enabled_remove henabled
      by_contra htwo
      obtain ⟨hcount, hslot⟩ := h.slot c hc
      have hone : before.countP (updates c) = 1 := by
        have hlt : ¬ 2 ≤ before.countP (updates c) := htwo
        omega
      have hwatched : (p.slot c).fd ≠ -(p.store c).fd - 1 := by
        have hnonneg := hpos c
        rw [hslot, if_pos hone, h.fd_left]
        omega
      rw [h.inv.call_remove_watched hc hnone hwatched] at hcall
      cases hcall

end PollersAgree

/-! ## Whole sequences -/

section Sequences

variable {fd : ι → Int} {calls before : List (ChannelCall ι)}

/-- A start of a legal sequence is legal. -/
theorem LegalCalls.of_prefix (h : LegalCalls fd calls) (hbefore : before <+: calls) :
    LegalCalls fd before := fun pre call p hpre => h pre call p (hpre.trans hbefore)

/-- A start of an interchangeable sequence is interchangeable. -/
theorem Interchangeable.of_prefix (h : Interchangeable fd calls) (hbefore : before <+: calls) :
    Interchangeable fd before := fun pre hpre => h pre (hpre.trans hbefore)

/-- The last call comes last. -/
theorem PollPoller.run_append (fd : ι → Int) (calls : List (ChannelCall ι)) (call : ChannelCall ι) :
    PollPoller.run fd (calls ++ [call]) = PollPoller.run fd calls >>= fun p => p.call call := by
  exact Checked.foldlM_concat ..

/-- The last call comes last. -/
theorem EPollPoller.run_append (fd : ι → Int) (calls : List (ChannelCall ι)) (call : ChannelCall ι) :
    EPollPoller.run fd (calls ++ [call]) = EPollPoller.run fd calls >>= fun p => p.call call := by
  exact Checked.foldlM_concat ..

omit [DecidableEq ι] in
/-- What holds at each call of a sequence with one more call. -/
theorem forall_call_concat {P : List (ChannelCall ι) → ChannelCall ι → Prop} {call : ChannelCall ι} :
    (∀ before last, before ++ [last] <+: calls ++ [call] → P before last) ↔
      (∀ before last, before ++ [last] <+: calls → P before last) ∧ P calls call := by
  constructor
  · intro h
    exact ⟨fun before last hbefore => h before last (hbefore.trans (List.prefix_append ..)),
      h calls call (List.prefix_refl _)⟩
  · rintro ⟨hcalls, hcall⟩ before last hbefore
    rcases List.prefix_concat_iff.mp hbefore with heq | hbefore
    · obtain ⟨rfl, rfl⟩ := List.append_singleton_inj.mp heq
      exact hcall
    · exact hcalls before last hbefore

/-- As long as the calls suit `PollPoller`, no assertion fails and the pollers agree. -/
theorem PollersAgree.of_suits (hinj : Function.Injective fd) (hpos : ∀ c, 0 ≤ fd c)
    (hlegal : LegalCalls fd calls)
    (hsuits : ∀ before call, before ++ [call] <+: calls → call.Suits before) :
    ∃ p q, PollPoller.run fd calls = .ok p ∧ EPollPoller.run fd calls = .ok q ∧
      PollersAgree fd calls p q := by
  induction calls using List.reverseRecOn with
  | nil => exact ⟨_, _, rfl, rfl, .new fd⟩
  | append_singleton calls call ih =>
      rw [forall_call_concat] at hsuits
      obtain ⟨p, q, hp, hq, h⟩ := ih (hlegal.of_prefix (List.prefix_append ..)) hsuits.1
      have henabled : q.Enabled call := hlegal calls call q (List.prefix_refl _) hq
      obtain ⟨p', hp', hagree⟩ := h.step hinj hpos henabled hsuits.2
      obtain ⟨q', hq', -⟩ := h.mirrors.step call henabled
      refine ⟨p', q', ?_, ?_, hagree q' hq'⟩
      · rw [PollPoller.run_append, hp, Checked.ok_bind, hp']
      · rw [EPollPoller.run_append, hq, Checked.ok_bind, hq']

/-- As long as the pollers cannot be told apart, the calls suit `PollPoller`. -/
theorem Interchangeable.suits (hinj : Function.Injective fd) (hpos : ∀ c, 0 ≤ fd c)
    (hlegal : LegalCalls fd calls) (h : Interchangeable fd calls) :
    ∀ before call, before ++ [call] <+: calls → call.Suits before := by
  induction calls using List.reverseRecOn with
  | nil =>
      intro before call hbefore
      simp at hbefore
  | append_singleton calls call ih =>
      have hprefix : calls <+: calls ++ [call] := List.prefix_append ..
      have hsuits := ih (hlegal.of_prefix hprefix) (h.of_prefix hprefix)
      refine forall_call_concat.mpr ⟨hsuits, ?_⟩
      obtain ⟨p, q, hp, hq, hagree⟩ := PollersAgree.of_suits hinj hpos (hlegal.of_prefix hprefix) hsuits
      have henabled : q.Enabled call := hlegal calls call q (List.prefix_refl _) hq
      -- `EPollPoller` accepts the call, so `PollPoller` does
      obtain ⟨q', hq', -⟩ := hagree.mirrors.step call henabled
      have hrun : EPollPoller.run fd (calls ++ [call]) = .ok q' := by
        rw [EPollPoller.run_append, hq, Checked.ok_bind, hq']
      obtain ⟨p', hp'⟩ := (h _ (List.prefix_refl _)).1.mpr ⟨q', hrun⟩
      rw [PollPoller.run_append, hp, Checked.ok_bind] at hp'
      exact hagree.suits_of_call hinj hpos henabled hp'

/-- **When the pollers are interchangeable.** On channels with different descriptors, a legal sequence of
calls cannot tell the pollers apart exactly when it never operates on a channel after its removal and
removes a channel only after at least two operations on it. -/
theorem pollers_interchangeable_iff (hinj : Function.Injective fd) (hpos : ∀ c, 0 ≤ fd c)
    (hlegal : LegalCalls fd calls) :
    Interchangeable fd calls ↔ ∀ before call, before ++ [call] <+: calls → call.Suits before := by
  constructor
  · intro h
    exact h.suits hinj hpos hlegal
  · intro hsuits before hbefore
    obtain ⟨p, q, hp, hq, hagree⟩ := PollersAgree.of_suits hinj hpos (hlegal.of_prefix hbefore)
      fun pre call hpre => hsuits pre call (hpre.trans hbefore)
    refine ⟨iff_of_true ⟨p, hp⟩ ⟨q, hq⟩, ?_⟩
    intro p' q' hp' hq' c
    rw [hp] at hp'
    rw [hq] at hq'
    cases hp'
    cases hq'
    exact hagree.hasChannel_eq c

/-- A run of the machine is a run of the calls. -/
theorem EPollPoller.run_of_run {p : EPollPoller ι} (h : (ePollPoller ι).Run (.new fd) calls p) :
    EPollPoller.run fd calls = .ok p := by
  induction h with
  | nil => rfl
  | snoc _ _ hexec ih =>
      rw [run_append, ih]
      exact hexec

/-- The calls of a run are legal. -/
theorem LegalCalls.of_run {p : EPollPoller ι} (h : (ePollPoller ι).Run (.new fd) calls p) :
    LegalCalls fd calls := by
  induction h with
  | nil =>
      intro before call q hbefore
      simp at hbefore
  | @snoc p r calls call hrun henabled _ ih =>
      have hlast (q : EPollPoller ι) (hq : EPollPoller.run fd calls = .ok q) : q.Enabled call := by
        rw [EPollPoller.run_of_run hrun] at hq
        cases hq
        exact henabled
      have hconcat := forall_call_concat
        (P := fun before call => ∀ q, EPollPoller.run fd before = .ok q → q.Enabled call)
        |>.mpr ⟨fun before call hbefore q => ih before call q hbefore, hlast⟩
      exact fun before call q hbefore => hconcat before call hbefore q

end Sequences

/-- The life of a channel that was enabled. -/
theorem pollers_interchangeable_iff_enabled :
    Interchangeable (fun _ : Unit => 0) [.update () .enableReading, .update () .disableAll, .remove ()] := by
  have hdisabled : (ePollPoller Unit).Run (.new fun _ => 0)
      ([.update () .enableReading] ++ [.update () .disableAll])
      (.single Channel.new.enableReading.disableAll kDeleted ∅) :=
    .snoc EPollPoller.single_run (fun _ _ _ => rfl) rfl
  have hremoved : ∃ p, (ePollPoller Unit).Run (.new fun _ => 0)
      (([.update () .enableReading] ++ [.update () .disableAll]) ++ [.remove ()]) p :=
    ⟨_, .snoc hdisabled ⟨rfl, rfl⟩ rfl⟩
  obtain ⟨p, hrun⟩ := hremoved
  refine (pollers_interchangeable_iff (fun _ _ _ => rfl) (fun _ => le_refl _) (.of_run hrun)).mpr ?_
  show ∀ before call, before ++ [call] <+: (([] ++ [_]) ++ [_]) ++ [_] → _
  simp only [forall_call_concat]
  simp [ChannelCall.Suits, ChannelCall.updates]

/-- `~Acceptor()` of a server that was never started: the only operation on the channel is `disableAll`,
and `PollPoller` fails an assertion when the channel is removed. -/
theorem pollers_differ_acceptor :
    LegalCalls (fun _ : Unit => 0) [.update () .disableAll, .remove ()] ∧
    (∃ q, EPollPoller.run (fun _ : Unit => 0) [.update () .disableAll, .remove ()] = .ok q) ∧
    PollPoller.run (fun _ : Unit => 0) [.update () .disableAll, .remove ()] =
      .error "pfd.fd == -channel->fd()-1 && pfd.events == channel->events()" ∧
    ¬ Interchangeable (fun _ : Unit => 0) [.update () .disableAll, .remove ()] := by
  have hpoll : PollPoller.run (fun _ : Unit => 0) [.update () .disableAll, .remove ()] =
      .error "pfd.fd == -channel->fd()-1 && pfd.events == channel->events()" := rfl
  have hepoll : EPollPoller.run (fun _ : Unit => 0) [.update () .disableAll, .remove ()] = .ok _ := rfl
  have hdisabled : (ePollPoller Unit).Run (.new fun _ => 0) [.update () .disableAll]
      (.single Channel.new.disableAll kAdded (Finmap.singleton 0 ⟨0, ()⟩)) :=
    .single (fun _ _ _ => rfl) rfl
  have hremoved : ∃ p, (ePollPoller Unit).Run (.new fun _ => 0)
      ([.update () .disableAll] ++ [.remove ()]) p := ⟨_, .snoc hdisabled ⟨rfl, rfl⟩ rfl⟩
  obtain ⟨p, hrun⟩ := hremoved
  refine ⟨.of_run hrun, ⟨_, hepoll⟩, hpoll, ?_⟩
  intro h
  obtain ⟨p, hp⟩ := (h _ (List.prefix_refl _)).1.mpr ⟨_, hepoll⟩
  rw [hpoll] at hp
  cases hp

end Muduo.Net
