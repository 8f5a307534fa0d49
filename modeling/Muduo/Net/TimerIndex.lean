import Muduo.Net.TimerQueue
import Mathlib.Tactic.Common

/-! # The sets of the timer queue

Every `Timer` on the heap has exactly one owner: the functor that will add it (`waiting`), the queue
(`pending`) or the batch that `handleRead` works through (`expired`). The abstract state of the queue is
a function from addresses to owners. `Indexed` says that `timers_` and `activeTimers_` hold exactly the
pending timers, and the functions that change the sets are specified by what they do to the owners.
`Census` is the other half of the bookkeeping: the numbers of the timers that exist and of those that
were deleted. -/

namespace Muduo.Net

open Support

/-- The owner of a timer on the heap. -/
inductive Place where
  | waiting
  | pending
  | expired
  deriving DecidableEq, Repr

/-! ## The sets index the pending timers -/

namespace Entry

@[simp] theorem expiration_of (w : Timestamp) (a : Addr) : (of w a).expiration = w := rfl

@[simp] theorem timer_of (w : Timestamp) (a : Addr) : (of w a).timer = a := rfl

/-- Entries are their expirations and timers. -/
theorem of_eq_of {w w' : Timestamp} {a a' : Addr} : of w a = of w' a' ↔ w = w' ∧ a = a' := by
  constructor
  · intro h
    exact ⟨congrArg expiration h, congrArg timer h⟩
  · rintro ⟨rfl, rfl⟩
    rfl

/-- What lies before the sentry is what is due. -/
theorem lt_sentry {e : Entry} {now : Timestamp} (he : e.timer < UINTPTR_MAX) :
    e < of now UINTPTR_MAX ↔ e.expiration ≤ now := by
  show toLex (ofLex e) < toLex (now, UINTPTR_MAX) ↔ _
  rw [Prod.Lex.toLex_lt_toLex]
  constructor
  · rintro (h | ⟨h, -⟩)
    · exact h.le
    · exact h.le
  · intro h
    rcases h.lt_or_eq with h | h
    · exact .inl h
    · exact .inr ⟨h, he⟩

end Entry

/-- What the sets of `q` say about the address `a`, whose owner is `place`. -/
structure IndexedAt (q : TimerQueue) (a : Addr) (place : Option Place) : Prop where
  live : place.isSome ↔ (q.heap a).isSome
  timers : ∀ w, Entry.of w a ∈ q.timers ↔
    ∃ t, q.heap a = some t ∧ place = some .pending ∧ t.expiration = w
  active : ∀ n, (a, n) ∈ q.activeTimers ↔
    ∃ t, q.heap a = some t ∧ place = some .pending ∧ t.sequence = n

/-- The sets of `q` hold exactly the pending timers. -/
def Indexed (q : TimerQueue) (own : Addr → Option Place) : Prop := ∀ a, IndexedAt q a (own a)

namespace IndexedAt

variable {q q' : TimerQueue} {a : Addr} {place : Option Place} {t : Timer}

/-- Only the parts of the queue that concern `a` matter. -/
theorem congr (h : IndexedAt q a place) (hheap : q'.heap a = q.heap a)
    (htimers : ∀ w, Entry.of w a ∈ q'.timers ↔ Entry.of w a ∈ q.timers)
    (hactive : ∀ n, (a, n) ∈ q'.activeTimers ↔ (a, n) ∈ q.activeTimers) :
    IndexedAt q' a place := by
  refine ⟨?_, fun w => ?_, fun n => ?_⟩
  · rw [hheap]
    exact h.live
  · rw [htimers, hheap]
    exact h.timers w
  · rw [hactive, hheap]
    exact h.active n

/-- Nothing is said about an address without a timer. -/
theorem of_none (hheap : q.heap a = none) (htimers : ∀ w, Entry.of w a ∉ q.timers)
    (hactive : ∀ n, (a, n) ∉ q.activeTimers) : IndexedAt q a none := by
  refine ⟨by simp [hheap], fun w => ?_, fun n => ?_⟩
  · simp [htimers w]
  · simp [hactive n]

/-- Nothing is said about a timer that is owned elsewhere. -/
theorem of_held (hheap : q.heap a = some t) {p : Place} (hp : p ≠ .pending)
    (htimers : ∀ w, Entry.of w a ∉ q.timers) (hactive : ∀ n, (a, n) ∉ q.activeTimers) :
    IndexedAt q a (some p) := by
  refine ⟨by simp [hheap], fun w => ?_, fun n => ?_⟩
  · simp [htimers w, hp]
  · simp [hactive n, hp]

/-- A timer that is owned elsewhere is in neither set. -/
theorem not_mem (h : IndexedAt q a place) (hp : place ≠ some .pending) :
    (∀ w, Entry.of w a ∉ q.timers) ∧ ∀ n, (a, n) ∉ q.activeTimers := by
  constructor
  · intro w hw
    obtain ⟨-, -, hpending, -⟩ := (h.timers w).mp hw
    exact hp hpending
  · intro n hn
    obtain ⟨-, -, hpending, -⟩ := (h.active n).mp hn
    exact hp hpending

/-- A pending timer is in `timers_` with its expiration only. -/
theorem mem_timers (h : IndexedAt q a (some .pending)) (ht : q.heap a = some t) (w : Timestamp) :
    Entry.of w a ∈ q.timers ↔ w = t.expiration := by
  rw [h.timers, ht]
  simp [eq_comm]

/-- A pending timer is in `activeTimers_` with its number only. -/
theorem mem_active (h : IndexedAt q a (some .pending)) (ht : q.heap a = some t) (n : Nat) :
    (a, n) ∈ q.activeTimers ↔ n = t.sequence := by
  rw [h.active, ht]
  simp [eq_comm]

end IndexedAt

namespace Indexed

variable {q : TimerQueue} {own : Addr → Option Place} {a : Addr} {t : Timer}

/-- An address with an owner has a timer. -/
theorem exists_timer (h : Indexed q own) {p : Place} (ha : own a = some p) :
    ∃ t, q.heap a = some t := by
  refine Option.isSome_iff_exists.mp ((h a).live.mp ?_)
  rw [ha]
  rfl

/-- A timer has an owner. -/
theorem exists_place (h : Indexed q own) (ht : q.heap a = some t) : ∃ p, own a = some p := by
  refine Option.isSome_iff_exists.mp ((h a).live.mpr ?_)
  rw [ht]
  rfl

/-- The pending timers are the entries of the queue. -/
theorem mem_timers (h : Indexed q own) {e : Entry} :
    e ∈ q.timers ↔
      ∃ t, q.heap e.timer = some t ∧ own e.timer = some .pending ∧ t.expiration = e.expiration :=
  (h e.timer).timers e.expiration

/-- `timers_` has one entry for an address. -/
theorem entry_eq (h : Indexed q own) {e e' : Entry} (he : e ∈ q.timers) (he' : e' ∈ q.timers)
    (htimer : e.timer = e'.timer) : e = e' := by
  obtain ⟨t, ht, -, hw⟩ := h.mem_timers.mp he
  obtain ⟨t', ht', -, hw'⟩ := h.mem_timers.mp he'
  rw [← htimer, ht] at ht'
  cases ht'
  exact Entry.of_eq_of.mpr ⟨hw.symm.trans hw', htimer⟩

/-- The two sets have one element for each pending timer. -/
theorem card_eq (h : Indexed q own) : q.timers.card = q.activeTimers.card := by
  -- an entry of `timers_` goes to its address with the number of the timer there
  refine Finset.card_bij (fun e _ => (e.timer, ((q.heap e.timer).map Timer.sequence).getD 0))
    ?_ ?_ ?_
  · intro e he
    obtain ⟨t, ht, hp, -⟩ := h.mem_timers.mp he
    have ha : IndexedAt q e.timer (some .pending) := hp ▸ h e.timer
    rw [ha.mem_active ht, ht]
    rfl
  · intro e he e' he' heq
    exact h.entry_eq he he' (congrArg Prod.fst heq)
  · rintro ⟨a, n⟩ hx
    obtain ⟨t, ht, hp, hn⟩ := ((h a).active n).mp hx
    refine ⟨Entry.of t.expiration a, ((h a).timers _).mpr ⟨t, ht, hp, rfl⟩, ?_⟩
    rw [Entry.timer_of, ht]
    exact Prod.ext rfl hn

/-- The sizes agree. -/
theorem assertSizes_eq (h : Indexed q own) : q.assertSizes = .ok () := assert_pos h.card_eq _

/-- Flags and notes do not matter. -/
theorem congr {q' : TimerQueue} (h : Indexed q own) (hheap : q'.heap = q.heap)
    (htimers : q'.timers = q.timers) (hactive : q'.activeTimers = q.activeTimers) :
    Indexed q' own := by
  intro a
  refine (h a).congr (by rw [hheap]) (fun w => ?_) fun n => ?_
  · rw [htimers]
  · rw [hactive]

/-- A note changes neither set. -/
theorem note (h : Indexed q own) (e : TimerEvent) : Indexed (q.note e) own := h.congr rfl rfl rfl

/-- A change at one address. -/
theorem update {q' : TimerQueue} {place : Option Place} (h : Indexed q own)
    (ha : IndexedAt q' a place) (hheap : ∀ b, b ≠ a → q'.heap b = q.heap b)
    (htimers : ∀ e : Entry, e.timer ≠ a → (e ∈ q'.timers ↔ e ∈ q.timers))
    (hactive : ∀ x : ActiveTimer, x.1 ≠ a → (x ∈ q'.activeTimers ↔ x ∈ q.activeTimers)) :
    Indexed q' (Function.update own a place) := by
  intro b
  by_cases hb : b = a
  · rw [hb, Function.update_self]
    exact ha
  · rw [Function.update_of_ne hb]
    exact (h b).congr (hheap b hb) (fun w => htimers _ hb) fun n => hactive _ hb

/-- A timer that is not pending is put on the heap, or changed there. -/
theorem set_held (h : Indexed q own) (ha : own a ≠ some .pending) {p : Place}
    (hp : p ≠ .pending) (t : Timer) :
    Indexed { q with heap := q.heap.set a t } (Function.update own a (some p)) := by
  obtain ⟨htimers, hactive⟩ := (h a).not_mem ha
  exact h.update (.of_held Heap.set_same hp htimers hactive) (fun b hb => Heap.set_of_ne hb)
    (fun _ _ => Iff.rfl) fun _ _ => Iff.rfl

/-- A timer that is not pending is deleted. -/
theorem free_held (h : Indexed q own) (ha : own a ≠ some .pending) :
    Indexed { q with heap := q.heap.erase a } (Function.update own a none) := by
  obtain ⟨htimers, hactive⟩ := (h a).not_mem ha
  exact h.update (.of_none Heap.erase_same htimers hactive)
    (fun b hb => Heap.erase_of_ne hb) (fun _ _ => Iff.rfl) fun _ _ => Iff.rfl

/-- A pending timer is taken from both sets and deleted. -/
theorem free_pending (h : Indexed q own) (ht : q.heap a = some t) (ha : own a = some .pending) :
    Indexed
      { q with
        heap := q.heap.erase a
        timers := q.timers.erase (Entry.of t.expiration a)
        activeTimers := q.activeTimers.erase (a, t.sequence) }
      (Function.update own a none) := by
  have hat : IndexedAt q a (some .pending) := ha ▸ h a
  refine h.update (.of_none Heap.erase_same (fun w hw => ?_) fun n hn => ?_)
    (fun b hb => Heap.erase_of_ne hb) (fun e he => ?_) fun x hx => ?_
  · obtain ⟨hne, hmem⟩ := Finset.mem_erase.mp hw
    exact hne (by rw [(hat.mem_timers ht w).mp hmem])
  · obtain ⟨hne, hmem⟩ := Finset.mem_erase.mp hn
    exact hne (by rw [(hat.mem_active ht n).mp hmem])
  · rw [Finset.mem_erase]
    exact and_iff_right fun heq => he (congrArg Entry.timer heq)
  · rw [Finset.mem_erase]
    exact and_iff_right fun heq => hx (congrArg Prod.fst heq)

/-- `insert` makes a timer pending that was not. -/
theorem insert_sat (h : Indexed q own) (ht : q.heap a = some t) (ha : own a ≠ some .pending) :
    (q.insert a).Sat fun r => Indexed r.1 (Function.update own a (some .pending)) ∧
      r.1.heap = q.heap ∧ r.1.callingExpiredTimers = q.callingExpiredTimers ∧
      r.1.cancelingTimers = q.cancelingTimers ∧ r.1.log = q.log := by
  obtain ⟨hnotTimers, hnotActive⟩ := (h a).not_mem ha
  have hafter : Indexed
      { q with
        timers := Insert.insert (Entry.of t.expiration a) q.timers
        activeTimers := Insert.insert (a, t.sequence) q.activeTimers }
      (Function.update own a (some .pending)) := by
    refine h.update ⟨by simp [ht], fun w => ?_, fun n => ?_⟩ (fun _ _ => rfl) (fun e he => ?_)
      fun x hx => ?_
    · simp only [Finset.mem_insert, Entry.of_eq_of, hnotTimers, ht]
      simp [eq_comm]
    · simp only [Finset.mem_insert, Prod.mk.injEq, hnotActive, ht]
      simp [eq_comm]
    · rw [Finset.mem_insert]
      exact or_iff_right fun heq => he (congrArg Entry.timer heq)
    · rw [Finset.mem_insert]
      exact or_iff_right fun heq => hx (congrArg Prod.fst heq)
  unfold TimerQueue.insert
  rw [h.assertSizes_eq, Heap.get_of_eq ht]
  refine Checked.Sat.assert (hnotTimers _) (Checked.Sat.assert (hnotActive _) ?_)
  dsimp only
  rw [hafter.assertSizes_eq]
  exact .ok ⟨hafter, rfl, rfl, rfl, rfl⟩

/-- The loop of `getExpired` over the entries of distinct pending timers: their elements leave
`activeTimers_`, the others stay. -/
theorem eraseActive_sat {es : List Entry} (hnodup : (es.map Entry.timer).Nodup)
    (hmem : ∀ e ∈ es, ∃ t, q.heap e.timer = some t ∧
      ∀ n, (e.timer, n) ∈ q.activeTimers ↔ n = t.sequence) :
    (q.eraseActive es).Sat fun q' => ∃ active, q' = { q with activeTimers := active } ∧
      ∀ x : ActiveTimer, x ∈ active ↔ x ∈ q.activeTimers ∧ x.1 ∉ es.map Entry.timer := by
  induction es generalizing q with
  | nil => exact .ok ⟨q.activeTimers, rfl, by simp⟩
  | cons e es ih =>
      obtain ⟨t, ht, hn⟩ := hmem e (List.mem_cons_self ..)
      rw [List.map_cons, List.nodup_cons] at hnodup
      unfold TimerQueue.eraseActive
      rw [Heap.get_of_eq ht]
      refine Checked.Sat.assert (if_pos ((hn _).mpr rfl)) ?_
      -- the other entries are still there, because their addresses are different
      refine (ih hnodup.2 fun e' he' => ?_).mono ?_
      · obtain ⟨t', ht', hn'⟩ := hmem e' (List.mem_cons_of_mem _ he')
        refine ⟨t', ht', fun n => ?_⟩
        have hne : e'.timer ≠ e.timer := fun heq =>
          hnodup.1 (heq ▸ List.mem_map_of_mem he')
        rw [Finset.mem_erase, and_iff_right fun heq => hne (congrArg Prod.fst heq)]
        exact hn' n
      · rintro _ ⟨active, rfl, hactive⟩
        refine ⟨active, rfl, fun x => ?_⟩
        rw [hactive, Finset.mem_erase, List.map_cons, List.mem_cons, not_or]
        constructor
        · rintro ⟨⟨hne, hx⟩, hes⟩
          refine ⟨hx, fun heq => hne ?_, hes⟩
          obtain ⟨a, n⟩ := x
          obtain rfl : a = e.timer := heq
          rw [(hn n).mp hx]
        · rintro ⟨hx, hne, hes⟩
          exact ⟨⟨fun heq => hne (congrArg Prod.fst heq), hx⟩, hes⟩

/-- The owners after the timers in `es` have expired. -/
def expire (own : Addr → Option Place) (es : List Entry) (a : Addr) : Option Place :=
  if a ∈ es.map Entry.timer then some .expired else own a

/-- The queue is cut in two: what is `due` leaves both sets. -/
theorem expire_indexed (h : Indexed q own) {due : Entry → Prop} {expired : List Entry}
    {rest : Finset Entry} {active : Finset ActiveTimer}
    (hexpired : ∀ e, e ∈ expired ↔ e ∈ q.timers ∧ due e)
    (hrest : ∀ e, e ∈ rest ↔ e ∈ q.timers ∧ ¬ due e)
    (hactive : ∀ x : ActiveTimer,
      x ∈ active ↔ x ∈ q.activeTimers ∧ x.1 ∉ expired.map Entry.timer) :
    Indexed { q with timers := rest, activeTimers := active } (expire own expired) := by
  intro a
  unfold expire
  split
  · next hin =>
      obtain ⟨e, he, rfl⟩ := List.mem_map.mp hin
      obtain ⟨he, hdue⟩ := (hexpired e).mp he
      obtain ⟨t, ht, -⟩ := h.mem_timers.mp he
      refine .of_held (q := { q with timers := rest, activeTimers := active }) (p := .expired) ht
        nofun (fun w hw => ?_) fun n hn => ((hactive (e.timer, n)).mp hn).2 hin
      obtain ⟨hw, hlate⟩ := (hrest _).mp hw
      -- the only entry for this address is the one that was due
      rw [h.entry_eq hw he rfl] at hlate
      exact hlate hdue
  · next hnot =>
      refine (h a).congr rfl (fun w => ?_) fun n => ?_
      · rw [hrest]
        exact and_iff_left_of_imp fun hw hdue =>
          hnot (List.mem_map.mpr ⟨_, (hexpired _).mpr ⟨hw, hdue⟩, rfl⟩)
      · rw [hactive]
        exact and_iff_left hnot

/-- `getExpired` moves the timers that are due from the queue to the batch. -/
theorem getExpired_sat (h : Indexed q own) (hbound : ∀ a, own a ≠ none → a < UINTPTR_MAX)
    (now : Timestamp) :
    (q.getExpired now).Sat fun r => Indexed r.1 (expire own r.2) ∧
      (r.2.map Entry.timer).Nodup ∧ (∀ e ∈ r.2, own e.timer = some .pending) ∧
      r.1.heap = q.heap ∧ r.1.log = q.log ∧
      (∀ e, e ∈ r.2 ↔ e ∈ q.timers ∧ e.expiration ≤ now) ∧
      r.2.Pairwise fun e e' => e.expiration ≤ e'.expiration := by
  have hdue : ∀ e ∈ q.timers, (e < Entry.of now UINTPTR_MAX ↔ e.expiration ≤ now) := by
    intro e he
    obtain ⟨t, -, hp, -⟩ := h.mem_timers.mp he
    refine Entry.lt_sentry (hbound _ ?_)
    rw [hp]
    exact nofun
  unfold TimerQueue.getExpired
  rw [h.assertSizes_eq, Checked.ok_bind]
  dsimp only
  generalize hexpired : {e ∈ q.timers | e < Entry.of now UINTPTR_MAX}.sort = expired
  generalize hrest : {e ∈ q.timers | Entry.of now UINTPTR_MAX ≤ e} = rest
  have hmem : ∀ e, e ∈ expired ↔ e ∈ q.timers ∧ e < Entry.of now UINTPTR_MAX := by
    intro e
    rw [← hexpired, Finset.mem_sort, Finset.mem_filter]
  have hmemRest : ∀ e, e ∈ rest ↔ e ∈ q.timers ∧ ¬ e < Entry.of now UINTPTR_MAX := by
    intro e
    rw [← hrest, Finset.mem_filter, not_lt]
  -- one entry for each address, so no timer is extracted twice
  have hnodup : (expired.map Entry.timer).Nodup := by
    refine List.Nodup.map_on (fun e he e' he' => ?_) (hexpired ▸ Finset.sort_nodup _ _)
    exact h.entry_eq ((hmem e).mp he).1 ((hmem e').mp he').1
  -- the assert behind `lower_bound`
  have hfirst : (rest.sort.head?.all fun e => now < e.expiration) = true := by
    rw [Option.all_eq_true]
    intro e he
    have hin := (hmemRest e).mp ((Finset.mem_sort _).mp (List.mem_of_mem_head? he))
    exact decide_eq_true (not_le.mp fun hle => hin.2 ((hdue e hin.1).mpr hle))
  refine Checked.Sat.assert hfirst ?_
  have hactive : ∀ e ∈ expired, ∃ t, q.heap e.timer = some t ∧
      ∀ n, (e.timer, n) ∈ q.activeTimers ↔ n = t.sequence := by
    intro e he
    obtain ⟨t, ht, hp, -⟩ := h.mem_timers.mp ((hmem e).mp he).1
    exact ⟨t, ht, IndexedAt.mem_active (hp ▸ h e.timer) ht⟩
  refine (eraseActive_sat (q := { q with timers := rest }) hnodup hactive).bind ?_
  rintro _ ⟨active, rfl, hactive'⟩
  have hafter := h.expire_indexed hmem hmemRest hactive'
  dsimp only
  rw [hafter.assertSizes_eq]
  refine .ok ⟨hafter, hnodup, fun e he => ?_, rfl, rfl, fun e => ?_, ?_⟩
  · obtain ⟨-, -, hp, -⟩ := h.mem_timers.mp ((hmem e).mp he).1
    exact hp
  · rw [hmem]
    exact and_congr_right (hdue e)
  · -- the set is ordered by expiration first
    rw [← hexpired]
    exact (Finset.pairwise_sort _ _).imp fun hle => Prod.Lex.monotone_fst _ _ hle

end Indexed

/-! ## The numbers of the timers -/

/-- The timers are numbered in the order of their creation: each number belongs to one timer on the heap
or was deleted, once. -/
structure Census (heap : Heap Timer) (numCreated : Nat) (deleted : List Nat) : Prop where
  bounds : ∀ a t, heap a = some t → 1 ≤ t.sequence ∧ t.sequence ≤ numCreated
  unique : ∀ a b t u, heap a = some t → heap b = some u → t.sequence = u.sequence → a = b
  nodup : deleted.Nodup
  gone : ∀ n ∈ deleted, n ≤ numCreated ∧ ∀ a t, heap a = some t → t.sequence ≠ n
  total : ∀ n, 1 ≤ n → n ≤ numCreated → n ∈ deleted ∨ ∃ a t, heap a = some t ∧ t.sequence = n

namespace Census

variable {heap : Heap Timer} {numCreated : Nat} {deleted : List Nat} {a : Addr} {t : Timer}

/-- No timer was created. -/
theorem empty : Census Heap.empty 0 [] :=
  ⟨nofun, nofun, List.nodup_nil, nofun, fun n h1 h0 => by omega⟩

/-- `new Timer` takes the next number. -/
theorem create (h : Census heap numCreated deleted) (ha : heap a = none)
    (ht : t.sequence = numCreated + 1) : Census (heap.set a t) (numCreated + 1) deleted := by
  refine ⟨fun b u hu => ?_, fun b c u v hu hv huv => ?_, h.nodup, fun n hn => ?_, fun n h1 hn => ?_⟩
  · rcases Heap.set_eq_some.mp hu with ⟨-, rfl⟩ | ⟨-, hu⟩
    · omega
    · have := h.bounds b u hu
      omega
  · -- the new number is above all others
    rcases Heap.set_eq_some.mp hu with ⟨hb, rfl⟩ | ⟨-, hu⟩ <;>
      rcases Heap.set_eq_some.mp hv with ⟨hc, rfl⟩ | ⟨-, hv⟩
    · rw [hb, hc]
    · have := h.bounds c v hv
      omega
    · have := h.bounds b u hu
      omega
    · exact h.unique b c u v hu hv huv
  · obtain ⟨hle, hgone⟩ := h.gone n hn
    refine ⟨by omega, fun b u hu => ?_⟩
    rcases Heap.set_eq_some.mp hu with ⟨-, rfl⟩ | ⟨-, hu⟩
    · omega
    · exact hgone b u hu
  · rcases hn.lt_or_eq with hlt | rfl
    · rcases h.total n h1 (by omega) with hdel | ⟨b, u, hu, hun⟩
      · exact .inl hdel
      · refine .inr ⟨b, u, ?_, hun⟩
        rw [Heap.set_of_ne fun hb => by rw [hb, ha] at hu; cases hu]
        exact hu
    · exact .inr ⟨a, t, Heap.set_same, ht⟩

/-- `delete` of a timer on the heap. -/
theorem free (h : Census heap numCreated deleted) (ha : heap a = some t) :
    Census (heap.erase a) numCreated (deleted ++ [t.sequence]) := by
  have hold : ∀ b u, heap.erase a b = some u → b ≠ a ∧ heap b = some u :=
    fun b u => Heap.erase_eq_some.mp
  refine ⟨fun b u hu => h.bounds b u (hold b u hu).2,
    fun b c u v hu hv => h.unique b c u v (hold b u hu).2 (hold c v hv).2, ?_, fun n hn => ?_,
    fun n h1 hn => ?_⟩
  · rw [List.nodup_append]
    refine ⟨h.nodup, List.nodup_singleton _, fun n hn m hm heq => ?_⟩
    rw [List.mem_singleton.mp hm] at heq
    exact (h.gone n hn).2 a t ha heq.symm
  · rcases List.mem_append.mp hn with hn | hn
    · exact ⟨(h.gone n hn).1, fun b u hu => (h.gone n hn).2 b u (hold b u hu).2⟩
    · obtain rfl := List.mem_singleton.mp hn
      refine ⟨(h.bounds a t ha).2, fun b u hu heq => ?_⟩
      exact (hold b u hu).1 (h.unique b a u t (hold b u hu).2 ha heq)
  · rcases h.total n h1 hn with hdel | ⟨b, u, hu, hun⟩
    · exact .inl (List.mem_append_left _ hdel)
    · by_cases hb : b = a
      · rw [hb, ha] at hu
        cases hu
        exact .inl (List.mem_append_right _ (List.mem_singleton.mpr hun.symm))
      · exact .inr ⟨b, u, by rwa [Heap.erase_of_ne hb], hun⟩

/-- A timer is changed but keeps its number. -/
theorem set (h : Census heap numCreated deleted) (ha : heap a = some t) {u : Timer}
    (hu : u.sequence = t.sequence) : Census (heap.set a u) numCreated deleted := by
  have hold : ∀ b v, heap.set a u b = some v → ∃ v', heap b = some v' ∧ v'.sequence = v.sequence := by
    intro b v hv
    rcases Heap.set_eq_some.mp hv with ⟨rfl, rfl⟩ | ⟨-, hv⟩
    · exact ⟨t, ha, hu.symm⟩
    · exact ⟨v, hv, rfl⟩
  refine ⟨fun b v hv => ?_, fun b c v w hv hw heq => ?_, h.nodup, fun n hn => ?_, fun n h1 hn => ?_⟩
  · obtain ⟨v', hv', heq⟩ := hold b v hv
    rw [← heq]
    exact h.bounds b v' hv'
  · obtain ⟨v', hv', hv''⟩ := hold b v hv
    obtain ⟨w', hw', hw''⟩ := hold c w hw
    exact h.unique b c v' w' hv' hw' (by rw [hv'', hw'', heq])
  · refine ⟨(h.gone n hn).1, fun b v hv => ?_⟩
    obtain ⟨v', hv', heq⟩ := hold b v hv
    rw [← heq]
    exact (h.gone n hn).2 b v' hv'
  · rcases h.total n h1 hn with hdel | ⟨b, v, hv, hvn⟩
    · exact .inl hdel
    · by_cases hb : b = a
      · rw [hb, ha] at hv
        cases hv
        exact .inr ⟨a, u, Heap.set_same, hu.trans hvn⟩
      · exact .inr ⟨b, v, by rwa [Heap.set_of_ne hb], hvn⟩

end Census

end Muduo.Net
