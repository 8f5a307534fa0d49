import Muduo.Net.TimerIndex

/-! # Who owns a timer

`Held` and `Owned` relate the abstract state of the queue, a function from addresses to owners, to the
whole state of the machine. Each step is shown to move timers only along the life cycle `Move`, and
`timerQueue_ownership` collects what follows: no assertion fails, no timer is used or deleted after its
deletion, every timer is in one place, and it leaves the queue only for a reason. -/

namespace Muduo.Net

open Support

/-- What holds of the queue while the timers of `batch` are out of it. -/
structure Held (q : TimerQueue) (numCreated : Nat) (batch : List Entry)
    (own : Addr → Option Place) : Prop where
  indexed : Indexed q own
  census : Census q.heap numCreated q.deleted
  bound : ∀ a, own a ≠ none → a < UINTPTR_MAX
  expired : ∀ a, own a = some .expired ↔ a ∈ batch.map Entry.timer
  nodup : (batch.map Entry.timer).Nodup

namespace TimerQueue

variable (q : TimerQueue)

@[simp] theorem heap_note (e : TimerEvent) : (q.note e).heap = q.heap := rfl

@[simp] theorem deleted_note_deleted (n : Nat) :
    (q.note (.deleted n)).deleted = q.deleted ++ [n] := by
  simp [deleted, note]

@[simp] theorem deleted_note_started (n : Nat) : (q.note (.started n)).deleted = q.deleted := by
  simp [deleted, note]

@[simp] theorem deleted_note_resetTimerfd (w : Timestamp) :
    (q.note (.resetTimerfd w)).deleted = q.deleted := by
  simp [deleted, note]

end TimerQueue

/-- A restart keeps the sequence number. -/
theorem Timer.sequence_restart (t : Timer) (now : Timestamp) :
    (t.restart now).sequence = t.sequence := by
  unfold Timer.restart
  split <;> rfl

namespace Held

variable {q : TimerQueue} {numCreated : Nat} {batch : List Entry} {own : Addr → Option Place}

/-- An entry held has a timer. -/
theorem exists_timer (h : Held q numCreated batch own) {e : Entry} (he : e ∈ batch) :
    ∃ t, q.heap e.timer = some t :=
  h.indexed.exists_timer ((h.expired _).mpr (List.mem_map_of_mem he))

/-- No timer is held twice. -/
theorem head_not_mem {e : Entry} {es : List Entry} (h : Held q numCreated (e :: es) own) :
    e.timer ∉ es.map Entry.timer := by
  have hnodup := h.nodup
  rw [List.map_cons, List.nodup_cons] at hnodup
  exact hnodup.1

/-- The head of the batch goes to another owner, or to nobody. -/
theorem expired_update {e : Entry} {es : List Entry} (h : Held q numCreated (e :: es) own)
    {place : Option Place} (hp : place ≠ some .expired) (a : Addr) :
    Function.update own e.timer place a = some .expired ↔ a ∈ es.map Entry.timer := by
  by_cases ha : a = e.timer
  · rw [ha, Function.update_self]
    exact iff_of_false hp h.head_not_mem
  · rw [Function.update_of_ne ha, h.expired, List.map_cons, List.mem_cons, or_iff_right ha]

/-- A timer outside the batch goes to another owner, or to nobody. -/
theorem expired_update_other (h : Held q numCreated batch own) {a : Addr}
    (ha : own a ≠ some .expired) {place : Option Place} (hp : place ≠ some .expired) (b : Addr) :
    Function.update own a place b = some .expired ↔ b ∈ batch.map Entry.timer := by
  by_cases hb : b = a
  · rw [hb, Function.update_self]
    exact iff_of_false hp fun hmem => ha ((h.expired a).mpr hmem)
  · rw [Function.update_of_ne hb]
    exact h.expired b

/-- Addresses stay below the sentry's when an owned one changes hands. -/
theorem bound_update (h : Held q numCreated batch own) {a : Addr} (ha : own a ≠ none)
    (place : Option Place) (b : Addr) (hb : Function.update own a place b ≠ none) :
    b < UINTPTR_MAX := by
  by_cases hba : b = a
  · rw [hba]
    exact h.bound a ha
  · rw [Function.update_of_ne hba] at hb
    exact h.bound b hb

/-- One turn of the loop in `reset`: a repeating timer goes back into the queue. -/
theorem restart_sat {e : Entry} {es : List Entry} (h : Held q numCreated (e :: es) own) {t : Timer}
    (ht : q.heap e.timer = some t) (now : Timestamp) :
    ({ q with heap := q.heap.set e.timer (t.restart now) }.insert e.timer).Sat fun r =>
      Held r.1 numCreated es (Function.update own e.timer (some .pending)) ∧
        r.1.heap = q.heap.set e.timer (t.restart now) ∧
        r.1.callingExpiredTimers = q.callingExpiredTimers ∧
        r.1.cancelingTimers = q.cancelingTimers ∧ r.1.log = q.log := by
  have hown : own e.timer = some .expired := (h.expired _).mpr (List.mem_cons_self ..)
  have hne : own e.timer ≠ some .pending := by
    rw [hown]
    exact nofun
  have hset := h.indexed.set_held hne (p := .expired) nofun (t.restart now)
  rw [← hown, Function.update_eq_self] at hset -- it still belongs to the batch
  refine (hset.insert_sat Heap.set_same hne).mono ?_
  rintro r ⟨hindexed, hheap, hcalling, hcanceling, hlog⟩
  refine ⟨⟨hindexed, ?_, h.bound_update (by simp [hown]) _, h.expired_update nofun, ?_⟩, hheap,
    hcalling, hcanceling, hlog⟩
  · rw [hheap, TimerQueue.deleted, hlog]
    exact h.census.set ht (t.sequence_restart now)
  · exact (List.nodup_cons.mp h.nodup).2

/-- One turn of the loop in `reset`: any other timer is deleted. -/
theorem delete {e : Entry} {es : List Entry} (h : Held q numCreated (e :: es) own) {t : Timer}
    (ht : q.heap e.timer = some t) :
    Held ({ q with heap := q.heap.erase e.timer }.note (.deleted t.sequence)) numCreated es
      (Function.update own e.timer none) := by
  have hown : own e.timer = some .expired := (h.expired _).mpr (List.mem_cons_self ..)
  have hfree := h.indexed.free_held (a := e.timer) (by rw [hown]; exact nofun)
  refine ⟨hfree.note _, ?_, h.bound_update (by simp [hown]) _, h.expired_update nofun,
    (List.nodup_cons.mp h.nodup).2⟩
  rw [TimerQueue.deleted_note_deleted]
  exact h.census.free ht

end Held

/-- What the loop of `reset` has done to the timers of `es`. -/
structure Restarted (now : Timestamp) (es : List Entry) (q : TimerQueue) (own : Addr → Option Place)
    (q' : TimerQueue) (own' : Addr → Option Place) : Prop where
  others : ∀ a, a ∉ es.map Entry.timer → q'.heap a = q.heap a ∧ own' a = own a
  restarted : ∀ e ∈ es, ∀ t, q.heap e.timer = some t →
    t.repeats = true ∧ (e.timer, t.sequence) ∉ q.cancelingTimers →
    q'.heap e.timer = some (t.restart now) ∧ own' e.timer = some .pending
  deleted : ∀ e ∈ es, ∀ t, q.heap e.timer = some t →
    ¬ (t.repeats = true ∧ (e.timer, t.sequence) ∉ q.cancelingTimers) →
    t.sequence ∈ q'.deleted ∧ own' e.timer = none
  log : ∃ ns : List Nat, q'.log = q.log ++ ns.map .deleted
  calling : q'.callingExpiredTimers = q.callingExpiredTimers

/-- Deletions do not undo deletions. -/
theorem deleted_of_log {q q' : TimerQueue} {ns : List Nat} (h : q'.log = q.log ++ ns.map .deleted) :
    q'.deleted = q.deleted ++ ns := by
  rw [TimerQueue.deleted, h, List.filterMap_append, TimerQueue.deleted, List.filterMap_map]
  simp

/-- One turn of the loop, followed by the turns for the rest. -/
theorem Restarted.cons {now : Timestamp} {e : Entry} {es : List Entry} {q q₁ q' : TimerQueue}
    {own own₁ own' : Addr → Option Place} {t : Timer} (hr : Restarted now es q₁ own₁ q' own')
    (hfresh : e.timer ∉ es.map Entry.timer) (ht : q.heap e.timer = some t)
    (hframe : ∀ b, b ≠ e.timer → q₁.heap b = q.heap b ∧ own₁ b = own b)
    (hcanceling : q₁.cancelingTimers = q.cancelingTimers)
    (hcalling : q₁.callingExpiredTimers = q.callingExpiredTimers)
    (hlog : ∃ ns : List Nat, q₁.log = q.log ++ ns.map .deleted)
    (hrestarted : t.repeats = true ∧ (e.timer, t.sequence) ∉ q.cancelingTimers →
      q₁.heap e.timer = some (t.restart now) ∧ own₁ e.timer = some .pending)
    (hdeleted : ¬ (t.repeats = true ∧ (e.timer, t.sequence) ∉ q.cancelingTimers) →
      t.sequence ∈ q₁.deleted ∧ own₁ e.timer = none) :
    Restarted now (e :: es) q own q' own' := by
  obtain ⟨ns, hns⟩ := hlog
  obtain ⟨ms, hms⟩ := hr.log
  -- the timers of the rest are as they were before this turn
  have hrest : ∀ e' ∈ es, q₁.heap e'.timer = q.heap e'.timer := by
    intro e' he'
    refine (hframe _ fun heq => hfresh ?_).1
    rw [← heq]
    exact List.mem_map_of_mem he'
  refine ⟨fun a ha => ?_, fun e' he' u hu hrep => ?_, fun e' he' u hu hrep => ?_,
    ⟨ns ++ ms, by rw [hms, hns, List.map_append, List.append_assoc]⟩, hr.calling.trans hcalling⟩
  · rw [List.map_cons, List.mem_cons, not_or] at ha
    obtain ⟨hheap, hown⟩ := hr.others a ha.2
    exact ⟨hheap.trans (hframe a ha.1).1, hown.trans (hframe a ha.1).2⟩
  · rcases List.mem_cons.mp he' with rfl | he'
    · rw [ht] at hu
      cases hu
      obtain ⟨hheap, hown⟩ := hr.others e'.timer hfresh
      rw [hheap, hown]
      exact hrestarted hrep
    · rw [← hcanceling] at hrep
      exact hr.restarted e' he' u ((hrest e' he').trans hu) hrep
  · rcases List.mem_cons.mp he' with rfl | he'
    · rw [ht] at hu
      cases hu
      rw [deleted_of_log hms, (hr.others e'.timer hfresh).2]
      exact (hdeleted hrep).imp_left (List.mem_append_left _)
    · rw [← hcanceling] at hrep
      exact hr.deleted e' he' u ((hrest e' he').trans hu) hrep

/-- `addTimerInLoop` makes a timer pending and may set the clock. -/
theorem Indexed.addTimerInLoop_sat {q : TimerQueue} {own : Addr → Option Place} {a : Addr}
    {t : Timer} (h : Indexed q own) (ht : q.heap a = some t) (ha : own a ≠ some .pending) :
    (q.addTimerInLoop a).Sat fun q' => Indexed q' (Function.update own a (some .pending)) ∧
      q'.heap = q.heap ∧ q'.callingExpiredTimers = q.callingExpiredTimers ∧
      q'.cancelingTimers = q.cancelingTimers ∧ ∃ ws : List Timestamp,
        q'.log = q.log ++ .added ⟨a, t.sequence⟩ :: ws.map .resetTimerfd := by
  refine (h.insert_sat ht ha).bind ?_
  rintro ⟨q₁, earliestChanged⟩ ⟨hindexed, hheap, hcalling, hcanceling, hlog⟩
  dsimp only at hheap hcalling hcanceling hlog ⊢
  rw [Heap.get_of_eq (hheap ▸ ht)]
  cases earliestChanged with
  | true =>
      refine .ok ⟨(hindexed.note _).note _, hheap, hcalling, hcanceling, [t.expiration], ?_⟩
      simp [TimerQueue.note, hlog]
  | false =>
      refine .ok ⟨hindexed.note _, hheap, hcalling, hcanceling, [], ?_⟩
      simp [TimerQueue.note, hlog]

/-- Adding deletes nothing. -/
theorem deleted_of_added {q q' : TimerQueue} {id : TimerId} {ws : List Timestamp}
    (h : q'.log = q.log ++ .added id :: ws.map .resetTimerfd) : q'.deleted = q.deleted := by
  rw [TimerQueue.deleted, h, List.filterMap_append, TimerQueue.deleted, List.filterMap_cons,
    List.filterMap_map]
  simp

/-- `cancelInLoop` deletes a pending timer, and otherwise at most makes a note of the id. -/
theorem Indexed.cancelInLoop_sat {q : TimerQueue} {own : Addr → Option Place} (h : Indexed q own)
    (id : TimerId) :
    (q.cancelInLoop id).Sat fun q' =>
      (∃ t, q.heap id.timer = some t ∧ t.sequence = id.sequence ∧ own id.timer = some .pending ∧
        Indexed q' (Function.update own id.timer none) ∧ q'.heap = q.heap.erase id.timer ∧
        q'.callingExpiredTimers = q.callingExpiredTimers ∧
        q'.cancelingTimers = q.cancelingTimers ∧ q'.log = q.log ++ [.deleted id.sequence]) ∨
      ((id.timer, id.sequence) ∉ q.activeTimers ∧
        q' = { q with
          cancelingTimers := if q.callingExpiredTimers then
            Insert.insert (id.timer, id.sequence) q.cancelingTimers else q.cancelingTimers }) := by
  obtain ⟨a, n⟩ := id
  unfold TimerQueue.cancelInLoop
  rw [h.assertSizes_eq, Checked.ok_bind]
  dsimp only
  split
  · next hactive =>
      obtain ⟨t, ht, hown, rfl⟩ := ((h a).active n).mp hactive
      have hmem : Entry.of t.expiration a ∈ q.timers := ((h a).timers _).mpr ⟨t, ht, hown, rfl⟩
      have hafter := (h.free_pending ht hown).note (.deleted t.sequence)
      rw [Heap.get_of_eq ht, Checked.ok_bind, Heap.free_of_eq ht, assert_pos (if_pos hmem)]
      simp only [Checked.ok_bind, Checked.pure_eq_ok]
      rw [hafter.assertSizes_eq]
      exact .ok (.inl ⟨t, ht, rfl, hown, hafter, rfl, rfl, rfl, rfl⟩)
  · next hactive =>
      split
      · have hafter : Indexed
            { q with cancelingTimers := Insert.insert (a, n) q.cancelingTimers } own :=
          h.congr rfl rfl rfl
        simp only [Checked.ok_bind, Checked.pure_eq_ok]
        rw [hafter.assertSizes_eq]
        exact .ok (.inr ⟨hactive, rfl⟩)
      · simp only [Checked.ok_bind, Checked.pure_eq_ok]
        rw [h.assertSizes_eq]
        exact .ok (.inr ⟨hactive, rfl⟩)

/-- The loop of `reset` gives every timer of the batch away. -/
theorem Held.restartAll_sat (now : Timestamp) {q : TimerQueue} {numCreated : Nat} {es : List Entry}
    {own : Addr → Option Place} (h : Held q numCreated es own) :
    (q.restartAll now es).Sat fun q' =>
      ∃ own', Held q' numCreated [] own' ∧ Restarted now es q own q' own' := by
  induction es generalizing q own with
  | nil =>
      exact .ok ⟨own, h, ⟨fun _ _ => ⟨rfl, rfl⟩, nofun, nofun, ⟨[], by simp⟩, rfl⟩⟩
  | cons e es ih =>
      -- each turn hands one timer over, and the rest of the batch is a batch again
      obtain ⟨t, ht⟩ := h.exists_timer (List.mem_cons_self ..)
      unfold TimerQueue.restartAll
      rw [Heap.get_of_eq ht, Checked.ok_bind]
      split
      · next hrestart =>
          refine (h.restart_sat ht now).bind ?_
          rintro ⟨q₁, changed⟩ ⟨h₁, hheap, hcalling, hcanceling, hlog⟩
          refine (ih h₁).mono ?_
          rintro q' ⟨own', h', hr⟩
          refine ⟨own', h', hr.cons h.head_not_mem ht (fun b hb => ⟨?_, ?_⟩) hcanceling hcalling
            ⟨[], by simpa using hlog⟩ (fun _ => ⟨?_, ?_⟩) fun hno => absurd hrestart hno⟩
          · rw [hheap, Heap.set_of_ne hb]
          · rw [Function.update_of_ne hb]
          · rw [hheap, Heap.set_same]
          · rw [Function.update_self]
      · next hdelete =>
          rw [Heap.free_of_eq ht, Checked.ok_bind]
          refine (ih (h.delete ht)).mono ?_
          rintro q' ⟨own', h', hr⟩
          refine ⟨own', h', hr.cons h.head_not_mem ht (fun b hb => ⟨?_, ?_⟩) rfl rfl
            ⟨[t.sequence], rfl⟩ (fun hyes => absurd hyes hdelete) fun _ => ⟨?_, ?_⟩⟩
          · exact Heap.erase_of_ne hb
          · rw [Function.update_of_ne hb]
          · rw [TimerQueue.deleted_note_deleted]
            exact List.mem_append_right _ (List.mem_singleton.mpr rfl)
          · rw [Function.update_self]

/-- `reset` gives every timer of the batch away and may set the clock. -/
theorem Held.reset_sat (now : Timestamp) {q : TimerQueue} {numCreated : Nat} {es : List Entry}
    {own : Addr → Option Place} (h : Held q numCreated es own) :
    (q.reset es now).Sat fun q' => ∃ own' q₁, Held q' numCreated [] own' ∧
      Restarted now es q own q₁ own' ∧ (q' = q₁ ∨ ∃ w, q' = q₁.note (.resetTimerfd w)) := by
  refine (h.restartAll_sat now).bind ?_
  rintro q₁ ⟨own', h', hr⟩
  cases hbegin : q₁.begin? with
  | none => exact .ok ⟨own', q₁, h', hr, .inl rfl⟩
  | some first =>
      have hfirst : first ∈ q₁.timers := (Finset.mem_sort _).mp (List.mem_of_mem_head? hbegin)
      obtain ⟨t, ht, -⟩ := h'.indexed.mem_timers.mp hfirst
      dsimp only
      rw [Heap.get_of_eq ht, Checked.ok_bind]
      split
      · refine .ok ⟨own', q₁, ⟨h'.indexed.note _, ?_, h'.bound, h'.expired, h'.nodup⟩, hr,
          .inr ⟨_, rfl⟩⟩
        simpa using h'.census
      · exact .ok ⟨own', q₁, h', hr, .inl rfl⟩

/-! ## The life of a timer -/

/-- Where a timer is: on the heap with an owner, or gone. -/
inductive TimerStatus where
  | held (p : Place)
  | deleted
  deriving DecidableEq, Repr

namespace TimerState

variable (s : TimerState)

/-- The batch that is being worked through, or nothing. -/
def batchEntries : List Entry := s.batch.elim [] Batch.expired

/-- The entries of the batch under way. -/
theorem batchEntries_eq {s : TimerState} {b : Batch} (hb : s.batch = some b) :
    s.batchEntries = b.expired := by
  rw [batchEntries, hb]
  rfl

/-- The timer with number `n` at the address `a` is where the code looks for it. -/
def Holds (a : Addr) (n : Nat) : Place → Prop
  | .waiting => a ∈ s.created
  | .pending => (∃ t, s.queue.heap a = some t ∧ Entry.of t.expiration a ∈ s.queue.timers) ∧
      (a, n) ∈ s.queue.activeTimers
  | .expired => a ∈ s.batchEntries.map Entry.timer

/-- The timer with number `n` is in a given place, or deleted. -/
def HasStatus (n : Nat) : TimerStatus → Prop
  | .held p => ∃ a t, s.queue.heap a = some t ∧ t.sequence = n ∧ s.Holds a n p
  | .deleted => n ∈ s.queue.deleted

/-- The sets hold the same timers, and no pointer in the sets or the batch is dangling. -/
structure Coherent : Prop where
  agree : ∀ a t, s.queue.heap a = some t →
    (Entry.of t.expiration a ∈ s.queue.timers ↔ (a, t.sequence) ∈ s.queue.activeTimers)
  timers : ∀ e ∈ s.queue.timers, ∃ t, s.queue.heap e.timer = some t ∧ t.expiration = e.expiration
  active : ∀ x ∈ s.queue.activeTimers, ∃ t, s.queue.heap x.1 = some t ∧ t.sequence = x.2
  batch : ∀ e ∈ s.batchEntries, ∃ t, s.queue.heap e.timer = some t

/-- How the timer with number `n` may change its place in a step from `s`. -/
inductive Move : TimerStep → Nat → TimerStatus → TimerStatus → Prop where
  | stay {act : TimerStep} {n : Nat} {st : TimerStatus} : Move act n st st
  | add {a : Addr} {t : Timer} : s.queue.heap a = some t →
      Move (.addTimerInLoop a) t.sequence (.held .waiting) (.held .pending)
  /-- It is cancelled while it is pending. -/
  | cancel {a : Addr} {n : Nat} : Move (.cancelInLoop ⟨a, n⟩) n (.held .pending) .deleted
  | expire {now : Timestamp} {n : Nat} : Move (.expire now) n (.held .pending) (.held .expired)
  /-- It has fired and is to fire again. -/
  | restart {a : Addr} {t : Timer} : s.queue.heap a = some t →
      .started t.sequence ∈ s.queue.log → t.repeats = true →
      (a, t.sequence) ∉ s.queue.cancelingTimers →
      Move .reset t.sequence (.held .expired) (.held .pending)
  /-- It has fired, and is a one-shot or has been cancelled during its batch. -/
  | finish {a : Addr} {t : Timer} : s.queue.heap a = some t →
      .started t.sequence ∈ s.queue.log →
      t.repeats = false ∨ (a, t.sequence) ∈ s.queue.cancelingTimers →
      Move .reset t.sequence (.held .expired) .deleted

/-- The owners of the timers in a state of the machine. -/
structure Owned (own : Addr → Option Place) : Prop
    extends Held s.queue s.numCreated s.batchEntries own where
  waiting : ∀ a, a ∈ s.created ↔ own a = some .waiting
  calling : s.queue.callingExpiredTimers = s.batch.isSome
  /-- The timers of the batch are run in order, and those that were have started. -/
  ran : ∀ b, s.batch = some b → ∃ ran, b.expired = ran ++ b.remaining ∧
    ∀ e ∈ ran, ∀ t, s.queue.heap e.timer = some t → .started t.sequence ∈ s.queue.log

namespace Owned

variable {s} {own : Addr → Option Place} {a : Addr} {t : Timer}

/-- The code finds a timer exactly where its owner has it. -/
theorem holds_iff (h : s.Owned own) (ht : s.queue.heap a = some t) (p : Place) :
    s.Holds a t.sequence p ↔ own a = some p := by
  cases p with
  | waiting => exact h.waiting a
  | expired => exact (h.expired a).symm
  | pending =>
      constructor
      · rintro ⟨-, hactive⟩
        obtain ⟨-, -, hown, -⟩ := ((h.indexed a).active _).mp hactive
        exact hown
      · intro hown
        exact ⟨⟨t, ht, ((h.indexed a).timers _).mpr ⟨t, ht, hown, rfl⟩⟩,
          ((h.indexed a).active _).mpr ⟨t, ht, hown, rfl⟩⟩

/-- The status of a timer on the heap. -/
theorem hasStatus_held (h : s.Owned own) (ht : s.queue.heap a = some t) {p : Place}
    (hown : own a = some p) : s.HasStatus t.sequence (.held p) :=
  ⟨a, t, ht, rfl, (h.holds_iff ht p).mpr hown⟩

/-- Every timer that was made is in one place only. -/
theorem existsUnique_status (h : s.Owned own) {n : Nat} (h1 : 1 ≤ n) (hn : n ≤ s.numCreated) :
    ∃! st, s.HasStatus n st := by
  rcases h.census.total n h1 hn with hdel | ⟨a, t, ht, rfl⟩
  · refine ⟨.deleted, hdel, fun st hst => ?_⟩
    cases st with
    | deleted => rfl
    | held p =>
        obtain ⟨a, t, ht, htn, -⟩ := hst
        exact absurd htn ((h.census.gone n hdel).2 a t ht)
  · obtain ⟨p, hp⟩ := h.indexed.exists_place ht
    refine ⟨.held p, h.hasStatus_held ht hp, fun st hst => ?_⟩
    cases st with
    | deleted => exact absurd rfl ((h.census.gone _ hst).2 a t ht)
    | held p' =>
        obtain ⟨b, u, hu, hseq, hholds⟩ := hst
        obtain rfl := h.census.unique b a u t hu ht hseq
        rw [hu] at ht
        cases ht
        rw [h.holds_iff hu, hp] at hholds
        cases hholds
        rfl

/-- Owned timers make the sets coherent. -/
theorem coherent (h : s.Owned own) : s.Coherent := by
  refine ⟨fun a t ht => ?_, fun e he => ?_, fun x hx => ?_, fun e he => h.exists_timer he⟩
  · rw [(h.indexed a).timers, (h.indexed a).active]
    constructor
    · rintro ⟨-, -, hown, -⟩
      exact ⟨t, ht, hown, rfl⟩
    · rintro ⟨-, -, hown, -⟩
      exact ⟨t, ht, hown, rfl⟩
  · obtain ⟨t, ht, -, hw⟩ := h.indexed.mem_timers.mp he
    exact ⟨t, ht, hw⟩
  · obtain ⟨t, ht, -, hn⟩ := ((h.indexed x.1).active x.2).mp hx
    exact ⟨t, ht, hn⟩

end Owned

/-- A step that starts with the owners `own` ends with the owners `own'`, and every timer has moved
along its life cycle. -/
structure Stepped (act : TimerStep) (own : Addr → Option Place) (s' : TimerState)
    (own' : Addr → Option Place) : Prop where
  owned : s'.Owned own'
  moves : ∀ a t p, s.queue.heap a = some t → own a = some p →
    (∃ t' p', s'.queue.heap a = some t' ∧ t'.sequence = t.sequence ∧ own' a = some p' ∧
      s.Move act t.sequence (.held p) (.held p')) ∨
    t.sequence ∈ s'.queue.deleted ∧ s.Move act t.sequence (.held p) .deleted
  deleted : ∀ n ∈ s.queue.deleted, n ∈ s'.queue.deleted

namespace Owned

variable {s} {own : Addr → Option Place} {a : Addr} {t : Timer}

/-- What was run stays run while the timers of the batch stay where they are. -/
theorem ran_congr (h : s.Owned own) {q : TimerQueue}
    (hheap : ∀ e ∈ s.batchEntries, q.heap e.timer = s.queue.heap e.timer)
    (hlog : ∀ x ∈ s.queue.log, x ∈ q.log) (b : Batch) (hb : s.batch = some b) :
    ∃ ran, b.expired = ran ++ b.remaining ∧
      ∀ e ∈ ran, ∀ t, q.heap e.timer = some t → .started t.sequence ∈ q.log := by
  obtain ⟨ran, hran, hstarted⟩ := h.ran b hb
  refine ⟨ran, hran, fun e he t ht => hlog _ (hstarted e he t ?_)⟩
  rw [← hheap e (by rw [batchEntries_eq hb, hran]; exact List.mem_append_left _ he), ht]

/-- A new timer is waiting. -/
theorem create_stepped (h : s.Owned own) (ha : s.queue.heap a = none) (hbound : a < UINTPTR_MAX)
    (expiration : Timestamp) (interval : Int) (repeats : Bool) :
    (s.exec (.create a expiration interval repeats)).Sat fun s' =>
      s.Stepped (.create a expiration interval repeats) own s'
        (Function.update own a (some .waiting)) := by
  have hown : own a = none := by
    cases hp : own a with
    | none => rfl
    | some p =>
        obtain ⟨t, ht⟩ := h.indexed.exists_timer hp
        rw [ha] at ht
        cases ht
  have hne : own a ≠ some .pending := by
    rw [hown]
    exact nofun
  -- the new timer is at an address of its own
  have hother : ∀ b u, s.queue.heap b = some u → b ≠ a := fun b u hu hb => by
    rw [hb, ha] at hu
    cases hu
  refine .ok ⟨⟨⟨h.indexed.set_held hne (p := .waiting) nofun _, h.census.create ha rfl, fun b hb => ?_,
    h.expired_update_other (by simp [hown]) nofun, h.nodup⟩, fun b => ?_, h.calling,
    h.ran_congr (fun e he => ?_) fun x hx => hx⟩,
    fun b u p hu hp => .inl ⟨u, p, ?_, rfl, ?_, .stay⟩, fun n hn => hn⟩
  · by_cases hba : b = a
    · rwa [hba]
    · rw [Function.update_of_ne hba] at hb
      exact h.bound b hb
  · rw [Finset.mem_insert]
    by_cases hba : b = a
    · rw [hba, Function.update_self]
      exact iff_of_true (.inl rfl) rfl
    · rw [Function.update_of_ne hba, or_iff_right hba]
      exact h.waiting b
  · obtain ⟨u, hu⟩ := h.exists_timer he
    exact Heap.set_of_ne (hother _ u hu)
  · exact (Heap.set_of_ne (hother b u hu)).trans hu
  · rw [Function.update_of_ne (hother b u hu), hp]

/-- An added timer is pending. -/
theorem addTimerInLoop_stepped (h : s.Owned own) (ha : a ∈ s.created) :
    (s.exec (.addTimerInLoop a)).Sat fun s' =>
      s.Stepped (.addTimerInLoop a) own s' (Function.update own a (some .pending)) := by
  have hown : own a = some .waiting := (h.waiting a).mp ha
  obtain ⟨t, ht⟩ := h.indexed.exists_timer hown
  refine (h.indexed.addTimerInLoop_sat ht (by simp [hown])).bind ?_
  rintro q ⟨hindexed, hheap, hcalling, -, ws, hlog⟩
  have hdeleted := deleted_of_added hlog
  refine .ok ⟨⟨⟨hindexed, ?_, h.bound_update (by simp [hown]) _,
    h.expired_update_other (by simp [hown]) nofun, h.nodup⟩, fun b => ?_, hcalling.trans h.calling,
    h.ran_congr (fun e _ => by rw [hheap]) fun x hx => ?_⟩, fun b u p hu hp => .inl ?_,
    fun n hn => ?_⟩
  · rw [hheap, hdeleted]
    exact h.census
  · rw [Finset.mem_erase]
    by_cases hba : b = a
    · rw [hba, Function.update_self]
      exact iff_of_false (fun hmem => hmem.1 rfl) nofun
    · rw [Function.update_of_ne hba, and_iff_right hba]
      exact h.waiting b
  · rw [hlog]
    exact List.mem_append_left _ hx
  · by_cases hba : b = a
    · subst hba
      rw [hown] at hp
      cases hp
      exact ⟨u, .pending, by rw [hheap, hu], rfl, Function.update_self .., .add hu⟩
    · exact ⟨u, p, by rw [hheap, hu], rfl, by rw [Function.update_of_ne hba, hp], .stay⟩
  · rwa [hdeleted]

/-- A step that leaves the heap and the owners alone moves no timer. -/
theorem stepped_of_eq {act : TimerStep} {s' : TimerState} (howned : s'.Owned own)
    (hheap : s'.queue.heap = s.queue.heap) (hdeleted : s'.queue.deleted = s.queue.deleted) :
    s.Stepped act own s' own := by
  refine ⟨howned, fun b u p hu hp => .inl ⟨u, p, ?_, rfl, hp, .stay⟩, fun n hn => ?_⟩
  · rw [hheap, hu]
  · rwa [hdeleted]

/-- Cancelling moves timers along their life cycle only. -/
theorem cancelInLoop_stepped (h : s.Owned own) (id : TimerId) :
    (s.exec (.cancelInLoop id)).Sat fun s' => ∃ own', s.Stepped (.cancelInLoop id) own s' own' := by
  refine (h.indexed.cancelInLoop_sat id).bind ?_
  rintro q (⟨t, ht, hn, hown, hindexed, hheap, hcalling, -, hlog⟩ | ⟨-, rfl⟩)
  · obtain ⟨a, n⟩ := id
    dsimp only at ht hn hown hindexed hheap hlog
    subst hn
    have hnotes : q.log = s.queue.log ++ [t.sequence].map .deleted := hlog
    have hdeleted := deleted_of_log hnotes
    refine .ok ⟨_, ⟨⟨hindexed, ?_, h.bound_update (by simp [hown]) _,
      h.expired_update_other (by simp [hown]) nofun, h.nodup⟩, fun b => ?_, hcalling.trans h.calling,
      h.ran_congr (fun e he => ?_) fun x hx => ?_⟩, fun b u p hu hp => ?_, fun n hn => ?_⟩
    · rw [hheap, hdeleted]
      exact h.census.free ht
    · by_cases hba : b = a
      · rw [hba, Function.update_self, h.waiting, hown]
        exact iff_of_false nofun nofun
      · rw [Function.update_of_ne hba]
        exact h.waiting b
    · -- the batch keeps its timers: what is deleted here was pending
      rw [hheap]
      refine Heap.erase_of_ne fun heq => ?_
      have hexp := (h.expired e.timer).mpr (List.mem_map_of_mem he)
      rw [heq, hown] at hexp
      cases hexp
    · rw [hlog]
      exact List.mem_append_left _ hx
    · by_cases hba : b = a
      · subst hba
        rw [ht] at hu
        rw [hown] at hp
        cases hu
        cases hp
        exact .inr ⟨by rw [hdeleted]; exact List.mem_append_right _ (.head _), .cancel⟩
      · refine .inl ⟨u, p, ?_, rfl, ?_, .stay⟩
        · rw [hheap, Heap.erase_of_ne hba, hu]
        · rw [Function.update_of_ne hba, hp]
    · rw [hdeleted]
      exact List.mem_append_left _ hn
  · -- an id that is not pending: at most `cancelingTimers_` has grown
    refine .ok ⟨own, stepped_of_eq ⟨⟨h.indexed.congr rfl rfl rfl, h.census, h.bound, h.expired,
      h.nodup⟩, h.waiting, h.calling, h.ran⟩ rfl rfl⟩

/-- Outside `handleRead` no timer is expired. -/
theorem not_expired_of_idle (h : s.Owned own) (hb : s.batch = none) (a : Addr) :
    own a ≠ some .expired := by
  intro hexp
  have hmem := (h.expired a).mp hexp
  rw [batchEntries, hb] at hmem
  cases hmem

/-- `handleRead` up to the first `run()`. -/
theorem expire_stepped (h : s.Owned own) (hb : s.batch = none) (now : Timestamp) :
    (s.exec (.expire now)).Sat fun s' => ∃ own', s.Stepped (.expire now) own s' own' := by
  refine (h.indexed.getExpired_sat h.bound now).bind ?_
  rintro ⟨q, expired⟩ ⟨hindexed, hnodup, hpending, hheap, hlog, -⟩
  dsimp only at hindexed hnodup hpending hheap hlog ⊢
  have hdeleted : q.deleted = s.queue.deleted := by rw [TimerQueue.deleted, hlog, TimerQueue.deleted]
  -- an expired timer was pending before, so it has no other owner
  have hmem : ∀ a, a ∈ expired.map Entry.timer → own a = some .pending := by
    intro a ha
    obtain ⟨e, he, rfl⟩ := List.mem_map.mp ha
    exact hpending e he
  refine .ok ⟨_, ⟨⟨hindexed.congr rfl rfl rfl, ?_, fun a ha => ?_, fun a => ?_, hnodup⟩, fun a => ?_,
    rfl, ?_⟩, fun a t p ht hp => .inl ?_, fun n hn => ?_⟩
  · show Census q.heap s.numCreated q.deleted
    rw [hheap, hdeleted]
    exact h.census
  · unfold Indexed.expire at ha
    split at ha
    · next hin =>
        refine h.bound a ?_
        rw [hmem a hin]
        exact nofun
    · exact h.bound a ha
  · unfold Indexed.expire
    split
    · next hin => exact iff_of_true rfl hin
    · next hin => exact iff_of_false (h.not_expired_of_idle hb a) hin
  · unfold Indexed.expire
    split
    · next hin =>
        rw [h.waiting, hmem a hin]
        exact iff_of_false nofun nofun
    · exact h.waiting a
  · rintro _ ⟨⟩
    exact ⟨[], rfl, nofun⟩
  · by_cases hin : a ∈ expired.map Entry.timer
    · rw [hmem a hin] at hp
      cases hp
      exact ⟨t, .expired, by rw [← ht, ← hheap], rfl, if_pos hin, .expire⟩
    · exact ⟨t, p, by rw [← ht, ← hheap], rfl, by rw [← hp]; exact if_neg hin, .stay⟩
  · show n ∈ q.deleted
    rwa [hdeleted]

/-- Running a timer notes its start and nothing else. -/
theorem run_stepped (h : s.Owned own) {b : Batch} (hb : s.batch = some b) {e : Entry}
    {remaining : List Entry} (hrem : b.remaining = e :: remaining) :
    ∃ t, s.queue.heap e.timer = some t ∧ ∃ s', s.exec .run = .ok s' ∧
      s' = { s with
        queue := s.queue.note (.started t.sequence), batch := some { b with remaining } } ∧
      s.Stepped .run own s' own := by
  obtain ⟨now, expired, rem⟩ := b
  dsimp only at hrem
  subst hrem
  obtain ⟨ran, hran, hstarted⟩ := h.ran _ hb
  dsimp only at hran
  have hentries : s.batchEntries = expired := batchEntries_eq hb
  obtain ⟨t, ht⟩ := h.exists_timer (e := e) (by
    rw [hentries, hran]
    exact List.mem_append_right _ (.head _))
  refine ⟨t, ht, _, ?_, rfl, ?_⟩
  · simp only [exec, hb, Heap.get_of_eq ht]
    rfl
  have hheld : Held (s.queue.note (.started t.sequence)) s.numCreated expired own := by
    have hbase := h.toHeld
    rw [hentries] at hbase
    exact ⟨hbase.indexed.note _, by simpa using hbase.census, hbase.bound, hbase.expired, hbase.nodup⟩
  refine stepped_of_eq ⟨hheld, h.waiting, ?_, ?_⟩ rfl (TimerQueue.deleted_note_started ..)
  · exact h.calling.trans (by rw [hb]; rfl)
  · rintro _ ⟨⟩
    refine ⟨ran ++ [e], by rw [hran, List.append_assoc]; rfl, fun e' he' u hu => ?_⟩
    rcases List.mem_append.mp he' with he' | he'
    · exact List.mem_append_left _ (hstarted e' he' u hu)
    · obtain rfl := List.mem_singleton.mp he'
      have hu' : s.queue.heap e'.timer = some u := hu
      rw [ht] at hu'
      cases hu'
      exact List.mem_append_right _ (.head _)

/-- What `reset` finds. -/
theorem held_reset (h : s.Owned own) {b : Batch} (hb : s.batch = some b) :
    Held { s.queue with callingExpiredTimers := false } s.numCreated b.expired own := by
  have hbase := h.toHeld
  rw [batchEntries_eq hb] at hbase
  exact ⟨hbase.indexed.congr rfl rfl rfl, hbase.census, hbase.bound, hbase.expired, hbase.nodup⟩

/-- The end of `handleRead`. -/
theorem reset_stepped (h : s.Owned own) {b : Batch} (hb : s.batch = some b)
    (hrem : b.remaining = []) :
    (s.exec .reset).Sat fun s' => ∃ own', s.Stepped .reset own s' own' := by
  have hheld := h.held_reset hb
  simp only [exec, hb]
  refine (hheld.reset_sat b.now).bind ?_
  rintro q ⟨own', q₁, h', hr, hq⟩
  obtain ⟨ns, hns⟩ := hr.log
  have hq₁ : q.heap = q₁.heap ∧ q.deleted = s.queue.deleted ++ ns ∧
      q.callingExpiredTimers = q₁.callingExpiredTimers ∧ q.deleted = q₁.deleted := by
    have hdel : q₁.deleted = s.queue.deleted ++ ns := deleted_of_log hns
    rcases hq with rfl | ⟨w, rfl⟩
    · exact ⟨rfl, hdel, rfl, rfl⟩
    · exact ⟨rfl, by simpa using hdel, rfl, by simp⟩
  obtain ⟨hheap, hdeleted, hcalling, hdeleted₁⟩ := hq₁
  -- `reset` comes after the last `run()`, so the whole batch has been started
  have hstarted : ∀ e ∈ b.expired, ∀ t, s.queue.heap e.timer = some t →
      .started t.sequence ∈ s.queue.log := by
    obtain ⟨ran, hran, hstarted⟩ := h.ran b hb
    rw [hrem, List.append_nil] at hran
    rw [hran]
    exact hstarted
  refine .ok ⟨own', ⟨h', fun a => ?_, hcalling.trans hr.calling, nofun⟩, fun a t p ht hp => ?_,
    fun n hn => ?_⟩
  · by_cases hin : a ∈ b.expired.map Entry.timer
    · have hexp := (hheld.expired a).mpr hin
      obtain ⟨e, he, rfl⟩ := List.mem_map.mp hin
      obtain ⟨t, ht⟩ := hheld.exists_timer he
      rw [h.waiting, hexp]
      refine iff_of_false nofun fun hwait => ?_
      by_cases hrep : t.repeats = true ∧ (e.timer, t.sequence) ∉ s.queue.cancelingTimers
      · rw [(hr.restarted e he t ht hrep).2] at hwait
        cases hwait
      · rw [(hr.deleted e he t ht hrep).2] at hwait
        cases hwait
    · rw [(hr.others a hin).2]
      exact h.waiting a
  · by_cases hin : a ∈ b.expired.map Entry.timer
    · have hexp := (hheld.expired a).mpr hin
      rw [hp] at hexp
      cases hexp
      obtain ⟨e, he, rfl⟩ := List.mem_map.mp hin
      by_cases hrep : t.repeats = true ∧ (e.timer, t.sequence) ∉ s.queue.cancelingTimers
      · obtain ⟨hnew, hpend⟩ := hr.restarted e he t ht hrep
        exact .inl ⟨_, _, hheap ▸ hnew, t.sequence_restart _, hpend,
          .restart ht (hstarted e he t ht) hrep.1 hrep.2⟩
      · refine .inr ⟨hdeleted₁ ▸ (hr.deleted e he t ht hrep).1,
          .finish ht (hstarted e he t ht) ?_⟩
        rw [not_and_or, not_not, Bool.not_eq_true] at hrep
        exact hrep
    · obtain ⟨hsame, hown⟩ := hr.others a hin
      exact .inl ⟨t, p, by rw [hheap, hsame, ht], rfl, by rw [hown, hp], .stay⟩
  · rw [hdeleted]
    exact List.mem_append_left _ hn

/-- Every step keeps the timers owned and moves them along their life cycle. -/
theorem step_stepped (h : s.Owned own) {act : TimerStep} (hact : s.Enabled act) :
    (s.exec act).Sat fun s' => ∃ own', s.Stepped act own s' own' := by
  cases act with
  | create a w i r =>
      exact (h.create_stepped hact.1 hact.2 w i r).mono fun s' hs' => ⟨_, hs'⟩
  | addTimerInLoop a => exact (h.addTimerInLoop_stepped hact).mono fun s' hs' => ⟨_, hs'⟩
  | cancelInLoop id => exact h.cancelInLoop_stepped id
  | expire now => exact h.expire_stepped hact now
  | run =>
      obtain ⟨b, hb, hrem⟩ := hact
      obtain ⟨e, remaining, hrem⟩ := List.exists_cons_of_ne_nil hrem
      obtain ⟨t, -, s', hs', -, hstep⟩ := h.run_stepped hb hrem
      exact ⟨s', hs', own, hstep⟩
  | reset =>
      obtain ⟨b, hb, hrem⟩ := hact
      exact h.reset_stepped hb hrem

/-- At the start no timer is owned. -/
theorem of_new : TimerState.new.Owned fun _ => none :=
  { indexed := fun _ => .of_none rfl (fun _ => Finset.notMem_empty _) fun _ => Finset.notMem_empty _
    census := Census.empty
    bound := fun _ ha => absurd rfl ha
    expired := fun _ => iff_of_false nofun List.not_mem_nil
    nodup := List.nodup_nil
    waiting := fun _ => iff_of_false (Finset.notMem_empty _) nofun
    calling := rfl
    ran := nofun }

/-- In every reachable state the timers have owners, and no assertion fails. -/
theorem of_reachable (hs : timerQueue.Reachable s) : (∃ own, s.Owned own) ∧ timerQueue.Safe s := by
  refine Machine.invariant (P := fun s => ∃ own, s.Owned own) ?_ ?_ hs
  · rintro _ rfl
    exact ⟨_, of_new⟩
  · rintro s act ⟨own, h⟩ hact
    exact (h.step_stepped hact).mono fun s' ⟨own', hstep⟩ => ⟨own', hstep.owned⟩

end Owned

/-- The moves of the timers in one step, in terms of their numbers. -/
theorem Stepped.hasStatus {s s' : TimerState} {act : TimerStep} {own own' : Addr → Option Place}
    (h : s.Owned own) (hstep : s.Stepped act own s' own') {n : Nat} {st : TimerStatus}
    (hst : s.HasStatus n st) : ∃ st', s'.HasStatus n st' ∧ s.Move act n st st' := by
  cases st with
  | deleted => exact ⟨.deleted, hstep.deleted n hst, .stay⟩
  | held p =>
      obtain ⟨a, t, ht, rfl, hholds⟩ := hst
      rcases hstep.moves a t p ht ((h.holds_iff ht p).mp hholds) with
        ⟨t', p', ht', hseq, hown', hmove⟩ | ⟨hdel, hmove⟩
      · exact ⟨.held p', hseq ▸ hstep.owned.hasStatus_held ht' hown', hmove⟩
      · exact ⟨.deleted, hdel, hmove⟩

end TimerState

/-- **Representation and ownership of the timer queue.** In every reachable state no assertion can fail
and no timer is used after its deletion; the two sets hold the same live timers and no pointer of the
queue dangles; every timer ever made is in exactly one place; no timer has been deleted twice; and every
step moves a timer along its life cycle, so that it leaves the queue only when it is cancelled, or after
it has fired as a one-shot or been cancelled in its batch. -/
theorem timerQueue_ownership {s : TimerState} (hs : timerQueue.Reachable s) :
    timerQueue.Safe s ∧ s.Coherent ∧
      (∀ n, 1 ≤ n → n ≤ s.numCreated → ∃! st, s.HasStatus n st) ∧ s.queue.deleted.Nodup ∧
      ∀ act s', timerQueue.enabled s act → timerQueue.exec s act = .ok s' →
        ∀ n st, s.HasStatus n st → ∃ st', s'.HasStatus n st' ∧ s.Move act n st st' := by
  obtain ⟨⟨own, h⟩, hsafe⟩ := TimerState.Owned.of_reachable hs
  refine ⟨hsafe, h.coherent, fun n => h.existsUnique_status, h.census.nodup, ?_⟩
  intro act s' hact hexec n st hst
  obtain ⟨own', hstep⟩ := (h.step_stepped hact).of_eq_ok hexec
  exact hstep.hasStatus h hst

/-- A one-shot timer that is due at `5`, at the address `16`. -/
def oneTimer : TimerState :=
  { queue :=
      { TimerQueue.new with
        heap := Heap.empty.set 16 ⟨5, 0, false, 1⟩
        timers := {Entry.of 5 16}
        activeTimers := {(16, 1)}
        log := [.added ⟨16, 1⟩, .resetTimerfd 5] }
    numCreated := 1
    created := ∅
    batch := none }

/-- It gets there when it is made and added. -/
theorem oneTimer_run :
    timerQueue.Run .new [.create 16 5 0 false, .addTimerInLoop 16] oneTimer := by
  have hcreate : TimerState.new.Enabled (.create 16 5 0 false) := ⟨rfl, by decide⟩
  refine .snoc (.snoc (.nil _) hcreate rfl) (Finset.mem_insert_self _ _) ?_
  simp [timerQueue, TimerState.exec, TimerState.new, TimerQueue.addTimerInLoop, TimerQueue.insert,
    TimerQueue.assertSizes, TimerQueue.begin?, assert, TimerQueue.new, oneTimer, Heap.get,
    TimerQueue.note]

/-- A second one, at the address `32`. -/
def twoTimers : TimerState :=
  { queue :=
      { TimerQueue.new with
        heap := oneTimer.queue.heap.set 32 ⟨5, 0, false, 2⟩
        timers := {Entry.of 5 16, Entry.of 5 32}
        activeTimers := {(16, 1), (32, 2)}
        log := [.added ⟨16, 1⟩, .resetTimerfd 5, .added ⟨32, 2⟩] }
    numCreated := 2
    created := ∅
    batch := none }

/-- Both have expired and the first has been run. -/
def firstRun : TimerState :=
  { twoTimers with
    queue :=
      { twoTimers.queue with
        timers := ∅
        activeTimers := ∅
        callingExpiredTimers := true
        log := twoTimers.queue.log ++ [.started 1] }
    batch := some
      { now := 5, expired := [Entry.of 5 16, Entry.of 5 32], remaining := [Entry.of 5 32] } }

/-- A run with two timers leads there. -/
theorem twoTimers_run :
    timerQueue.Run oneTimer [.create 32 5 0 false, .addTimerInLoop 32] twoTimers := by
  have hcreate : oneTimer.Enabled (.create 32 5 0 false) := ⟨rfl, by decide⟩
  refine .snoc (.snoc (.nil _) hcreate rfl) (Finset.mem_insert_self _ _) ?_
  simp [timerQueue, TimerState.exec, TimerQueue.addTimerInLoop, TimerQueue.insert,
    TimerQueue.assertSizes, TimerQueue.begin?, assert, TimerQueue.new, oneTimer, twoTimers, Heap.get,
    TimerQueue.note, Entry.of_eq_of]
  decide

/-- Both expire, and the callback of the first is called. -/
theorem firstRun_run : timerQueue.Run twoTimers [.expire 5, .run] firstRun := by
  have hdue : {e ∈ twoTimers.queue.timers | e < Entry.of 5 UINTPTR_MAX}
      = {Entry.of 5 16, Entry.of 5 32} := by decide
  have hrest : {e ∈ twoTimers.queue.timers | Entry.of 5 UINTPTR_MAX ≤ e} = ∅ := by decide
  -- due at the same time, they are run in the order of their addresses
  have hsort : ({Entry.of 5 16, Entry.of 5 32} : Finset Entry).sort
      = [Entry.of 5 16, Entry.of 5 32] := by
    rw [Finset.sort_insert _ (by decide) (by decide), Finset.sort_singleton]
  have hexpired : twoTimers.queue.getExpired 5 = .ok
      ({ twoTimers.queue with timers := ∅, activeTimers := ∅ }, [Entry.of 5 16, Entry.of 5 32]) := by
    simp only [TimerQueue.getExpired, hdue, hrest, hsort, Finset.sort_empty]
    rfl
  have hexpire : twoTimers.exec (.expire 5) = .ok
      { twoTimers with
        queue := { twoTimers.queue with
          timers := ∅, activeTimers := ∅, callingExpiredTimers := true }
        batch := some ⟨5, [Entry.of 5 16, Entry.of 5 32], [Entry.of 5 16, Entry.of 5 32]⟩ } := by
    simp only [TimerState.exec, hexpired]
    rfl
  exact .snoc (.snoc (.nil _) rfl hexpire) ⟨_, rfl, List.cons_ne_nil _ _⟩ rfl

/-- The callback of the first has cancelled the second. -/
def secondCancelled : TimerState :=
  { firstRun with queue := { firstRun.queue with cancelingTimers := {(32, 2)} } }

/-- `handleRead` has come to its end. -/
def bothDeleted : TimerState :=
  { firstRun with
    queue :=
      { firstRun.queue with
        heap := (firstRun.queue.heap.erase 16).erase 32
        callingExpiredTimers := false
        cancelingTimers := {(32, 2)}
        log := firstRun.queue.log ++ [.started 2, .deleted 1, .deleted 2] }
    batch := none }

/-- The second is run all the same, and then both are deleted. -/
theorem bothDeleted_run : timerQueue.Run secondCancelled [.run, .reset] bothDeleted := by
  have hrun : timerQueue.Run secondCancelled [.run] _ := .single ⟨_, rfl, List.cons_ne_nil _ _⟩ rfl
  refine hrun.snoc ⟨_, rfl, rfl⟩ ?_
  simp [timerQueue, TimerState.exec, secondCancelled, bothDeleted, firstRun, twoTimers, oneTimer, TimerQueue.reset,
    TimerQueue.restartAll, TimerQueue.begin?, TimerQueue.note, TimerQueue.new, Heap.get, Heap.free, Heap.set,
    Heap.erase]

/-- Two timers expire together, the callback of the first cancels the second, and `handleRead` goes on to its
end: in between the second is in the batch and nowhere else, and at the end both have been deleted, each
once. -/
theorem timerQueue_ownership_cancelled :
    timerQueue.Run firstRun [.cancelInLoop ⟨32, 2⟩] secondCancelled ∧
    timerQueue.Run secondCancelled [.run, .reset] bothDeleted ∧
    timerQueue.Safe secondCancelled ∧ secondCancelled.Coherent ∧
    secondCancelled.HasStatus 2 (.held .expired) ∧ (∃! st, secondCancelled.HasStatus 2 st) ∧
    timerQueue.Safe bothDeleted ∧ bothDeleted.Coherent ∧ bothDeleted.HasStatus 2 .deleted ∧
    (∃! st, bothDeleted.HasStatus 2 st) ∧ bothDeleted.queue.deleted.Nodup := by
  have hcancel : timerQueue.Run firstRun [.cancelInLoop ⟨32, 2⟩] secondCancelled := .single trivial rfl
  have hone := (Machine.Reachable.of_init rfl).run oneTimer_run
  have hs := ((hone.run twoTimers_run).run firstRun_run).run hcancel
  obtain ⟨hsafe, hcoherent, hplace, -, -⟩ := timerQueue_ownership hs
  obtain ⟨hsafe', hcoherent', hplace', hnodup, -⟩ := timerQueue_ownership (hs.run bothDeleted_run)
  exact ⟨hcancel, bothDeleted_run, hsafe, hcoherent, ⟨32, _, rfl, rfl, .tail _ (.head _)⟩, hplace 2 (by decide) le_rfl,
    hsafe', hcoherent', .tail _ (.head _), hplace' 2 (by decide) le_rfl, hnodup⟩

end Muduo.Net
