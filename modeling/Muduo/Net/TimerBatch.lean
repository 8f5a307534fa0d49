import Muduo.Net.TimerCancel

/-! # What `handleRead` does

`handleRead` takes the timers that are due out of the queue, calls them in the order of their expiration,
and puts back those that repeat. The callbacks may add and cancel timers meanwhile. `Between` says what
becomes of the timers of the batch and of the others while it is worked through, and `handleRead_fires_due`
collects what holds when `handleRead` has returned. -/

namespace Muduo.Net

open Support

/-- The sequence number of the timer that starts to run. -/
def TimerEvent.started? : TimerEvent → Option Nat
  | .started n => some n
  | _ => none

namespace TimerQueue

variable (q : TimerQueue)

/-- The numbers of the timers that have been started, in order. -/
def startedNumbers : List Nat := q.log.filterMap TimerEvent.started?

/-- The number of the timer that an entry is about. -/
def number (e : Entry) : Nat := (q.heap e.timer).elim 0 Timer.sequence

/-- The timer `t` waits in the queue at the address `a`. -/
def PendingAt (a : Addr) (t : Timer) : Prop :=
  q.heap a = some t ∧ Entry.of t.expiration a ∈ q.timers ∧ (a, t.sequence) ∈ q.activeTimers

variable {q} {q' : TimerQueue} {a : Addr} {t : Timer}

/-- The number of a timer is its sequence. -/
theorem number_eq {e : Entry} (ht : q.heap e.timer = some t) : q.number e = t.sequence := by
  rw [number, ht]
  rfl

/-- The number of a timer, where the heap agrees. -/
theorem number_congr {e : Entry} (h : q'.heap e.timer = q.heap e.timer) : q'.number e = q.number e := by
  rw [number, h, number]

/-- Notes other than of a start do not matter. -/
theorem startedNumbers_append {notes : List TimerEvent} (hlog : q'.log = q.log ++ notes)
    (hnotes : ∀ e ∈ notes, e.started? = none) : q'.startedNumbers = q.startedNumbers := by
  rw [startedNumbers, hlog, List.filterMap_append, List.filterMap_eq_nil_iff.mpr hnotes,
    List.append_nil, startedNumbers]

end TimerQueue

/-- A pending timer is one that is owned so. -/
theorem Indexed.pendingAt_iff {q : TimerQueue} {own : Addr → Option Place} (h : Indexed q own)
    {a : Addr} {t : Timer} : q.PendingAt a t ↔ q.heap a = some t ∧ own a = some .pending := by
  constructor
  · rintro ⟨ht, -, hactive⟩
    obtain ⟨-, -, hown, -⟩ := ((h a).active _).mp hactive
    exact ⟨ht, hown⟩
  · rintro ⟨ht, hown⟩
    exact ⟨ht, ((h a).timers _).mpr ⟨t, ht, hown, rfl⟩, ((h a).active _).mpr ⟨t, ht, hown, rfl⟩⟩

/-! ## While the batch is worked through -/

namespace TimerState

variable {s s' u : TimerState} {own : Addr → Option Place} {b : Batch} {act : TimerStep}

/-- What the steps `acts` have done since the state `s`, in which the batch is `b`. -/
structure Between (s : TimerState) (b : Batch) (acts : List TimerStep) (s' : TimerState) : Prop where
  /-- The batch is the same, and its timers are started in order. -/
  started : ∃ ran remaining, b.remaining = ran ++ remaining ∧ s'.batch = some { b with remaining } ∧
    s'.queue.startedNumbers = s.queue.startedNumbers ++ ran.map s.queue.number
  /-- Its timers are left alone. -/
  heap : ∀ e ∈ b.expired, s'.queue.heap e.timer = s.queue.heap e.timer
  canceling : ∀ e ∈ b.expired, ∀ n, (e.timer, n) ∈ s'.queue.cancelingTimers ↔
    (e.timer, n) ∈ s.queue.cancelingTimers ∨ .cancelInLoop ⟨e.timer, n⟩ ∈ acts
  /-- Pending timers stay, unless they are cancelled. -/
  pending : ∀ a t, s.queue.PendingAt a t → .cancelInLoop ⟨a, t.sequence⟩ ∉ acts →
    s'.queue.PendingAt a t

/-- Nothing has been run yet. -/
theorem Between.refl (hb : s.batch = some b) : Between s b [] s where
  started := ⟨[], b.remaining, rfl, hb, (List.append_nil _).symm⟩
  heap _ _ := rfl
  canceling _ _ _ := by simp
  pending _ _ h _ := h

/-- What remains is a part of the batch. -/
theorem Owned.remaining_subset (h : s.Owned own) (hb : s.batch = some b) {e : Entry}
    (he : e ∈ b.remaining) : e ∈ b.expired := by
  obtain ⟨ran, hran, -⟩ := h.ran b hb
  rw [hran]
  exact List.mem_append_right _ he

/-- A timer of the batch belongs to it. -/
theorem Owned.own_batch (h : s.Owned own) (hb : s.batch = some b) {e : Entry} (he : e ∈ b.expired) :
    own e.timer = some .expired := by
  rw [h.expired, batchEntries_eq hb]
  exact List.mem_map_of_mem he

/-- Steps that leave the log of starts and the batch alone. -/
theorem Between.of_quiet (hb : s.batch = some b) (hb' : s'.batch = s.batch)
    (hstarted : s'.queue.startedNumbers = s.queue.startedNumbers)
    (hheap : ∀ e ∈ b.expired, s'.queue.heap e.timer = s.queue.heap e.timer)
    (hcanceling : ∀ e ∈ b.expired, ∀ n, (e.timer, n) ∈ s'.queue.cancelingTimers ↔
      (e.timer, n) ∈ s.queue.cancelingTimers ∨ act = .cancelInLoop ⟨e.timer, n⟩)
    (hpending : ∀ a t, s.queue.PendingAt a t → act ≠ .cancelInLoop ⟨a, t.sequence⟩ →
      s'.queue.PendingAt a t) : Between s b [act] s' where
  started := ⟨[], b.remaining, rfl, hb'.trans hb, by rw [hstarted, List.map_nil, List.append_nil]⟩
  heap := hheap
  canceling e he n := by
    rw [hcanceling e he n, List.mem_singleton]
    exact or_congr_right eq_comm
  pending a t ht hnot := hpending a t ht fun heq => hnot (List.mem_singleton.mpr heq.symm)

/-- Making a timer leaves the batch alone. -/
theorem Owned.create_between (h : s.Owned own) (hb : s.batch = some b) {a : Addr} {w : Timestamp}
    {i : Int} {r : Bool} (ha : s.queue.heap a = none) (hbound : a < UINTPTR_MAX)
    (hexec : s.exec (.create a w i r) = .ok s') : Between s b [.create a w i r] s' := by
  have hstep := (h.create_stepped ha hbound w i r).of_eq_ok hexec
  cases hexec
  have hother : ∀ c t, s.queue.heap c = some t → c ≠ a := fun c t ht hc => by
    rw [hc, ha] at ht
    cases ht
  refine .of_quiet hb rfl rfl (fun e he => ?_) (fun e he n => (or_iff_left nofun).symm)
    fun c t ht _ => ?_
  · obtain ⟨t, ht⟩ := h.indexed.exists_timer (h.own_batch hb he)
    exact Heap.set_of_ne (hother _ t ht)
  · obtain ⟨hheap, hown⟩ := h.indexed.pendingAt_iff.mp ht
    refine hstep.owned.indexed.pendingAt_iff.mpr ⟨?_, ?_⟩
    · exact (Heap.set_of_ne (hother c t hheap)).trans hheap
    · rw [Function.update_of_ne (hother c t hheap), hown]

/-- Adding a timer leaves the batch alone, and the timer is pending. -/
theorem Owned.addTimerInLoop_between (h : s.Owned own) (hb : s.batch = some b) {a : Addr}
    (ha : a ∈ s.created) (hexec : s.exec (.addTimerInLoop a) = .ok s') :
    Between s b [.addTimerInLoop a] s' ∧
      ∀ t, s.queue.heap a = some t → s'.queue.PendingAt a t := by
  have hstep := (h.addTimerInLoop_stepped ha).of_eq_ok hexec
  have hown : own a = some .waiting := (h.waiting a).mp ha
  obtain ⟨t, ht⟩ := h.indexed.exists_timer hown
  obtain ⟨q, hq, hret⟩ := Checked.bind_eq_ok.mp hexec
  cases hret
  obtain ⟨-, hheap, -, hcanceling, ws, hlog⟩ :=
    (h.indexed.addTimerInLoop_sat ht (by simp [hown])).of_eq_ok hq
  have hstarted : q.startedNumbers = s.queue.startedNumbers := by
    refine TimerQueue.startedNumbers_append hlog fun e he => ?_
    rcases List.mem_cons.mp he with rfl | he
    · rfl
    · obtain ⟨w, -, rfl⟩ := List.mem_map.mp he
      rfl
  refine ⟨.of_quiet hb rfl hstarted (fun e he => ?_) (fun e he n => ?_) fun c u hu _ => ?_,
    fun u hu => ?_⟩
  · rw [hheap]
  · rw [hcanceling]
    exact (or_iff_left nofun).symm
  · obtain ⟨hu, hpend⟩ := h.indexed.pendingAt_iff.mp hu
    refine hstep.owned.indexed.pendingAt_iff.mpr ⟨by rw [hheap, hu], ?_⟩
    have hne : c ≠ a := fun hc => by
      rw [hc, hown] at hpend
      cases hpend
    rw [Function.update_of_ne hne, hpend]
  · exact hstep.owned.indexed.pendingAt_iff.mpr ⟨by rw [hheap, hu], Function.update_self ..⟩

/-- Cancelling leaves the batch alone. -/
theorem Owned.cancelInLoop_between (h : s.Owned own) (hb : s.batch = some b) {id : TimerId}
    (hexec : s.exec (.cancelInLoop id) = .ok s') : Between s b [.cancelInLoop id] s' := by
  obtain ⟨q, hq, hret⟩ := Checked.bind_eq_ok.mp hexec
  cases hret
  rcases (h.indexed.cancelInLoop_sat id).of_eq_ok hq with
    ⟨t, ht, hseq, hpend, hindexed, hheap, -, hcanceling, hlog⟩ | ⟨hactive, rfl⟩
  · -- a pending timer is deleted, and it is not one of the batch
    have hother : ∀ e ∈ b.expired, e.timer ≠ id.timer := fun e he heq => by
      have hown := h.own_batch hb he
      rw [heq, hpend] at hown
      cases hown
    refine .of_quiet hb rfl ?_ (fun e he => ?_) (fun e he n => ?_) fun c u hu hne => ?_
    · exact TimerQueue.startedNumbers_append hlog fun e he => by rw [List.mem_singleton.mp he]; rfl
    · rw [hheap, Heap.erase_of_ne (hother e he)]
    · rw [hcanceling]
      refine (or_iff_left fun heq => hother e he ?_).symm
      rw [TimerStep.cancelInLoop.inj heq]
    · obtain ⟨hu, hown⟩ := h.indexed.pendingAt_iff.mp hu
      have hc : c ≠ id.timer := by
        rintro rfl
        rw [ht] at hu
        cases hu
        exact hne (by rw [hseq])
      refine hindexed.pendingAt_iff.mpr ⟨?_, ?_⟩
      · rw [hheap, Heap.erase_of_ne hc, hu]
      · rw [Function.update_of_ne hc, hown]
  · have hcalling : s.queue.callingExpiredTimers = true := by
      rw [h.calling, hb]
      rfl
    refine .of_quiet hb rfl rfl (fun _ _ => rfl) (fun e he n => ?_) fun c u hu _ => hu
    rw [if_pos hcalling, Finset.mem_insert, or_comm]
    refine or_congr_right ⟨fun heq => ?_, fun heq => ?_⟩
    · obtain ⟨htimer, hn⟩ := Prod.mk.inj heq
      rw [htimer, hn]
    · rw [TimerStep.cancelInLoop.inj heq]

/-- Running takes the next timer of the batch. -/
theorem Owned.run_between (h : s.Owned own) (hb : s.batch = some b) {e : Entry}
    {remaining : List Entry} (hrem : b.remaining = e :: remaining) (hexec : s.exec .run = .ok s') :
    Between s b [.run] s' := by
  obtain ⟨t, ht, s₁, hs₁, rfl, -⟩ := h.run_stepped hb hrem
  rw [hs₁] at hexec
  cases hexec
  refine ⟨⟨[e], remaining, hrem, rfl, ?_⟩, fun _ _ => rfl,
    fun _ _ _ => (or_iff_left (by simp)).symm, fun _ _ hu _ => hu⟩
  rw [List.map_singleton, TimerQueue.number_eq ht]
  exact List.filterMap_append

/-- **One step** of the callbacks, or of another thread. -/
theorem Owned.between (h : s.Owned own) (hb : s.batch = some b) (hact : s.Enabled act)
    (hreset : act ≠ .reset) (hexec : s.exec act = .ok s') : Between s b [act] s' := by
  cases act with
  | create a w i r => exact h.create_between hb hact.1 hact.2 hexec
  | addTimerInLoop a => exact (h.addTimerInLoop_between hb hact hexec).1
  | cancelInLoop id => exact h.cancelInLoop_between hb hexec
  | expire now =>
      have hidle : s.batch = none := hact -- `handleRead` is not called within itself
      rw [hb] at hidle
      cases hidle
  | run =>
      obtain ⟨b', hb', hrem⟩ := hact
      rw [hb] at hb'
      cases hb'
      obtain ⟨e, remaining, hrem⟩ := List.exists_cons_of_ne_nil hrem
      exact h.run_between hb hrem hexec
  | reset => exact absurd rfl hreset

/-- What has happened since `s`, and what happens then. -/
theorem Between.trans {acts acts' : List TimerStep} (hrem : ∀ e ∈ b.remaining, e ∈ b.expired)
    (h : Between s b acts s')
    (h' : ∀ remaining, s'.batch = some { b with remaining } →
      Between s' { b with remaining } acts' u) : Between s b (acts ++ acts') u := by
  obtain ⟨ran, remaining, hran, hbatch, hstarted⟩ := h.started
  have hlater := h' remaining hbatch
  obtain ⟨ran', remaining', hran', hbatch', hstarted'⟩ := hlater.started
  dsimp only at hran'
  have hmem : ∀ e ∈ ran', e ∈ b.expired := by
    intro e he
    refine hrem e ?_
    rw [hran, hran']
    exact List.mem_append_right _ (List.mem_append_left _ he)
  refine ⟨⟨ran ++ ran', remaining', ?_, hbatch', ?_⟩, fun e he => ?_, fun e he n => ?_,
    fun a t ht hnot => ?_⟩
  · rw [hran, hran', List.append_assoc]
  · -- the numbers of the batch are those it has had since `s`
    have hnumbers : ran'.map s'.queue.number = ran'.map s.queue.number :=
      List.map_congr_left fun e he => TimerQueue.number_congr (h.heap e (hmem e he))
    rw [hstarted', hstarted, hnumbers, List.map_append, List.append_assoc]
  · exact (hlater.heap e he).trans (h.heap e he)
  · rw [hlater.canceling e he n, h.canceling e he n, List.mem_append, or_assoc]
  · rw [List.mem_append, not_or] at hnot
    exact hlater.pending a t (h.pending a t ht hnot.1) hnot.2

/-- **A run** between the first and the last part of `handleRead`. -/
theorem Owned.between_run (h : s.Owned own) (hb : s.batch = some b) {acts : List TimerStep}
    (hrun : timerQueue.Run s acts u) (hreset : .reset ∉ acts) :
    Between s b acts u ∧ ∃ own', u.Owned own' := by
  induction hrun with
  | nil => exact ⟨.refl hb, own, h⟩
  | @snoc t u acts act hrun hact hexec ih =>
      rw [List.mem_append, not_or, List.mem_singleton] at hreset
      obtain ⟨hbetween, own', h'⟩ := ih hreset.1
      obtain ⟨own'', hstep⟩ := (h'.step_stepped hact).of_eq_ok hexec
      refine ⟨hbetween.trans (fun e he => h.remaining_subset hb he) fun remaining hbatch => ?_,
        own'', hstep.owned⟩
      exact h'.between hbatch hact (Ne.symm hreset.2) hexec

/-! ## The two ends of `handleRead` -/

/-- `handleRead` up to the first `run()`: the batch holds the timers that are due, and the others are
still pending. -/
theorem Owned.expire_batch (h : s.Owned own) (now : Timestamp) :
    (s.exec (.expire now)).Sat fun s' => ∃ due, s'.batch = some ⟨now, due, due⟩ ∧
      (∀ e, e ∈ due ↔ e ∈ s.queue.timers ∧ e.expiration ≤ now) ∧ (due.map Entry.timer).Nodup ∧
      (due.Pairwise fun e e' => e.expiration ≤ e'.expiration) ∧
      s'.queue.heap = s.queue.heap ∧ s'.queue.log = s.queue.log ∧ s'.queue.cancelingTimers = ∅ ∧
      ∀ a t, s.queue.PendingAt a t → now < t.expiration → s'.queue.PendingAt a t := by
  refine (h.indexed.getExpired_sat h.bound now).bind ?_
  rintro ⟨q, due⟩ ⟨hindexed, hnodup, -, hheap, hlog, hdue, hsorted⟩
  refine .ok ⟨due, rfl, hdue, hnodup, hsorted, hheap, hlog, rfl, fun a t ht hlate => ?_⟩
  obtain ⟨ht', hown⟩ := h.indexed.pendingAt_iff.mp ht
  -- the only entry for the address is not due
  have hnot : a ∉ due.map Entry.timer := by
    intro hmem
    obtain ⟨e, he, rfl⟩ := List.mem_map.mp hmem
    obtain ⟨hin, hle⟩ := (hdue e).mp he
    rw [h.indexed.entry_eq hin ht.2.1 rfl] at hle
    exact absurd hlate (not_lt.mpr hle)
  refine hindexed.pendingAt_iff.mpr ⟨?_, ?_⟩
  · rw [← ht', ← hheap]
  · rw [← hown]
    exact if_neg hnot

/-- The end of `handleRead`: what repeats and is not cancelled is pending again, the rest of the batch is
deleted, and the other timers are left alone. -/
theorem Owned.reset_batch (h : s.Owned own) (hb : s.batch = some b) :
    (s.exec .reset).Sat fun s' => s'.queue.startedNumbers = s.queue.startedNumbers ∧
      (∀ e ∈ b.expired, ∀ t, s.queue.heap e.timer = some t → t.repeats = true →
        (e.timer, t.sequence) ∉ s.queue.cancelingTimers →
        s'.queue.PendingAt e.timer { t with expiration := b.now + t.interval }) ∧
      (∀ e ∈ b.expired, ∀ t, s.queue.heap e.timer = some t →
        t.repeats = false ∨ (e.timer, t.sequence) ∈ s.queue.cancelingTimers →
        t.sequence ∈ s'.queue.deleted) ∧
      ∀ a t, s.queue.PendingAt a t → s'.queue.PendingAt a t := by
  simp only [exec, hb]
  refine ((h.held_reset hb).reset_sat b.now).bind ?_
  rintro q ⟨own', q₁, h', hr, hq⟩
  obtain ⟨ns, hns⟩ := hr.log
  have hlog : ∃ notes : List TimerEvent, q.log = s.queue.log ++ notes ∧
      ∀ e ∈ notes, e.started? = none := by
    rcases hq with rfl | ⟨w, rfl⟩
    · refine ⟨ns.map .deleted, hns, fun e he => ?_⟩
      obtain ⟨n, -, rfl⟩ := List.mem_map.mp he
      rfl
    · refine ⟨ns.map .deleted ++ [.resetTimerfd w], ?_, fun e he => ?_⟩
      · show q₁.log ++ [.resetTimerfd w] = _
        rw [hns, List.append_assoc]
      · rcases List.mem_append.mp he with he | he
        · obtain ⟨n, -, rfl⟩ := List.mem_map.mp he
          rfl
        · rw [List.mem_singleton.mp he]
          rfl
  obtain ⟨notes, hlog, hnotes⟩ := hlog
  have hq₁ : q.heap = q₁.heap ∧ q.deleted = q₁.deleted := by
    rcases hq with rfl | ⟨w, rfl⟩
    · exact ⟨rfl, rfl⟩
    · exact ⟨rfl, by simp⟩
  refine .ok ⟨TimerQueue.startedNumbers_append hlog hnotes, fun e he t ht hrepeats hnot => ?_,
    fun e he t ht hend => ?_, fun a t ht => ?_⟩
  · obtain ⟨hheap, hown⟩ := hr.restarted e he t ht ⟨hrepeats, hnot⟩
    refine h'.indexed.pendingAt_iff.mpr ⟨?_, hown⟩
    rw [hq₁.1, hheap, Timer.restart, if_pos hrepeats]
  · show t.sequence ∈ q.deleted
    rw [hq₁.2]
    refine (hr.deleted e he t ht fun hrestart => ?_).1
    rcases hend with hshot | hcancel
    · rw [hshot] at hrestart
      cases hrestart.1
    · exact hrestart.2 hcancel
  · obtain ⟨hheap, hown⟩ := h.indexed.pendingAt_iff.mp ht
    -- a pending timer is not in the batch
    have hnot : a ∉ b.expired.map Entry.timer := by
      intro hmem
      obtain ⟨e, he, rfl⟩ := List.mem_map.mp hmem
      rw [h.own_batch hb he] at hown
      cases hown
    obtain ⟨hsame, hsame'⟩ := hr.others a hnot
    refine h'.indexed.pendingAt_iff.mpr ⟨?_, ?_⟩
    · rw [hq₁.1, hsame]
      exact hheap
    · rw [hsame', hown]

/-- Timers at different addresses have different numbers. -/
theorem Owned.numbers_nodup (h : s.Owned own) {due : List Entry} (hnodup : due.Nodup)
    (hdue : ∀ e ∈ due, e ∈ s.queue.timers) : (due.map s.queue.number).Nodup := by
  refine List.Nodup.map_on (fun e he e' he' heq => ?_) hnodup
  obtain ⟨t, ht, -⟩ := h.indexed.mem_timers.mp (hdue e he)
  obtain ⟨t', ht', -⟩ := h.indexed.mem_timers.mp (hdue e' he')
  rw [TimerQueue.number_eq ht, TimerQueue.number_eq ht'] at heq
  exact h.indexed.entry_eq (hdue e he) (hdue e' he') (h.census.unique _ _ t t' ht ht' heq)

/-- From the step that adds a timer on, it is pending. -/
theorem Owned.added_pending (h : s.Owned own) (hb : s.batch = some b) {acts₁ acts₂ : List TimerStep}
    {a : Addr} {t : Timer} {v : TimerState} (hrun : timerQueue.Run s (acts₁ ++ .addTimerInLoop a :: acts₂) u)
    (hreset : .reset ∉ acts₁ ++ .addTimerInLoop a :: acts₂) (hrun₁ : timerQueue.Run s acts₁ v)
    (ht : v.queue.heap a = some t) (hnot : .cancelInLoop ⟨a, t.sequence⟩ ∉ acts₂) :
    u.queue.PendingAt a t := by
  obtain ⟨v', hrunv, hrest⟩ := hrun.split rfl
  cases hrun₁.unique hrunv
  obtain ⟨w, hadded, hexec, hafter⟩ := hrest.of_cons
  rw [List.mem_append, List.mem_cons, not_or, not_or] at hreset
  obtain ⟨hbetween₁, own₁, h₁⟩ := h.between_run hb hrun₁ hreset.1
  obtain ⟨-, remaining₁, -, hb₁, -⟩ := hbetween₁.started
  obtain ⟨hbetween₂, hpending⟩ := h₁.addTimerInLoop_between hb₁ hadded hexec
  obtain ⟨-, remaining₂, -, hb₂, -⟩ := hbetween₂.started
  have hstep := (h₁.addTimerInLoop_stepped hadded).of_eq_ok hexec
  obtain ⟨hbetween₃, -⟩ := hstep.owned.between_run hb₂ hafter hreset.2.2
  exact hbetween₃.pending a t (hpending t ht) hnot

end TimerState

open TimerState in
/-- **What `handleRead` does.** From any state in which the timers have their owners, whatever the
callbacks and the other threads do in the meantime: the timers started are exactly those due at `now`,
once each and in the order of their expiration; a due timer that repeats and was not cancelled meanwhile is
pending again at `now` plus its interval, and every other due timer is deleted; a timer added meanwhile and
not cancelled is pending as it was added; and a timer that was not yet due and is not cancelled is as it
was. -/
theorem handleRead_fires_due {s : TimerState} (hs : ∃ own, s.Owned own) (hidle : s.batch = none)
    (now : Timestamp) :
    ∃ (s₁ : TimerState) (due : List Entry), s.exec (.expire now) = .ok s₁ ∧
      (∀ e, e ∈ due ↔ e ∈ s.queue.timers ∧ e.expiration ≤ now) ∧
      (due.map s.queue.number).Nodup ∧ (due.Pairwise fun e e' => e.expiration ≤ e'.expiration) ∧
      ∀ acts u, timerQueue.Run s₁ acts u → .reset ∉ acts → u.Enabled .reset →
        ∃ s' : TimerState, u.exec .reset = .ok s' ∧
          s'.queue.startedNumbers = s.queue.startedNumbers ++ due.map s.queue.number ∧
          (∀ e ∈ due, ∀ t, s.queue.heap e.timer = some t →
            (t.repeats = true → .cancelInLoop ⟨e.timer, t.sequence⟩ ∉ acts →
              s'.queue.PendingAt e.timer { t with expiration := now + t.interval }) ∧
            (t.repeats = false ∨ .cancelInLoop ⟨e.timer, t.sequence⟩ ∈ acts →
              t.sequence ∈ s'.queue.deleted)) ∧
          (∀ acts₁ acts₂ v a t, acts = acts₁ ++ .addTimerInLoop a :: acts₂ →
            timerQueue.Run s₁ acts₁ v → v.queue.heap a = some t →
            .cancelInLoop ⟨a, t.sequence⟩ ∉ acts₂ → s'.queue.PendingAt a t) ∧
          ∀ a t, s.queue.PendingAt a t → now < t.expiration →
            .cancelInLoop ⟨a, t.sequence⟩ ∉ acts → s'.queue.PendingAt a t := by
  obtain ⟨own, h⟩ := hs
  obtain ⟨s₁, hexpire, due, hbatch, hdue, hnodup, hsorted, hheap, hlog, hcanceling, hlate⟩ :=
    h.expire_batch now
  obtain ⟨own₁, hstep⟩ := (h.expire_stepped hidle now).of_eq_ok hexpire
  have h₁ := hstep.owned
  have hnumber : s₁.queue.number = s.queue.number := by
    funext e
    rw [TimerQueue.number, hheap, TimerQueue.number]
  have hstarted₁ : s₁.queue.startedNumbers = s.queue.startedNumbers := by
    rw [TimerQueue.startedNumbers, hlog, TimerQueue.startedNumbers]
  refine ⟨s₁, due, hexpire, hdue, ?_, hsorted, fun acts u hrun hreset hend => ?_⟩
  · exact h.numbers_nodup (List.Nodup.of_map _ hnodup) fun e he => ((hdue e).mp he).1
  obtain ⟨hbetween, own', h'⟩ := h₁.between_run hbatch hrun hreset
  obtain ⟨ran, remaining, hran, hbatch', hstarted⟩ := hbetween.started
  obtain ⟨b', hb', hrem⟩ := hend
  rw [hbatch'] at hb'
  cases hb'
  -- the whole batch has been run
  dsimp only at hran hrem
  rw [hrem, List.append_nil] at hran
  obtain ⟨s', hexec, hstarted', hrestart, hdelete, hkeep⟩ := h'.reset_batch hbatch'
  have hcancel : ∀ e ∈ due, ∀ n, (e.timer, n) ∈ u.queue.cancelingTimers ↔
      .cancelInLoop ⟨e.timer, n⟩ ∈ acts := by
    intro e he n
    rw [hbetween.canceling e he n, hcanceling]
    exact or_iff_right (Finset.notMem_empty _)
  refine ⟨s', hexec, ?_, fun e he t ht => ⟨fun hrepeats hnot => ?_, fun hgone => ?_⟩,
    fun acts₁ acts₂ v a t hacts hrun₁ ht hnot => ?_, fun a t ht hnow hnot => ?_⟩
  · rw [hstarted', hstarted, hstarted₁, hnumber, ← hran]
  · have ht' : u.queue.heap e.timer = some t := by rw [hbetween.heap e he, hheap, ht]
    exact hrestart e he t ht' hrepeats fun hin => hnot ((hcancel e he _).mp hin)
  · have ht' : u.queue.heap e.timer = some t := by rw [hbetween.heap e he, hheap, ht]
    exact hdelete e he t ht' (hgone.imp_right (hcancel e he _).mpr)
  · subst hacts
    exact hkeep a t (h₁.added_pending hbatch hrun hreset hrun₁ ht hnot)
  · exact hkeep a t (hbetween.pending a t (hlate a t ht hnow) hnot)

/-- The timer of `oneTimer` has expired. -/
def oneExpired : TimerState :=
  { oneTimer with
    queue :=
      { oneTimer.queue with timers := ∅, activeTimers := ∅, callingExpiredTimers := true }
    batch := some { now := 5, expired := [Entry.of 5 16], remaining := [Entry.of 5 16] } }

/-- The timer expires. -/
theorem oneTimer_expire : oneTimer.exec (.expire 5) = .ok oneExpired := by
  have hdue : {e ∈ oneTimer.queue.timers | e < Entry.of 5 UINTPTR_MAX} = {Entry.of 5 16} := by decide
  have hrest : {e ∈ oneTimer.queue.timers | Entry.of 5 UINTPTR_MAX ≤ e} = ∅ := by decide
  have hexpired : oneTimer.queue.getExpired 5 = .ok
      ({ oneTimer.queue with timers := ∅, activeTimers := ∅ }, [Entry.of 5 16]) := by
    simp only [TimerQueue.getExpired, hdue, hrest, Finset.sort_empty, Finset.sort_singleton]
    rfl
  simp only [TimerState.exec, hexpired]
  rfl

/-- A one-shot that is due is started, and deleted. -/
theorem handleRead_fires_due_oneTimer :
    ∃ u s', timerQueue.Run oneExpired [.run] u ∧ u.exec .reset = .ok s' ∧
      1 ∈ s'.queue.startedNumbers ∧ 1 ∈ s'.queue.deleted := by
  have hs := (Machine.Reachable.of_init rfl).run oneTimer_run
  obtain ⟨s₁, due, hexpire, hdue, -, -, hafter⟩ :=
    handleRead_fires_due (TimerState.owned_of_reachable hs).1 (rfl : oneTimer.batch = none) 5
  rw [oneTimer_expire] at hexpire
  cases hexpire
  have hrun : timerQueue.Run oneExpired [.run] _ := .single ⟨_, rfl, List.cons_ne_nil _ _⟩ rfl
  obtain ⟨s', hreset, hstarted, hbatch, -⟩ := hafter [.run] _ hrun (by simp) ⟨_, rfl, rfl⟩
  have hmem : Entry.of 5 16 ∈ due := (hdue _).mpr ⟨by decide, le_rfl⟩
  refine ⟨_, s', hrun, hreset, ?_, (hbatch _ hmem _ rfl).2 (.inl rfl)⟩
  rw [hstarted]
  exact List.mem_append_right _ (List.mem_map.mpr ⟨_, hmem, rfl⟩)

end Muduo.Net
