import Muduo.Net.TimerOwnership

/-! # The alarm of the timer queue

The queue wakes its loop by a timerfd, which it sets only when it has to: not for a timer that is not
the earliest, not after a cancellation, and not at the end of a batch when the next expiration is not
valid. Here the machine `timerQueue` gets a one-shot timerfd and a clock. Each `resetTimerfd` that a
step of the queue notes is carried out, and `timerQueue_alarmed` says that outside `handleRead` no
pending timer is left without an alarm. -/

namespace Muduo.Net

open Support

/-! ## The timerfd -/

/-- The `timespec` of `howMuchTimeFromNow`. -/
structure TimeSpec where
  tv_sec : Int
  tv_nsec : Int
  deriving DecidableEq, Repr

/-- `Timestamp::kMicroSecondsPerSecond`. -/
def kMicroSecondsPerSecond : Int := 1000 * 1000

/-- `howMuchTimeFromNow(when)`, where `Timestamp::now()` is `now`. -/
def howMuchTimeFromNow (when now : Timestamp) : TimeSpec :=
  let microseconds : Int := when - now
  let microseconds := if microseconds < 100 then 100 else microseconds
  { tv_sec := microseconds / kMicroSecondsPerSecond
    tv_nsec := microseconds % kMicroSecondsPerSecond * 1000 }

/-- How long a value is, in the unit of the timestamps. -/
def TimeSpec.microseconds (ts : TimeSpec) : Int :=
  ts.tv_sec * kMicroSecondsPerSecond + ts.tv_nsec / 1000

/-- A one-shot timerfd, and the clock it goes by. -/
structure Timerfd where
  now : Timestamp
  /-- When it is due, while it is armed. -/
  deadline : Option Timestamp
  readable : Bool
  /-- When it was last armed. -/
  armedAt : Option Timestamp
  deriving DecidableEq, Repr

namespace Timerfd

variable (fd : Timerfd)

/-- `timerfd_settime`: a new value replaces the old one with its expirations, and zero disarms. -/
def settime (value : TimeSpec) : Timerfd :=
  if value = ⟨0, 0⟩ then { fd with deadline := none, readable := false }
  else { fd with
    deadline := some (fd.now + value.microseconds), readable := false, armedAt := some fd.now }

/-- `resetTimerfd(timerfd_, expiration)`. -/
def resetTimerfd (expiration : Timestamp) : Timerfd :=
  fd.settime (howMuchTimeFromNow expiration fd.now)

/-- `readTimerfd`; a read from a timerfd that is not readable fails and changes nothing. -/
def readTimerfd : Timerfd := { fd with readable := false }

/-- What a step of the queue does before anything else: `handleRead` begins with the read. -/
def enter : TimerStep → Timerfd
  | .expire _ => fd.readTimerfd
  | _ => fd

/-- Time passes. -/
def advance (elapsed : Nat) : Timerfd :=
  let fd := { fd with now := fd.now + elapsed }
  match fd.deadline with
  | none => fd
  | some d => if d ≤ fd.now then { fd with deadline := none, readable := true } else fd

/-- The loop will be woken for a timer that is due at `expiration`: the timerfd is readable, or will be
by then or soon after it was armed. -/
def AlarmsBy (expiration : Timestamp) : Prop :=
  fd.readable = true ∨
    ∃ d a, fd.deadline = some d ∧ fd.armedAt = some a ∧ d ≤ max expiration (a + 100)

end Timerfd

/-- The value is never too short, and never the zero that disarms. -/
theorem microseconds_howMuchTimeFromNow (when now : Timestamp) :
    (howMuchTimeFromNow when now).microseconds = max (when - now) 100 := by
  simp only [howMuchTimeFromNow, TimeSpec.microseconds, kMicroSecondsPerSecond]
  split
  · omega
  · omega

/-- The time set is never zero, which would disarm the timerfd. -/
theorem howMuchTimeFromNow_ne_zero (when now : Timestamp) :
    howMuchTimeFromNow when now ≠ ⟨0, 0⟩ := by
  intro hzero
  have h := microseconds_howMuchTimeFromNow when now
  rw [hzero] at h
  simp only [TimeSpec.microseconds] at h
  omega

/-- The nanoseconds are less than a second. -/
theorem tv_nsec_howMuchTimeFromNow (when now : Timestamp) :
    0 ≤ (howMuchTimeFromNow when now).tv_nsec ∧
      (howMuchTimeFromNow when now).tv_nsec < 1000000000 := by
  simp only [howMuchTimeFromNow, kMicroSecondsPerSecond]
  omega

namespace Timerfd

variable {fd : Timerfd} {w w' : Timestamp}

/-- What a new alarm is. -/
theorem resetTimerfd_eq (fd : Timerfd) (w : Timestamp) :
    fd.resetTimerfd w = { fd with
      deadline := some (max w (fd.now + 100)), readable := false, armedAt := some fd.now } := by
  have hdeadline : ∀ now w : Int, now + max (w - now) 100 = max w (now + 100) := by omega
  rw [resetTimerfd, settime, if_neg (howMuchTimeFromNow_ne_zero w fd.now),
    microseconds_howMuchTimeFromNow, hdeadline]

/-- An alarm for one timer serves the later ones. -/
theorem AlarmsBy.mono (h : fd.AlarmsBy w) (hle : w ≤ w') : fd.AlarmsBy w' := by
  rcases h with hread | ⟨d, a, hd, ha, hda⟩
  · exact .inl hread
  · exact .inr ⟨d, a, hd, ha, hda.trans (max_le_max_right _ hle)⟩

/-- A new alarm comes in time for what expires later. -/
theorem alarmsBy_resetTimerfd (fd : Timerfd) (hle : w ≤ w') : (fd.resetTimerfd w).AlarmsBy w' := by
  rw [resetTimerfd_eq]
  exact .inr ⟨_, _, rfl, rfl, max_le_max_right _ hle⟩

/-- An alarm that goes off is not lost. -/
theorem AlarmsBy.advance (h : fd.AlarmsBy w) (n : Nat) : (fd.advance n).AlarmsBy w := by
  unfold Timerfd.advance
  dsimp only
  split
  · exact h
  · split
    · exact .inl rfl
    · exact h

end Timerfd

/-! ## The machine -/

/-- The expirations for which `resetTimerfd` was called, in order. -/
def TimerQueue.resets (q : TimerQueue) : List Timestamp :=
  q.log.filterMap fun
    | .resetTimerfd w => some w
    | _ => none

/-- The queue with its timerfd. -/
structure AlarmState where
  timers : TimerState
  timerfd : Timerfd

/-- Time passes, or the timer queue does something. -/
inductive AlarmStep where
  | advance (elapsed : Nat)
  | queue (act : TimerStep)

namespace AlarmState

variable (s : AlarmState)

/-- A step of the queue may be taken when it may be taken without the timerfd; `handleRead` gets a
`now` that the clock has shown, and for a positive `interval_` no negative number is added. -/
def Enabled : AlarmStep → Prop
  | .advance _ => True
  | .queue act => s.timers.Enabled act ∧
      match act with
      | .create _ _ interval repeats => repeats = true → 0 ≤ interval
      | .expire now => 0 < now ∧ now ≤ s.timerfd.now
      | _ => True

/-- What a step does; each `resetTimerfd` arms the timer again. -/
def exec : AlarmStep → Checked AlarmState
  | .advance elapsed => return { s with timerfd := s.timerfd.advance elapsed }
  | .queue act => do
      let timers ← s.timers.exec act
      let calls := timers.queue.resets.drop s.timers.queue.resets.length
      return { timers, timerfd := calls.foldl Timerfd.resetTimerfd (s.timerfd.enter act) }

end AlarmState

/-- The timer queue with its timerfd, which is created disarmed, and a clock that is past the epoch. -/
def timerAlarm : Machine AlarmState AlarmStep where
  init s := s.timers = TimerState.new ∧ 0 < s.timerfd.now ∧ s.timerfd.deadline = none ∧
    s.timerfd.readable = false ∧ s.timerfd.armedAt = none
  enabled := AlarmState.Enabled
  exec := AlarmState.exec

/-! ## When the queue sets the timerfd -/

namespace Entry

/-- The order of the entries is first that of their expirations. -/
theorem expiration_mono {e e' : Entry} (h : e ≤ e') : e.expiration ≤ e'.expiration := by
  rcases Prod.Lex.le_iff.mp h with hlt | ⟨heq, -⟩
  · exact hlt.le
  · exact heq.le

end Entry

namespace TimerQueue

variable {q q' : TimerQueue} {a : Addr} {t : Timer}

/-- Without an earliest timer the queue is empty. -/
theorem begin?_eq_none (h : q.begin? = none) : q.timers = ∅ := by
  have hnil : q.timers.sort.length = 0 := by
    rw [List.length_eq_zero_iff]
    exact List.head?_eq_none_iff.mp h
  rwa [Finset.length_sort, Finset.card_eq_zero] at hnil

/-- `timers_.begin()` is an entry that expires first. -/
theorem begin?_eq_some {first : Entry} (h : q.begin? = some first) :
    first ∈ q.timers ∧ ∀ e ∈ q.timers, first.expiration ≤ e.expiration := by
  obtain ⟨rest, hsort⟩ := List.head?_eq_some_iff.mp h
  have hsorted := q.timers.pairwise_sort (· ≤ ·)
  rw [hsort, List.pairwise_cons] at hsorted
  constructor
  · rw [← Finset.mem_sort (· ≤ ·), hsort]
    exact .head _
  · intro e he
    rw [← Finset.mem_sort (· ≤ ·), hsort] at he
    rcases List.mem_cons.mp he with rfl | he
    · exact le_rfl
    · exact Entry.expiration_mono (hsorted.1 e he)

@[simp] theorem resets_note_resetTimerfd (q : TimerQueue) (w : Timestamp) :
    (q.note (.resetTimerfd w)).resets = q.resets ++ [w] := by
  simp [resets, note]

/-- Other notes are no calls. -/
theorem resets_note {e : TimerEvent} (he : ∀ w, e ≠ .resetTimerfd w) :
    (q.note e).resets = q.resets := by
  cases e with
  | resetTimerfd w => exact absurd rfl (he w)
  | added id => simp [resets, note]
  | started n => simp [resets, note]
  | deleted n => simp [resets, note]

/-- `insert` says whether the new timer comes before all others. -/
theorem of_insert {changed : Bool} (h : q.insert a = .ok (q', changed)) :
    ∃ t, q.heap a = some t ∧ q'.heap = q.heap ∧ q'.log = q.log ∧
      q'.timers = Insert.insert (Entry.of t.expiration a) q.timers ∧
      (changed = true ↔ ∀ e ∈ q.timers, t.expiration < e.expiration) := by
  unfold insert at h
  obtain ⟨-, -, h⟩ := Checked.bind_eq_ok.mp h
  obtain ⟨t, ht, h⟩ := Checked.bind_eq_ok.mp h
  obtain ⟨-, h⟩ := Checked.assert_bind_eq_ok.mp h
  obtain ⟨-, h⟩ := Checked.assert_bind_eq_ok.mp h
  obtain ⟨-, -, h⟩ := Checked.bind_eq_ok.mp h
  cases h
  refine ⟨t, Heap.get_eq_ok.mp ht, rfl, rfl, rfl, ?_⟩
  cases hbegin : q.begin? with
  | none => simp [begin?_eq_none hbegin]
  | some first =>
      obtain ⟨hmem, hmin⟩ := begin?_eq_some hbegin
      simp only [decide_eq_true_eq]
      exact ⟨fun hlt e he => hlt.trans_le (hmin e he), fun hall => hall first hmem⟩

/-- `addTimerInLoop` sets the timerfd exactly when the new timer comes before all others. -/
theorem of_addTimerInLoop (h : q.addTimerInLoop a = .ok q') :
    ∃ t, q.heap a = some t ∧ q'.heap = q.heap ∧
      q'.timers = Insert.insert (Entry.of t.expiration a) q.timers ∧
      (q'.resets = q.resets ++ [t.expiration] ∧ (∀ e ∈ q.timers, t.expiration < e.expiration) ∨
        q'.resets = q.resets ∧ ∃ e ∈ q.timers, e.expiration ≤ t.expiration) := by
  unfold addTimerInLoop at h
  obtain ⟨⟨q₁, changed⟩, hinsert, h⟩ := Checked.bind_eq_ok.mp h
  obtain ⟨t, ht, hheap, hlog, htimers, hchanged⟩ := of_insert hinsert
  obtain ⟨t', ht', h⟩ := Checked.bind_eq_ok.mp h
  rw [Heap.get_eq_ok, hheap, ht] at ht'
  cases ht'
  have hresets : (q₁.note (.added ⟨a, t.sequence⟩)).resets = q.resets := by
    rw [resets_note (by simp), resets, hlog, resets]
  cases changed with
  | true =>
      cases h
      refine ⟨t, ht, hheap, htimers, .inl ⟨?_, hchanged.mp rfl⟩⟩
      rw [if_pos rfl, resets_note_resetTimerfd, hresets]
  | false =>
      cases h
      refine ⟨t, ht, hheap, htimers, .inr ⟨hresets, ?_⟩⟩
      by_contra hnone
      push Not at hnone
      exact absurd (hchanged.mpr hnone) (by simp)

/-- `cancelInLoop` only takes timers away, and leaves the timerfd alone. -/
theorem of_cancelInLoop {id : TimerId} (h : q.cancelInLoop id = .ok q') :
    (∀ a t, q'.heap a = some t → q.heap a = some t) ∧ q'.timers ⊆ q.timers ∧
      q'.resets = q.resets := by
  unfold cancelInLoop at h
  obtain ⟨-, -, h⟩ := Checked.bind_eq_ok.mp h
  simp only [Checked.pure_eq_ok, Checked.ok_bind] at h
  split at h
  · obtain ⟨t, -, h⟩ := Checked.bind_eq_ok.mp h
    obtain ⟨-, h⟩ := Checked.assert_bind_eq_ok.mp h
    obtain ⟨heap, hfree, h⟩ := Checked.bind_eq_ok.mp h
    obtain ⟨-, -, h⟩ := Checked.bind_eq_ok.mp h
    cases h
    refine ⟨fun b u hu => ?_, Finset.erase_subset _ _, resets_note (by simp)⟩
    have hu' : heap b = some u := hu
    rw [Heap.eq_erase_of_free hfree] at hu'
    exact (Heap.erase_eq_some.mp hu').2
  · -- at most `cancelingTimers_` has grown
    split at h
    · obtain ⟨-, -, h⟩ := Checked.bind_eq_ok.mp h
      cases h
      exact ⟨fun _ _ hu => hu, subset_rfl, rfl⟩
    · obtain ⟨-, -, h⟩ := Checked.bind_eq_ok.mp h
      cases h
      exact ⟨fun _ _ hu => hu, subset_rfl, rfl⟩

/-- The loop of `getExpired` changes `activeTimers_` only. -/
theorem of_eraseActive {es : List Entry} (h : q.eraseActive es = .ok q') :
    ∃ active, q' = { q with activeTimers := active } := by
  induction es generalizing q with
  | nil =>
      cases h
      exact ⟨_, rfl⟩
  | cons e es ih =>
      unfold eraseActive at h
      obtain ⟨t, -, h⟩ := Checked.bind_eq_ok.mp h
      obtain ⟨-, h⟩ := Checked.assert_bind_eq_ok.mp h
      obtain ⟨active, rfl⟩ := ih h
      exact ⟨active, rfl⟩

/-- After `getExpired` no timer is left that is due; the assert behind `lower_bound` says so. -/
theorem of_getExpired {now : Timestamp} {expired : List Entry}
    (h : q.getExpired now = .ok (q', expired)) :
    q'.heap = q.heap ∧ q'.resets = q.resets ∧ ∀ e ∈ q'.timers, now < e.expiration := by
  unfold getExpired at h
  obtain ⟨-, -, h⟩ := Checked.bind_eq_ok.mp h
  dsimp only at h
  obtain ⟨hfirst, h⟩ := Checked.assert_bind_eq_ok.mp h
  obtain ⟨q₁, hq₁, h⟩ := Checked.bind_eq_ok.mp h
  obtain ⟨-, -, h⟩ := Checked.bind_eq_ok.mp h
  cases h
  obtain ⟨active, rfl⟩ := of_eraseActive hq₁
  refine ⟨rfl, rfl, fun e he => ?_⟩
  rw [Option.all_eq_true] at hfirst
  cases hbegin : begin? { q with timers := {e ∈ q.timers | Entry.of now UINTPTR_MAX ≤ e} } with
  | none =>
      rw [begin?_eq_none hbegin] at he
      cases he
  | some first =>
      have hlt := of_decide_eq_true (hfirst first hbegin)
      exact hlt.trans_le ((begin?_eq_some hbegin).2 e he)

/-- The timers that repeat do so at intervals that are not negative. -/
def IntervalsNonneg (q : TimerQueue) : Prop :=
  ∀ a t, q.heap a = some t → t.repeats = true → 0 ≤ t.interval

/-- The loop of `reset` puts timers back that are due no earlier than `now`. -/
theorem of_restartAll {now : Timestamp} {es : List Entry} (hpos : q.IntervalsNonneg)
    (h : q.restartAll now es = .ok q') :
    q'.IntervalsNonneg ∧ q'.resets = q.resets ∧
      ∀ e ∈ q'.timers, e ∈ q.timers ∨ now ≤ e.expiration := by
  induction es generalizing q with
  | nil =>
      cases h
      exact ⟨hpos, rfl, fun e he => .inl he⟩
  | cons it es ih =>
      unfold restartAll at h
      obtain ⟨t, ht, h⟩ := Checked.bind_eq_ok.mp h
      rw [Heap.get_eq_ok] at ht
      split at h
      · next hrestart =>
          obtain ⟨⟨q₁, changed⟩, hinsert, h⟩ := Checked.bind_eq_ok.mp h
          obtain ⟨u, hu, hheap, hlog, htimers, -⟩ := of_insert hinsert
          -- the timer that is inserted is the one that was set
          dsimp only at hu hheap hlog htimers
          rw [Heap.set_same] at hu
          cases hu
          have hrepeats : t.restart now = { t with expiration := now + t.interval } :=
            if_pos hrestart.1
          have hpos₁ : q₁.IntervalsNonneg := by
            intro b v hv hrep
            rw [hheap, Heap.set_eq_some] at hv
            rcases hv with ⟨-, rfl⟩ | ⟨-, hv⟩
            · rw [hrepeats]
              exact hpos _ t ht hrestart.1
            · exact hpos b v hv hrep
          obtain ⟨hpos', hresets, hmem⟩ := ih hpos₁ h
          refine ⟨hpos', ?_, fun e he => ?_⟩
          · rw [hresets, resets, hlog, resets]
          · rcases hmem e he with he | he
            · rw [htimers, Finset.mem_insert] at he
              rcases he with rfl | he
              · right
                rw [Entry.expiration_of, hrepeats]
                exact Int.le_add_of_nonneg_right (hpos _ t ht hrestart.1)
              · exact .inl he
            · exact .inr he
      · obtain ⟨heap, hfree, h⟩ := Checked.bind_eq_ok.mp h
        have hpos₁ : ({ q with heap }.note (.deleted t.sequence)).IntervalsNonneg := by
          intro b v hv hrep
          have hv' : heap b = some v := hv
          rw [Heap.eq_erase_of_free hfree, Heap.erase_eq_some] at hv'
          exact hpos b v hv'.2 hrep
        obtain ⟨hpos', hresets, hmem⟩ := ih hpos₁ h
        exact ⟨hpos', hresets.trans (resets_note (by simp)), hmem⟩

/-- `reset` sets the timerfd for the timer that is then the earliest, if its expiration is valid. -/
theorem of_reset {now : Timestamp} {es : List Entry} (hpos : q.IntervalsNonneg)
    (h : q.reset es now = .ok q') :
    q'.IntervalsNonneg ∧ (∀ e ∈ q'.timers, e ∈ q.timers ∨ now ≤ e.expiration) ∧
      (q'.timers = ∅ ∧ q'.resets = q.resets ∨
        ∃ first t, first ∈ q'.timers ∧ (∀ e ∈ q'.timers, first.expiration ≤ e.expiration) ∧
          q'.heap first.timer = some t ∧
          q'.resets = q.resets ++ if 0 < t.expiration then [t.expiration] else []) := by
  unfold reset at h
  obtain ⟨q₁, hq₁, h⟩ := Checked.bind_eq_ok.mp h
  obtain ⟨hpos₁, hresets, hmem⟩ := of_restartAll hpos hq₁
  cases hbegin : q₁.begin? with
  | none =>
      rw [hbegin] at h
      cases h
      exact ⟨hpos₁, hmem, .inl ⟨begin?_eq_none hbegin, hresets⟩⟩
  | some first =>
      rw [hbegin] at h
      obtain ⟨t, ht, h⟩ := Checked.bind_eq_ok.mp h
      rw [Heap.get_eq_ok] at ht
      obtain ⟨hfirst, hmin⟩ := begin?_eq_some hbegin
      by_cases hvalid : 0 < t.expiration
      · rw [if_pos hvalid] at h
        cases h
        refine ⟨hpos₁, hmem, .inr ⟨first, t, hfirst, hmin, ht, ?_⟩⟩
        rw [resets_note_resetTimerfd, hresets, if_pos hvalid]
      · rw [if_neg hvalid] at h
        cases h
        refine ⟨hpos₁, hmem, .inr ⟨first, t, hfirst, hmin, ht, ?_⟩⟩
        rw [hresets, if_neg hvalid, List.append_nil]

end TimerQueue

/-! ## No timer is stranded -/

namespace AlarmState

variable {s s' : AlarmState} {act : TimerStep}

/-- Outside `handleRead` there is an alarm for every timer. Inside, the timers that `reset` will not
set the timerfd for have one: they were added after the batch was extracted, and the first of them
was then the earliest. -/
structure Inv (s : AlarmState) : Prop where
  intervals : s.timers.queue.IntervalsNonneg
  batch : ∀ b, s.timers.batch = some b → 0 < b.now
  alarmed : ∀ e ∈ s.timers.queue.timers, s.timers.batch = none ∨ e.expiration ≤ 0 →
    s.timerfd.AlarmsBy e.expiration

/-- A step of the queue, with the calls of `resetTimerfd` that it makes. -/
theorem of_exec_queue (h : s.exec (.queue act) = .ok s') : s.timers.exec act = .ok s'.timers ∧
    ∀ ws, s'.timers.queue.resets = s.timers.queue.resets ++ ws →
      s'.timerfd = ws.foldl Timerfd.resetTimerfd (s.timerfd.enter act) := by
  obtain ⟨timers, htimers, h⟩ := Checked.bind_eq_ok.mp h
  cases h
  refine ⟨htimers, fun ws hws => ?_⟩
  dsimp only at hws ⊢
  rw [hws, List.drop_left]

/-- A step that adds no timer, keeps the batch and does not touch the timerfd. -/
theorem Inv.of_subset (h : s.Inv) (hintervals : s'.timers.queue.IntervalsNonneg)
    (hbatch : ∀ b, s'.timers.batch = some b → 0 < b.now)
    (hidle : s'.timers.batch = none → s.timers.batch = none)
    (htimers : s'.timers.queue.timers ⊆ s.timers.queue.timers)
    (htimerfd : s'.timerfd = s.timerfd) : s'.Inv := by
  refine ⟨hintervals, hbatch, fun e he hdue => ?_⟩
  rw [htimerfd]
  exact h.alarmed e (htimers he) (hdue.imp_left hidle)

/-- Adding a timer keeps the invariant. -/
theorem Inv.addTimerInLoop {timer : Addr} (h : s.Inv)
    (hexec : s.exec (.queue (.addTimerInLoop timer)) = .ok s') : s'.Inv := by
  obtain ⟨htimers, hcalls⟩ := of_exec_queue hexec
  obtain ⟨q, hq, hs'⟩ := Checked.bind_eq_ok.mp htimers
  obtain ⟨t, -, hheap, hmem, hresets⟩ := TimerQueue.of_addTimerInLoop hq
  obtain ⟨timers, timerfd⟩ := s'
  dsimp only at hs' hcalls
  cases hs'
  refine ⟨?_, h.batch, fun e he hdue => ?_⟩
  · intro a u hu
    have hu' : q.heap a = some u := hu
    rw [hheap] at hu'
    exact h.intervals a u hu'
  · have he' : e ∈ q.timers := he
    rw [hmem, Finset.mem_insert] at he'
    rcases hresets with ⟨hresets, hfirst⟩ | ⟨hresets, e₀, he₀, hle⟩
    · -- the new timer is the earliest, so its alarm serves all
      rw [hcalls [t.expiration] hresets]
      refine Timerfd.alarmsBy_resetTimerfd _ ?_
      rcases he' with rfl | he'
      · exact le_rfl
      · exact (hfirst e he').le
    · rw [hcalls [] (by rw [List.append_nil]; exact hresets)]
      rcases he' with rfl | he'
      · -- an earlier timer has an alarm, which serves the new one
        rw [Entry.expiration_of] at hdue ⊢
        exact (h.alarmed e₀ he₀ (hdue.imp_right hle.trans)).mono hle
      · exact h.alarmed e he' hdue

/-- Cancelling a timer keeps the invariant. -/
theorem Inv.cancelInLoop {id : TimerId} (h : s.Inv)
    (hexec : s.exec (.queue (.cancelInLoop id)) = .ok s') : s'.Inv := by
  obtain ⟨htimers, hcalls⟩ := of_exec_queue hexec
  obtain ⟨q, hq, hs'⟩ := Checked.bind_eq_ok.mp htimers
  obtain ⟨hheap, hsub, hresets⟩ := TimerQueue.of_cancelInLoop hq
  obtain ⟨timers, timerfd⟩ := s'
  dsimp only at hs' hcalls
  cases hs'
  exact h.of_subset (fun a t ht => h.intervals a t (hheap a t ht)) h.batch (fun hidle => hidle) hsub
    (hcalls [] (by rw [List.append_nil]; exact hresets))

/-- After the batch is extracted only timers with a valid expiration are left. -/
theorem Inv.expire {now : Timestamp} (h : s.Inv) (hnow : 0 < now)
    (hexec : s.exec (.queue (.expire now)) = .ok s') : s'.Inv := by
  obtain ⟨htimers, -⟩ := of_exec_queue hexec
  obtain ⟨⟨q, expired⟩, hq, hs'⟩ := Checked.bind_eq_ok.mp htimers
  obtain ⟨hheap, -, hlate⟩ := TimerQueue.of_getExpired hq
  obtain ⟨timers, timerfd⟩ := s'
  dsimp only at hs'
  cases hs'
  refine ⟨fun a t ht => ?_, fun b hb => ?_, fun e he hdue => ?_⟩
  · have ht' : q.heap a = some t := ht
    rw [hheap] at ht'
    exact h.intervals a t ht'
  · cases hb
    exact hnow
  · rcases hdue with hnone | hdue
    · cases hnone
    · exact absurd (hnow.trans (hlate e he)) (not_lt.mpr hdue)

/-- Running a timer keeps the invariant. -/
theorem Inv.run (h : s.Inv) (hact : s.timers.Enabled .run)
    (hexec : s.exec (.queue .run) = .ok s') : s'.Inv := by
  obtain ⟨htimers, hcalls⟩ := of_exec_queue hexec
  obtain ⟨⟨now, expired, remaining⟩, hb, hrem⟩ := hact
  obtain ⟨it, remaining, rfl⟩ := List.exists_cons_of_ne_nil hrem
  simp only [TimerState.exec, hb] at htimers
  obtain ⟨t, -, hs'⟩ := Checked.bind_eq_ok.mp htimers
  obtain ⟨timers, timerfd⟩ := s'
  dsimp only at hs' hcalls
  cases hs'
  refine h.of_subset h.intervals (fun b hb' => ?_) (fun hbatch => ?_) subset_rfl (hcalls [] ?_)
  · cases hb'
    exact h.batch ⟨now, expired, it :: remaining⟩ hb
  · cases hbatch
  · rw [List.append_nil]
    exact TimerQueue.resets_note (by simp)

/-- At the end of `handleRead` the timerfd is set for the earliest timer, or that timer is one of those
that were added in the batch with an expiration that is not valid, and it has its alarm. -/
theorem Inv.reset (h : s.Inv) (hs : timerQueue.Reachable s.timers) (hact : s.timers.Enabled .reset)
    (hexec : s.exec (.queue .reset) = .ok s') : s'.Inv := by
  obtain ⟨htimers, hcalls⟩ := of_exec_queue hexec
  have hs' : timerQueue.Reachable s'.timers := hs.step (a := .reset) hact htimers
  obtain ⟨⟨own', hown'⟩, -⟩ := TimerState.Owned.of_reachable hs'
  obtain ⟨b, hb, -⟩ := hact
  simp only [TimerState.exec, hb] at htimers
  obtain ⟨q, hq, heq⟩ := Checked.bind_eq_ok.mp htimers
  have hbefore : { s.timers.queue with callingExpiredTimers := false }.IntervalsNonneg := h.intervals
  obtain ⟨hintervals, hmem, hresets⟩ := TimerQueue.of_reset hbefore hq
  obtain ⟨timers, timerfd⟩ := s'
  dsimp only at heq hcalls
  cases heq
  refine ⟨hintervals, fun b hb' => (by cases hb'), fun e he _ => ?_⟩
  rcases hresets with ⟨hempty, -⟩ | ⟨first, t, hfirst, hmin, ht, hresets⟩
  · have he' : e ∈ q.timers := he
    rw [hempty] at he'
    cases he'
  · -- the timer on the heap is due when its entry says
    obtain ⟨u, hu, hdue⟩ := hown'.coherent.timers first hfirst
    have hu' : q.heap first.timer = some u := hu
    rw [ht] at hu'
    cases hu'
    rw [hcalls _ hresets, hdue]
    by_cases hvalid : 0 < first.expiration
    · rw [if_pos hvalid]
      exact Timerfd.alarmsBy_resetTimerfd _ (hmin e he)
    · rw [if_neg hvalid]
      -- a timer that was restarted is due after `now`, which is positive
      have hold : first ∈ s.timers.queue.timers := by
        refine (hmem first hfirst).resolve_right fun hle => hvalid ?_
        exact (h.batch b hb).trans_le hle
      exact (h.alarmed first hold (.inr (not_lt.mp hvalid))).mono (hmin e he)

/-- Every step of the queue keeps the alarms. -/
theorem Inv.queue (h : s.Inv) (hs : timerQueue.Reachable s.timers) (hact : s.Enabled (.queue act))
    (hexec : s.exec (.queue act) = .ok s') : s'.Inv := by
  cases act with
  | addTimerInLoop timer => exact h.addTimerInLoop hexec
  | cancelInLoop id => exact h.cancelInLoop hexec
  | expire now => exact h.expire hact.2.1 hexec
  | run => exact h.run hact.1 hexec
  | reset => exact h.reset hs hact.1 hexec
  | create timer expiration interval repeats =>
      obtain ⟨htimers, hcalls⟩ := of_exec_queue hexec
      obtain ⟨timers, timerfd⟩ := s'
      cases htimers
      refine h.of_subset (fun a t ht => ?_) h.batch id subset_rfl (hcalls [] (List.append_nil _).symm)
      rcases Heap.set_eq_some.mp ht with ⟨-, rfl⟩ | ⟨-, ht⟩
      · exact hact.2
      · exact h.intervals a t ht

/-- In every reachable state the queue is in a state it can reach without the timerfd, and there are
the alarms. -/
theorem Inv.of_reachable (hs : timerAlarm.Reachable s) :
    timerQueue.Reachable s.timers ∧ s.Inv := by
  refine Machine.Reachable.induction (P := fun s => timerQueue.Reachable s.timers ∧ s.Inv)
    ?_ ?_ hs
  · rintro ⟨_, timerfd⟩ ⟨rfl, -⟩
    exact ⟨.of_init rfl, nofun, nofun, fun e he => absurd he (Finset.notMem_empty e)⟩
  · rintro s act s' ⟨hqueue, h⟩ hact hexec
    cases act with
    | advance n =>
        cases hexec
        exact ⟨hqueue, h.intervals, h.batch, fun e he hdue => (h.alarmed e he hdue).advance n⟩
    | queue act =>
        exact ⟨hqueue.step hact.1 (of_exec_queue hexec).1, h.queue hqueue hact hexec⟩

end AlarmState

/-- **No stranded timer.** In every reachable state outside `handleRead` the timerfd is, for every
pending timer and so for the earliest, readable or armed with a deadline that is no later than the
expiration of the timer or 100 microseconds after the timerfd was armed, whichever is later; and the
values it is armed with are well formed and never zero. -/
theorem timerQueue_alarmed {s : AlarmState} (hs : timerAlarm.Reachable s)
    (hidle : s.timers.batch = none) :
    (∀ e ∈ s.timers.queue.timers, s.timerfd.readable = true ∨
      ∃ d a, s.timerfd.deadline = some d ∧ s.timerfd.armedAt = some a ∧
        d ≤ max e.expiration (a + 100)) ∧
    ∀ when now, howMuchTimeFromNow when now ≠ ⟨0, 0⟩ ∧
      0 ≤ (howMuchTimeFromNow when now).tv_nsec ∧
      (howMuchTimeFromNow when now).tv_nsec < 1000000000 := by
  obtain ⟨-, h⟩ := AlarmState.Inv.of_reachable hs
  refine ⟨fun e he => h.alarmed e he (.inl hidle), fun when now => ?_⟩
  exact ⟨howMuchTimeFromNow_ne_zero when now, tv_nsec_howMuchTimeFromNow when now⟩

/-- A timer that is due at `5` is added at the time `1`. -/
def oneAlarm : AlarmState :=
  { timers := oneTimer
    timerfd := { now := 1, deadline := some 101, readable := false, armedAt := some 1 } }

/-- A run with one timer leads there. -/
theorem oneAlarm_reachable : timerAlarm.Reachable oneAlarm := by
  let start : AlarmState :=
    { timers := TimerState.new
      timerfd := { now := 1, deadline := none, readable := false, armedAt := none } }
  have hstart : timerAlarm.init start := ⟨rfl, by decide, rfl, rfl, rfl⟩
  have hcreate : start.Enabled (.queue (.create 16 5 0 false)) := ⟨⟨rfl, by decide⟩, nofun⟩
  refine ⟨start, [.queue (.create 16 5 0 false), .queue (.addTimerInLoop 16)], hstart,
    .snoc (.snoc (.nil _) hcreate rfl) ?_ ?_⟩
  · exact ⟨Finset.mem_insert_self _ _, trivial⟩
  simp [timerAlarm, start, AlarmState.exec, TimerState.exec, TimerState.new,
    TimerQueue.addTimerInLoop, TimerQueue.insert, TimerQueue.assertSizes, TimerQueue.begin?, assert,
    TimerQueue.new, oneTimer, oneAlarm, Heap.get, TimerQueue.note, TimerQueue.resets, Timerfd.enter,
    Timerfd.resetTimerfd_eq]

/-- The timerfd is armed for it, a little later than the timer asks for. -/
theorem timerQueue_alarmed_oneAlarm :
    timerAlarm.Reachable oneAlarm ∧ Entry.of 5 16 ∈ oneAlarm.timers.queue.timers ∧
      oneAlarm.timerfd.AlarmsBy 5 := by
  have hmem : Entry.of 5 16 ∈ oneAlarm.timers.queue.timers := Finset.mem_singleton_self _
  exact ⟨oneAlarm_reachable, hmem, (timerQueue_alarmed oneAlarm_reachable rfl).1 _ hmem⟩

end Muduo.Net
