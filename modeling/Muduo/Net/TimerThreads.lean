import Muduo.Net.TimerBatch

/-! # `addTimer` in another thread

`TimerQueue::addTimer` makes a `Timer`, hands it to the loop with `runInLoop`, and then reads its number to
build the `TimerId` it returns. In the loop thread that is one step; in another thread the loop may run in
between. `addTimerThreads` is the machine of the loop with its queue of functors and of threads in
`addTimer` and `cancel`. The timer belongs to the loop as soon as it is handed over, so it may be deleted
before its number is read. `Deletes` are the steps of the loop that delete it: the call of a `cancelInLoop`
with its id while it is pending, and the end of a `handleRead` that has run it and does not restart it.
`addTimer_ids_right` says that a step of this kind between the two is the only way to a wrong id. -/

namespace Muduo.Net

open Support

/-- A functor in the loop's queue. -/
inductive TimerFunctor where
  | addTimerInLoop (timer : Addr)
  | cancelInLoop (timerId : TimerId)
  deriving DecidableEq, Repr

/-- What the loop does when it calls a functor. -/
def TimerFunctor.step : TimerFunctor → TimerStep
  | .addTimerInLoop timer => .addTimerInLoop timer
  | .cancelInLoop timerId => .cancelInLoop timerId

/-- The timer that the functor adds. -/
def TimerFunctor.added? : TimerFunctor → Option Addr
  | .addTimerInLoop timer => some timer
  | .cancelInLoop _ => none

/-- How far a thread is in `addTimer`. The number is that of the `Timer` it made. -/
inductive AddTimerPc where
  | idle
  | created (timer : Addr) (number : Nat)
  /-- `runInLoop` has queued the functor. -/
  | enqueued (timer : Addr) (number : Nat)
  deriving DecidableEq, Repr

/-- An id that `addTimer` has returned, with the number of the `Timer` it was made for. -/
structure ReturnedId where
  number : Nat
  id : TimerId
  deriving DecidableEq, Repr

/-- A loop's timers, the functors queued for it, and the threads that use it. -/
structure TimerThreads (T : Type) where
  timers : TimerState
  functors : List TimerFunctor
  callers : T → AddTimerPc
  /-- The ids that `addTimer` has returned, in any thread. -/
  returned : List ReturnedId

/-- The steps of the loop and of the other threads. -/
inductive ThreadsStep (T : Type) where
  /-- `new Timer(cb, when, interval)`, in another thread. -/
  | create (c : T) (timer : Addr) (expiration : Timestamp) (interval : Int) (repeats : Bool)
  /-- `loop_->runInLoop(addTimerInLoop)`, there. -/
  | enqueue (c : T)
  /-- `return TimerId(timer, timer->sequence())`, there. -/
  | readSequence (c : T)
  /-- `cancel(timerId)`, in another thread. -/
  | cancel (timerId : TimerId)
  /-- The loop calls the next functor. -/
  | runFunctor
  /-- `addTimer(cb, when, interval)` in the loop thread, which calls `addTimerInLoop` at once. -/
  | addTimer (timer : Addr) (expiration : Timestamp) (interval : Int) (repeats : Bool)
  /-- `cancel(timerId)` in the loop thread. -/
  | cancelInLoop (timerId : TimerId)
  -- the parts of `handleRead`
  | expire (now : Timestamp)
  | run
  | reset

namespace TimerThreads

variable {T : Type}

section

variable [DecidableEq T] (s : TimerThreads T)

/-- What may happen: the steps of `addTimer` follow each other in each thread, and the loop calls functors
outside `handleRead`. -/
def Enabled : ThreadsStep T → Prop
  | .create c timer expiration interval repeats =>
      s.callers c = .idle ∧ s.timers.Enabled (.create timer expiration interval repeats)
  | .enqueue c => ∃ timer number, s.callers c = .created timer number
  | .readSequence c => ∃ timer number, s.callers c = .enqueued timer number
  | .cancel _ => True
  | .runFunctor => s.functors ≠ [] ∧ s.timers.batch = none
  | .addTimer timer expiration interval repeats =>
      s.timers.Enabled (.create timer expiration interval repeats)
  | .cancelInLoop timerId => s.timers.Enabled (.cancelInLoop timerId)
  | .expire now => s.timers.Enabled (.expire now)
  | .run => s.timers.Enabled .run
  | .reset => s.timers.Enabled .reset

/-- A step of the queue of timers alone. -/
def onTimers (act : TimerStep) : Checked (TimerThreads T) := do
  let timers ← s.timers.exec act
  return { s with timers }

/-- The system with a caller moved to another place. -/
def setCaller (c : T) (pc : AddTimerPc) : TimerThreads T :=
  { s with callers := Function.update s.callers c pc }

/-- What a step does. -/
def exec : ThreadsStep T → Checked (TimerThreads T)
  | .create c timer expiration interval repeats => do
      let s ← s.onTimers (.create timer expiration interval repeats)
      return s.setCaller c (.created timer s.timers.numCreated)
  | .enqueue c =>
      match s.callers c with
      | .created timer number =>
          return { s.setCaller c (.enqueued timer number) with
            functors := s.functors ++ [.addTimerInLoop timer] }
      | _ => return s
  | .readSequence c =>
      match s.callers c with
      | .enqueued timer number => do
          let t ← s.timers.queue.heap.get timer -- `timer->sequence()`
          return { s.setCaller c .idle with
            returned := s.returned ++ [{ number, id := ⟨timer, t.sequence⟩ }] }
      | _ => return s
  | .cancel timerId => return { s with functors := s.functors ++ [.cancelInLoop timerId] }
  | .runFunctor =>
      match s.functors with
      | f :: functors => { s with functors }.onTimers f.step
      | [] => return s
  | .addTimer timer expiration interval repeats => do
      let s ← s.onTimers (.create timer expiration interval repeats)
      let number := s.timers.numCreated
      let s ← s.onTimers (.addTimerInLoop timer)
      let t ← s.timers.queue.heap.get timer
      return { s with returned := s.returned ++ [{ number, id := ⟨timer, t.sequence⟩ }] }
  | .cancelInLoop timerId => s.onTimers (.cancelInLoop timerId)
  | .expire now => s.onTimers (.expire now)
  | .run => s.onTimers .run
  | .reset => s.onTimers .reset

end

end TimerThreads

/-- The loop with the threads `T`. -/
def addTimerThreads (T : Type) [DecidableEq T] : Machine (TimerThreads T) (ThreadsStep T) where
  init s := s.timers = TimerState.new ∧ s.functors = [] ∧ (∀ c, s.callers c = .idle) ∧ s.returned = []
  enabled := TimerThreads.Enabled
  exec := TimerThreads.exec

/-! ## A timer on its way to the queue -/

namespace TimerState

variable {s s' : TimerState} {act : TimerStep} {own : Addr → Option Place} {a : Addr} {t : Timer}

/-- A timer on its way to the queue stays there until it is added. -/
theorem Owned.waiting_stays (h : s.Owned own) (hact : s.Enabled act) (hexec : s.exec act = .ok s')
    (ha : a ∈ s.created) (ht : s.queue.heap a = some t) (hne : act ≠ .addTimerInLoop a) :
    a ∈ s'.created ∧ ∃ t', s'.queue.heap a = some t' ∧ t'.sequence = t.sequence := by
  obtain ⟨own', hstep⟩ := (h.step_stepped hact).of_eq_ok hexec
  have hown : own a = some .waiting := (h.waiting a).mp ha
  rcases hstep.moves a t _ ht hown with ⟨t', p', ht', hseq, hown', hmove⟩ | ⟨-, hmove⟩
  · refine ⟨?_, t', ht', hseq⟩
    generalize hn : t.sequence = n at hmove
    cases hmove with
    | stay => exact (hstep.owned.waiting a).mpr hown'
    | add hu =>
        -- the timer that is added has the same number, so it is this one
        rw [h.census.unique _ _ _ t hu ht hn.symm] at hne
        exact absurd rfl hne
  · generalize t.sequence = n at hmove
    cases hmove

/-- What the step `act` has to do to delete the timer with the number `n` at the address `a`: it cancels the
timer while that is pending, or it ends the batch that the timer is in, and the timer is a one-shot or was
cancelled during the batch. -/
def Deletes (s : TimerState) (a : Addr) (n : Nat) : TimerStep → Prop
  | .cancelInLoop timerId => timerId = ⟨a, n⟩ ∧ (a, n) ∈ s.queue.activeTimers
  | .reset => a ∈ s.batchEntries.map Entry.timer ∧
      ∀ t, s.queue.heap a = some t → t.repeats = true → (a, n) ∈ s.queue.cancelingTimers
  | _ => False

/-- After `handleRead` no batch is left. -/
theorem batch_reset (hact : s.Enabled .reset) (hexec : s.exec .reset = .ok s') : s'.batch = none := by
  obtain ⟨b, hb, -⟩ := hact
  simp only [exec, hb] at hexec
  obtain ⟨q, -, hret⟩ := Checked.bind_eq_ok.mp hexec
  cases hret
  rfl

/-- A timer that a step leaves on the heap is not one that the step deletes. -/
theorem Owned.not_deletes (h : s.Owned own) (hact : s.Enabled act) (hexec : s.exec act = .ok s')
    (ht : s.queue.heap a = some t) {t' : Timer} (ht' : s'.queue.heap a = some t')
    (hseq : t'.sequence = t.sequence) : ¬ s.Deletes a t.sequence act := by
  obtain ⟨own', hstep⟩ := (h.step_stepped hact).of_eq_ok hexec
  intro hdeletes
  cases act with
  | cancelInLoop id =>
      obtain ⟨rfl, hactive⟩ := hdeletes
      obtain ⟨q, hq, hret⟩ := Checked.bind_eq_ok.mp hexec
      cases hret
      rcases (h.indexed.cancelInLoop_sat _).of_eq_ok hq with ⟨_, -, -, -, -, hheap, -⟩ | ⟨hnot, -⟩
      · dsimp only at ht'
        rw [hheap, Heap.erase_same] at ht'
        cases ht'
      · exact hnot hactive
  | reset =>
      obtain ⟨hin, hfinal⟩ := hdeletes
      have hown := (h.expired a).mpr hin
      rcases hstep.moves a t _ ht hown with ⟨u, p, hu, -, hown', hmove⟩ | ⟨hdel, -⟩
      · generalize hn : t.sequence = n at hmove hfinal
        cases hmove with
        | stay => exact hstep.owned.not_expired_of_idle (batch_reset hact hexec) a hown'
        | restart hb _ hrepeats hnot =>
            obtain rfl := h.census.unique _ _ _ _ hb ht hn.symm
            exact hnot (hfinal _ hb hrepeats)
      · exact (hstep.owned.census.gone _ hdel).2 a t' ht' hseq
  | _ => exact hdeletes

/-- A timer that is gone after a step has been deleted by it. -/
theorem Owned.deletes (h : s.Owned own) (hact : s.Enabled act) (hexec : s.exec act = .ok s')
    (ht : s.queue.heap a = some t) (hdel : t.sequence ∈ s'.queue.deleted) : s.Deletes a t.sequence act := by
  obtain ⟨own', hstep⟩ := (h.step_stepped hact).of_eq_ok hexec
  obtain ⟨p, hp⟩ := h.indexed.exists_place ht
  rcases hstep.moves a t p ht hp with ⟨u, -, hu, hseq, -⟩ | ⟨-, hmove⟩
  · exact absurd hseq ((hstep.owned.census.gone _ hdel).2 a u hu)
  · generalize hn : t.sequence = n at hmove hdel
    cases hmove with
    | @cancel b =>
        refine ⟨?_, ((h.indexed a).active n).mpr ⟨t, ht, hp, hn⟩⟩
        obtain ⟨q, hq, hret⟩ := Checked.bind_eq_ok.mp hexec
        cases hret
        rcases (h.indexed.cancelInLoop_sat _).of_eq_ok hq with ⟨u, hu, hseq, -⟩ | ⟨-, rfl⟩
        · -- the timer at `b` has the same number
          rw [h.census.unique b a u t hu ht (hseq.trans hn.symm)]
        · exact absurd hn ((h.census.gone n hdel).2 a t ht)
    | finish hb _ hfinal =>
        obtain rfl := h.census.unique _ _ _ _ hb ht hn.symm
        rw [ht] at hb
        cases hb
        refine ⟨(h.expired _).mp hp, fun u hu hrepeats => ?_⟩
        rw [ht] at hu
        cases hu
        exact hfinal.resolve_left (by rw [hrepeats]; decide)

/-- The timer with the number `n` has been deleted, or it is at the address `a`. -/
def Traced (s : TimerState) (a : Addr) (n : Nat) : Prop :=
  n ∈ s.queue.deleted ∨ ∃ t, s.queue.heap a = some t ∧ t.sequence = n

/-- What becomes of a timer between `s` and `s'`: it is gone at the end if it was at the start or has been
deleted meanwhile. -/
def Fate (s s' : TimerState) (a : Addr) (n : Nat) (deletes : Prop) : Prop :=
  s.Traced a n → s'.Traced a n ∧ (n ∉ s'.queue.deleted ↔ n ∉ s.queue.deleted ∧ ¬ deletes)

/-- Nothing happens to a timer that nothing is done to. -/
theorem Fate.refl (s : TimerState) (a : Addr) (n : Nat) : Fate s s a n False :=
  fun h => ⟨h, (and_iff_left not_false).symm⟩

/-- A timer that is left alone twice. -/
theorem Fate.trans {s₁ s₂ s₃ : TimerState} {n : Nat} (h : Fate s₁ s₂ a n False) (h' : Fate s₂ s₃ a n False) :
    Fate s₁ s₃ a n False := by
  intro htraced
  obtain ⟨htraced', hiff⟩ := h htraced
  obtain ⟨htraced'', hiff'⟩ := h' htraced'
  refine ⟨htraced'', hiff'.trans ?_⟩
  rw [and_iff_left not_false]
  exact hiff

/-- A step deletes the timers that it is said to delete, and no others. -/
theorem Owned.fate (h : s.Owned own) (hact : s.Enabled act) (hexec : s.exec act = .ok s') (a : Addr)
    (n : Nat) : Fate s s' a n (s.Deletes a n act) := by
  obtain ⟨own', hstep⟩ := (h.step_stepped hact).of_eq_ok hexec
  rintro (hdel | ⟨t, ht, rfl⟩)
  · have hdel' := hstep.deleted n hdel
    exact ⟨.inl hdel', iff_of_false (not_not_intro hdel') fun hno => hno.1 hdel⟩
  · have halive : t.sequence ∉ s.queue.deleted := fun hdel => (h.census.gone _ hdel).2 a t ht rfl
    rcases h.stays_or_deleted hact hexec ht with ⟨t', ht', hseq⟩ | hdel
    · refine ⟨.inr ⟨t', ht', hseq⟩, iff_of_true ?_ ⟨halive, h.not_deletes hact hexec ht ht' hseq⟩⟩
      exact fun hdel => (hstep.owned.census.gone _ hdel).2 a t' ht' hseq
    · refine ⟨.inl hdel, iff_of_false (not_not_intro hdel) fun hno => ?_⟩
      exact hno.2 (h.deletes hact hexec ht hdel)

end TimerState

/-! ## The invariant -/

namespace TimerThreads

variable {T : Type} {s s' : TimerThreads T}

/-- The timers that the queued functors will add. -/
def adds (s : TimerThreads T) : List Addr := s.functors.filterMap TimerFunctor.added?

/-- The timers have their owners. A timer made by a thread and not yet added is on its way, once; and one
that was handed over is where the thread thinks, unless it has been deleted. -/
structure Inv (s : TimerThreads T) : Prop where
  owned : ∃ own, s.timers.Owned own
  adds_nodup : s.adds.Nodup
  adds_created : ∀ a ∈ s.adds, a ∈ s.timers.created
  created : ∀ c a n, s.callers c = .created a n → a ∈ s.timers.created ∧ a ∉ s.adds ∧
    ∃ t, s.timers.queue.heap a = some t ∧ t.sequence = n
  unique : ∀ c c' a n n', s.callers c = .created a n → s.callers c' = .created a n' → c = c'
  enqueued : ∀ c a n, s.callers c = .enqueued a n → s.timers.Traced a n

/-- A step of the queue is one of the system. -/
theorem onTimers_of_eq {act : TimerStep} {timers : TimerState} (h : s.timers.exec act = .ok timers) :
    s.onTimers act = .ok { s with timers } := by
  rw [onTimers, h]
  rfl

/-- A step of the queue of timers keeps the invariant, if it adds no timer that a functor or a thread is
to add. -/
theorem Inv.onTimers_sat (h : s.Inv) (act : TimerStep) (hact : s.timers.Enabled act)
    (hadd : ∀ a, act = .addTimerInLoop a → a ∉ s.adds ∧ ∀ c n, s.callers c ≠ .created a n) :
    (s.onTimers act).Sat fun s' => s'.Inv ∧ s'.functors = s.functors ∧ s'.callers = s.callers ∧
      s'.returned = s.returned ∧ s.timers.exec act = .ok s'.timers := by
  obtain ⟨own, howned⟩ := h.owned
  obtain ⟨timers, hexec, own', hstep⟩ := howned.step_stepped hact
  have hother : ∀ a, a ∈ s.adds → act ≠ .addTimerInLoop a := fun a ha heq => (hadd a heq).1 ha
  refine ⟨{ s with timers }, onTimers_of_eq hexec,
    ⟨⟨own', hstep.owned⟩, h.adds_nodup, fun a ha => ?_, fun c a n hc => ?_, h.unique,
      fun c a n hc => ?_⟩, rfl, rfl, rfl, hexec⟩
  · have hcreated := h.adds_created a ha
    obtain ⟨t, ht⟩ := howned.indexed.exists_timer ((howned.waiting a).mp hcreated)
    exact (howned.waiting_stays hact hexec hcreated ht (hother a ha)).1
  · obtain ⟨hcreated, hnot, t, ht, hseq⟩ := h.created c a n hc
    obtain ⟨hcreated', t', ht', hseq'⟩ := howned.waiting_stays hact hexec hcreated ht
      fun heq => (hadd a heq).2 c n hc
    exact ⟨hcreated', hnot, t', ht', hseq'.trans hseq⟩
  · exact (howned.fate hact hexec a n (h.enqueued c a n hc)).1

/-- The invariant does not depend on the ids that were returned. -/
theorem Inv.congr_returned (h : s.Inv) (returned : List ReturnedId) : Inv { s with returned } :=
  ⟨h.owned, h.adds_nodup, h.adds_created, h.created, h.unique, h.enqueued⟩

section

variable [DecidableEq T] {c : T}

/-- Where a thread is after one has moved. -/
theorem callers_setCaller {c' : T} {pc pc' : AddTimerPc} (h : (s.setCaller c pc).callers c' = pc') :
    c' = c ∧ pc = pc' ∨ c' ≠ c ∧ s.callers c' = pc' := by
  by_cases hc : c' = c
  · subst hc
    exact .inl ⟨rfl, (Function.update_self ..).symm.trans h⟩
  · exact .inr ⟨hc, (Function.update_of_ne hc ..).symm.trans h⟩

/-- A thread that is not in `addTimer` any more. -/
theorem Inv.setCaller_idle (h : s.Inv) (c : T) : (s.setCaller c .idle).Inv := by
  have hcaller : ∀ c' pc, (s.setCaller c .idle).callers c' = pc → pc ≠ .idle →
      s.callers c' = pc := by
    intro c' pc hpc hne
    rcases callers_setCaller hpc with ⟨-, heq⟩ | ⟨-, hpc⟩
    · exact absurd heq.symm hne
    · exact hpc
  refine ⟨h.owned, h.adds_nodup, h.adds_created, fun c' a n hc' => ?_, fun c' c'' a n n' hc' hc'' => ?_,
    fun c' a n hc' => ?_⟩
  · exact h.created c' a n (hcaller _ _ hc' nofun)
  · exact h.unique c' c'' a n n' (hcaller _ _ hc' nofun) (hcaller _ _ hc'' nofun)
  · exact h.enqueued c' a n (hcaller _ _ hc' nofun)

/-- A thread has made a timer at an address that no other thread and no functor has. -/
theorem Inv.setCaller_created (h : s.Inv) (c : T) {a : Addr} {t : Timer}
    (ht : s.timers.queue.heap a = some t) (hcreated : a ∈ s.timers.created) (hnot : a ∉ s.adds)
    (hfree : ∀ c n, s.callers c ≠ .created a n) : (s.setCaller c (.created a t.sequence)).Inv := by
  refine ⟨h.owned, h.adds_nodup, h.adds_created, fun c' a' n hc' => ?_, fun c' c'' a' n n' hc' hc'' => ?_,
    fun c' a' n hc' => ?_⟩
  · rcases callers_setCaller hc' with ⟨-, heq⟩ | ⟨-, hc'⟩
    · cases heq
      exact ⟨hcreated, hnot, t, ht, rfl⟩
    · exact h.created c' a' n hc'
  · rcases callers_setCaller hc' with ⟨rfl, heq⟩ | ⟨-, hc'⟩
    · cases heq
      rcases callers_setCaller hc'' with ⟨rfl, -⟩ | ⟨-, hc''⟩
      · rfl
      · exact absurd hc'' (hfree c'' n')
    · rcases callers_setCaller hc'' with ⟨-, heq⟩ | ⟨-, hc''⟩
      · cases heq
        exact absurd hc' (hfree c' n)
      · exact h.unique c' c'' a' n n' hc' hc''
  · rcases callers_setCaller hc' with ⟨-, heq⟩ | ⟨-, hc'⟩
    · cases heq
    · exact h.enqueued c' a' n hc'

/-- A thread has handed its timer over. -/
theorem Inv.enqueue (h : s.Inv) {a : Addr} {n : Nat} (hc : s.callers c = .created a n) :
    Inv { s.setCaller c (.enqueued a n) with functors := s.functors ++ [.addTimerInLoop a] } := by
  obtain ⟨hcreated, hnot, t, ht, hseq⟩ := h.created c a n hc
  have hadds : adds { s.setCaller c (.enqueued a n) with
      functors := s.functors ++ [.addTimerInLoop a] } = s.adds ++ [a] := List.filterMap_append
  have hcaller : ∀ c' a' n', (s.setCaller c (.enqueued a n)).callers c' = .created a' n' →
      s.callers c' = .created a' n' ∧ c' ≠ c := by
    intro c' a' n' hc'
    rcases callers_setCaller hc' with ⟨-, hpc⟩ | ⟨hne, hpc⟩
    · cases hpc
    · exact ⟨hpc, hne⟩
  refine ⟨h.owned, ?_, fun a' ha' => ?_, fun c' a' n' hc' => ?_, fun c' c'' a' n₁ n₂ hc' hc'' => ?_,
    fun c' a' n' hc' => ?_⟩
  · rw [hadds, List.nodup_append]
    refine ⟨h.adds_nodup, List.nodup_singleton _, fun x hx y hy hxy => ?_⟩
    rw [List.mem_singleton.mp hy] at hxy
    exact hnot (hxy ▸ hx)
  · rw [hadds] at ha'
    rcases List.mem_append.mp ha' with ha' | ha'
    · exact h.adds_created a' ha'
    · rw [List.mem_singleton.mp ha']
      exact hcreated
  · obtain ⟨hpc, hne⟩ := hcaller c' a' n' hc'
    obtain ⟨hcreated', hnot', htimer⟩ := h.created c' a' n' hpc
    refine ⟨hcreated', ?_, htimer⟩
    rw [hadds, List.mem_append, not_or, List.mem_singleton]
    refine ⟨hnot', ?_⟩
    -- two threads do not make a timer at the same address
    rintro rfl
    exact hne (h.unique c' c a' n' n hpc hc)
  · exact h.unique c' c'' a' n₁ n₂ (hcaller _ _ _ hc').1 (hcaller _ _ _ hc'').1
  · rcases callers_setCaller hc' with ⟨-, hpc⟩ | ⟨-, hc'⟩
    · cases hpc
      exact .inr ⟨t, ht, hseq⟩
    · exact h.enqueued c' a' n' hc'

omit [DecidableEq T] in
/-- `new Timer` in the queue of timers: the address was free, so nobody else has it. -/
theorem Inv.onTimers_create (h : s.Inv) {a : Addr} {w : Timestamp} {i : Int} {r : Bool}
    (hact : s.timers.Enabled (.create a w i r)) :
    (s.onTimers (.create a w i r)).Sat fun s' => s'.Inv ∧ s'.returned = s.returned ∧
      a ∈ s'.timers.created ∧ a ∉ s'.adds ∧ (∀ c n, s'.callers c ≠ .created a n) ∧
      s'.timers.queue.heap a = some ⟨w, i, r, s'.timers.numCreated⟩ := by
  obtain ⟨own, howned⟩ := h.owned
  -- a timer on its way is on the heap
  have hfree : a ∉ s.timers.created := by
    intro hin
    obtain ⟨t, ht⟩ := howned.indexed.exists_timer ((howned.waiting a).mp hin)
    rw [hact.1] at ht
    cases ht
  refine (h.onTimers_sat _ hact nofun).mono ?_
  rintro s' ⟨hinv, hfunctors, hcallers, hreturned, hexec⟩
  have htimers := Except.ok.inj hexec
  refine ⟨hinv, hreturned, ?_, ?_, fun c n hc => ?_, ?_⟩
  · rw [← htimers]
    exact Finset.mem_insert_self _ _
  · rw [adds, hfunctors]
    exact fun hin => hfree (h.adds_created a hin)
  · rw [hcallers] at hc
    exact hfree (h.created c a n hc).1
  · rw [← htimers]
    exact Heap.set_same

/-- What `addTimer` in the loop thread returns is the id of the timer it has made. -/
theorem Inv.addTimer_sat (h : s.Inv) {a : Addr} {w : Timestamp} {i : Int} {r : Bool}
    (hact : s.timers.Enabled (.create a w i r)) :
    (s.exec (.addTimer a w i r)).Sat fun s' => s'.Inv ∧
      ∃ n, s'.returned = s.returned ++ [⟨n, ⟨a, n⟩⟩] := by
  refine (h.onTimers_create hact).bind ?_
  rintro s₁ ⟨h₁, hreturned, hcreated, hnot, hfree, hheap⟩
  refine (h₁.onTimers_sat (.addTimerInLoop a) hcreated ?_).bind ?_
  · rintro _ ⟨⟩
    exact ⟨hnot, hfree⟩
  rintro s₂ ⟨h₂, -, -, hreturned₂, hexec⟩
  obtain ⟨own, howned⟩ := h₁.owned
  obtain ⟨q, hq, hret⟩ := Checked.bind_eq_ok.mp hexec
  have hown : own a ≠ some .pending := by
    rw [(howned.waiting a).mp hcreated]
    exact nofun
  obtain ⟨-, hheap₂, -⟩ := (howned.indexed.addTimerInLoop_sat hheap hown).of_eq_ok hq
  have htimers := Except.ok.inj hret
  have hget : s₂.timers.queue.heap a = some ⟨w, i, r, s₁.timers.numCreated⟩ := by
    rw [← htimers]
    exact (congrFun hheap₂ a).trans hheap
  rw [Heap.get_of_eq hget]
  refine .ok ⟨h₂.congr_returned _, s₁.timers.numCreated, ?_⟩
  rw [hreturned₂, hreturned]

/-- The loop calls the next functor. -/
theorem Inv.runFunctor_sat (h : s.Inv) {f : TimerFunctor} {fs : List TimerFunctor}
    (hf : s.functors = f :: fs) :
    (s.exec .runFunctor).Sat fun s' => s'.Inv ∧ s'.returned = s.returned ∧
      s.timers.exec f.step = .ok s'.timers := by
  have hpop : Inv { s with functors := fs } := by
    have hsub : adds { s with functors := fs } ⊆ s.adds := by
      intro a ha
      rw [adds, hf]
      exact List.mem_filterMap.mpr ((List.mem_filterMap.mp ha).imp fun g hg =>
        ⟨List.mem_cons_of_mem _ hg.1, hg.2⟩)
    have hnodup : (adds { s with functors := fs }).Nodup := by
      refine h.adds_nodup.sublist ?_
      rw [adds, adds, hf]
      exact (List.sublist_cons_self f fs).filterMap _
    refine ⟨h.owned, hnodup, fun a ha => h.adds_created a (hsub ha), fun c a n hc => ?_, h.unique,
      h.enqueued⟩
    obtain ⟨hcreated, hnot, htimer⟩ := h.created c a n hc
    exact ⟨hcreated, fun hin => hnot (hsub hin), htimer⟩
  simp only [exec, hf]
  cases f with
  | cancelInLoop id =>
      refine (hpop.onTimers_sat (.cancelInLoop id) trivial nofun).mono ?_
      exact fun s' hs' => ⟨hs'.1, hs'.2.2.2.1, hs'.2.2.2.2⟩
  | addTimerInLoop a =>
      have hadds : s.adds = a :: adds { s with functors := fs } := by
        rw [adds, hf]
        rfl
      have hnot := (List.nodup_cons.mp (hadds ▸ h.adds_nodup)).1
      have ha : a ∈ s.adds := by
        rw [hadds]
        exact List.mem_cons_self
      refine (hpop.onTimers_sat (.addTimerInLoop a) (h.adds_created a ha) ?_).mono ?_
      · rintro _ ⟨⟩
        exact ⟨hnot, fun c n hc => (h.created c a n hc).2.1 ha⟩
      · exact fun s' hs' => ⟨hs'.1, hs'.2.2.2.1, hs'.2.2.2.2⟩

/-- The number of a timer that was handed over is read exactly if the timer has not been deleted. -/
theorem Inv.readSequence_iff (h : s.Inv) {a : Addr} {n : Nat} (hc : s.callers c = .enqueued a n) :
    (∃ s', s.exec (.readSequence c) = .ok s' ∧ s'.returned = s.returned ++ [⟨n, ⟨a, n⟩⟩]) ↔
      n ∉ s.timers.queue.deleted := by
  obtain ⟨own, howned⟩ := h.owned
  simp only [exec, hc]
  constructor
  · rintro ⟨s', hexec, hreturned⟩ hdel
    obtain ⟨t, ht, hret⟩ := Checked.bind_eq_ok.mp hexec
    cases hret
    have hid := List.append_cancel_left hreturned
    have hseq : t.sequence = n := by simpa using hid
    exact (howned.census.gone n hdel).2 a t (Heap.get_eq_ok.mp ht) hseq
  · intro hnot
    rcases h.enqueued c a n hc with hdel | ⟨t, ht, hseq⟩
    · exact absurd hdel hnot
    · refine ⟨{ s.setCaller c .idle with returned := s.returned ++ [⟨n, ⟨a, n⟩⟩] }, ?_, rfl⟩
      rw [Heap.get_of_eq ht, ← hseq]
      rfl

/-- What the loop has to do to delete the timer with the number `n` at the address `a`: the functor that it
calls is a `cancelInLoop` for this timer, or its own code calls that, while the timer is pending; or a
`handleRead` ends that has run the timer and does not restart it. -/
def Deletes (s : TimerThreads T) (a : Addr) (n : Nat) : ThreadsStep T → Prop
  | .runFunctor => ∃ f ∈ s.functors.head?, s.timers.Deletes a n f.step
  | .cancelInLoop timerId => s.timers.Deletes a n (.cancelInLoop timerId)
  | .reset => s.timers.Deletes a n .reset
  | _ => False

/-- Between `runInLoop` and the read of the number in `addTimer` the loop deletes no timer. -/
def InTime (s : TimerThreads T) (act : ThreadsStep T) : Prop :=
  ∀ c a n, s.callers c = .enqueued a n → ¬ s.Deletes a n act

omit [DecidableEq T] in
/-- A step of the queue of timers alone. -/
theorem Inv.onTimers_fate (h : s.Inv) (act : TimerStep) (hact : s.timers.Enabled act)
    (hexec : s.onTimers act = .ok s') (a : Addr) (n : Nat) :
    TimerState.Fate s.timers s'.timers a n (s.timers.Deletes a n act) := by
  obtain ⟨own, howned⟩ := h.owned
  obtain ⟨timers, htimers, hret⟩ := Checked.bind_eq_ok.mp hexec
  cases hret
  exact howned.fate hact htimers a n

/-- **What becomes of a timer in a step.** A step deletes the timers that it is said to delete, and no
others. -/
theorem Inv.fate (h : s.Inv) {act : ThreadsStep T} (hact : s.Enabled act) (hexec : s.exec act = .ok s')
    (a : Addr) (n : Nat) : TimerState.Fate s.timers s'.timers a n (s.Deletes a n act) := by
  cases act with
  | create c timer w i r =>
      obtain ⟨s₁, hs₁, hret⟩ := Checked.bind_eq_ok.mp hexec
      cases hret
      exact h.onTimers_fate _ hact.2 hs₁ a n
  | enqueue c =>
      obtain ⟨timer, number, hc⟩ := hact
      simp only [exec, hc] at hexec
      cases hexec
      exact .refl _ a n
  | readSequence c =>
      obtain ⟨timer, number, hc⟩ := hact
      simp only [exec, hc] at hexec
      obtain ⟨t, -, hret⟩ := Checked.bind_eq_ok.mp hexec
      cases hret
      exact .refl _ a n
  | cancel id =>
      cases hexec
      exact .refl _ a n
  | runFunctor =>
      obtain ⟨f, fs, hf⟩ := List.exists_cons_of_ne_nil hact.1
      obtain ⟨own, howned⟩ := h.owned
      obtain ⟨-, -, htimers⟩ := (h.runFunctor_sat hf).of_eq_ok hexec
      have henabled : s.timers.Enabled f.step := by
        cases f with
        | cancelInLoop id => trivial
        | addTimerInLoop timer =>
            refine h.adds_created timer ?_
            rw [adds, hf]
            exact List.mem_cons_self
      have hdeletes : s.Deletes a n .runFunctor ↔ s.timers.Deletes a n f.step := by
        simp [Deletes, hf]
      rw [hdeletes]
      exact howned.fate henabled htimers a n
  | addTimer timer w i r =>
      obtain ⟨s₁, hs₁, hexec⟩ := Checked.bind_eq_ok.mp hexec
      obtain ⟨h₁, -, hcreated, -⟩ := (h.onTimers_create hact).of_eq_ok hs₁
      obtain ⟨s₂, hs₂, hexec⟩ := Checked.bind_eq_ok.mp hexec
      obtain ⟨t, -, hret⟩ := Checked.bind_eq_ok.mp hexec
      cases hret
      exact (h.onTimers_fate (.create timer w i r) hact hs₁ a n).trans
        (h₁.onTimers_fate (.addTimerInLoop timer) hcreated hs₂ a n)
  | cancelInLoop id => exact h.onTimers_fate (.cancelInLoop id) hact hexec a n
  | expire now => exact h.onTimers_fate (.expire now) hact hexec a n
  | run => exact h.onTimers_fate .run hact hexec a n
  | reset => exact h.onTimers_fate .reset hact hexec a n

/-- No thread that is about to read the number of its timer is too late. -/
def Alive (s : TimerThreads T) : Prop :=
  ∀ c a n, s.callers c = .enqueued a n → n ∉ s.timers.queue.deleted

/-- **One step** succeeds and keeps the invariant, if it does not read the number of a deleted timer, and an id
that is returned is the right one. -/
theorem Inv.exec_sat (h : s.Inv) {act : ThreadsStep T} (hact : s.Enabled act)
    (halive : ∀ c, act = .readSequence c → s.Alive) :
    (s.exec act).Sat fun s' => s'.Inv ∧
      (s'.returned = s.returned ∨ ∃ a n, s'.returned = s.returned ++ [⟨n, ⟨a, n⟩⟩]) := by
  cases act with
  | create c a w i r =>
      refine (h.onTimers_create hact.2).bind ?_
      rintro s₁ ⟨h₁, hreturned, hcreated, hnot, hfree, hheap⟩
      exact .ok ⟨h₁.setCaller_created c hheap hcreated hnot hfree, .inl hreturned⟩
  | enqueue c =>
      obtain ⟨a, n, hc⟩ := hact
      simp only [exec, hc]
      exact .ok ⟨h.enqueue hc, .inl rfl⟩
  | readSequence c =>
      obtain ⟨a, n, hc⟩ := hact
      obtain ⟨s', hexec, hreturned⟩ := (h.readSequence_iff hc).mpr (halive c rfl c a n hc)
      refine ⟨s', hexec, ?_, .inr ⟨a, n, hreturned⟩⟩
      simp only [exec, hc] at hexec
      obtain ⟨t, -, hret⟩ := Checked.bind_eq_ok.mp hexec
      cases hret
      exact (h.setCaller_idle c).congr_returned _
  | cancel id =>
      have hadds : adds { s with functors := s.functors ++ [.cancelInLoop id] } = s.adds := by
        rw [adds, List.filterMap_append]
        exact List.append_nil _
      refine .ok ⟨⟨h.owned, hadds ▸ h.adds_nodup, hadds ▸ h.adds_created, fun c a n hc => ?_, h.unique,
        h.enqueued⟩, .inl rfl⟩
      rw [hadds]
      exact h.created c a n hc
  | runFunctor =>
      obtain ⟨f, fs, hf⟩ := List.exists_cons_of_ne_nil hact.1
      exact (h.runFunctor_sat hf).mono fun s' hs' => ⟨hs'.1, .inl hs'.2.1⟩
  | addTimer a w i r =>
      exact (h.addTimer_sat hact).mono fun s' hs' => ⟨hs'.1, .inr ⟨a, hs'.2⟩⟩
  | cancelInLoop id =>
      exact (h.onTimers_sat (.cancelInLoop id) hact nofun).mono fun s' hs' => ⟨hs'.1, .inl hs'.2.2.2.1⟩
  | expire now =>
      exact (h.onTimers_sat (.expire now) hact nofun).mono fun s' hs' => ⟨hs'.1, .inl hs'.2.2.2.1⟩
  | run => exact (h.onTimers_sat .run hact nofun).mono fun s' hs' => ⟨hs'.1, .inl hs'.2.2.2.1⟩
  | reset => exact (h.onTimers_sat .reset hact nofun).mono fun s' hs' => ⟨hs'.1, .inl hs'.2.2.2.1⟩

/-- A step that succeeds keeps the invariant, even one that reads too late. -/
theorem Inv.step (h : s.Inv) {act : ThreadsStep T} (hact : s.Enabled act) (hexec : s.exec act = .ok s') :
    s'.Inv := by
  by_cases hread : ∃ c, act = .readSequence c
  · obtain ⟨c, rfl⟩ := hread
    obtain ⟨a, n, hc⟩ := hact
    simp only [exec, hc] at hexec
    obtain ⟨t, -, hret⟩ := Checked.bind_eq_ok.mp hexec
    cases hret
    exact (h.setCaller_idle c).congr_returned _
  · exact ((h.exec_sat hact fun c heq => absurd ⟨c, heq⟩ hread).of_eq_ok hexec).1

omit [DecidableEq T] in
/-- A step of the queue of timers moves no thread. -/
theorem callers_onTimers {act : TimerStep} (hexec : s.onTimers act = .ok s') : s'.callers = s.callers := by
  obtain ⟨timers, -, hret⟩ := Checked.bind_eq_ok.mp hexec
  cases hret
  rfl

/-- A thread that is about to read was so before the step, or has just handed its timer over. -/
theorem callers_of_exec {act : ThreadsStep T} (hact : s.Enabled act) (hexec : s.exec act = .ok s') {c : T}
    {a : Addr} {n : Nat} (hc : s'.callers c = .enqueued a n) :
    s.callers c = .enqueued a n ∨ s.callers c = .created a n ∧ s'.timers = s.timers := by
  cases act with
  | create c' timer w i r =>
      obtain ⟨s₁, hs₁, hret⟩ := Checked.bind_eq_ok.mp hexec
      cases hret
      rcases callers_setCaller hc with ⟨-, hpc⟩ | ⟨-, hpc⟩
      · cases hpc
      · exact .inl (callers_onTimers hs₁ ▸ hpc)
  | enqueue c' =>
      obtain ⟨timer, number, hc'⟩ := hact
      simp only [exec, hc'] at hexec
      cases hexec
      rcases callers_setCaller hc with ⟨rfl, hpc⟩ | ⟨-, hpc⟩
      · cases hpc
        exact .inr ⟨hc', rfl⟩
      · exact .inl hpc
  | readSequence c' =>
      obtain ⟨timer, number, hc'⟩ := hact
      simp only [exec, hc'] at hexec
      obtain ⟨t, -, hret⟩ := Checked.bind_eq_ok.mp hexec
      cases hret
      rcases callers_setCaller hc with ⟨-, hpc⟩ | ⟨-, hpc⟩
      · cases hpc
      · exact .inl hpc
  | cancel id =>
      cases hexec
      exact .inl hc
  | runFunctor =>
      obtain ⟨f, fs, hf⟩ := List.exists_cons_of_ne_nil hact.1
      simp only [exec, hf] at hexec
      exact .inl (callers_onTimers hexec ▸ hc)
  | addTimer timer w i r =>
      obtain ⟨s₁, hs₁, hexec⟩ := Checked.bind_eq_ok.mp hexec
      obtain ⟨s₂, hs₂, hexec⟩ := Checked.bind_eq_ok.mp hexec
      obtain ⟨t, -, hret⟩ := Checked.bind_eq_ok.mp hexec
      cases hret
      have hsame : s₂.callers = s.callers := (callers_onTimers hs₂).trans (callers_onTimers hs₁)
      exact .inl (hsame ▸ hc)
  | cancelInLoop id => exact .inl (callers_onTimers hexec ▸ hc)
  | expire now => exact .inl (callers_onTimers hexec ▸ hc)
  | run => exact .inl (callers_onTimers hexec ▸ hc)
  | reset => exact .inl (callers_onTimers hexec ▸ hc)

/-- While the loop is in time, no thread comes too late. -/
theorem Alive.step (halive : s.Alive) (h : s.Inv) {act : ThreadsStep T} (hact : s.Enabled act)
    (htime : s.InTime act) (hexec : s.exec act = .ok s') : s'.Alive := by
  intro c a n hc
  rcases callers_of_exec hact hexec hc with hc | ⟨hc, htimers⟩
  · exact (h.fate hact hexec a n (h.enqueued c a n hc)).2.mpr ⟨halive c a n hc, htime c a n hc⟩
  · obtain ⟨own, howned⟩ := h.owned
    obtain ⟨-, -, t, ht, hseq⟩ := h.created c a n hc
    rw [htimers]
    exact fun hdel => (howned.census.gone n hdel).2 a t ht hseq

/-- The invariant holds at the start. -/
theorem inv_of_init (h : (addTimerThreads T).init s) : s.Inv := by
  obtain ⟨htimers, hfunctors, hcallers, -⟩ := h
  have hadds : s.adds = [] := by
    rw [adds, hfunctors]
    rfl
  refine ⟨⟨_, htimers ▸ TimerState.Owned.of_new⟩, by simp [hadds], by simp [hadds], fun c a n hc => ?_,
    fun c c' a n n' hc => ?_, fun c a n hc => ?_⟩ <;>
  · rw [hcallers c] at hc
    cases hc

/-- The invariant holds in every reachable state. -/
theorem inv_of_reachable (hs : (addTimerThreads T).Reachable s) : s.Inv :=
  hs.induction (fun _ => inv_of_init) fun _ _ _ h hact hexec => h.step hact hexec

/-- What a cancelling functor deletes is the timer with the number in its id. -/
theorem Inv.deleted_runFunctor (h : s.Inv) {id : TimerId} {fs : List TimerFunctor}
    (hf : s.functors = .cancelInLoop id :: fs) (hexec : s.exec .runFunctor = .ok s') {m : Nat}
    (hm : m ∈ s'.timers.queue.deleted) : m ∈ s.timers.queue.deleted ∨ m = id.sequence := by
  obtain ⟨own, howned⟩ := h.owned
  obtain ⟨-, -, htimers⟩ := (h.runFunctor_sat hf).of_eq_ok hexec
  obtain ⟨q, hq, hret⟩ := Checked.bind_eq_ok.mp htimers
  rw [← Except.ok.inj hret] at hm
  rcases (howned.indexed.cancelInLoop_sat id).of_eq_ok hq with
    ⟨_, -, -, -, -, -, -, -, hlog⟩ | ⟨-, rfl⟩
  · have hnotes : q.log = s.timers.queue.log ++ [id.sequence].map .deleted := hlog
    have hdeleted := deleted_of_log hnotes
    dsimp only at hm
    rw [hdeleted, List.mem_append, List.mem_singleton] at hm
    exact hm
  · exact .inl hm

end

end TimerThreads

open TimerThreads in
/-- **When `addTimer` returns the right id.** A thread has made the timer `n` at `a` and hands it over to the
loop; then the loop and the other threads do what they want, until the thread reads the number. It reads the
number of its timer exactly if none of these steps was a call of `cancelInLoop` with the id of the pending timer
or the end of a `handleRead` that has run the timer and does not restart it. On the runs on which no such step
comes in between, no step uses a deleted timer, every id returned has the number of the timer it was made for,
and calling a functor that cancels such an id deletes no other timer. -/
theorem addTimer_ids_right (T : Type) [DecidableEq T] :
    (∀ s : TimerThreads T, (addTimerThreads T).Reachable s → ∀ c a n, s.callers c = .created a n →
      ∀ s₁, s.exec (.enqueue c) = .ok s₁ → ∀ as t, (addTimerThreads T).Run s₁ as t →
        t.callers c = .enqueued a n →
        ((∃ t', t.exec (.readSequence c) = .ok t' ∧ t'.returned = t.returned ++ [⟨n, ⟨a, n⟩⟩]) ↔
          ((addTimerThreads T).restrict fun u act => ¬ u.Deletes a n act).Run s₁ as t)) ∧
    ∀ s : TimerThreads T, ((addTimerThreads T).restrict InTime).Reachable s →
      ((addTimerThreads T).restrict InTime).Safe s ∧
      (∀ r ∈ s.returned, r.id.sequence = r.number) ∧
      ∀ r ∈ s.returned, ∀ fs s', s.functors = .cancelInLoop r.id :: fs →
        s.exec .runFunctor = .ok s' →
        ∀ m ∈ s'.timers.queue.deleted, m ∈ s.timers.queue.deleted ∨ m = r.number := by
  refine ⟨fun s hs c a n hc s₁ hs₁ as t hrun hread => ?_, fun s hs => ?_⟩
  · have hreach : (addTimerThreads T).Reachable s₁ := hs.step (a := .enqueue c) ⟨a, n, hc⟩ hs₁
    obtain ⟨own, howned⟩ := (inv_of_reachable hs).owned
    obtain ⟨-, -, u, hu, hseq⟩ := (inv_of_reachable hs).created c a n hc
    have htimers : s₁.timers = s.timers := by
      simp only [exec, hc] at hs₁
      cases hs₁
      rfl
    have halive : n ∉ s₁.timers.queue.deleted := by
      rw [htimers]
      exact fun hdel => (howned.census.gone n hdel).2 a u hu hseq
    rw [(inv_of_reachable (hreach.run hrun)).readSequence_iff hread]
    refine hrun.kept_iff (P := fun s => n ∉ s.timers.queue.deleted)
      (Q := fun s => s.Inv ∧ s.timers.Traced a n) (fun s act s' hQ hact hexec => ?_)
      ⟨inv_of_reachable hreach, .inr ⟨u, htimers ▸ hu, hseq⟩⟩ halive
    obtain ⟨htraced, hiff⟩ := hQ.1.fate hact hexec a n hQ.2
    exact ⟨⟨hQ.1.step hact hexec, htraced⟩, hiff⟩
  have hboth : (s.Inv ∧ s.Alive ∧ ∀ r ∈ s.returned, r.id.sequence = r.number) ∧
      ((addTimerThreads T).restrict InTime).Safe s := by
    refine Machine.invariant
      (P := fun s => s.Inv ∧ s.Alive ∧ ∀ r ∈ s.returned, r.id.sequence = r.number) ?_ ?_ hs
    · intro s hinit
      refine ⟨inv_of_init hinit, fun c a n hc => ?_, ?_⟩
      · rw [hinit.2.2.1 c] at hc
        cases hc
      · rw [hinit.2.2.2]
        exact nofun
    · rintro s act ⟨hinv, halive, hright⟩ ⟨hact, htime⟩
      obtain ⟨s', hexec, hinv', hreturned⟩ := hinv.exec_sat hact fun _ _ => halive
      refine ⟨s', hexec, hinv', halive.step hinv hact htime hexec, ?_⟩
      rcases hreturned with hreturned | ⟨a, n, hreturned⟩
      · exact hreturned ▸ hright
      · rw [hreturned]
        exact List.forall_mem_append.mpr ⟨hright, List.forall_mem_singleton.mpr rfl⟩
  obtain ⟨⟨hinv, -, hright⟩, hsafe⟩ := hboth
  refine ⟨hsafe, hright, fun r hr fs s' hf hexec m hm => ?_⟩
  rw [← hright r hr]
  exact hinv.deleted_runFunctor hf hexec hm

/-! ## A timer that is gone before its number is read -/

/-- One thread has made a timer that is due at once. -/
def madeTimer : TimerThreads Unit :=
  { timers :=
      { TimerState.new with
        queue := { TimerQueue.new with heap := Heap.empty.set 16 ⟨5, 0, false, 1⟩ }
        numCreated := 1
        created := Insert.insert 16 ∅ }
    functors := []
    callers := fun _ => .created 16 1
    returned := [] }

/-- The thread has handed it over, and the loop is about to add it. -/
def handedOver : TimerThreads Unit :=
  { madeTimer with functors := [.addTimerInLoop 16], callers := fun _ => .enqueued 16 1 }

/-- The loop adds the timer. -/
theorem handedOver_runFunctor :
    handedOver.exec .runFunctor = .ok { handedOver with timers := oneTimer, functors := [] } := by
  refine TimerThreads.onTimers_of_eq (s := { handedOver with functors := [] }) ?_
  simp [TimerState.exec, TimerState.new, TimerQueue.addTimerInLoop, TimerQueue.insert, handedOver, madeTimer,
    TimerFunctor.step, TimerQueue.assertSizes, TimerQueue.begin?, assert, TimerQueue.new, oneTimer, Heap.get,
    TimerQueue.note]

/-- It gets there, and no timer is deleted on the way. -/
theorem madeTimer_reachable : ((addTimerThreads Unit).restrict TimerThreads.InTime).Reachable madeTimer := by
  have hinit : ((addTimerThreads Unit).restrict TimerThreads.InTime).Reachable
      ⟨TimerState.new, [], fun _ => .idle, []⟩ := .of_init ⟨rfl, rfl, fun _ => rfl, rfl⟩
  exact hinit.step (a := ThreadsStep.create () 16 5 0 false)
    ⟨⟨rfl, rfl, by decide⟩, fun _ _ _ _ hdeletes => hdeletes⟩ rfl

/-- The call that adds the timer deletes none. -/
theorem handedOver_spares (a : Addr) (n : Nat) : ¬ handedOver.Deletes a n .runFunctor := by
  rintro ⟨f, hf, hdeletes⟩
  cases hf
  exact hdeletes

/-- If the thread reads before the timer is run, it gets the right id, also when the loop has added the timer by
then; and when it cancels the timer, nothing else is deleted. -/
theorem addTimer_ids_right_added : ∃ s t u,
    (addTimerThreads Unit).Run handedOver [.runFunctor] s ∧ s.timers.queue.activeTimers = {(16, 1)} ∧
    s.exec (.readSequence ()) = .ok t ∧ t.returned = [⟨1, ⟨16, 1⟩⟩] ∧
    t.exec (.cancel ⟨16, 1⟩) = .ok u ∧ u.functors = [.cancelInLoop ⟨16, 1⟩] ∧
    ∀ v, u.exec .runFunctor = .ok v → ∀ m ∈ v.timers.queue.deleted, m = 1 := by
  obtain ⟨hread, hright⟩ := addTimer_ids_right Unit
  have hadd : (addTimerThreads Unit).enabled handedOver .runFunctor := ⟨List.cons_ne_nil _ _, rfl⟩
  obtain ⟨t, ht, hreturned⟩ := (hread madeTimer madeTimer_reachable.of_restrict () 16 1 rfl handedOver rfl
    [.runFunctor] _ (.single hadd handedOver_runFunctor) rfl).mpr
      (.single ⟨hadd, handedOver_spares 16 1⟩ handedOver_runFunctor)
  -- the same steps as a run on which no timer is deleted too early
  have hhanded := madeTimer_reachable.step (a := ThreadsStep.enqueue ())
    ⟨⟨16, 1, rfl⟩, fun _ _ _ _ hdeletes => hdeletes⟩ (rfl : madeTimer.exec (.enqueue ()) = .ok handedOver)
  have hadded := hhanded.step (a := ThreadsStep.runFunctor)
    ⟨hadd, fun _ a n _ => handedOver_spares a n⟩ handedOver_runFunctor
  have hback := hadded.step (a := ThreadsStep.readSequence ())
    ⟨⟨16, 1, rfl⟩, fun _ _ _ _ hdeletes => hdeletes⟩ ht
  have hcancel := hback.step (a := ThreadsStep.cancel ⟨16, 1⟩)
    ⟨trivial, fun _ _ _ _ hdeletes => hdeletes⟩ rfl
  cases ht
  refine ⟨_, _, _, .single hadd handedOver_runFunctor, rfl, rfl, hreturned, rfl, rfl, fun v hv m hm => ?_⟩
  obtain ⟨-, -, honly⟩ := hright _ hcancel
  exact (honly ⟨1, ⟨16, 1⟩⟩ (List.mem_singleton_self _) [] v rfl hv m hm).resolve_left List.not_mem_nil

/-- The loop has added it, has called it and has deleted it. -/
def firedTimers : TimerState :=
  { queue :=
      { TimerQueue.new with
        heap := oneTimer.queue.heap.erase 16
        log := oneTimer.queue.log ++ [.started 1, .deleted 1] }
    numCreated := 1
    created := ∅
    batch := none }

/-- The loop has run the timer, and `addTimer` has not returned its id. -/
def firedEarly : TimerThreads Unit := { handedOver with timers := firedTimers, functors := [] }

/-- A run with a timer that fires at once leads there. -/
theorem firedEarly_reachable : (addTimerThreads Unit).Reachable firedEarly := by
  have hhanded : (addTimerThreads Unit).Reachable handedOver :=
    madeTimer_reachable.of_restrict.step (a := ThreadsStep.enqueue ()) ⟨16, 1, rfl⟩ rfl
  have hadded := hhanded.step (a := ThreadsStep.runFunctor) ⟨List.cons_ne_nil _ _, rfl⟩ handedOver_runFunctor
  have hexpired := hadded.step (a := ThreadsStep.expire 5) rfl
    (TimerThreads.onTimers_of_eq oneTimer_expire)
  have hrun := hexpired.step (a := ThreadsStep.run) ⟨_, rfl, List.cons_ne_nil _ _⟩ rfl
  refine hrun.step (a := ThreadsStep.reset) ⟨_, rfl, rfl⟩ (TimerThreads.onTimers_of_eq ?_)
  simp [TimerState.exec, oneExpired, firedTimers, oneTimer, TimerQueue.reset, TimerQueue.restartAll,
    TimerQueue.begin?, TimerQueue.note, TimerQueue.new, Heap.get, Heap.free, Heap.set]

/-- The loop thread has made a timer at the same address, and it waits in the queue. -/
def reusedTimers : TimerState :=
  { queue :=
      { TimerQueue.new with
        heap := firedTimers.queue.heap.set 16 ⟨9, 0, false, 2⟩
        timers := {Entry.of 9 16}
        activeTimers := {(16, 2)}
        log := firedTimers.queue.log ++ [.added ⟨16, 2⟩, .resetTimerfd 9] }
    numCreated := 2
    created := ∅
    batch := none }

/-- The address of the first timer has been given to a second one before the thread reads the number. -/
def reusedAddress : TimerThreads Unit :=
  { firedEarly with timers := reusedTimers, returned := [⟨2, ⟨16, 2⟩⟩] }

/-- A run with one address used twice leads there. -/
theorem reusedAddress_reachable : (addTimerThreads Unit).Reachable reusedAddress := by
  refine firedEarly_reachable.step (a := ThreadsStep.addTimer 16 9 0 false) ⟨rfl, by decide⟩ ?_
  simp [addTimerThreads, TimerThreads.exec, TimerThreads.onTimers, TimerState.exec, firedEarly, handedOver,
    madeTimer, firedTimers, reusedTimers, reusedAddress, TimerQueue.addTimerInLoop, TimerQueue.insert,
    TimerQueue.assertSizes, TimerQueue.begin?, assert, TimerQueue.new, oneTimer, Heap.get, TimerQueue.note]

/-- A thread adds a timer that is due at once, and the loop adds, calls and deletes it before the thread
reads its number: the thread reads a deleted timer. If the loop has made another timer at the address by
then, the thread gets the id of that timer, and its `cancel` deletes it while it waits in the queue. -/
theorem addTimer_reads_deleted :
    (addTimerThreads Unit).Reachable firedEarly ∧ firedEarly.callers () = .enqueued 16 1 ∧
    firedEarly.exec (.readSequence ()) = .error "use after delete" ∧
    (addTimerThreads Unit).Reachable reusedAddress ∧ reusedAddress.callers () = .enqueued 16 1 ∧
    ∃ s, (addTimerThreads Unit).Run reusedAddress
        [.readSequence (), .cancel ⟨16, 2⟩, .runFunctor] s ∧
      s.returned = [⟨2, ⟨16, 2⟩⟩, ⟨1, ⟨16, 2⟩⟩] ∧ s.timers.queue.deleted = [1, 2] := by
  refine ⟨firedEarly_reachable, rfl, rfl, reusedAddress_reachable, rfl, ?_⟩
  have hread : (addTimerThreads Unit).Run reusedAddress [.readSequence ()] _ := .single ⟨16, 1, rfl⟩ rfl
  have hcancel := hread.trans (.single (a := ThreadsStep.cancel ⟨16, 2⟩) trivial rfl)
  have hrun := hcancel.trans (.single (a := ThreadsStep.runFunctor) ⟨List.cons_ne_nil _ _, rfl⟩ rfl)
  exact ⟨_, hrun, rfl, rfl⟩

end Muduo.Net
