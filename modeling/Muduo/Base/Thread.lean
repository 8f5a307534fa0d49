import Muduo.Base.CountDownLatch

/-! # `Thread::start`

`Thread::start()` of `base/Thread.cpp` and the beginning of the new thread in `ThreadData::runInThread()`: the
new thread stores its id in the `Thread` object, which the caller of `start()` owns, and counts down the
latch there; the caller waits for the latch. The latch is the one of `base/CountDownLatch.cpp`, statement by
statement. -/

namespace Muduo

open Support

/-- Where `start()` is. -/
inductive Starting where
  | notCalled
  /-- `latch_.wait()` -/
  | waiting
  | returned
  /-- `pthread_create` failed, and `LOG_SYSFATAL` aborts. -/
  | failed
  deriving DecidableEq, Repr

/-- Where the new thread is. -/
inductive NewThread where
  | notCreated
  | created
  /-- `*tid_` is written, and the latch comes next. -/
  | assigned
  /-- `latch_->countDown()` has returned. -/
  | running
  deriving DecidableEq, Repr

/-- The caller of `start()` waits, and the new thread counts down. -/
abbrev StartLatch := Guarded (Unit ⊕ Unit) Unit (CountDownLatch.Place Unit Unit) (CountDownLatch Unit Unit)

/-- A `Thread` object with the two threads that use it. -/
structure Thread where
  started : Bool
  joined : Bool
  tid : Int
  latch : StartLatch
  starting : Starting
  newThread : NewThread

namespace Thread

/-- A thread object before `start()`. -/
def new : Thread where
  started := false
  joined := false
  tid := 0
  latch := ⟨.new, .new 1, fun _ => .idle, fun _ => .outside⟩
  starting := .notCalled
  newThread := .notCreated

/-- The steps of the thread that calls `start()` and `join()`, and of the new thread. -/
inductive Step where
  /-- `start()` up to `latch_.wait()`. -/
  | start
  | startFails
  /-- `*tid_ = muduo::CurrentThread::tid()` -/
  | assignTid (tid : Int)
  /-- A step with the latch. -/
  | latch (a : Guarded.Step (Unit ⊕ Unit) Unit (CountDownLatch.Place Unit Unit))
  /-- `latch_->countDown()` has returned. -/
  | run
  /-- `start()` after `latch_.wait()`. -/
  | return
  | join

variable (s : Thread)

/-- What a step does, with the assertions of the source. -/
def exec : Step → Checked Thread
  | .start => do
      assert (s.started = false) "!started_"
      return { s with started := true, starting := .waiting, newThread := .created }
  | .startFails => do
      assert (s.started = false) "!started_"
      return { s with started := false, starting := .failed }
  | .assignTid tid => return { s with tid, newThread := .assigned }
  | .latch a => return { s with latch := ← s.latch.exec CountDownLatch.code a }
  | .run => return { s with newThread := .running }
  | .return => do
      assert (0 < s.tid) "tid_ > 0"
      return { s with starting := .returned }
  | .join => do
      assert (s.started = true) "started_"
      assert (s.joined = false) "!joined_"
      return { s with joined := true }

/-- The caller of `start()` calls `wait()` once, and the new thread `countDown()` after it has written its
id. -/
def Calls : Guarded.Step (Unit ⊕ Unit) Unit (CountDownLatch.Place Unit Unit) → Prop
  | .call (.inl _) _ => s.starting = .waiting ∧ s.latch.data.passed = []
  | .call (.inr _) _ => s.newThread = .assigned
  | _ => True

/-- When a step can happen. -/
def Enabled : Step → Prop
  | .start => s.starting = .notCalled
  | .startFails => s.starting = .notCalled
  -- the kernel's thread ids are positive
  | .assignTid tid => s.newThread = .created ∧ 0 < tid
  | .latch a => s.latch.Enabled CountDownLatch.code CountDownLatch.Entry a ∧ CountDownLatch.Once s.latch a ∧
      s.Calls a
  | .run => s.newThread = .assigned ∧ () ∈ s.latch.data.counted ∧ s.latch.pos (.inr ()) = .outside
  | .return => s.starting = .waiting ∧ () ∈ s.latch.data.passed ∧ s.latch.pos (.inl ()) = .outside
  -- `start()` has returned, and nobody has joined
  | .join => s.starting = .returned ∧ s.joined = false

end Thread

/-- A `Thread` object that is started. -/
def threadStart : Machine Thread Thread.Step where
  init s := s = .new
  enabled := Thread.Enabled
  exec := Thread.exec

namespace Thread

variable {s s' : Thread}

/-- The id is written before the latch is counted down, and `start()` returns after that. -/
structure Inv (s : Thread) : Prop where
  latch : ((countDownLatch Unit Unit 1).restrict CountDownLatch.Once).Reachable s.latch
  before : s.newThread = .notCreated ∨ s.newThread = .created →
    s.latch.data.counted = [] ∧ s.latch.pos (.inr ()) = .outside
  after : s.newThread = .assigned ∨ s.newThread = .running → 0 < s.tid
  running : s.newThread = .running → () ∈ s.latch.data.counted
  notCalled : s.starting = .notCalled → s.started = false ∧ s.newThread = .notCreated
  started : s.starting = .waiting ∨ s.starting = .returned → s.started = true
  returned : s.starting = .returned → () ∈ s.latch.data.passed

/-- The invariant holds at the start. -/
theorem Inv.new : Inv .new where
  latch := .of_init ⟨rfl, rfl, rfl, rfl⟩
  before _ := ⟨rfl, rfl⟩
  after := by rintro (h | h) <;> cases h
  running := nofun
  notCalled _ := ⟨rfl, rfl⟩
  started := by rintro (h | h) <;> cases h
  returned := nofun

/-- Once the caller is through `wait()`, the new thread has counted down and has left the latch. -/
theorem Inv.passed (h : s.Inv) (hpassed : () ∈ s.latch.data.passed) :
    (s.newThread = .assigned ∨ s.newThread = .running) ∧ () ∈ s.latch.data.counted ∧
      s.latch.pos (.inr ()) = .outside := by
  obtain ⟨hcounted, hpos⟩ := CountDownLatch.left_of_passed (K := Unit) h.latch (List.ne_nil_of_mem hpassed) ()
  refine ⟨?_, hcounted, hpos⟩
  cases hnew : s.newThread with
  | assigned => exact .inl rfl
  | running => exact .inr rfl
  | notCreated =>
      rw [(h.before (.inl hnew)).1] at hcounted
      cases hcounted
  | created =>
      rw [(h.before (.inr hnew)).1] at hcounted
      cases hcounted

/-- The latch of the thread is a latch of one count. -/
theorem Inv.reachable (h : s.Inv) : (countDownLatch Unit Unit 1).Reachable s.latch :=
  (CountDownLatch.countsOnce (K := Unit) h.latch).1

/-- A thread that has not called and does not call stays away from the latch. -/
theorem outside_of_latch {g g' : StartLatch} {a : Guarded.Step (Unit ⊕ Unit) Unit (CountDownLatch.Place Unit Unit)}
    (hout : g.pos (.inr ()) = .outside) (ha : g.Enabled CountDownLatch.code CountDownLatch.Entry a)
    (hcall : ∀ place, a ≠ .call (.inr ()) place) (hg' : g.exec CountDownLatch.code a = .ok g') :
    g'.pos (.inr ()) = .outside := by
  by_cases ha' : a.thread = .inr ()
  · rcases Guarded.enabled_of_outside ha (ha' ▸ hout) with ⟨t, place, rfl⟩ | ⟨t, c, rfl⟩
    · cases ha'
      exact absurd rfl (hcall place)
    · cases hg'
      exact hout
  · rw [Guarded.exec_pos hg' (Ne.symm ha'), hout]

/-- Every step of the latch keeps the invariant. -/
theorem Inv.latchStep (h : s.Inv) {a : Guarded.Step (Unit ⊕ Unit) Unit (CountDownLatch.Place Unit Unit)}
    (ha : s.Enabled (.latch a)) {latch : StartLatch} (hlatch : s.latch.exec CountDownLatch.code a = .ok latch) :
    Inv { s with latch } := by
  obtain ⟨henabled, honce, hcalls⟩ := ha
  obtain ⟨hcounted, hcounted', hpassed⟩ := CountDownLatch.exec_lists h.reachable hlatch
  refine ⟨h.latch.step ⟨henabled, honce⟩ hlatch, fun hnew => ?_, h.after, fun hrun => hcounted' (h.running hrun),
    h.notCalled, h.started, fun hret => hpassed (h.returned hret)⟩
  obtain ⟨hnil, hout⟩ := h.before hnew
  constructor
  · refine List.eq_nil_iff_forall_not_mem.mpr fun k hk => ?_
    rcases hcounted k hk with hk | hk
    · rw [hnil] at hk
      cases hk
    · rw [hout] at hk
      cases hk
  · refine outside_of_latch hout henabled ?_ hlatch
    rintro place rfl
    have hassigned : s.newThread = .assigned := hcalls
    rw [hassigned] at hnew
    rcases hnew with hnew | hnew <;> cases hnew

/-- Every step keeps the invariant, and no assertion fails. -/
theorem Inv.step (h : s.Inv) {a : Step} (ha : s.Enabled a) : (s.exec a).Sat Inv := by
  cases a with
  | start =>
      obtain ⟨hstarted, hnew⟩ := h.notCalled ha
      refine .assert hstarted (.ok ⟨h.latch, fun _ => h.before (.inl hnew), ?_, nofun, nofun, fun _ => rfl, nofun⟩)
      rintro (hnew | hnew) <;> cases hnew
  | startFails =>
      refine .assert (h.notCalled ha).1 (.ok ⟨h.latch, h.before, h.after, h.running, nofun, ?_, nofun⟩)
      rintro (hfailed | hfailed) <;> cases hfailed
  | assignTid tid =>
      obtain ⟨hnew, hpos⟩ := ha
      refine .ok ⟨h.latch, ?_, fun _ => hpos, nofun, fun hnot => ?_, h.started, h.returned⟩
      · rintro (hnew | hnew) <;> cases hnew
      · rw [(h.notCalled hnot).2] at hnew
        cases hnew
  | latch a =>
      obtain ⟨latch, hlatch⟩ := CountDownLatch.safe h.reachable a ha.1
      refine .bind ⟨latch, hlatch, rfl⟩ ?_
      rintro _ rfl
      exact .ok (h.latchStep ha hlatch)
  | run =>
      obtain ⟨hnew, hcounted, -⟩ := ha
      refine .ok ⟨h.latch, ?_, fun _ => h.after (.inl hnew), fun _ => hcounted, fun hnot => ?_, h.started, h.returned⟩
      · rintro (hnew | hnew) <;> cases hnew
      · rw [(h.notCalled hnot).2] at hnew
        cases hnew
  | «return» =>
      obtain ⟨hwaiting, hpassed, -⟩ := ha
      refine .assert (h.after (h.passed hpassed).1) (.ok ?_)
      exact ⟨h.latch, h.before, h.after, h.running, nofun, fun _ => h.started (.inl hwaiting), fun _ => hpassed⟩
  | join =>
      refine .assert (h.started (.inr ha.1)) (.assert ha.2 (.ok ?_))
      exact ⟨h.latch, h.before, h.after, h.running, h.notCalled, h.started, h.returned⟩

/-- The steps of the new thread that use the `Thread` object of the caller. -/
def UsedByNewThread : Step → Prop
  | .assignTid _ => True
  -- a wakeup is no step of a thread
  | .latch (.wake _ _) => False
  | .latch a => a.thread = .inr ()
  | _ => False

/-- **What `start()` has done when it returns.** In every order of the statements of the two threads: no
assertion fails, that of `tid_ > 0` included; when `start()` has returned, the new thread does not use the
`Thread` object any more, so that its owner may destroy it; and when the new thread is past its
`countDown()` while the latch is free, the caller is not left waiting. -/
theorem start_returned (hs : threadStart.Reachable s) :
    (s.starting = .returned → 0 < s.tid ∧ ∀ a, UsedByNewThread a → ¬ s.Enabled a) ∧
    (s.newThread = .running → s.latch.lock.mutex = none → ¬ (s.latch.conds ()).SomeWaiting) ∧
    threadStart.Safe s := by
  obtain ⟨hinv, hsafe⟩ := Machine.invariant (P := Inv) (by rintro _ rfl; exact .new) (fun _ _ h ha => h.step ha) hs
  refine ⟨fun hreturned => ?_, fun hrunning hmutex => ?_, hsafe⟩
  · obtain ⟨hnew, hcounted, hpos⟩ := hinv.passed (hinv.returned hreturned)
    refine ⟨hinv.after hnew, fun a ha henabled => ?_⟩
    cases a with
    | assignTid tid =>
        rw [henabled.1] at hnew
        rcases hnew with hnew | hnew <;> cases hnew
    | latch a =>
        obtain ⟨hlatch, honce, -⟩ := henabled
        have hthread : a.thread = .inr () := by
          cases a with
          | wake t c => exact ha.elim
          | _ => exact ha
        rcases Guarded.enabled_of_outside hlatch (hthread ▸ hpos) with ⟨t, place, rfl⟩ | ⟨t, c, rfl⟩
        · cases hthread
          exact honce hcounted
        · exact ha.elim
    | _ => exact ha.elim
  · exact CountDownLatch.not_waiting_of_counted (K := Unit) hinv.latch hmutex fun _ => hinv.running hrunning

/-- The thread `7` is started. -/
theorem start_returned_seven : ∃ s, threadStart.Reachable s ∧ s.starting = .returned ∧ s.tid = 7 ∧
    ∀ a, UsedByNewThread a → ¬ s.Enabled a := by
  have h0 : threadStart.Reachable .new := .of_init rfl
  have h1 := h0.step (a := Step.start) rfl rfl
  have h2 := h1.step (a := Step.assignTid 7) ⟨rfl, by decide⟩ rfl
  have h3 := h2.step (a := Step.latch (.call (.inr ()) (.decrement ()))) ⟨⟨rfl, rfl⟩, nofun, rfl⟩ rfl
  have h4 := h3.step (a := Step.latch (.acquire (.inr ()))) ⟨⟨rfl, .decrement (), rfl⟩, trivial, trivial⟩ rfl
  have h5 := h4.step (a := Step.latch (.assignHolder (.inr ()))) ⟨⟨.decrement (), rfl⟩, trivial, trivial⟩ rfl
  have h6 := h5.step (a := Step.latch (.stmt (.inr ()) none)) ⟨⟨.decrement (), rfl, nofun⟩, trivial, trivial⟩ rfl
  have h7 := h6.step (a := Step.latch (.stmt (.inr ()) none)) ⟨⟨.testZero, rfl, nofun⟩, trivial, trivial⟩ rfl
  have h8 := h7.step (a := Step.latch (.stmt (.inr ()) none)) ⟨⟨.notifyAll, rfl, nofun⟩, trivial, trivial⟩ rfl
  have h9 := h8.step (a := Step.latch (.stmt (.inr ()) none)) ⟨⟨.done, rfl, nofun⟩, trivial, trivial⟩ rfl
  have h10 := h9.step (a := Step.latch (.release (.inr ()))) ⟨rfl, trivial, trivial⟩ rfl
  have h11 := h10.step (a := Step.latch (.call (.inl ()) (.test ()))) ⟨⟨rfl, rfl⟩, trivial, rfl, rfl⟩ rfl
  have h12 := h11.step (a := Step.latch (.acquire (.inl ()))) ⟨⟨rfl, .test (), rfl⟩, trivial, trivial⟩ rfl
  have h13 := h12.step (a := Step.latch (.assignHolder (.inl ()))) ⟨⟨.test (), rfl⟩, trivial, trivial⟩ rfl
  have h14 := h13.step (a := Step.latch (.stmt (.inl ()) none)) ⟨⟨.test (), rfl, nofun⟩, trivial, trivial⟩ rfl
  have h15 := h14.step (a := Step.latch (.stmt (.inl ()) none)) ⟨⟨.done, rfl, nofun⟩, trivial, trivial⟩ rfl
  have h16 := h15.step (a := Step.latch (.release (.inl ()))) ⟨rfl, trivial, trivial⟩ rfl
  have h17 := h16.step (a := Step.return) ⟨rfl, List.mem_cons_self .., rfl⟩ rfl
  exact ⟨_, h17, rfl, rfl, ((start_returned h17).1 rfl).2⟩

end Thread

end Muduo
