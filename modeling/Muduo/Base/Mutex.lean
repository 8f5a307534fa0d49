import Muduo.Support.Monitor

/-! # `MutexLock` and `Condition`

`base/Mutex.h` and `base/Condition.h`, statement by statement: `lock()` acquires the pthread mutex and then
notes the holder, `unlock()` takes the note back first, and `Condition::wait()` takes it back for the time of
`pthread_cond_wait` by an `UnassignGuard`. Any number of threads use an object under such a lock; between any
two statements of one thread come statements of the others. The object's own code is a parameter. -/

namespace Muduo

open Support Support.Monitor

/-- A `MutexLock` of the threads `T`. -/
structure MutexLock (T : Type) where
  /-- The thread that has the pthread mutex. -/
  mutex : Option T
  /-- `holder_` -/
  holder : Option T

namespace MutexLock

variable {T : Type}

/-- A mutex that nobody holds. -/
def new : MutexLock T := { mutex := none, holder := none }

variable (lock : MutexLock T) (t : T)

/-- `pthread_mutex_lock` returns to `t`. -/
def pthreadMutexLock : MutexLock T := { lock with mutex := some t }

/-- `MutexLock::assignHolder`. -/
def assignHolder : MutexLock T := { lock with holder := some t }

/-- `MutexLock::unassignHolder`. -/
def unassignHolder : MutexLock T := { lock with holder := none }

variable [DecidableEq T]

/-- `MCHECK(pthread_mutex_unlock(&mutex_))`: only the thread that has the mutex may give it back. -/
def pthreadMutexUnlock : Checked (MutexLock T) := do
  assert (lock.mutex = some t) "errnum == 0"
  return { lock with mutex := none }

/-- `MCHECK(pthread_mutex_destroy(&mutex_))`: a mutex that a thread has is busy. -/
def pthreadMutexDestroy : Checked Unit := assert (lock.mutex = none) "errnum == 0"

/-- `~MutexLock()` -/
def destroy : Checked Unit := do
  assert (lock.holder = none) "holder_ == 0"
  lock.pthreadMutexDestroy

end MutexLock

/-- Where a thread is. -/
inductive LockPlace (C L : Type) where
  | outside
  /-- In `pthread_mutex_lock`, on the way to a place in the object's code. -/
  | locking (place : L)
  /-- With the mutex, and `assignHolder()` is next. -/
  | acquired (place : L)
  | inside (place : L)
  /-- In `unlock()`, after `unassignHolder()`. -/
  | unlocking
  /-- In `Condition::wait()`, after `unassignHolder()`. -/
  | sleeping (c : C) (place : L)
  /-- In `pthread_cond_wait`. -/
  | within (c : C)
  deriving DecidableEq, Repr

/-- An object with its lock and its conditions `C`. -/
structure Guarded (T C L S : Type) where
  lock : MutexLock T
  data : S
  conds : Conds T C L
  pos : T → LockPlace C L

namespace Guarded

/-- The steps of a thread. Which thread a notification wakes is chosen by the system. -/
inductive Step (T C L : Type) where
  | call (t : T) (place : L)
  | acquire (t : T)
  | assignHolder (t : T)
  | stmt (t : T) (woken : Option T)
  | release (t : T)
  -- `pthread_cond_wait` gives back the mutex and waits, in one step
  | wait (t : T)
  -- a spurious wakeup, or the end of a timed wait
  | wake (t : T) (c : C)
  | reacquire (t : T)

/-- The thread that takes a step, or that is woken. -/
def Step.thread {T C L : Type} : Step T C L → T
  | .call t _ | .acquire t | .assignHolder t | .stmt t _ | .release t | .wait t | .wake t _ | .reacquire t => t

variable {T C L S : Type} [DecidableEq T] [DecidableEq C]

variable (code : L → S → Checked (Stmt C L S)) (entry : T → L → Prop) (g : Guarded T C L S)

/-- `t` goes to a place. -/
def move (t : T) (p : LockPlace C L) : Guarded T C L S := { g with pos := Function.update g.pos t p }

/-- A statement of the object's code. -/
def execStmt (t : T) (woken : Option T) : Stmt C L S → Guarded T C L S
  | .set place data => { g with data }.move t (.inside place)
  | .notify c place => { g with conds := g.conds.notify c woken }.move t (.inside place)
  | .notifyAll c place => { g with conds := g.conds.notifyAll c }.move t (.inside place)
  -- `MutexLock::UnassignGuard ug(mutex_)`
  | .wait c place => { g with lock := g.lock.unassignHolder }.move t (.sleeping c place)
  -- `mutex_.unlock()`
  | .leave => { g with lock := g.lock.unassignHolder }.move t .unlocking

/-- What a step does; a thread that is not at the step's place does nothing. -/
def exec : Step T C L → Checked (Guarded T C L S)
  | .call t place => return g.move t (.locking place)
  | .acquire t =>
      match g.pos t with
      | .locking place => return { g with lock := g.lock.pthreadMutexLock t }.move t (.acquired place)
      | _ => return g
  | .assignHolder t =>
      match g.pos t with
      | .acquired place => return { g with lock := g.lock.assignHolder t }.move t (.inside place)
      | _ => return g
  | .stmt t woken =>
      match g.pos t with
      | .inside place => return g.execStmt t woken (← code place g.data)
      | _ => return g
  | .release t => do
      let lock ← g.lock.pthreadMutexUnlock t
      return { g with lock }.move t .outside
  | .wait t =>
      match g.pos t with
      | .sleeping c place => do
          let lock ← g.lock.pthreadMutexUnlock t
          return { g with lock, conds := g.conds.wait c t place }.move t (.within c)
      | _ => return g
  | .wake t c => return { g with conds := g.conds.wake c t }
  | .reacquire t =>
      match g.pos t with
      | .within c =>
          match g.conds c t with
          | .awakened place =>
              return { g with lock := g.lock.pthreadMutexLock t, conds := g.conds.leave c t }.move t
                (.acquired place)
          | _ => return g
      | _ => return g

/-- When a step is possible. -/
def Enabled : Step T C L → Prop
  | .call t place => g.pos t = .outside ∧ entry t place
  | .acquire t => g.lock.mutex = none ∧ ∃ place, g.pos t = .locking place
  | .assignHolder t => ∃ place, g.pos t = .acquired place
  | .stmt t woken => ∃ place, g.pos t = .inside place ∧
      ∀ c place', code place g.data = .ok (.notify c place') → (g.conds c).Notifies woken
  | .release t => g.pos t = .unlocking
  | .wait t => ∃ c place, g.pos t = .sleeping c place
  | .wake t c => (g.conds c t).isWaiting = true
  | .reacquire t => g.lock.mutex = none ∧ ∃ c place, g.pos t = .within c ∧ g.conds c t = .awakened place

end Guarded

/-- An object under a lock, with its threads. -/
def guarded {T C L S : Type} [DecidableEq T] [DecidableEq C] (code : L → S → Checked (Stmt C L S))
    (entry : T → L → Prop) (start : S → Prop) : Machine (Guarded T C L S) (Guarded.Step T C L) where
  init g := start g.data ∧ g.lock = .new ∧ g.conds = (fun _ => .idle) ∧ g.pos = fun _ => .outside
  enabled := Guarded.Enabled code entry
  exec := Guarded.exec code

namespace Guarded

variable {T C L S : Type} [DecidableEq T] [DecidableEq C] {code : L → S → Checked (Stmt C L S)}
  {entry : T → L → Prop} {start : S → Prop} {g g' : Guarded T C L S} {m m' : State T C L S} {t u : T}

/-- `t` came to `place` by a section that began in the state `m` of the monitor. -/
def InSection (code : L → S → Checked (Stmt C L S)) (entry : T → L → Prop) (g : Guarded T C L S)
    (m : State T C L S) (t : T) (place : L) : Prop :=
  ∃ x, Starts entry m t x ∧ Inners code x ⟨place, g.data, g.conds⟩

/-- What the place of a thread says about the lock and about the state `m` of the monitor, in which the
present section has not begun. -/
def Agrees (code : L → S → Checked (Stmt C L S)) (entry : T → L → Prop) (g : Guarded T C L S)
    (m : State T C L S) (t : T) : LockPlace C L → Prop
  | .outside => g.lock.mutex ≠ some t ∧ g.lock.holder ≠ some t ∧ m.within t = none
  | .locking place => g.lock.mutex ≠ some t ∧ g.lock.holder ≠ some t ∧ m.within t = none ∧ entry t place
  | .acquired place => g.lock.mutex = some t ∧ g.lock.holder = none ∧ g.InSection code entry m t place
  | .inside place => g.lock.mutex = some t ∧ g.lock.holder = some t ∧ g.InSection code entry m t place
  | .unlocking => g.lock.mutex = some t ∧ g.lock.holder = none ∧
      ∃ place, g.InSection code entry m t place ∧ code place g.data = .ok .leave
  | .sleeping c place => g.lock.mutex = some t ∧ g.lock.holder = none ∧
      ∃ place', g.InSection code entry m t place' ∧ code place' g.data = .ok (.wait c place)
  | .within c => g.lock.mutex ≠ some t ∧ g.lock.holder ≠ some t ∧ m.within t = some c

/-- The object and the monitor agree: while no thread has the mutex they are the same, and every thread is
where the monitor has it. -/
structure Refines (code : L → S → Checked (Stmt C L S)) (entry : T → L → Prop) (g : Guarded T C L S)
    (m : State T C L S) : Prop where
  free : g.lock.mutex = none → g.lock.holder = none ∧ m.data = g.data ∧ m.conds = g.conds
  threads : ∀ t, g.Agrees code entry m t (g.pos t)

/-- What another thread does with the mutex leaves alone a thread that does not have it. -/
theorem Agrees.other {p : LockPlace C L} (h : g.Agrees code entry m u p) (hu : g.lock.mutex ≠ some u)
    (hmutex : g'.lock.mutex ≠ some u) (hholder : g'.lock.holder ≠ some u) (hwithin : m'.within u = m.within u) :
    g'.Agrees code entry m' u p := by
  cases p with
  | outside => exact ⟨hmutex, hholder, hwithin.trans h.2.2⟩
  | locking place => exact ⟨hmutex, hholder, hwithin.trans h.2.2.1, h.2.2.2⟩
  | within c => exact ⟨hmutex, hholder, hwithin.trans h.2.2⟩
  | acquired place => exact absurd h.1 hu
  | inside place => exact absurd h.1 hu
  | unlocking => exact absurd h.1 hu
  | sleeping c place => exact absurd h.1 hu

variable {a : Step T C L}

/-- The rule for a step of `t` with the mutex: what is left to show is about `t`. -/
theorem Refines.advance (h : g.Refines code entry m) (hmutex : g.lock.mutex = none ∨ g.lock.mutex = some t)
    (hmutex' : g'.lock.mutex = none ∨ g'.lock.mutex = some t)
    (hholder' : g'.lock.holder = none ∨ g'.lock.holder = some t) {p : LockPlace C L}
    (hpos : g'.pos = Function.update g.pos t p) (hwithin : ∀ u, u ≠ t → m'.within u = m.within u)
    (hfree : g'.lock.mutex = none → g'.lock.holder = none ∧ m'.data = g'.data ∧ m'.conds = g'.conds)
    (ht : g'.Agrees code entry m' t p) : g'.Refines code entry m' where
  free := hfree
  threads u := by
    rw [hpos]
    by_cases hu : u = t
    · subst hu
      rw [Function.update_self]
      exact ht
    · have hne {o : Option T} (ho : o = none ∨ o = some t) : o ≠ some u := by
        rintro rfl
        rcases ho with ho | ho
        · cases ho
        · exact hu (Option.some.inj ho)
      rw [Function.update_of_ne hu]
      exact (h.threads u).other (hne hmutex) (hne hmutex') (hne hholder') (hwithin u hu)

/-- What a thread's place says of the two models. -/
theorem Refines.of_place (h : g.Refines code entry m) {p : LockPlace C L} (hp : g.pos t = p) :
    g.Agrees code entry m t p := hp ▸ h.threads t

/-- The thread that has the mutex is in a section. -/
theorem Refines.inSection (h : g.Refines code entry m) (hmutex : g.lock.mutex = some t) :
    ∃ place, g.InSection code entry m t place := by
  have ht := h.threads t
  cases hp : g.pos t <;> rw [hp] at ht
  case outside => exact absurd hmutex ht.1
  case locking => exact absurd hmutex ht.1
  case within => exact absurd hmutex ht.1
  case acquired place => exact ⟨place, ht.2.2⟩
  case inside place => exact ⟨place, ht.2.2⟩
  case unlocking =>
    obtain ⟨-, -, place, hsection, -⟩ := ht
    exact ⟨place, hsection⟩
  case sleeping =>
    obtain ⟨-, -, place, hsection, -⟩ := ht
    exact ⟨place, hsection⟩

/-- Calling a function is no step of the monitor. -/
theorem Refines.call {place : L} (h : g.Refines code entry m) (ht : g.pos t = .outside)
    (hentry : entry t place) : (g.move t (.locking place)).Refines code entry m where
  free := h.free
  threads u := by
    by_cases hu : u = t
    · subst hu
      dsimp only [move]
      rw [Function.update_self]
      obtain ⟨hmutex, hholder, hwithin⟩ := h.of_place ht
      exact ⟨hmutex, hholder, hwithin, hentry⟩
    · dsimp only [move]
      rw [Function.update_of_ne hu]
      exact h.threads u

/-- A thread that calls gets the mutex. -/
theorem Refines.acquire {place : L} (h : g.Refines code entry m) (hmutex : g.lock.mutex = none)
    (ht : g.pos t = .locking place) :
    ({ g with lock := g.lock.pthreadMutexLock t }.move t (.acquired place)).Refines code entry m := by
  obtain ⟨hholder, hdata, hconds⟩ := h.free hmutex
  obtain ⟨-, -, hwithin, hentry⟩ := h.of_place ht
  refine h.advance (.inl hmutex) (.inr rfl) (.inl hholder) rfl (fun _ _ => rfl) nofun ⟨rfl, hholder, ?_⟩
  refine ⟨_, .enter hwithin hentry, ?_⟩
  rw [hdata, hconds]
  exact .refl

/-- A thread that was awakened gets the mutex. -/
theorem Refines.reacquire {c : C} {place : L} (h : g.Refines code entry m) (hmutex : g.lock.mutex = none)
    (ht : g.pos t = .within c) (hawakened : g.conds c t = .awakened place) :
    ({ g with lock := g.lock.pthreadMutexLock t, conds := g.conds.leave c t }.move t
      (.acquired place)).Refines code entry m := by
  obtain ⟨hholder, hdata, hconds⟩ := h.free hmutex
  obtain ⟨-, -, hwithin⟩ := h.of_place ht
  refine h.advance (.inl hmutex) (.inr rfl) (.inl hholder) rfl (fun _ _ => rfl) nofun ⟨rfl, hholder, ?_⟩
  refine ⟨_, .resume hwithin (hconds ▸ hawakened), ?_⟩
  rw [hdata, hconds]
  exact .refl

/-- Noting the holder is no step of the monitor. -/
theorem Refines.assignHolder {place : L} (h : g.Refines code entry m) (ht : g.pos t = .acquired place) :
    ({ g with lock := g.lock.assignHolder t }.move t (.inside place)).Refines code entry m := by
  obtain ⟨hmutex, -, hsection⟩ := h.of_place ht
  refine h.advance (.inr hmutex) (.inr hmutex) (.inr rfl) rfl (fun _ _ => rfl) ?_ ⟨hmutex, rfl, hsection⟩
  intro hnone
  exact absurd (hmutex.symm.trans hnone) nofun

/-- A statement continues the section, or ends it; the monitor moves when the mutex is given up. -/
theorem Refines.stmt {place : L} {stmt : Stmt C L S} {woken : Option T} (h : g.Refines code entry m)
    (ht : g.pos t = .inside place) (hcode : code place g.data = .ok stmt)
    (hwoken : ∀ c place', stmt = .notify c place' → (g.conds c).Notifies woken) :
    (g.execStmt t woken stmt).Refines code entry m := by
  obtain ⟨hmutex, hholder, x, hstart, hinners⟩ := h.of_place ht
  have hbusy {P : Prop} (hnone : g.lock.mutex = none) : P := absurd (hmutex.symm.trans hnone) nofun
  cases stmt with
  | set place' data =>
      refine h.advance (.inr hmutex) (.inr hmutex) (.inr hholder) rfl (fun _ _ => rfl) hbusy ⟨hmutex, hholder, ?_⟩
      exact ⟨x, hstart, hinners.tail (.set hcode)⟩
  | notify c place' =>
      refine h.advance (.inr hmutex) (.inr hmutex) (.inr hholder) rfl (fun _ _ => rfl) hbusy ⟨hmutex, hholder, ?_⟩
      exact ⟨x, hstart, hinners.tail (.notify hcode (hwoken c place' rfl))⟩
  | notifyAll c place' =>
      refine h.advance (.inr hmutex) (.inr hmutex) (.inr hholder) rfl (fun _ _ => rfl) hbusy ⟨hmutex, hholder, ?_⟩
      exact ⟨x, hstart, hinners.tail (.notifyAll hcode)⟩
  | wait c place' =>
      refine h.advance (.inr hmutex) (.inr hmutex) (.inl rfl) rfl (fun _ _ => rfl) hbusy ⟨hmutex, rfl, ?_⟩
      exact ⟨place, ⟨x, hstart, hinners⟩, hcode⟩
  | leave =>
      refine h.advance (.inr hmutex) (.inr hmutex) (.inl rfl) rfl (fun _ _ => rfl) hbusy ⟨hmutex, rfl, ?_⟩
      exact ⟨place, ⟨x, hstart, hinners⟩, hcode⟩

/-- With the mutex given back at the end of `unlock()` the section is over. -/
theorem Refines.release (h : g.Refines code entry m) (ht : g.pos t = .unlocking) :
    (g.exec code (.release t)).Sat fun g' => ∃ m', Monitor.Step code entry m m' ∧ g'.Refines code entry m' := by
  obtain ⟨hmutex, hholder, place, ⟨x, hstart, hinners⟩, hcode⟩ := h.of_place ht
  refine .bind (.assert hmutex (.ok rfl)) ?_
  rintro lock rfl
  refine .ok ⟨_, .section hstart hinners (.leave hcode), ?_⟩
  refine h.advance (.inr hmutex) (.inl rfl) (.inl hholder) rfl ?_ (fun _ => ⟨hholder, rfl, rfl⟩) ?_
  · intro u hu
    exact Function.update_of_ne hu _ _
  · have hnone : g.lock.holder ≠ some t := by simp [hholder]
    exact ⟨nofun, hnone, Function.update_self ..⟩

/-- The same when `pthread_cond_wait` gives it back. -/
theorem Refines.wait {c : C} {place : L} (h : g.Refines code entry m) (ht : g.pos t = .sleeping c place) :
    (g.exec code (.wait t)).Sat fun g' => ∃ m', Monitor.Step code entry m m' ∧ g'.Refines code entry m' := by
  obtain ⟨hmutex, hholder, place', ⟨x, hstart, hinners⟩, hcode⟩ := h.of_place ht
  simp only [exec, ht]
  refine .bind (.assert hmutex (.ok rfl)) ?_
  rintro lock rfl
  refine .ok ⟨_, .section hstart hinners (.wait hcode), ?_⟩
  refine h.advance (.inr hmutex) (.inl rfl) (.inl hholder) rfl ?_ (fun _ => ⟨hholder, rfl, rfl⟩) ?_
  · intro u hu
    exact Function.update_of_ne hu _ _
  · have hnone : g.lock.holder ≠ some t := by simp [hholder]
    exact ⟨nofun, hnone, Function.update_self ..⟩

/-- Another thread's wakeup leaves a section where it is. -/
theorem InSection.wake {place : L} {c : C} (h : g.InSection code entry m t place)
    (hu : (g.conds c u).isWaiting = true) :
    { g with conds := g.conds.wake c u }.InSection code entry { m with conds := m.conds.wake c u } t place := by
  obtain ⟨x, hstart, hinners⟩ := h
  exact ⟨_, hstart.wake c u, hinners.wake hu⟩

/-- A thread that is woken in the middle of another thread's section was woken before it. -/
theorem Refines.wake {c : C} (h : g.Refines code entry m) (hu : (g.conds c u).isWaiting = true) :
    (m.conds c u).isWaiting = true ∧
      { g with conds := g.conds.wake c u }.Refines code entry { m with conds := m.conds.wake c u } := by
  constructor
  · cases hmutex : g.lock.mutex with
    | none => rwa [(h.free hmutex).2.2]
    | some t =>
        obtain ⟨place, x, hstart, hinners⟩ := h.inSection hmutex
        exact hstart.isWaiting (hinners.isWaiting hu)
  · refine ⟨?_, fun t => ?_⟩
    · intro hmutex
      obtain ⟨hholder, hdata, hconds⟩ := h.free hmutex
      exact ⟨hholder, hdata, congrArg (Conds.wake · c u) hconds⟩
    · have ht := h.threads t
      dsimp only
      cases hp : g.pos t <;> rw [hp] at ht
      · exact ht
      · exact ht
      · exact ⟨ht.1, ht.2.1, ht.2.2.wake hu⟩
      · exact ⟨ht.1, ht.2.1, ht.2.2.wake hu⟩
      · obtain ⟨hmutex, hholder, place, hsection, hcode⟩ := ht
        exact ⟨hmutex, hholder, place, hsection.wake hu, hcode⟩
      · obtain ⟨hmutex, hholder, place, hsection, hcode⟩ := ht
        exact ⟨hmutex, hholder, place, hsection.wake hu, hcode⟩
      · exact ht

omit [DecidableEq T] [DecidableEq C] in
/-- A thread that is outside can only call. -/
theorem enabled_of_outside (ha : g.Enabled code entry a) (ht : g.pos a.thread = .outside) :
    (∃ t place, a = .call t place) ∨ ∃ t c, a = .wake t c := by
  cases a with
  | call t place => exact .inl ⟨t, place, rfl⟩
  | wake t c => exact .inr ⟨t, c, rfl⟩
  | acquire t =>
      obtain ⟨-, place, hpos⟩ := ha
      exact absurd (ht.symm.trans hpos) nofun
  | assignHolder t =>
      obtain ⟨place, hpos⟩ := ha
      exact absurd (ht.symm.trans hpos) nofun
  | stmt t woken =>
      obtain ⟨place, hpos, -⟩ := ha
      exact absurd (ht.symm.trans hpos) nofun
  | release t => exact absurd (ht.symm.trans ha) nofun
  | wait t =>
      obtain ⟨c, place, hpos⟩ := ha
      exact absurd (ht.symm.trans hpos) nofun
  | reacquire t =>
      obtain ⟨-, c, place, hpos, -⟩ := ha
      exact absurd (ht.symm.trans hpos) nofun

/-- A step leaves the other threads where they are. -/
theorem exec_pos (hg' : g.exec code a = .ok g') (hu : u ≠ a.thread) : g'.pos u = g.pos u := by
  have hmove (p : LockPlace C L) : Function.update g.pos a.thread p u = g.pos u := Function.update_of_ne hu _ _
  cases a with
  | call t place =>
      cases hg'
      exact hmove _
  | acquire t =>
      simp only [exec] at hg'
      split at hg' <;> cases hg'
      · exact hmove _
      · rfl
  | assignHolder t =>
      simp only [exec] at hg'
      split at hg' <;> cases hg'
      · exact hmove _
      · rfl
  | stmt t woken =>
      simp only [exec] at hg'
      split at hg'
      · obtain ⟨stmt, -, hg'⟩ := Checked.bind_eq_ok.mp hg'
        cases hg'
        cases stmt <;> exact hmove _
      · cases hg'
        rfl
  | release t =>
      obtain ⟨lock, -, hg'⟩ := Checked.bind_eq_ok.mp hg'
      cases hg'
      exact hmove _
  | wait t =>
      simp only [exec] at hg'
      split at hg'
      · obtain ⟨lock, -, hg'⟩ := Checked.bind_eq_ok.mp hg'
        cases hg'
        exact hmove _
      · cases hg'
        rfl
  | wake t c =>
      cases hg'
      rfl
  | reacquire t =>
      simp only [exec] at hg'
      split at hg'
      · split at hg' <;> cases hg'
        · exact hmove _
        · rfl
      · cases hg'
        rfl

/-- Only a statement of the object's code changes the data. -/
theorem exec_data (hg' : g.exec code a = .ok g') : g'.data = g.data ∨
    ∃ t woken place stmt, a = .stmt t woken ∧ g.pos t = .inside place ∧ code place g.data = .ok stmt ∧
      g' = g.execStmt t woken stmt := by
  cases a with
  | call t place =>
      cases hg'
      exact .inl rfl
  | acquire t =>
      simp only [exec] at hg'
      split at hg' <;> cases hg' <;> exact .inl rfl
  | assignHolder t =>
      simp only [exec] at hg'
      split at hg' <;> cases hg' <;> exact .inl rfl
  | stmt t woken =>
      simp only [exec] at hg'
      split at hg'
      · next place ht =>
          obtain ⟨stmt, hcode, hg'⟩ := Checked.bind_eq_ok.mp hg'
          cases hg'
          exact .inr ⟨t, woken, place, stmt, rfl, ht, hcode, rfl⟩
      · cases hg'
        exact .inl rfl
  | release t =>
      obtain ⟨lock, -, hg'⟩ := Checked.bind_eq_ok.mp hg'
      cases hg'
      exact .inl rfl
  | wait t =>
      simp only [exec] at hg'
      split at hg'
      · obtain ⟨lock, -, hg'⟩ := Checked.bind_eq_ok.mp hg'
        cases hg'
        exact .inl rfl
      · cases hg'
        exact .inl rfl
  | wake t c =>
      cases hg'
      exact .inl rfl
  | reacquire t =>
      simp only [exec] at hg'
      split at hg'
      · split at hg' <;> cases hg' <;> exact .inl rfl
      · cases hg'
        exact .inl rfl

/-- **One step.** The monitor moves with the object or stays where it is. -/
theorem Refines.step (h : g.Refines code entry m) (ha : g.Enabled code entry a) (hg' : g.exec code a = .ok g') :
    ∃ m', (m' = m ∨ Monitor.Step code entry m m') ∧ g'.Refines code entry m' := by
  cases a with
  | call t place =>
      cases hg'
      exact ⟨m, .inl rfl, h.call ha.1 ha.2⟩
  | acquire t =>
      obtain ⟨hmutex, place, ht⟩ := ha
      simp only [exec, ht] at hg'
      cases hg'
      exact ⟨m, .inl rfl, h.acquire hmutex ht⟩
  | assignHolder t =>
      obtain ⟨place, ht⟩ := ha
      simp only [exec, ht] at hg'
      cases hg'
      exact ⟨m, .inl rfl, h.assignHolder ht⟩
  | stmt t woken =>
      obtain ⟨place, ht, hwoken⟩ := ha
      simp only [exec, ht] at hg'
      obtain ⟨stmt, hcode, hg'⟩ := Checked.bind_eq_ok.mp hg'
      cases hg'
      refine ⟨m, .inl rfl, h.stmt ht hcode fun c place' hstmt => hwoken c place' ?_⟩
      rw [hcode, hstmt]
  | release t =>
      obtain ⟨m', hstep, href⟩ := (h.release ha).of_eq_ok hg'
      exact ⟨m', .inr hstep, href⟩
  | wait t =>
      obtain ⟨c, place, ht⟩ := ha
      obtain ⟨m', hstep, href⟩ := (h.wait ht).of_eq_ok hg'
      exact ⟨m', .inr hstep, href⟩
  | wake t c =>
      cases hg'
      obtain ⟨hwaiting, href⟩ := h.wake ha
      exact ⟨_, .inr (.wake hwaiting), href⟩
  | reacquire t =>
      obtain ⟨hmutex, c, place, ht, hawakened⟩ := ha
      simp only [exec, ht, hawakened] at hg'
      cases hg'
      exact ⟨m, .inl rfl, h.reacquire hmutex ht hawakened⟩

/-- **Whole runs.** -/
theorem exists_refines (hg : (guarded code entry start).Reachable g) :
    ∃ m, (monitor code entry start).Reachable m ∧ g.Refines code entry m := by
  refine hg.induction (P := fun g => ∃ m, (monitor code entry start).Reachable m ∧ g.Refines code entry m) ?_ ?_
  · rintro g ⟨hstart, hlock, hconds, hpos⟩
    refine ⟨⟨g.data, g.conds, fun _ => none⟩, .of_init ⟨hstart, hconds, rfl⟩, ?_, ?_⟩
    · intro _
      exact ⟨by rw [hlock]; rfl, rfl, rfl⟩
    · intro t
      rw [hpos]
      refine ⟨?_, ?_, rfl⟩ <;> rw [hlock] <;> nofun
  · rintro g a g' ⟨m, hm, href⟩ ha hg'
    obtain ⟨m', hm', href'⟩ := href.step ha hg'
    rcases hm' with rfl | hstep
    · exact ⟨m', hm, href'⟩
    · exact ⟨m', hm.step hstep rfl, href'⟩

/-- Where the object's code does not fail, neither does the lock. -/
theorem Refines.safe (h : g.Refines code entry m) (hm : Faultless code entry m) :
    (guarded code entry start).Safe g := by
  intro a ha
  cases a with
  | call t place => exact ⟨_, rfl⟩
  | acquire t =>
      obtain ⟨-, place, ht⟩ := ha
      exact ⟨_, by simp only [guarded, exec, ht]; rfl⟩
  | assignHolder t =>
      obtain ⟨place, ht⟩ := ha
      exact ⟨_, by simp only [guarded, exec, ht]; rfl⟩
  | stmt t woken =>
      obtain ⟨place, ht, -⟩ := ha
      obtain ⟨-, -, x, hstart, hinners⟩ := h.of_place ht
      obtain ⟨stmt, hcode⟩ := hm t x _ hstart hinners
      dsimp only at hcode
      exact ⟨_, by simp only [guarded, exec, ht, hcode]; rfl⟩
  | release t =>
      obtain ⟨g', hg', -⟩ := h.release ha
      exact ⟨g', hg'⟩
  | wait t =>
      obtain ⟨c, place, ht⟩ := ha
      obtain ⟨g', hg', -⟩ := h.wait ht
      exact ⟨g', hg'⟩
  | wake t c => exact ⟨_, rfl⟩
  | reacquire t =>
      obtain ⟨-, c, place, ht, hawakened⟩ := ha
      exact ⟨_, by simp only [guarded, exec, ht, hawakened]; rfl⟩

/-- **Outlines of the code under a lock.** The invariant of an outline holds while the mutex is free, its
assertions hold at the place of the thread that has it, and no assertion of the code fails. -/
theorem of_outline {A : (T → Option C) → T → Config T C L S → Prop} {I : State T C L S → Prop}
    (h : Outline code entry A I) (hinit : ∀ m, (monitor code entry start).init m → I m)
    (hg : (guarded code entry start).Reachable g) :
    (g.lock.mutex = none → ∃ within, I ⟨g.data, g.conds, within⟩) ∧
    (∀ t, g.lock.mutex = some t → ∃ within place, A within t ⟨place, g.data, g.conds⟩) ∧
    (∀ t place, g.pos t = .inside place → ∃ within, A within t ⟨place, g.data, g.conds⟩) ∧
    (guarded code entry start).Safe g := by
  obtain ⟨m, hm, href⟩ := exists_refines hg
  obtain ⟨hI, hA, hfaultless⟩ := h.invariant hinit hm
  refine ⟨fun hmutex => ?_, fun t hmutex => ?_, fun t place ht => ?_, href.safe hfaultless⟩
  · obtain ⟨-, hdata, hconds⟩ := href.free hmutex
    rw [← hdata, ← hconds]
    exact ⟨m.within, hI⟩
  · obtain ⟨place, x, hstart, hinners⟩ := href.inSection hmutex
    exact ⟨m.within, place, hA t x _ hstart hinners⟩
  · obtain ⟨-, -, x, hstart, hinners⟩ := href.of_place ht
    exact ⟨m.within, hA t x _ hstart hinners⟩

/-- What holds of the data before every statement and whenever the mutex is free holds always. -/
theorem of_outline_data {A : (T → Option C) → T → Config T C L S → Prop} {I : State T C L S → Prop}
    (h : Outline code entry A I) (hinit : ∀ m, (monitor code entry start).init m → I m)
    (hg : (guarded code entry start).Reachable g) {P : S → Prop} (hI : ∀ m, I m → P m.data)
    (hA : ∀ within t x, A within t x → P x.data) : P g.data := by
  obtain ⟨hfree, hbusy, -⟩ := of_outline h hinit hg
  cases hmutex : g.lock.mutex with
  | none =>
      obtain ⟨within, hinv⟩ := hfree hmutex
      exact hI _ hinv
  | some t =>
      obtain ⟨within, place, hholds⟩ := hbusy t hmutex
      exact hA _ _ _ hholds

end Guarded

end Muduo
