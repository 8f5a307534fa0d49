import Muduo.Support.CondVar
import Muduo.Support.Machine
import Mathlib.Logic.Relation

/-! # Monitors

An object whose data is used under one mutex, with condition variables. What a thread does while it has the
mutex is a sequence of statements, given by the place the thread is at; a `Section` of it goes from the
moment the thread has the mutex to the moment it gives it up, at the end or to wait. The `monitor` takes
whole sections as its steps. Its rules reduce a property of all runs to the statements: `Outline` is a
proof outline, with an assertion for every place, and `Outline.invariant` what follows from it. -/

namespace Support

/-- What a thread that waits, or was awakened, keeps. -/
def Waiter.kept {α : Type} : Waiter α → Option α
  | .away => none
  | .waiting a => some a
  | .awakened a => some a

@[simp] theorem Waiter.kept_wake {α : Type} (w : Waiter α) : w.wake.kept = w.kept := by
  cases w with
  | away => rfl
  | waiting _ => rfl
  | awakened _ => rfl

/-- What is kept, seen differently. -/
def Waiter.map {α β : Type} (f : α → β) : Waiter α → Waiter β
  | .away => .away
  | .waiting a => .waiting (f a)
  | .awakened a => .awakened (f a)

@[simp] theorem Waiter.isWaiting_map {α β : Type} (f : α → β) (w : Waiter α) :
    (w.map f).isWaiting = w.isWaiting := by
  cases w with
  | away => rfl
  | waiting _ => rfl
  | awakened _ => rfl

@[simp] theorem Waiter.wake_map {α β : Type} (f : α → β) (w : Waiter α) : (w.map f).wake = w.wake.map f := by
  cases w with
  | away => rfl
  | waiting _ => rfl
  | awakened _ => rfl

namespace Monitor

/-- What a thread that has the mutex does next: it changes the data, notifies the waiters of a condition
variable, waits, or goes away. The place is where it goes on. -/
inductive Stmt (C L S : Type) where
  | set (place : L) (data : S)
  | notify (c : C) (place : L)
  | notifyAll (c : C) (place : L)
  | wait (c : C) (place : L)
  | leave
  deriving DecidableEq, Repr

/-- The condition variables `C` of a monitor. A thread that waits keeps the place where it goes on. -/
abbrev Conds (T C L : Type) := C → CondVar T L

/-- A thread in the middle of a section. -/
@[ext] structure Config (T C L S : Type) where
  place : L
  data : S
  conds : Conds T C L

/-- A monitor while no thread has the mutex. -/
@[ext] structure State (T C L S : Type) where
  data : S
  conds : Conds T C L
  /-- The condition variable in whose wait a thread is. -/
  within : T → Option C

variable {T C L S : Type} [DecidableEq T] [DecidableEq C]

namespace Conds

variable (conds : Conds T C L)

/-- The thread waits on one of the conditions. -/
def wait (c : C) (t : T) (place : L) : Conds T C L := Function.update conds c ((conds c).wait t place)

/-- The thread leaves the condition it was woken from. -/
def leave (c : C) (t : T) : Conds T C L := Function.update conds c ((conds c).leave t)

/-- The thread is woken. -/
def wake (c : C) (t : T) : Conds T C L := Function.update conds c ((conds c).wake t)

/-- One waiting thread is notified. -/
def notify (c : C) (woken : Option T) : Conds T C L := Function.update conds c ((conds c).notify woken)

/-- Every waiting thread is notified. -/
def notifyAll (c : C) : Conds T C L := Function.update conds c (conds c).notifyAll

end Conds

variable (code : L → S → Checked (Stmt C L S))

/-- A statement after which the thread still has the mutex. -/
inductive Inner : Config T C L S → Config T C L S → Prop where
  | set {x : Config T C L S} {place : L} {data : S} :
      code x.place x.data = .ok (.set place data) → Inner x { x with place, data }
  | notify {x : Config T C L S} {place : L} {c : C} {woken : Option T} :
      code x.place x.data = .ok (.notify c place) → (x.conds c).Notifies woken →
      Inner x { x with place, conds := x.conds.notify c woken }
  | notifyAll {x : Config T C L S} {place : L} {c : C} :
      code x.place x.data = .ok (.notifyAll c place) → Inner x { x with place, conds := x.conds.notifyAll c }

/-- The statements a section has executed so far. -/
abbrev Inners : Config T C L S → Config T C L S → Prop := Relation.ReflTransGen (Inner code)

variable (entry : T → L → Prop)

/-- A thread gets the mutex: it calls an operation, or it was awakened in a wait. -/
inductive Starts (m : State T C L S) (t : T) : Config T C L S → Prop where
  | enter {place : L} : m.within t = none → entry t place → Starts m t ⟨place, m.data, m.conds⟩
  | resume {c : C} {place : L} : m.within t = some c → m.conds c t = .awakened place →
      Starts m t ⟨place, m.data, m.conds.leave c t⟩

/-- A thread gives up the mutex: the operation is over, or it waits. -/
inductive Ends (m : State T C L S) (t : T) : Config T C L S → State T C L S → Prop where
  | leave {x : Config T C L S} : code x.place x.data = .ok .leave →
      Ends m t x ⟨x.data, x.conds, Function.update m.within t none⟩
  | wait {x : Config T C L S} {c : C} {place : L} : code x.place x.data = .ok (.wait c place) →
      Ends m t x ⟨x.data, x.conds.wait c t place, Function.update m.within t (some c)⟩

/-- The steps of a monitor: a whole section of one thread, and a wakeup without a notification. -/
inductive Step (m : State T C L S) : State T C L S → Prop where
  | section {t : T} {x y : Config T C L S} {m' : State T C L S} :
      Starts entry m t x → Inners code x y → Ends code m t y m' → Step m m'
  | wake {c : C} {t : T} : (m.conds c t).isWaiting = true → Step m { m with conds := m.conds.wake c t }

end Monitor

open Monitor

variable {T C L S : Type} [DecidableEq T] [DecidableEq C]

/-- The monitor with whole sections as steps; an action is the state it leads to. -/
def monitor (code : L → S → Checked (Stmt C L S)) (entry : T → L → Prop) (start : S → Prop) :
    Machine (State T C L S) (State T C L S) where
  init m := start m.data ∧ m.conds = (fun _ => .idle) ∧ m.within = fun _ => none
  enabled := Step code entry
  exec _ m := .ok m

namespace Monitor

variable {code : L → S → Checked (Stmt C L S)} {entry : T → L → Prop} {start : S → Prop}

/-! ## Wakeups in the middle of a section -/

namespace Conds

variable {conds : Conds T C L} {c d : C} {t u : T}

/-- One waiter of one condition variable is changed. -/
theorem update_apply (w : Waiter L) :
    Function.update conds c (Function.update (conds c) t w) d u = if d = c ∧ u = t then w else conds d u := by
  by_cases hd : d = c
  · subst hd
    rw [Function.update_self, Function.update_apply]
    simp
  · rw [Function.update_of_ne hd, if_neg (hd ·.1)]

/-- Who waits after a wait. -/
theorem wait_apply (place : L) :
    conds.wait c t place d u = if d = c ∧ u = t then .waiting place else conds d u := update_apply _

/-- Who is away after a leave. -/
theorem leave_apply : conds.leave c t d u = if d = c ∧ u = t then .away else conds d u := update_apply _

/-- Who is woken. -/
theorem wake_apply : conds.wake c t d u = if d = c ∧ u = t then (conds d u).wake else conds d u := by
  refine (update_apply _).trans ?_
  split
  · next h => rw [h.1, h.2]
  · rfl

/-- Who is notified. -/
theorem notify_apply (woken : Option T) :
    conds.notify c woken d u = if d = c ∧ woken = some u then (conds d u).wake else conds d u := by
  cases woken with
  | none => simp [notify, CondVar.notify]
  | some t =>
      have hiff : u = t ↔ some t = some u := by rw [Option.some_inj, eq_comm]
      exact wake_apply.trans (if_congr (and_congr_right fun _ => hiff) rfl rfl)

omit [DecidableEq T] in
/-- Who is notified of all. -/
theorem notifyAll_apply : conds.notifyAll c d u = if d = c then (conds d u).wake else conds d u := by
  by_cases hd : d = c
  · subst hd
    rw [notifyAll, Function.update_self, if_pos rfl, CondVar.notifyAll]
  · rw [notifyAll, Function.update_of_ne hd, if_neg hd]

@[simp] theorem wait_self (place : L) : conds.wait c t place c = (conds c).wait t place :=
  Function.update_self ..

@[simp] theorem leave_self : conds.leave c t c = (conds c).leave t := Function.update_self ..

@[simp] theorem wake_self : conds.wake c t c = (conds c).wake t := Function.update_self ..

@[simp] theorem notify_self (woken : Option T) : conds.notify c woken c = (conds c).notify woken :=
  Function.update_self ..

/-- Waking and notifying commute. -/
theorem wake_notify (woken : Option T) :
    (conds.notify c woken).wake d u = (conds.wake d u).notify c woken := by
  funext e v
  rw [wake_apply, notify_apply, notify_apply, wake_apply]
  split <;> split <;> rfl

/-- Waking and notifying all commute. -/
theorem wake_notifyAll : (conds.notifyAll c).wake d u = (conds.wake d u).notifyAll c := by
  funext e v
  rw [wake_apply, notifyAll_apply, notifyAll_apply, wake_apply]
  split <;> split <;> rfl

/-- Waking and leaving commute. -/
theorem wake_leave : (conds.leave c t).wake d u = (conds.wake d u).leave c t := by
  funext e v
  rw [wake_apply, leave_apply, leave_apply, wake_apply]
  split <;> split <;> rfl

@[simp] theorem kept_wake : (conds.wake c t d u).kept = (conds d u).kept := by
  rw [wake_apply]
  split
  · exact Waiter.kept_wake _
  · rfl

@[simp] theorem kept_notify (woken : Option T) : (conds.notify c woken d u).kept = (conds d u).kept := by
  rw [notify_apply]
  split
  · exact Waiter.kept_wake _
  · rfl

omit [DecidableEq T] in
@[simp] theorem kept_notifyAll : (conds.notifyAll c d u).kept = (conds d u).kept := by
  rw [notifyAll_apply]
  split
  · exact Waiter.kept_wake _
  · rfl

/-- What is kept after a leave. -/
theorem kept_leave : (conds.leave c t d u).kept = if d = c ∧ u = t then none else (conds d u).kept := by
  rw [leave_apply]
  split
  · rfl
  · rfl

/-- What is kept after a wait. -/
theorem kept_wait (place : L) :
    (conds.wait c t place d u).kept = if d = c ∧ u = t then some place else (conds d u).kept := by
  rw [wait_apply]
  split
  · rfl
  · rfl

/-- Who still waits after a notification. -/
theorem isWaiting_of_notify {woken : Option T} (h : (conds.notify c woken d u).isWaiting = true) :
    (conds d u).isWaiting = true ∧ ¬ (d = c ∧ woken = some u) := by
  rw [notify_apply] at h
  split at h
  · rw [Waiter.isWaiting_wake] at h
    cases h
  · next hne => exact ⟨h, hne⟩

omit [DecidableEq T] in
/-- Who still waits after notifying all. -/
theorem isWaiting_of_notifyAll (h : (conds.notifyAll c d u).isWaiting = true) :
    (conds d u).isWaiting = true ∧ d ≠ c := by
  rw [notifyAll_apply] at h
  split at h
  · rw [Waiter.isWaiting_wake] at h
    cases h
  · next hne => exact ⟨h, hne⟩

/-- Leaving makes nobody wait. -/
theorem isWaiting_of_leave (h : (conds.leave c t d u).isWaiting = true) : (conds d u).isWaiting = true := by
  rw [leave_apply] at h
  split at h
  · cases h
  · exact h

/-- A notification that does not wake `u` does the same when `u` is awake already. -/
theorem Notifies.wake {woken : Option T} (h : (conds c).Notifies woken)
    (hu : (conds.notify c woken d u).isWaiting = true) : (conds.wake d u c).Notifies woken := by
  obtain ⟨hwaiting, hne⟩ := isWaiting_of_notify hu
  cases woken with
  | some v =>
      change (conds.wake d u c v).isWaiting = true
      rw [wake_apply, if_neg]
      · exact h
      · rintro ⟨rfl, rfl⟩
        exact hne ⟨rfl, rfl⟩
  | none =>
      rintro ⟨v, hv⟩
      rw [wake_apply] at hv
      split at hv
      · rw [Waiter.isWaiting_wake] at hv
        cases hv
      · exact h ⟨v, hv⟩

end Conds

/-- `t` is woken while another thread is in the middle of a section. -/
def Config.wake (x : Config T C L S) (c : C) (t : T) : Config T C L S :=
  { x with conds := x.conds.wake c t }

variable {x y : Config T C L S} {m m' : State T C L S} {c : C} {t u : T}

/-- No thread begins to wait while another one has the mutex. -/
theorem Inner.isWaiting (h : Inner code x y) (hu : (y.conds c u).isWaiting = true) :
    (x.conds c u).isWaiting = true := by
  cases h with
  | set _ => exact hu
  | notify _ _ => exact (Conds.isWaiting_of_notify hu).1
  | notifyAll _ => exact (Conds.isWaiting_of_notifyAll hu).1

/-- A section lets no other thread begin to wait. -/
theorem Inners.isWaiting (h : Inners code x y) (hu : (y.conds c u).isWaiting = true) :
    (x.conds c u).isWaiting = true := by
  induction h with
  | refl => exact hu
  | tail _ hstep ih => exact ih (hstep.isWaiting hu)

/-- A statement does the same when a thread that still waits after it was woken before it. -/
theorem Inner.wake (h : Inner code x y) (hu : (y.conds c u).isWaiting = true) :
    Inner code (x.wake c u) (y.wake c u) := by
  cases h with
  | set hcode => exact .set hcode
  | notify hcode hwoken =>
      unfold Config.wake
      rw [Conds.wake_notify]
      exact .notify hcode (Conds.Notifies.wake hwoken hu)
  | notifyAll hcode =>
      unfold Config.wake
      rw [Conds.wake_notifyAll]
      exact .notifyAll hcode

/-- **Wakeups move to the front.** A section does the same when a thread that is woken in the middle of it
was woken before it. -/
theorem Inners.wake (h : Inners code x y) (hu : (y.conds c u).isWaiting = true) :
    Inners code (x.wake c u) (y.wake c u) := by
  induction h with
  | refl => exact .refl
  | tail _ hstep ih => exact .tail (ih (hstep.isWaiting hu)) (hstep.wake hu)

/-- Getting the mutex makes nobody wait. -/
theorem Starts.isWaiting (h : Starts entry m t x) (hu : (x.conds c u).isWaiting = true) :
    (m.conds c u).isWaiting = true := by
  cases h with
  | enter _ _ => exact hu
  | resume _ _ => exact Conds.isWaiting_of_leave hu

/-- A thread may be woken before a section begins. -/
theorem Starts.wake (h : Starts entry m t x) (c : C) (u : T) :
    Starts entry { m with conds := m.conds.wake c u } t (x.wake c u) := by
  cases h with
  | enter hwithin hentry => exact .enter hwithin hentry
  | @resume d place hwithin hawakened =>
      unfold Config.wake
      rw [Conds.wake_leave]
      refine .resume hwithin ?_
      dsimp only
      rw [Conds.wake_apply, hawakened]
      exact ite_self _

/-! ## Who waits where -/

/-- Every thread that is with a condition variable is there by a statement that waits, and in no other wait. -/
structure Placed (code : L → S → Checked (Stmt C L S)) (conds : Conds T C L) (within : T → Option C) (t : T) :
    Prop where
  within_iff : ∀ c, (conds c t).kept ≠ none ↔ within t = some c
  stmt : ∀ c place, (conds c t).kept = some place → ∃ l data, code l data = .ok (.wait c place)

/-- A thread in the middle of a section is with no condition variable, and the others are where they were. -/
structure PlacedWithin (code : L → S → Checked (Stmt C L S)) (within : T → Option C) (t : T)
    (conds : Conds T C L) : Prop where
  away : ∀ c, (conds c t).kept = none
  others : ∀ u, u ≠ t → Placed code conds within u

omit [DecidableEq T] [DecidableEq C] in
/-- A thread outside is at no condition. -/
theorem Placed.away {conds : Conds T C L} {within : T → Option C} (h : Placed code conds within t)
    (hwithin : within t = none) (c : C) : conds c t = .away := by
  cases hw : conds c t with
  | away => rfl
  | _ =>
      have hsome := (h.within_iff c).mp (by rw [hw]; exact nofun)
      rw [hwithin] at hsome
      cases hsome

omit [DecidableEq T] [DecidableEq C] in
/-- A place depends on what is kept. -/
theorem Placed.congr {conds conds' : Conds T C L} {within within' : T → Option C}
    (h : Placed code conds within t) (hw : within' t = within t)
    (hc : ∀ c, (conds' c t).kept = (conds c t).kept) : Placed code conds' within' t where
  within_iff c := by
    rw [hc, hw]
    exact h.within_iff c
  stmt c place hplace := h.stmt c place ((hc c).symm.trans hplace)

omit [DecidableEq T] [DecidableEq C] in
/-- The places of the others, by what is kept. -/
theorem PlacedWithin.congr {conds conds' : Conds T C L} {within : T → Option C}
    (h : PlacedWithin code within t conds) (hc : ∀ c u, (conds' c u).kept = (conds c u).kept) :
    PlacedWithin code within t conds' where
  away c := (hc c t).trans (h.away c)
  others u hu := (h.others u hu).congr rfl (hc · u)

/-- A statement keeps the places. -/
theorem Inner.placed {within : T → Option C} (h : Inner code x y) (hx : PlacedWithin code within t x.conds) :
    PlacedWithin code within t y.conds := by
  cases h with
  | set _ => exact hx
  | notify _ _ => exact hx.congr fun _ _ => Conds.kept_notify _
  | notifyAll _ => exact hx.congr fun _ _ => Conds.kept_notifyAll

/-- A section keeps the places. -/
theorem Inners.placed {within : T → Option C} (h : Inners code x y) (hx : PlacedWithin code within t x.conds) :
    PlacedWithin code within t y.conds := by
  induction h with
  | refl => exact hx
  | tail _ hstep ih => exact hstep.placed ih

/-- Getting the mutex keeps the places. -/
theorem Starts.placed (h : Starts entry m t x) (hm : ∀ u, Placed code m.conds m.within u) :
    PlacedWithin code m.within t x.conds := by
  cases h with
  | enter hwithin _ =>
      exact ⟨fun c => congrArg Waiter.kept ((hm t).away hwithin c), fun u _ => hm u⟩
  | @resume c place hwithin _ =>
      refine ⟨fun d => ?_, fun u hu => (hm u).congr rfl fun d => ?_⟩
      · dsimp only
        rw [Conds.kept_leave]
        split
        · rfl
        · next hd =>
            by_contra hne
            have hsome := ((hm t).within_iff d).mp hne
            rw [hwithin] at hsome
            exact hd ⟨(Option.some.inj hsome).symm, rfl⟩
      · dsimp only
        rw [Conds.kept_leave, if_neg (hu ·.2)]

/-- Releasing the mutex keeps the places. -/
theorem Ends.placed (h : Ends code m t x m') (hx : PlacedWithin code m.within t x.conds) (u : T) :
    Placed code m'.conds m'.within u := by
  by_cases hu : u = t
  · subst hu
    cases h with
    | leave _ =>
        refine ⟨fun c => ?_, fun c place hplace => ?_⟩
        · simp [hx.away c]
        · simp [hx.away c] at hplace
    | @wait c place hcode =>
        refine ⟨fun d => ?_, fun d place' hplace => ?_⟩
        · dsimp only
          rw [Conds.kept_wait, Function.update_self, hx.away d]
          by_cases hd : d = c
          · simp [hd]
          · simp [hd, Ne.symm hd]
        · dsimp only at hplace
          rw [Conds.kept_wait, hx.away d] at hplace
          split at hplace
          · next hd =>
              cases hplace
              exact ⟨_, _, hd.1 ▸ hcode⟩
          · cases hplace
  · cases h with
    | leave _ => exact (hx.others u hu).congr (Function.update_of_ne hu _ _) fun _ => rfl
    | wait _ =>
        refine (hx.others u hu).congr (Function.update_of_ne hu _ _) fun d => ?_
        dsimp only
        rw [Conds.kept_wait, if_neg (hu ·.2)]

/-- A step keeps the places. -/
theorem Step.placed (h : Step code entry m m') (hm : ∀ u, Placed code m.conds m.within u) (u : T) :
    Placed code m'.conds m'.within u := by
  cases h with
  | «section» hstart hinners hend =>
      exact hend.placed (hinners.placed (hstart.placed hm)) u
  | wake _ => exact (hm u).congr rfl fun _ => Conds.kept_wake

/-- **Every thread is at one place.** In a reachable state a thread is with the condition variable in whose
wait it is, and with no other, to go on where a statement says that it waits. -/
theorem placed (hm : (monitor code entry start).Reachable m) : ∀ t, Placed code m.conds m.within t := by
  refine hm.induction (P := fun m => ∀ t, Placed code m.conds m.within t) ?_ fun _ _ _ hs hstep ht => ?_
  · rintro m ⟨-, hconds, hwithin⟩ t
    refine ⟨fun c => ?_, fun c place hplace => ?_⟩
    · simp [hconds, hwithin, CondVar.idle, Waiter.kept]
    · simp [hconds, CondVar.idle, Waiter.kept] at hplace
  · cases ht
    exact hstep.placed hs

/-! ## Proof outlines -/

/-- What an outline with the assertions `A` has to show for a statement. After a wait and at the end it is
the invariant `I`, since other threads come then. -/
def Outline.Next (A : (T → Option C) → T → Config T C L S → Prop) (I : State T C L S → Prop)
    (within : T → Option C) (t : T) (x : Config T C L S) : Checked (Stmt C L S) → Prop
  | .ok (.set place data) => A within t { x with place, data }
  | .ok (.notify c place) => ∀ woken, (x.conds c).Notifies woken →
      A within t { x with place, conds := x.conds.notify c woken }
  | .ok (.notifyAll c place) => A within t { x with place, conds := x.conds.notifyAll c }
  | .ok (.wait c place) => I ⟨x.data, x.conds.wait c t place, Function.update within t (some c)⟩
  | .ok .leave => I ⟨x.data, x.conds, Function.update within t none⟩
  | .error _ => False

/-- A proof outline: the assertion `A` holds before every statement, and the invariant `I` whenever no thread
has the mutex. A thread goes on after its wait where a statement said so. -/
structure Outline (code : L → S → Checked (Stmt C L S)) (entry : T → L → Prop)
    (A : (T → Option C) → T → Config T C L S → Prop) (I : State T C L S → Prop) : Prop where
  enter {m : State T C L S} {t : T} {place : L} : I m → (∀ c, m.conds c t = .away) → entry t place →
    A m.within t ⟨place, m.data, m.conds⟩
  resume {m : State T C L S} {t : T} {c : C} {place l : L} {data : S} : I m → m.within t = some c →
    m.conds c t = .awakened place → code l data = .ok (.wait c place) →
    A m.within t ⟨place, m.data, m.conds.leave c t⟩
  next {within : T → Option C} {t : T} {x : Config T C L S} : A within t x →
    Outline.Next A I within t x (code x.place x.data)
  wake {m : State T C L S} {c : C} {t : T} : I m → (m.conds c t).isWaiting = true →
    I { m with conds := m.conds.wake c t }

/-- No statement of a section that begins in `m` fails an assertion. -/
def Faultless (code : L → S → Checked (Stmt C L S)) (entry : T → L → Prop) (m : State T C L S) : Prop :=
  ∀ t x y, Starts entry m t x → Inners code x y → ∃ stmt, code y.place y.data = .ok stmt

namespace Outline

variable {A : (T → Option C) → T → Config T C L S → Prop} {I : State T C L S → Prop}

/-- The assertion holds where a section begins. -/
theorem starts (h : Outline code entry A I) (hm : I m) (hplaced : Placed code m.conds m.within t)
    (hx : Starts entry m t x) : A m.within t x := by
  cases hx with
  | enter hwithin hentry => exact h.enter hm (hplaced.away hwithin) hentry
  | resume hwithin hawakened =>
      obtain ⟨l, data, hcode⟩ := hplaced.stmt _ _ (congrArg Waiter.kept hawakened)
      exact h.resume hm hwithin hawakened hcode

/-- The assertion holds through a section. -/
theorem inners (h : Outline code entry A I) {within : T → Option C} (hx : A within t x)
    (hy : Inners code x y) : A within t y := by
  induction hy with
  | refl => exact hx
  | tail _ hstep ih =>
      have hnext := h.next ih
      cases hstep with
      | set hcode =>
          rw [hcode] at hnext
          exact hnext
      | notify hcode hwoken =>
          rw [hcode] at hnext
          exact hnext _ hwoken
      | notifyAll hcode =>
          rw [hcode] at hnext
          exact hnext

/-- The invariant holds where a section ends. -/
theorem ends (h : Outline code entry A I) (hx : A m.within t x) (hm' : Ends code m t x m') : I m' := by
  have hnext := h.next hx
  cases hm' with
  | leave hcode =>
      rw [hcode] at hnext
      exact hnext
  | wait hcode =>
      rw [hcode] at hnext
      exact hnext

/-- No assertion of the code fails. -/
theorem ok (h : Outline code entry A I) {within : T → Option C} (hx : A within t x) :
    ∃ stmt, code x.place x.data = .ok stmt := by
  have hnext := h.next hx
  cases hcode : code x.place x.data with
  | error e =>
      rw [hcode] at hnext
      exact hnext.elim
  | ok stmt => exact ⟨stmt, rfl⟩

/-- **The rule of outlines.** An invariant with an outline that holds initially holds in every reachable
state. Wherever a section can get from there the assertions of the outline hold, and no statement fails. -/
theorem invariant (h : Outline code entry A I)
    (hinit : ∀ m, (monitor code entry start).init m → I m) (hm : (monitor code entry start).Reachable m) :
    I m ∧ (∀ t x y, Starts entry m t x → Inners code x y → A m.within t y) ∧ Faultless code entry m := by
  have hI : I m := by
    obtain ⟨m₀, as, h₀, hrun⟩ := hm
    induction hrun with
    | nil => exact hinit _ h₀
    | snoc hrun hstep hexec ih =>
        cases hexec
        have hplaced := placed ⟨_, _, h₀, hrun⟩
        cases hstep with
        | «section» hstart hinners hend => exact h.ends (h.inners (h.starts ih (hplaced _) hstart) hinners) hend
        | wake hwaiting => exact h.wake ih hwaiting
  have hA : ∀ t x y, Starts entry m t x → Inners code x y → A m.within t y :=
    fun t _ _ hstart hinners => h.inners (h.starts hI (placed hm t) hstart) hinners
  exact ⟨hI, hA, fun t x y hstart hinners => h.ok (hA t x y hstart hinners)⟩

end Outline

end Monitor

end Support
