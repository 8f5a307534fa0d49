import Muduo.Base.Mutex
import Mathlib.Data.Fintype.Card

/-! # `CountDownLatch`

The latch of `base/CountDownLatch.cpp`, statement by statement: threads `W` that wait and threads `K` that
count down. -/

namespace Muduo

open Support Support.Monitor

/-- The data of a latch. -/
structure CountDownLatch (W K : Type) where
  /-- `count_` -/
  count : Int
  /-- The threads that have counted down, the last one first. -/
  counted : List K
  /-- The threads whose `wait()` has seen the end of its loop. -/
  passed : List W
  deriving DecidableEq, Repr

namespace CountDownLatch

/-- The statements of `wait()` and `countDown()`. -/
inductive Place (W K : Type) where
  | test (w : W)
  | decrement (k : K)
  | testZero
  | notifyAll
  /-- The guard gives back the mutex. -/
  | done
  deriving DecidableEq, Repr

variable {W K : Type}

/-- The constructor. -/
def new (count : Int) : CountDownLatch W K := { count, counted := [], passed := [] }

/-- The bodies of `wait` and `countDown`, statement by statement. -/
def code : Place W K → CountDownLatch W K → Checked (Stmt Unit (Place W K) (CountDownLatch W K))
  -- `while (count_ > 0) condition_.wait();`
  | .test w, l => return if 0 < l.count then .wait () (.test w) else .set .done { l with passed := w :: l.passed }
  | .decrement k, l => return .set .testZero { l with count := l.count - 1, counted := k :: l.counted }
  | .testZero, l => return .set (if l.count = 0 then .notifyAll else .done) l
  | .notifyAll, _ => return .notifyAll () .done
  | .done, _ => return .leave

/-- The calls of `wait()` and of `countDown()`. -/
def Entry : W ⊕ K → Place W K → Prop
  | .inl w, place => place = .test w
  | .inr k, place => place = .decrement k

/-- A thread counts down once. -/
def Once (g : Guarded (W ⊕ K) Unit (Place W K) (CountDownLatch W K)) :
    Guarded.Step (W ⊕ K) Unit (Place W K) → Prop
  | .call (.inr k) _ => k ∉ g.data.counted
  | _ => True

end CountDownLatch

/-- A latch with its threads. -/
def countDownLatch (W K : Type) [DecidableEq W] [DecidableEq K] (count : Int) :
    Machine (Guarded (W ⊕ K) Unit (CountDownLatch.Place W K) (CountDownLatch W K))
      (Guarded.Step (W ⊕ K) Unit (CountDownLatch.Place W K)) :=
  guarded CountDownLatch.code CountDownLatch.Entry (· = .new count)

namespace CountDownLatch

variable {W K : Type} {count : Int} {l : CountDownLatch W K}

/-- The count goes down by one with each call, and no `wait()` ends before it is down. -/
def Counts (count : Int) (l : CountDownLatch W K) : Prop :=
  l.count = count - l.counted.length ∧ (l.passed ≠ [] → l.count ≤ 0)

/-- The places a thread comes to. -/
def PlaceOf : W ⊕ K → Place W K → Prop
  | .inl w, place => place = .test w ∨ place = .done
  | .inr k, place => place = .decrement k ∨ place = .testZero ∨ place = .notifyAll ∨ place = .done

/-- Before a statement: no thread waits once the count is down, except before the notification. -/
def Before (l : CountDownLatch W K) (condition : CondVar (W ⊕ K) (Place W K)) : Place W K → Prop
  | .testZero => l.count < 0 → ¬ condition.SomeWaiting
  | .notifyAll => l.count = 0
  | _ => l.count ≤ 0 → ¬ condition.SomeWaiting

/-- A thread that is in a wait is there from its own call. -/
def Waits (condition : CondVar (W ⊕ K) (Place W K)) : Prop :=
  ∀ t place, (condition t).kept = some place → ∃ w, t = .inl w ∧ place = .test w

/-- What a thread inside a critical section has established. -/
def Holds (count : Int) (t : W ⊕ K) (x : Config (W ⊕ K) Unit (Place W K) (CountDownLatch W K)) : Prop :=
  Counts count x.data ∧ Before x.data (x.conds ()) x.place ∧ PlaceOf t x.place ∧ Waits (x.conds ())

/-- What holds while nobody is in a critical section. -/
def Inv (count : Int) (m : State (W ⊕ K) Unit (Place W K) (CountDownLatch W K)) : Prop :=
  Counts count m.data ∧ (m.data.count ≤ 0 → ¬ (m.conds ()).SomeWaiting) ∧ Waits (m.conds ())

variable [DecidableEq W] [DecidableEq K]

/-- A waiter is there from its own call. -/
theorem Waits.wait {conds : Conds (W ⊕ K) Unit (Place W K)} (h : Waits (conds ())) (w : W) :
    Waits (conds.wait () (.inl w) (.test w) ()) := by
  intro t place hplace
  rw [Conds.kept_wait] at hplace
  split at hplace
  · next heq =>
      cases hplace
      exact ⟨w, heq.2, rfl⟩
  · exact h t place hplace

/-- Leaving moves nobody else. -/
theorem Waits.leave {conds : Conds (W ⊕ K) Unit (Place W K)} (h : Waits (conds ())) (t : W ⊕ K) :
    Waits (conds.leave () t ()) := by
  intro u place hplace
  rw [Conds.kept_leave] at hplace
  split at hplace
  · cases hplace
  · exact h u place hplace

/-- Each statement keeps its outline. -/
theorem next {within : W ⊕ K → Option Unit} {t : W ⊕ K}
    {x : Config (W ⊕ K) Unit (Place W K) (CountDownLatch W K)} (h : Holds count t x) :
    Outline.Next (fun _ => Holds count) (Inv count) within t x (code x.place x.data) := by
  obtain ⟨place, l, conds⟩ := x
  obtain ⟨⟨hcount, hpassed⟩, hbefore, hplace, hwaits⟩ := h
  dsimp only at hcount hpassed hbefore hplace hwaits ⊢
  cases place with
  | test w =>
      have ht : t = .inl w := by
        match t, hplace with
        | .inl w', .inl hw => rw [Place.test.inj hw]
      subst ht
      dsimp only [code]
      by_cases hpos : 0 < l.count
      · rw [if_pos hpos]
        exact ⟨⟨hcount, hpassed⟩, fun hle => absurd hpos (not_lt.mpr hle), hwaits.wait w⟩
      · rw [if_neg hpos]
        exact ⟨⟨hcount, fun _ => not_lt.mp hpos⟩, hbefore, .inr rfl, hwaits⟩
  | decrement k =>
      have ht : t = .inr k := by
        match t, hplace with
        | .inr k', .inl hk => rw [Place.decrement.inj hk]
      subst ht
      refine ⟨⟨?_, fun hne => ?_⟩, fun hneg => hbefore ?_, .inr (.inl rfl), hwaits⟩
      · dsimp only
        rw [hcount, List.length_cons]
        omega
      · have hle := hpassed hne
        dsimp only
        omega
      · dsimp only at hneg
        omega
  | testZero =>
      have ⟨k, ht⟩ : ∃ k, t = .inr k := by
        match t, hplace with
        | .inr k, _ => exact ⟨k, rfl⟩
      subst ht
      dsimp only [code]
      by_cases hzero : l.count = 0
      · rw [if_pos hzero]
        exact ⟨⟨hcount, hpassed⟩, hzero, .inr (.inr (.inl rfl)), hwaits⟩
      · rw [if_neg hzero]
        exact ⟨⟨hcount, hpassed⟩, fun hle => hbefore (lt_of_le_of_ne hle hzero), .inr (.inr (.inr rfl)), hwaits⟩
  | notifyAll =>
      have ⟨k, ht⟩ : ∃ k, t = .inr k := by
        match t, hplace with
        | .inr k, _ => exact ⟨k, rfl⟩
      subst ht
      refine ⟨⟨hcount, hpassed⟩, fun _ => ?_, .inr (.inr (.inr rfl)), fun u place hkept => ?_⟩
      · rintro ⟨u, hu⟩
        dsimp only at hu
        exact (Conds.isWaiting_of_notifyAll hu).2 rfl
      · dsimp only at hkept
        exact hwaits u place (Conds.kept_notifyAll.symm.trans hkept)
  | done => exact ⟨⟨hcount, hpassed⟩, hbefore, hwaits⟩

/-- The proof outline of the latch's critical sections. -/
theorem outline : Outline code Entry (fun _ => Holds count) (Inv (W := W) (K := K) count) where
  enter {m t place} hm _ hentry := by
    obtain ⟨hcounts, hnone, hwaits⟩ := hm
    match t, place, hentry with
    | .inl w, _, rfl => exact ⟨hcounts, hnone, .inl rfl, hwaits⟩
    | .inr k, _, rfl => exact ⟨hcounts, hnone, .inl rfl, hwaits⟩
  resume {m t c place l data} hm _ hawakened _ := by
    obtain ⟨hcounts, hnone, hwaits⟩ := hm
    obtain ⟨w, rfl, rfl⟩ := hwaits t place (congrArg Waiter.kept hawakened)
    refine ⟨hcounts, fun hle hwaiting => hnone hle ?_, .inl rfl, hwaits.leave _⟩
    dsimp only at hwaiting
    rw [Conds.leave_self] at hwaiting
    exact CondVar.someWaiting_of_leave hwaiting
  next := next
  wake {m c t} hm _ := by
    obtain ⟨hcounts, hnone, hwaits⟩ := hm
    refine ⟨hcounts, fun hle hwaiting => hnone hle ?_, fun u place hkept => ?_⟩
    · dsimp only at hwaiting
      rw [Conds.wake_self] at hwaiting
      exact CondVar.someWaiting_of_wake hwaiting
    · dsimp only at hkept
      exact hwaits u place (Conds.kept_wake.symm.trans hkept)

/-- The invariant holds at the start. -/
theorem inv_of_init {m : State (W ⊕ K) Unit (Place W K) (CountDownLatch W K)}
    (hm : (monitor code Entry (· = .new count)).init m) : Inv count m := by
  obtain ⟨hdata, hconds, -⟩ := hm
  refine ⟨?_, fun _ => ?_, fun t place hplace => ?_⟩
  · rw [hdata]
    exact ⟨(Int.sub_zero _).symm, fun h => absurd rfl h⟩
  · rw [hconds]
    exact CondVar.not_someWaiting_idle
  · rw [hconds] at hplace
    cases hplace

variable {g g' : Guarded (W ⊕ K) Unit (Place W K) (CountDownLatch W K)}

/-- The count is the initial one less the calls so far. -/
theorem counts (hg : (countDownLatch W K count).Reachable g) : Counts count g.data :=
  Guarded.of_outline_data outline (fun _ => inv_of_init) hg (fun _ => And.left) fun _ _ _ => And.left

/-- A thread inside is at a place of its own function. -/
theorem placeOf (hg : (countDownLatch W K count).Reachable g) {t : W ⊕ K} {place : Place W K}
    (ht : g.pos t = .inside place) : PlaceOf t place := by
  obtain ⟨-, -, hplaces, -⟩ := Guarded.of_outline outline (fun _ => inv_of_init) hg
  obtain ⟨within, -, -, hplace, -⟩ := hplaces t place ht
  exact hplace

/-- No assertion fails. -/
theorem safe (hg : (countDownLatch W K count).Reachable g) : (countDownLatch W K count).Safe g :=
  (Guarded.of_outline outline (fun _ => inv_of_init) hg).2.2.2

/-- What one step does to the lists: a thread counts at its decrement, and what is in them stays. -/
theorem exec_lists (hg : (countDownLatch W K count).Reachable g)
    {a : Guarded.Step (W ⊕ K) Unit (Place W K)} (hg' : g.exec code a = .ok g') :
    (∀ k ∈ g'.data.counted, k ∈ g.data.counted ∨ g.pos (.inr k) = .inside (.decrement k)) ∧
      g.data.counted ⊆ g'.data.counted ∧ g.data.passed ⊆ g'.data.passed := by
  rcases Guarded.exec_data hg' with hdata | ⟨t, woken, place, stmt, -, ht, hcode, rfl⟩
  · rw [hdata]
    exact ⟨fun k => .inl, List.Subset.refl _, List.Subset.refl _⟩
  · cases place with
    | test w =>
        simp only [code, Checked.pure_eq_ok] at hcode
        split at hcode <;> cases hcode
        · exact ⟨fun k => .inl, List.Subset.refl _, List.Subset.refl _⟩
        · exact ⟨fun k => .inl, List.Subset.refl _, List.subset_cons_self _ _⟩
    | decrement k =>
        cases hcode
        refine ⟨fun j hj => ?_, List.subset_cons_self _ _, List.Subset.refl _⟩
        rcases List.mem_cons.mp hj with rfl | hj
        · match t, placeOf hg ht with
          | .inr k', .inl hk =>
              cases hk
              exact .inr ht
        · exact .inl hj
    | testZero =>
        cases hcode
        exact ⟨fun k => .inl, List.Subset.refl _, List.Subset.refl _⟩
    | notifyAll =>
        cases hcode
        exact ⟨fun k => .inl, List.Subset.refl _, List.Subset.refl _⟩
    | done =>
        cases hcode
        exact ⟨fun k => .inl, List.Subset.refl _, List.Subset.refl _⟩

/-! ## Threads that count down once -/

/-- Before its decrement a thread is not among those that have counted, and after it, while it still has the
mutex, no thread has passed. -/
def CounterAt (l : CountDownLatch W K) (k : K) : LockPlace Unit (Place W K) → Prop
  | .outside => True
  | .locking place | .acquired place => place = .decrement k ∧ k ∉ l.counted
  | .inside (.decrement _) => k ∉ l.counted
  | .inside _ | .unlocking => l.passed = []
  | .sleeping _ _ | .within _ => False

/-- Every counter counts down at most once. -/
structure CountsOnce (g : Guarded (W ⊕ K) Unit (Place W K) (CountDownLatch W K)) : Prop where
  nodup : g.data.counted.Nodup
  counters : ∀ k, CounterAt g.data k (g.pos (.inr k))

omit [DecidableEq W] [DecidableEq K] in
/-- What is not down has not been counted by everyone. -/
theorem passed_eq_nil [Fintype K] (h : Counts (Fintype.card K) l) (hnodup : l.counted.Nodup) {k : K}
    (hk : k ∉ l.counted) : l.passed = [] := by
  obtain ⟨hcount, hpassed⟩ := h
  by_contra hne
  have hle := hpassed hne
  have hcard := (List.nodup_cons.mpr ⟨hk, hnodup⟩).length_le_card
  rw [List.length_cons] at hcard
  omega

/-- A step that does not change the data: only the thread that takes it matters. -/
theorem CountsOnce.move (h : CountsOnce g) (hdata : g'.data = g.data) {t : W ⊕ K} {p : LockPlace Unit (Place W K)}
    (hpos : g'.pos = Function.update g.pos t p)
    (ht : ∀ k, t = .inr k → CounterAt g.data k (g.pos t) → CounterAt g.data k p) : CountsOnce g' where
  nodup := hdata ▸ h.nodup
  counters k := by
    rw [hdata, hpos]
    by_cases hk : .inr k = t
    · subst hk
      rw [Function.update_self]
      exact ht k rfl (h.counters k)
    · rw [Function.update_of_ne hk]
      exact h.counters k

omit [DecidableEq W] [DecidableEq K] in
/-- What a counter's place says. -/
theorem CountsOnce.of_pos (h : CountsOnce g) {k : K} {p : LockPlace Unit (Place W K)} (hp : g.pos (.inr k) = p) :
    CounterAt g.data k p := hp ▸ h.counters k

/-- A thread passes: no counter has the mutex then. -/
theorem CountsOnce.pass (h : CountsOnce g) (hg : (countDownLatch W K count).Reachable g) {w : W} {place : Place W K}
    (hw : g.pos (.inl w) = .inside place) (hdata : g'.data = { g.data with passed := w :: g.data.passed })
    (hpos : g'.pos = Function.update g.pos (.inl w) (.inside .done)) : CountsOnce g' where
  nodup := by
    rw [hdata]
    exact h.nodup
  counters k := by
    rw [hdata, hpos, Function.update_of_ne Sum.inr_ne_inl]
    obtain ⟨m, -, href⟩ := Guarded.exists_refines hg
    have hmutex : g.lock.mutex ≠ some (.inr k) := by
      rw [(href.of_place hw).1]
      exact nofun
    have hk := h.counters k
    cases hp : g.pos (.inr k) <;> rw [hp] at hk
    case inside p => exact absurd (href.of_place hp).1 hmutex
    case unlocking => exact absurd (href.of_place hp).1 hmutex
    all_goals exact hk

/-- A thread counts down: it was not among those that have, and the others are no other than before. -/
theorem CountsOnce.decrement [Fintype K] (h : CountsOnce g) (hcounts : Counts (Fintype.card K) g.data) {k : K}
    (hk : k ∉ g.data.counted)
    (hdata : g'.data = { g.data with count := g.data.count - 1, counted := k :: g.data.counted })
    (hpos : g'.pos = Function.update g.pos (.inr k) (.inside .testZero)) : CountsOnce g' where
  nodup := by
    rw [hdata]
    exact List.nodup_cons.mpr ⟨hk, h.nodup⟩
  counters j := by
    rw [hdata, hpos]
    by_cases hj : j = k
    · subst hj
      rw [Function.update_self]
      change g.data.passed = []
      exact passed_eq_nil hcounts h.nodup hk
    · have hmem {l : List K} : j ∉ l → j ∉ k :: l := by
        rw [List.mem_cons, not_or]
        exact fun hl => ⟨hj, hl⟩
      rw [Function.update_of_ne (fun heq => hj (Sum.inr.inj heq))]
      have hj := h.counters j
      cases hp : g.pos (.inr j) <;> rw [hp] at hj
      case locking p => exact ⟨hj.1, hmem hj.2⟩
      case acquired p => exact ⟨hj.1, hmem hj.2⟩
      case inside p =>
        cases p with
        | decrement _ => exact hmem hj
        | _ => exact hj
      all_goals exact hj

/-- One statement under the lock. -/
theorem CountsOnce.stmt [Fintype K] (h : CountsOnce g) (hg : (countDownLatch W K (Fintype.card K)).Reachable g)
    {t : W ⊕ K} {place : Place W K} {woken : Option (W ⊕ K)}
    {stmt : Stmt Unit (Place W K) (CountDownLatch W K)} (ht : g.pos t = .inside place)
    (hcode : code place g.data = .ok stmt) : CountsOnce (g.execStmt t woken stmt) := by
  have hplace := placeOf hg ht
  cases place with
  | test w =>
      match t, hplace with
      | .inl w', .inl hw =>
          cases hw
          simp only [code, Checked.pure_eq_ok] at hcode
          split at hcode
          · cases hcode
            exact h.move rfl rfl nofun
          · cases hcode
            exact h.pass hg ht rfl rfl
  | decrement k =>
      match t, hplace with
      | .inr k', .inl hk =>
          cases hk
          cases hcode
          exact h.decrement (counts hg) (h.of_pos ht) rfl rfl
  | testZero =>
      cases hcode
      refine h.move rfl rfl fun k _ hk => ?_
      rw [ht] at hk
      split <;> exact hk
  | notifyAll =>
      cases hcode
      refine h.move rfl rfl fun k _ hk => ?_
      rw [ht] at hk
      exact hk
  | done =>
      cases hcode
      refine h.move rfl rfl fun k _ hk => ?_
      rw [ht] at hk
      exact hk

/-- Every step keeps that nobody counts twice. -/
theorem CountsOnce.step [Fintype K] (h : CountsOnce g) (hg : (countDownLatch W K (Fintype.card K)).Reachable g)
    {a : Guarded.Step (W ⊕ K) Unit (Place W K)} (ha : g.Enabled code Entry a) (honce : Once g a)
    (hg' : g.exec code a = .ok g') : CountsOnce g' := by
  cases a with
  | call t place =>
      cases hg'
      refine h.move rfl rfl fun k hk _ => ?_
      subst hk
      exact ⟨ha.2, honce⟩
  | acquire t =>
      obtain ⟨-, place, ht⟩ := ha
      simp only [Guarded.exec, ht] at hg'
      cases hg'
      refine h.move rfl rfl fun k _ hk => ?_
      rw [ht] at hk
      exact hk
  | assignHolder t =>
      obtain ⟨place, ht⟩ := ha
      simp only [Guarded.exec, ht] at hg'
      cases hg'
      refine h.move rfl rfl fun k _ hk => ?_
      rw [ht] at hk
      obtain ⟨rfl, hcounted⟩ := hk
      exact hcounted
  | stmt t woken =>
      obtain ⟨place, ht, -⟩ := ha
      simp only [Guarded.exec, ht] at hg'
      obtain ⟨stmt, hcode, hg'⟩ := Checked.bind_eq_ok.mp hg'
      cases hg'
      exact h.stmt hg ht hcode
  | release t =>
      obtain ⟨lock, -, hg'⟩ := Checked.bind_eq_ok.mp hg'
      cases hg'
      exact h.move rfl rfl fun _ _ _ => trivial
  | wait t =>
      obtain ⟨c, place, ht⟩ := ha
      simp only [Guarded.exec, ht] at hg'
      obtain ⟨lock, -, hg'⟩ := Checked.bind_eq_ok.mp hg'
      cases hg'
      refine h.move rfl rfl fun k _ hk => ?_
      rw [ht] at hk
      exact hk
  | wake t c =>
      cases hg'
      exact ⟨h.nodup, h.counters⟩
  | reacquire t =>
      obtain ⟨-, c, place, ht, hawakened⟩ := ha
      simp only [Guarded.exec, ht, hawakened] at hg'
      cases hg'
      refine h.move rfl rfl fun k _ hk => ?_
      rw [ht] at hk
      exact hk.elim

/-- In a run where everybody counts once, nobody counts twice. -/
theorem countsOnce [Fintype K] (hg : ((countDownLatch W K (Fintype.card K)).restrict Once).Reachable g) :
    (countDownLatch W K (Fintype.card K)).Reachable g ∧ CountsOnce g := by
  refine hg.induction (P := fun g => (countDownLatch W K (Fintype.card K)).Reachable g ∧ CountsOnce g) ?_ ?_
  · intro g hinit
    obtain ⟨hdata, -, -, hpos⟩ := id hinit
    refine ⟨.of_init hinit, ?_, fun k => ?_⟩
    · rw [hdata]
      exact List.nodup_nil
    · rw [hpos]
      trivial
  · rintro g a g' ⟨hg, honce⟩ ⟨ha, ha'⟩ hg'
    exact ⟨hg.step ha hg', honce.step hg ha ha' hg'⟩

/-- A thread that has passed finds that all have counted down and left. -/
theorem left_of_passed [Fintype K] (hg : ((countDownLatch W K (Fintype.card K)).restrict Once).Reachable g)
    (hne : g.data.passed ≠ []) (k : K) : k ∈ g.data.counted ∧ g.pos (.inr k) = .outside := by
  obtain ⟨hreach, hnodup, hcounters⟩ := countsOnce hg
  have hk : k ∈ g.data.counted := by
    by_contra hk
    exact hne (passed_eq_nil (counts hreach) hnodup hk)
  refine ⟨hk, ?_⟩
  have hat := hcounters k
  cases hp : g.pos (.inr k) <;> rewrite [hp] at hat
  case outside => rfl
  case locking => exact absurd hk hat.2
  case acquired => exact absurd hk hat.2
  case inside place =>
    cases place with
    | decrement _ => exact absurd hk hat
    | _ => exact absurd hat hne
  case unlocking => exact absurd hat hne
  case sleeping => exact hat.elim
  case within => exact hat.elim

/-- Once all have counted down no thread is left waiting. -/
theorem not_waiting_of_counted [Fintype K]
    (hg : ((countDownLatch W K (Fintype.card K)).restrict Once).Reachable g) (hmutex : g.lock.mutex = none)
    (hall : ∀ k, k ∈ g.data.counted) : ¬ (g.conds ()).SomeWaiting := by
  obtain ⟨hreach, hnodup, -⟩ := countsOnce hg
  obtain ⟨hfree, -⟩ := Guarded.of_outline outline (fun _ => inv_of_init) hreach
  obtain ⟨within, -, hnone, -⟩ := hfree hmutex
  apply hnone
  have hcard : Fintype.card K ≤ g.data.counted.length := by
    rw [← List.toFinset_card_of_nodup hnodup, ← Finset.card_univ]
    exact Finset.card_le_card fun k _ => List.mem_toFinset.mpr (hall k)
  have hcount := (counts hreach).1
  dsimp only
  omega

end CountDownLatch

end Muduo
