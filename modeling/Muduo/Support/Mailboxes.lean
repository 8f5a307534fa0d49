import Mathlib.Data.List.Count

/-! # Mailboxes

Processes that hand each other messages, each with a queue of its own that is served first in, first
out. The common protocol in which an object is passed on from process to process has at most one
message about the object on its way: `Mailboxes.Sole` says so for the messages that satisfy a
predicate, and tells which message that is and where it waits. Its rules follow the message through
`post` and `pop`. -/

namespace Support

/-- The messages of type `φ` that wait for each process. -/
def Mailboxes (κ φ : Type) : Type := κ → List φ

namespace Mailboxes

variable {κ φ : Type} [DecidableEq κ]

/-- All mailboxes are empty. -/
def empty : Mailboxes κ φ := fun _ => []

/-- Put a message at the end of the queue of `k`. -/
def post (q : Mailboxes κ φ) (k : κ) (m : φ) : Mailboxes κ φ :=
  fun k' => if k' = k then q k' ++ [m] else q k'

/-- The process `k` takes the message at the head of its queue. -/
def pop (q : Mailboxes κ φ) (k : κ) : Mailboxes κ φ :=
  fun k' => if k' = k then (q k').tail else q k'

variable {q : Mailboxes κ φ} {k k' : κ} {m m' : φ}

/-- What is in a mailbox after a post. -/
theorem mem_post : m' ∈ q.post k m k' ↔ m' ∈ q k' ∨ (k' = k ∧ m' = m) := by
  by_cases hk : k' = k
  · subst hk
    simp [post]
  · simp [post, hk]

/-- What is left was there. -/
theorem mem_of_mem_pop (h : m ∈ q.pop k k') : m ∈ q k' := by
  rw [pop] at h
  split at h
  · exact List.mem_of_mem_tail h
  · exact h

variable [DecidableEq φ]

/-- How often a message is there after a post. -/
theorem count_post :
    (q.post k m k').count m' = (q k').count m' + if (k, m) = (k', m') then 1 else 0 := by
  by_cases hk : k' = k
  · subst hk
    simp [post, List.count_singleton]
  · simp [post, hk, Ne.symm hk]

/-- How often a message was there before a pop. -/
theorem count_pop {rest : List φ} (h : q k = m :: rest) :
    (q k').count m' = (q.pop k k').count m' + if (k, m) = (k', m') then 1 else 0 := by
  by_cases hk : k' = k
  · subst hk
    simp [pop, h, List.count_cons]
  · simp [pop, hk, Ne.symm hk]

/-! ## The one message on its way -/

/-- Of the messages that satisfy `P`, the mailboxes hold the one that `tok` tells, with its place, and
no other. -/
def Sole (q : Mailboxes κ φ) (P : φ → Prop) (tok : Option (κ × φ)) : Prop :=
  ∀ k m, P m → (q k).count m = if tok = some (k, m) then 1 else 0

variable {P : φ → Prop} {tok : Option (κ × φ)}

/-- Empty mailboxes hold no such message. -/
theorem Sole.empty : (empty : Mailboxes κ φ).Sole P none := fun _ _ _ => rfl

/-- Other messages do not matter. -/
theorem Sole.post_other (h : q.Sole P tok) (hm : ¬ P m) : (q.post k m).Sole P tok := by
  intro k' m' hm'
  have hne : (k, m) ≠ (k', m') := by
    intro heq
    cases heq
    exact hm hm'
  rw [count_post, if_neg hne]
  exact h k' m' hm'

/-- Taking out another message keeps the one. -/
theorem Sole.pop_other {rest : List φ} (h : q.Sole P tok) (hq : q k = m :: rest) (hm : ¬ P m) :
    (q.pop k).Sole P tok := by
  intro k' m' hm'
  have hne : (k, m) ≠ (k', m') := by
    intro heq
    cases heq
    exact hm hm'
  have hcount : (q k').count m' = _ := count_pop hq
  rw [if_neg hne] at hcount
  exact hcount.symm.trans (h k' m' hm')

/-- When nothing is on its way, a message may be sent. -/
theorem Sole.post (h : q.Sole P none) : (q.post k m).Sole P (some (k, m)) := by
  intro k' m' hm'
  rw [count_post, h k' m' hm']
  simp

/-- The message that a process takes is the one that was on its way, and then none is. -/
theorem Sole.pop {rest : List φ} (h : q.Sole P tok) (hq : q k = m :: rest) (hm : P m) :
    tok = some (k, m) ∧ (q.pop k).Sole P none := by
  have htok : tok = some (k, m) := by
    by_contra hne
    have hcount := h k m hm
    rw [if_neg hne, hq, List.count_cons_self] at hcount
    cases hcount
  refine ⟨htok, fun k' m' hm' => ?_⟩
  have hcount : (q k').count m' = _ := count_pop hq
  rw [h k' m' hm', htok] at hcount
  simpa using hcount

/-- Nothing is on its way when no message waits anywhere. -/
theorem Sole.eq_none (h : q.Sole P tok) (hempty : ∀ k, q k = [])
    (htok : ∀ k m, tok = some (k, m) → P m) : tok = none := by
  cases tok with
  | none => rfl
  | some km =>
      have hcount := h km.1 km.2 (htok _ _ rfl)
      rw [hempty, if_pos rfl] at hcount
      cases hcount

end Mailboxes

end Support
