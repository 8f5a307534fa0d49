import Muduo.Support.Checked
import Mathlib.Order.Basic
import Mathlib.Data.Nat.Basic

/-! # Loops

A `while` loop whose body may fail an assertion. `loop body n a` runs the body at most `n` times and
goes wrong when it would need more. Where a measure decreases in every turn, any larger bound gives the
same result (`loop_of_measure`), so the bound is only a device of the definition. `loop_map` relates two
loops by a function between their states. -/

namespace Support

variable {α α' β β' : Type}

/-- Run `body` from `a` until it returns a result, for at most `n` turns. -/
def loop (body : α → Checked (α ⊕ β)) : Nat → α → Checked β
  | 0, _ => .error "the loop does not end"
  | n + 1, a => do
      match ← body a with
      | .inl a' => loop body n a'
      | .inr b => return b

/-- A turn that fails ends the loop. -/
theorem loop_of_error {body : α → Checked (α ⊕ β)} {a : α} {e : String} (h : body a = .error e)
    (n : Nat) : loop body (n + 1) a = .error e := by
  rw [loop, h]
  rfl

/-- A turn that goes on. -/
theorem loop_of_inl {body : α → Checked (α ⊕ β)} {a a' : α} (h : body a = .ok (.inl a')) (n : Nat) :
    loop body (n + 1) a = loop body n a' := by
  rw [loop, h]
  rfl

/-- A turn that ends the loop. -/
theorem loop_of_inr {body : α → Checked (α ⊕ β)} {a : α} {b : β} (h : body a = .ok (.inr b))
    (n : Nat) : loop body (n + 1) a = .ok b := by
  rw [loop, h]
  rfl

/-- If a measure decreases in every turn, from states with the invariant `I`, the bound does not matter
as long as it exceeds the measure. -/
theorem loop_of_measure {body : α → Checked (α ⊕ β)} {I : α → Prop} (μ : α → Nat)
    (hμ : ∀ a a', I a → body a = .ok (.inl a') → I a' ∧ μ a' < μ a) {m n : Nat} {a : α} (ha : I a)
    (hm : μ a < m) (hn : μ a < n) : loop body m a = loop body n a := by
  induction m generalizing n a with
  | zero => omega -- no measure is below zero
  | succ m ih =>
      -- both bounds allow one more turn, and the turn does not depend on them
      obtain ⟨n, rfl⟩ : ∃ k, n = k + 1 := ⟨n - 1, by omega⟩
      cases hbody : body a with
      | error e => rw [loop_of_error hbody, loop_of_error hbody]
      | ok r =>
          cases r with
          | inl a' =>
              obtain ⟨ha', hlt⟩ := hμ a a' ha hbody
              rw [loop_of_inl hbody, loop_of_inl hbody]
              exact ih ha' (by omega) (by omega)
          | inr b => rw [loop_of_inr hbody, loop_of_inr hbody]

/-- Two loops whose turns correspond, on the states with the property `I`, have corresponding
results. -/
theorem loop_map {body : α → Checked (α ⊕ β)} {body' : α' → Checked (α' ⊕ β')} {I : α → Prop}
    {f : α → α'} {g : β → β'}
    (hbody : ∀ a, I a → body' (f a) = (body a).map (Sum.map f g))
    (hI : ∀ a a', I a → body a = .ok (.inl a') → I a') (n : Nat) {a : α} (ha : I a) :
    loop body' n (f a) = (loop body n a).map g := by
  induction n generalizing a with
  | zero => rfl
  | succ n ih =>
      have hturn := hbody a ha
      cases hstep : body a with
      | error e =>
          rw [hstep] at hturn
          rw [loop_of_error hstep, loop_of_error hturn]
          rfl
      | ok r =>
          rw [hstep] at hturn
          cases r with
          | inl a' =>
              rw [loop_of_inl hstep, loop_of_inl hturn]
              exact ih (hI a a' ha hstep)
          | inr b =>
              rw [loop_of_inr hstep, loop_of_inr hturn]
              rfl

/-- **The loop rule.** An invariant kept by every turn that goes on, a measure that decreases, and a
postcondition established by every turn that returns. -/
theorem loop_sat {body : α → Checked (α ⊕ β)} {I : α → Prop} {Q : β → Prop} (μ : α → Nat)
    (hbody : ∀ a, I a → (body a).Sat fun r =>
      match r with
      | .inl a' => I a' ∧ μ a' < μ a
      | .inr b => Q b)
    {n : Nat} {a : α} (ha : I a) (hn : μ a < n) : (loop body n a).Sat Q := by
  induction n generalizing a with
  | zero => omega
  | succ n ih =>
      obtain ⟨r, hr, hpost⟩ := hbody a ha
      cases r with
      | inl a' =>
          rw [loop_of_inl hr]
          exact ih hpost.1 (by have := hpost.2; omega)
      | inr b =>
          rw [loop_of_inr hr]
          exact .ok hpost

end Support
