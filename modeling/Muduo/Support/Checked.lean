import Mathlib.Logic.Basic
import Mathlib.Tactic.Common

/-! # Computations with assertions

A `Checked` computation either returns a value or stops at the first assertion that fails, carrying
the text of that assertion. `Checked.Sat x P` is total correctness: `x` passes every assertion and
its value satisfies `P`. The rules below (`Sat.pure`, `Sat.bind`, `Sat.assert`, `Sat.mono`) let a
specification of a sequence of calls be assembled from the specifications of the calls. -/

namespace Support

/-- A computation that stops at the first failing assertion, with the text of that assertion. -/
abbrev Checked (α : Type) : Type := Except String α

/-- Go on when `p` holds, otherwise stop with the asserted `text`. -/
def assert (p : Prop) [Decidable p] (text : String) : Checked Unit :=
  if p then .ok () else .error text

/-- An assertion that holds passes. -/
theorem assert_pos {p : Prop} [Decidable p] (h : p) (text : String) :
    assert p text = .ok () := if_pos h

/-- An assertion that fails stops with its text. -/
theorem assert_neg {p : Prop} [Decidable p] (h : ¬ p) (text : String) :
    assert p text = .error text := if_neg h

/-- The element at place `i` of a list, which must be there. -/
def elementAt {α : Type} (xs : List α) (i : Nat) (text : String) : Checked α :=
  match xs[i]? with
  | some x => .ok x
  | none => .error text

/-- An index within the list. -/
theorem elementAt_eq_ok {α : Type} {xs : List α} {i : Nat} {text : String} {x : α} :
    elementAt xs i text = .ok x ↔ xs[i]? = some x := by
  unfold elementAt
  cases xs[i]? <;> simp

namespace Checked

variable {α β : Type}

@[simp] theorem ok_bind (a : α) (f : α → Checked β) : ((.ok a : Checked α) >>= f) = f a := rfl

@[simp] theorem error_bind (e : String) (f : α → Checked β) :
    ((.error e : Checked α) >>= f) = .error e := rfl

@[simp] theorem pure_eq_ok (a : α) : (pure a : Checked α) = .ok a := rfl

/-- A loop whose last element is split off. -/
theorem foldlM_concat (f : β → α → Checked β) (b : β) (l : List α) (a : α) :
    (l ++ [a]).foldlM f b = l.foldlM f b >>= fun c => f c a := by
  rw [List.foldlM_append]
  congr 1
  funext c
  cases h : f c a <;> simp [h]

/-- A sequence of two computations returns `b` exactly when the first returns some value from which
the second returns `b`. -/
theorem bind_eq_ok {x : Checked α} {f : α → Checked β} {b : β} :
    (x >>= f) = .ok b ↔ ∃ a, x = .ok a ∧ f a = .ok b := by
  cases x with
  | error e => simp
  | ok a => simp

/-- A computation that begins with an assertion returns only when it holds. -/
theorem assert_bind_eq_ok {p : Prop} [Decidable p] {text : String} {f : Unit → Checked β} {b : β} :
    (Support.assert p text >>= f) = .ok b ↔ p ∧ f () = .ok b := by
  by_cases hp : p
  · rw [assert_pos hp, ok_bind, and_iff_right hp]
  · rw [assert_neg hp, error_bind]
    simp [hp]

/-- **Total correctness.** The computation passes all its assertions and its value satisfies `P`. -/
def Sat (x : Checked α) (P : α → Prop) : Prop := ∃ a, x = .ok a ∧ P a

/-- A value that satisfies the property. -/
theorem Sat.ok {a : α} {P : α → Prop} (h : P a) : Sat (.ok a) P := ⟨a, rfl, h⟩

/-- No postcondition is met by a computation whose assertion failed. -/
@[simp] theorem not_sat_error {e : String} {P : α → Prop} : ¬ Sat (.error e : Checked α) P := by
  rintro ⟨b, hb, -⟩
  cases hb

/-- The sequencing rule: the continuation is specified from every value the first part can return. -/
theorem Sat.bind {x : Checked α} {f : α → Checked β} {P : α → Prop} {Q : β → Prop}
    (hx : Sat x P) (hf : ∀ a, P a → Sat (f a) Q) : Sat (x >>= f) Q := by
  obtain ⟨a, rfl, ha⟩ := hx
  exact hf a ha

/-- The rule of consequence. -/
theorem Sat.mono {x : Checked α} {P Q : α → Prop} (hx : Sat x P) (h : ∀ a, P a → Q a) :
    Sat x Q := by
  obtain ⟨a, ha, hP⟩ := hx
  exact ⟨a, ha, h a hP⟩

/-- The assertion rule: an asserted fact must hold, and the rest goes on. -/
theorem Sat.assert {p : Prop} [Decidable p] {text : String} {f : Unit → Checked β} {Q : β → Prop}
    (h : p) (hf : Sat (f ()) Q) : Sat (Support.assert p text >>= f) Q := by
  rw [assert_pos h]
  exact hf

/-- A place of the list has an element. -/
theorem Sat.elementAt {xs : List α} {i : Nat} {text : String} (h : i < xs.length) :
    Sat (Support.elementAt xs i text) fun x => x ∈ xs :=
  ⟨xs[i], elementAt_eq_ok.mpr (List.getElem?_eq_getElem h), List.getElem_mem h⟩

/-- The loop rule: what each turn keeps holds at the end. -/
theorem Sat.foldlM {f : β → α → Checked β} {P : β → Prop} {l : List α}
    (hf : ∀ b, ∀ a ∈ l, P b → Sat (f b a) P) {b : β} (hb : P b) : Sat (l.foldlM f b) P := by
  induction l generalizing b with
  | nil => exact .ok hb
  | cons a l ih =>
      rw [List.foldlM_cons]
      refine (hf b a (List.mem_cons_self ..) hb).bind fun b' hb' => ih ?_ hb'
      exact fun b'' a' ha' => hf b'' a' (List.mem_cons_of_mem _ ha')

/-- Whatever a computation that meets `P` returned satisfies `P`. -/
theorem Sat.of_eq_ok {x : Checked α} {P : α → Prop} {a : α} (hx : Sat x P) (ha : x = .ok a) :
    P a := by
  obtain ⟨b, hb, hP⟩ := hx
  rw [ha] at hb
  cases hb
  exact hP

/-- The value of a computation that passes its assertions. -/
def Sat.get {x : Checked α} {P : α → Prop} (hx : Sat x P) : α :=
  match x, hx with
  | .ok a, _ => a
  -- nothing is satisfied by a failure, so there is no value to invent here
  | .error _, h => absurd h not_sat_error

/-- A correct computation is its value. -/
theorem Sat.eq_get {x : Checked α} {P : α → Prop} (hx : Sat x P) : x = .ok hx.get := by
  cases x with
  | error e => exact absurd hx not_sat_error
  | ok a => rfl

/-- The value satisfies the property. -/
theorem Sat.get_spec {x : Checked α} {P : α → Prop} (hx : Sat x P) : P hx.get :=
  hx.of_eq_ok hx.eq_get

end Checked

end Support
