import Muduo.Support.Checked

/-! # Machines and the invariants of their runs

A `Machine` is a state type with a checked transition function and, for each state, the set of
actions its environment may take there. `Machine.invariant` turns a property kept by every admissible
action into a property of every reachable state, and at the same time shows that no assertion fails
on any run. `Machine.Run.sim` does the same for a relation to an abstract state that is moved by the
same actions. -/

namespace Support

/-- A machine over states `σ` and actions `ι`. -/
structure Machine (σ ι : Type) where
  /-- The initial states. -/
  init : σ → Prop
  /-- What the environment may do in a state: preconditions of callers, behaviour of the kernel. -/
  enabled : σ → ι → Prop
  /-- What the code does on an action; an error is a failed assertion. -/
  exec : σ → ι → Checked σ

namespace Machine

variable {σ ι : Type} (M : Machine σ ι)

/-- `M.Run s as t`: from `s` the actions `as`, each admissible where it is taken, lead to `t`. -/
inductive Run : σ → List ι → σ → Prop where
  | nil (s : σ) : Run s [] s
  | snoc {s t u : σ} {as : List ι} {a : ι} :
      Run s as t → M.enabled t a → M.exec t a = .ok u → Run s (as ++ [a]) u

/-- A state reached from an initial state. -/
def Reachable (s : σ) : Prop := ∃ s₀ as, M.init s₀ ∧ M.Run s₀ as s

/-- No admissible action fails an assertion in `s`. -/
def Safe (s : σ) : Prop := ∀ a, M.enabled s a → ∃ t, M.exec s a = .ok t

variable {M}

/-- An initial state is reachable. -/
theorem Reachable.of_init {s : σ} (h : M.init s) : M.Reachable s := ⟨s, [], h, .nil s⟩

/-- One admissible action from a reachable state leads to a reachable state. -/
theorem Reachable.step {s t : σ} {a : ι} (hs : M.Reachable s) (ha : M.enabled s a)
    (ht : M.exec s a = .ok t) : M.Reachable t := by
  obtain ⟨s₀, as, h₀, hrun⟩ := hs
  exact ⟨s₀, as ++ [a], h₀, .snoc hrun ha ht⟩

/-- One run after the other. -/
theorem Run.trans {s t u : σ} {as bs : List ι} (h : M.Run s as t) (h' : M.Run t bs u) :
    M.Run s (as ++ bs) u := by
  -- runs grow at their end, so the induction is on the second one
  induction h' with
  | nil =>
      rw [List.append_nil]
      exact h
  | snoc _ ha ht ih =>
      rw [← List.append_assoc]
      exact .snoc ih ha ht

/-- A run of one step. -/
theorem Run.single {s t : σ} {a : ι} (ha : M.enabled s a) (ht : M.exec s a = .ok t) :
    M.Run s [a] t := .snoc (.nil s) ha ht

/-- A run from a reachable state leads to a reachable state. -/
theorem Reachable.run {s t : σ} {as : List ι} (hs : M.Reachable s) (hrun : M.Run s as t) :
    M.Reachable t := by
  obtain ⟨s₀, bs, h₀, hrun₀⟩ := hs
  exact ⟨s₀, bs ++ as, h₀, hrun₀.trans hrun⟩

/-- A property that every completed admissible action keeps holds at the end of every run that starts
in it, whether or not other actions fail an assertion. -/
theorem Run.induction {P : σ → Prop}
    (hstep : ∀ s a t, P s → M.enabled s a → M.exec s a = .ok t → P t)
    {s t : σ} {as : List ι} (hrun : M.Run s as t) (hs : P s) : P t := by
  induction hrun with
  | nil => exact hs
  | snoc _ ha ht ih => exact hstep _ _ _ ih ha ht

/-- A property that holds initially and that every completed admissible action keeps holds in every
reachable state. -/
theorem Reachable.induction {P : σ → Prop} (hinit : ∀ s, M.init s → P s)
    (hstep : ∀ s a t, P s → M.enabled s a → M.exec s a = .ok t → P t)
    {s : σ} (hs : M.Reachable s) : P s := by
  obtain ⟨s₀, as, h₀, hrun⟩ := hs
  exact hrun.induction hstep (hinit s₀ h₀)

/-- A property kept by every admissible action holds at the end of every run that starts in it. -/
theorem Run.preserves {P : σ → Prop}
    (hstep : ∀ s a, P s → M.enabled s a → (M.exec s a).Sat P)
    {s t : σ} {as : List ι} (hrun : M.Run s as t) (hs : P s) : P t :=
  hrun.induction (fun s a _ h ha ht => (hstep s a h ha).of_eq_ok ht) hs

/-- **The invariant rule.** A property that holds initially and is kept by every admissible action
holds in every reachable state, and no assertion fails there. -/
theorem invariant {P : σ → Prop} (hinit : ∀ s, M.init s → P s)
    (hstep : ∀ s a, P s → M.enabled s a → (M.exec s a).Sat P)
    {s : σ} (hs : M.Reachable s) : P s ∧ M.Safe s := by
  obtain ⟨s₀, as, h₀, hrun⟩ := hs
  have hP : P s := hrun.preserves hstep (hinit s₀ h₀)
  refine ⟨hP, fun a ha => ?_⟩
  -- the step lemma is about total correctness, so it also says that the action succeeds
  obtain ⟨t, ht, -⟩ := hstep s a hP ha
  exact ⟨t, ht⟩

/-- **The simulation rule.** If every admissible action moves related states to related states, the
abstract state moving by `next`, then every run ends in states related in the same way. -/
theorem Run.sim {α : Type} {next : α → ι → α} {R : σ → α → Prop}
    (hstep : ∀ s x a, R s x → M.enabled s a → (M.exec s a).Sat fun t => R t (next x a))
    {s t : σ} {as : List ι} (hrun : M.Run s as t) {x : α} (hs : R s x) :
    R t (as.foldl next x) := by
  induction hrun with
  | nil => exact hs
  | snoc _ ha ht ih =>
      rw [List.foldl_append]
      exact (hstep _ _ _ ih ha).of_eq_ok ht

/-! ## Runs that keep to a condition -/

/-- Runs of the same actions from the same state lead to the same state. -/
theorem Run.unique {s t u : σ} {as : List ι} (ht : M.Run s as t) (hu : M.Run s as u) : u = t := by
  induction ht generalizing u with
  | nil =>
      generalize has : ([] : List ι) = as at hu
      cases hu with
      | nil => rfl
      | snoc => simp at has
  | snoc _ _ ht ih =>
      generalize has : (_ ++ [_] : List ι) = as at hu
      cases hu with
      | nil => simp at has
      | snoc hu _ hexec =>
          obtain ⟨rfl, rfl⟩ := List.append_singleton_inj.mp has
          cases ih hu
          rw [ht] at hexec
          exact (Except.ok.inj hexec).symm

/-- A run goes through the states between its actions. -/
theorem Run.split {s t : σ} {cs : List ι} (h : M.Run s cs t) {as bs : List ι} (hcs : cs = as ++ bs) :
    ∃ u, M.Run s as u ∧ M.Run u bs t := by
  induction h generalizing bs with
  | nil =>
      obtain ⟨rfl, rfl⟩ := List.append_eq_nil_iff.mp hcs.symm
      exact ⟨s, .nil s, .nil s⟩
  | @snoc t v cs a hrun ha ht ih =>
      -- the last action is the last one of `bs`, unless there is none
      rcases List.eq_nil_or_concat bs with rfl | ⟨bs, b, rfl⟩
      · rw [List.append_nil] at hcs
        rw [← hcs]
        exact ⟨v, .snoc hrun ha ht, .nil v⟩
      · rw [List.concat_eq_append, ← List.append_assoc] at hcs
        obtain ⟨hinit, hab⟩ := List.append_inj' hcs rfl
        obtain rfl := (List.cons.inj hab).1
        obtain ⟨u, hfirst, hsecond⟩ := ih hinit
        rw [List.concat_eq_append]
        exact ⟨u, hfirst, .snoc hsecond ha ht⟩

/-- The first action of a run, and the rest of it. -/
theorem Run.of_cons {s t : σ} {a : ι} {as : List ι} (h : M.Run s (a :: as) t) :
    ∃ u, M.enabled s a ∧ M.exec s a = .ok u ∧ M.Run u as t := by
  obtain ⟨u, hfirst, hrest⟩ := h.split (List.singleton_append (x := a) (l := as)).symm
  generalize hsingle : [a] = first at hfirst
  cases hfirst with
  | nil => cases hsingle
  | snoc hrun ha hu =>
      rcases List.append_eq_singleton_iff.mp hsingle.symm with ⟨rfl, heq⟩ | ⟨-, heq⟩
      · cases heq
        cases (Run.nil s).unique hrun
        exact ⟨u, ha, hu, hrest⟩
      · cases heq

/-- The machine whose environment keeps to a condition on the state and the action. -/
def restrict (M : Machine σ ι) (cond : σ → ι → Prop) : Machine σ ι where
  init := M.init
  enabled s a := M.enabled s a ∧ cond s a
  exec := M.exec

/-- A run under a condition is a run. -/
theorem Run.of_restrict {cond : σ → ι → Prop} {s t : σ} {as : List ι}
    (h : (M.restrict cond).Run s as t) : M.Run s as t := by
  induction h with
  | nil => exact .nil _
  | snoc _ ha ht ih => exact .snoc ih ha.1 ht

/-- What is reached on runs that keep to a condition is reached. -/
theorem Reachable.of_restrict {cond : σ → ι → Prop} {s : σ} (h : (M.restrict cond).Reachable s) :
    M.Reachable s := by
  obtain ⟨s₀, as, h₀, hrun⟩ := h
  exact ⟨s₀, as, h₀, hrun.of_restrict⟩

/-- The last action of a run that keeps to a condition. -/
theorem Run.restrict_snoc_iff {cond : σ → ι → Prop} {s t u : σ} {as : List ι} {a : ι} (hrun : M.Run s as t)
    (ha : M.enabled t a) (hu : M.exec t a = .ok u) :
    (M.restrict cond).Run s (as ++ [a]) u ↔ (M.restrict cond).Run s as t ∧ cond t a := by
  constructor
  · intro h
    generalize has : as ++ [a] = as' at h
    cases h with
    | nil => simp at has
    | snoc hr hcond hexec =>
        obtain ⟨rfl, rfl⟩ := List.append_singleton_inj.mp has
        cases hrun.unique hr.of_restrict
        exact ⟨hr, hcond.2⟩
  · rintro ⟨hr, hcond⟩
    exact .snoc hr ⟨ha, hcond⟩ hu

/-- **Lasting properties.** If a property is kept by exactly the actions that meet a condition and is never
regained, then it holds at the end of a run exactly when all actions of the run meet the condition. The states
of the run may be known to have an invariant `Q`. -/
theorem Run.kept_iff {P Q : σ → Prop} {cond : σ → ι → Prop}
    (hstep : ∀ s a t, Q s → M.enabled s a → M.exec s a = .ok t → Q t ∧ (P t ↔ P s ∧ cond s a))
    {s t : σ} {as : List ι} (hrun : M.Run s as t) (hQ : Q s) (hP : P s) :
    P t ↔ (M.restrict cond).Run s as t := by
  have hboth : Q t ∧ (P t ↔ (M.restrict cond).Run s as t) := by
    induction hrun with
    | nil => exact ⟨hQ, iff_of_true hP (.nil s)⟩
    | @snoc t u as a hrun ha hu ih =>
        obtain ⟨hQt, hPt⟩ := ih
        obtain ⟨hQu, hPu⟩ := hstep t a u hQt ha hu
        exact ⟨hQu, by rw [hPu, hPt, hrun.restrict_snoc_iff ha hu]⟩
  exact hboth.2

/-- **First failures.** If in the states with a property the actions that keep it are those that meet a
condition, then the property holds all along a run exactly when all its actions meet the condition. -/
theorem Run.always_iff {P : σ → Prop} {cond : σ → ι → Prop}
    (hstep : ∀ s a t, M.Reachable s → P s → M.enabled s a → M.exec s a = .ok t → (P t ↔ cond s a))
    {s t : σ} {as : List ι} (hrun : M.Run s as t) (hinit : M.init s) (hs : P s) :
    (∀ bs u, bs <+: as → M.Run s bs u → P u) ↔ (M.restrict cond).Run s as t := by
  induction hrun with
  | nil =>
      constructor
      · intro _
        exact .nil s
      · intro _ bs u hbs hu
        rw [List.prefix_nil.mp hbs] at hu
        rw [(Run.nil s).unique hu]
        exact hs
  | @snoc t u as a hrun ha ht ih =>
      have hreach : M.Reachable t := ⟨s, as, hinit, hrun⟩
      constructor
      · intro hP
        have hrestrict := ih.mp fun bs v hbs => hP bs v (hbs.trans (List.prefix_append _ _))
        have hPt : P t := hP as t (List.prefix_append _ _) hrun
        have hPu : P u := hP _ u (List.prefix_refl _) (.snoc hrun ha ht)
        exact .snoc hrestrict ⟨ha, (hstep t a u hreach hPt ha ht).mp hPu⟩ ht
      · intro hrestrict bs v hbs hv
        obtain ⟨hr, hcond⟩ := (hrun.restrict_snoc_iff ha ht).mp hrestrict
        have hP := ih.mpr hr
        rcases List.prefix_concat_iff.mp hbs with rfl | hbs
        · rw [(Run.snoc hrun ha ht).unique hv]
          exact (hstep t a u hreach (hP as t (List.prefix_refl _) hrun) ha ht).mpr hcond
        · exact hP bs v hbs hv

end Machine

end Support
