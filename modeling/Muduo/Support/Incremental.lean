import Muduo.Support.Loop
import Mathlib.Data.List.Basic

/-! # Consumers of a stream that arrives in pieces

A `Consumer` looks at the input it has so far and decides: to wait for more, to take some of it and go
on, or to stop. If a decision once made is not changed by more input (`stable`), it does not matter how
the input is cut into pieces: `feedAll_eq` reduces every sequence of pieces to a single one. -/

namespace Support

variable {σ β ρ : Type}

/-- What a consumer decides about its input. -/
inductive Verdict (σ ρ : Type) where
  | wait -- there is not enough of it yet
  /-- Take `n` elements and go on. -/
  | take (n : Nat) (state : σ)
  /-- Take `n` elements and stop. -/
  | stop (n : Nat) (state : σ) (result : ρ)

/-- The decision of a consumer whose states are seen through `f`. -/
def Verdict.map {σ' : Type} (f : σ → σ') : Verdict σ ρ → Verdict σ' ρ
  | .wait => .wait
  | .take n s => .take n (f s)
  | .stop n s r => .stop n (f s) r

/-- A consumer with states `σ` and results `ρ` of input of type `β`. -/
structure Consumer (σ β ρ : Type) where
  step : σ → List β → Checked (Verdict σ ρ)
  /-- More input does not change a decision. -/
  stable : ∀ s xs ys, step s xs ≠ .ok .wait → step s (xs ++ ys) = step s xs
  take_le : ∀ s xs n s', step s xs = .ok (.take n s') → 0 < n ∧ n ≤ xs.length
  stop_le : ∀ s xs n s' r, step s xs = .ok (.stop n s' r) → n ≤ xs.length

namespace Consumer

/-- Where a consumer is: its state, the input it has not taken, and its result if it has stopped. -/
structure Progress (σ β ρ : Type) where
  state : σ
  rest : List β
  result : Option ρ

/-- The state replaced by its image. -/
def Progress.map {σ' : Type} (f : σ → σ') (p : Progress σ β ρ) : Progress σ' β ρ :=
  ⟨f p.state, p.rest, p.result⟩

variable (c : Consumer σ β ρ)

/-- One turn of the consumer. -/
def body (a : σ × List β) : Checked ((σ × List β) ⊕ Progress σ β ρ) := do
  match ← c.step a.1 a.2 with
  | .wait => return .inr ⟨a.1, a.2, none⟩
  | .take n s => return .inl (s, a.2.drop n)
  | .stop n s r => return .inr ⟨s, a.2.drop n, some r⟩

/-- Consume as much of the input as possible. -/
def run (s : σ) (xs : List β) : Checked (Progress σ β ρ) := loop c.body (xs.length + 1) (s, xs)

/-- A piece of input arrives; a consumer that has stopped does not look at it. -/
def feed (p : Progress σ β ρ) (xs : List β) : Checked (Progress σ β ρ) :=
  match p.result with
  | some _ => return { p with rest := p.rest ++ xs }
  | none => c.run p.state (p.rest ++ xs)

/-- Pieces of input arrive one after the other. -/
def feedAll (p : Progress σ β ρ) : List (List β) → Checked (Progress σ β ρ)
  | [] => return p
  | xs :: pieces => do
      let p ← c.feed p xs
      feedAll p pieces

/-- A turn goes on by taking something. -/
theorem body_inl {a a' : σ × List β} (h : c.body a = .ok (.inl a')) :
    ∃ n, c.step a.1 a.2 = .ok (.take n a'.1) ∧ a'.2 = a.2.drop n := by
  unfold body at h
  cases hstep : c.step a.1 a.2 with
  | error e =>
      rw [hstep] at h
      cases h
  | ok v =>
      rw [hstep] at h
      cases v with
      | take n s =>
          cases h
          exact ⟨n, rfl, rfl⟩
      | wait | stop => cases h

/-- So what is left gets shorter. -/
theorem body_measure (a a' : σ × List β) (h : c.body a = .ok (.inl a')) :
    a'.2.length < a.2.length := by
  obtain ⟨n, hstep, hrest⟩ := c.body_inl h
  obtain ⟨hpos, hle⟩ := c.take_le _ _ _ _ hstep
  rw [hrest, List.length_drop]
  omega

/-- `run` turn by turn. -/
theorem run_eq (s : σ) (xs : List β) :
    c.run s xs = do
      match ← c.step s xs with
      | .wait => return ⟨s, xs, none⟩
      | .take n s' => c.run s' (xs.drop n)
      | .stop n s' r => return ⟨s', xs.drop n, some r⟩ := by
  cases hstep : c.step s xs with
  | error e =>
      have hbody : c.body (s, xs) = .error e := by
        rw [body, hstep]
        rfl
      exact loop_of_error hbody _
  | ok v =>
      cases v with
      | wait =>
          have hbody : c.body (s, xs) = .ok (.inr ⟨s, xs, none⟩) := by
            rw [body, hstep]
            rfl
          exact loop_of_inr hbody _
      | take n s' =>
          have hbody : c.body (s, xs) = .ok (.inl (s', xs.drop n)) := by
            rw [body, hstep]
            rfl
          have hlt : (xs.drop n).length < xs.length := c.body_measure _ _ hbody
          -- the loop goes on with a bound that was meant for `xs`; any bound above the rest will do
          rw [run, loop_of_inl hbody]
          exact loop_of_measure (I := fun _ => True) (fun a => a.2.length)
            (fun a a' _ h => ⟨trivial, c.body_measure a a' h⟩) trivial hlt (Nat.lt_succ_self _)
      | stop n s' r =>
          have hbody : c.body (s, xs) = .ok (.inr ⟨s', xs.drop n, some r⟩) := by
            rw [body, hstep]
            rfl
          exact loop_of_inr hbody _

/-- Consumers that decide alike consume alike. -/
theorem run_map {σ' : Type} {c : Consumer σ β ρ} {c' : Consumer σ' β ρ} {f : σ → σ'}
    (hstep : ∀ s xs, c'.step (f s) xs = (c.step s xs).map (Verdict.map f)) (s : σ) (xs : List β) :
    c'.run (f s) xs = (c.run s xs).map (Progress.map f) := by
  refine loop_map (I := fun _ => True) (f := fun a => (f a.1, a.2)) (fun a _ => ?_)
    (fun _ _ _ _ => trivial) _ (a := (s, xs)) trivial
  simp only [body, hstep]
  cases c.step a.1 a.2 with
  | error e => rfl
  | ok v => cases v <;> rfl

/-- Consuming a piece and then another is consuming both at once. -/
theorem run_append (s : σ) (xs ys : List β) :
    c.run s (xs ++ ys) = c.run s xs >>= fun p => c.feed p ys := by
  -- by induction on the length of the first piece
  induction hlen : xs.length using Nat.strong_induction_on generalizing s xs with
  | _ len ih =>
      subst hlen
      cases hstep : c.step s xs with
      | error e =>
          have hstep' : c.step s (xs ++ ys) = .error e := by
            rw [c.stable s xs ys (by rw [hstep]; exact nofun), hstep]
          rw [run_eq, hstep', c.run_eq s xs, hstep]
          rfl
      | ok v =>
          cases v with
          | wait =>
              -- `xs` is kept whole, and the next piece is looked at together with it
              rw [c.run_eq s xs, hstep]
              rfl
          | take n s' =>
              obtain ⟨hpos, hle⟩ := c.take_le _ _ _ _ hstep
              have hstep' : c.step s (xs ++ ys) = .ok (.take n s') := by
                rw [c.stable s xs ys (by rw [hstep]; exact nofun), hstep]
              have hlt : (xs.drop n).length < xs.length := by
                rw [List.length_drop]
                omega
              rw [run_eq, hstep', c.run_eq s xs, hstep]
              show c.run s' ((xs ++ ys).drop n) = _
              rw [List.drop_append_of_le_length hle]
              exact ih _ hlt s' (xs.drop n) rfl
          | stop n s' r =>
              have hle := c.stop_le _ _ _ _ _ hstep
              have hstep' : c.step s (xs ++ ys) = .ok (.stop n s' r) := by
                rw [c.stable s xs ys (by rw [hstep]; exact nofun), hstep]
              rw [run_eq, hstep', c.run_eq s xs, hstep]
              simp only [Checked.ok_bind, List.drop_append_of_le_length hle]
              rfl

/-! ## What has been taken -/

/-- What a consumer has taken: `R` tells it while the consumer goes on, and `Q` when it has stopped. -/
structure Reads (R : σ → List β → Prop) (Q : σ → List β → ρ → Prop) (p : Progress σ β ρ)
    (taken : List β) : Prop where
  going : p.result = none → R p.state taken
  stopped : ∀ r, p.result = some r → Q p.state taken r

/-- Every decision keeps account of what is taken. -/
structure Accounts (R : σ → List β → Prop) (Q : σ → List β → ρ → Prop) : Prop where
  take : ∀ s past xs n s', R s past → c.step s xs = .ok (.take n s') → R s' (past ++ xs.take n)
  stop : ∀ s past xs n s' r, R s past → c.step s xs = .ok (.stop n s' r) → Q s' (past ++ xs.take n) r

variable {c} {R : σ → List β → Prop} {Q : σ → List β → ρ → Prop}

/-- A run keeps account of what it takes. -/
theorem Accounts.run (hc : c.Accounts R Q) {s : σ} {past xs : List β} {p : Progress σ β ρ}
    (hs : R s past) (h : c.run s xs = .ok p) :
    ∃ taken, past ++ xs = taken ++ p.rest ∧ Reads R Q p taken := by
  -- by induction on the input that is left
  induction hlen : xs.length using Nat.strong_induction_on generalizing s past xs with
  | _ len ih =>
      subst hlen
      rw [run_eq] at h
      obtain ⟨v, hstep, h⟩ := Checked.bind_eq_ok.mp h
      cases v with
      | wait =>
          cases h
          exact ⟨past, rfl, fun _ => hs, nofun⟩
      | take n s' =>
          obtain ⟨hpos, hle⟩ := c.take_le _ _ _ _ hstep
          have hlt : (xs.drop n).length < xs.length := by
            rw [List.length_drop]
            omega
          obtain ⟨taken, htaken, hreads⟩ := ih _ hlt (hc.take _ _ _ _ _ hs hstep) h rfl
          refine ⟨taken, ?_, hreads⟩
          rw [← htaken, List.append_assoc, List.take_append_drop]
      | stop n s' r =>
          cases h
          refine ⟨past ++ xs.take n, ?_, nofun, fun r' hr' => ?_⟩
          · rw [List.append_assoc, List.take_append_drop]
          · cases hr'
            exact hc.stop _ _ _ _ _ _ hs hstep

/-- A piece of input arrives. -/
theorem Accounts.feed (hc : c.Accounts R Q) {p p' : Progress σ β ρ} {past xs : List β}
    (hp : Reads R Q p past) (h : c.feed p xs = .ok p') :
    ∃ taken, past ++ p.rest ++ xs = taken ++ p'.rest ∧ Reads R Q p' taken := by
  unfold Consumer.feed at h
  split at h
  · cases h
    exact ⟨past, List.append_assoc .., hp.going, hp.stopped⟩
  · next hnone =>
      obtain ⟨taken, htaken, hreads⟩ := hc.run (hp.going hnone) h
      refine ⟨taken, ?_, hreads⟩
      rw [← htaken, List.append_assoc]

variable (c)

/-- Two pieces are as good as one. -/
theorem feed_append (p : Progress σ β ρ) (xs ys : List β) :
    c.feed p (xs ++ ys) = c.feed p xs >>= fun p' => c.feed p' ys := by
  obtain ⟨s, rest, result⟩ := p
  cases result with
  | some r =>
      show Except.ok _ = Except.ok _
      rw [List.append_assoc]
  | none =>
      show c.run s (rest ++ (xs ++ ys)) = _
      rw [← List.append_assoc, run_append]
      rfl

/-- **Pieces do not matter.** Feeding pieces one by one is feeding all of them at once. -/
theorem feedAll_eq (p : Progress σ β ρ) (piece : List β) (pieces : List (List β)) :
    c.feedAll p (piece :: pieces) = c.feed p (piece :: pieces).flatten := by
  -- the first piece stays in view: with no piece at all the consumer would not even look
  induction pieces generalizing p piece with
  | nil =>
      rw [List.flatten_cons, List.flatten_nil, List.append_nil, feedAll]
      cases c.feed p piece <;> rfl
  | cons next pieces ih =>
      rw [List.flatten_cons, feed_append, feedAll]
      cases c.feed p piece with
      | error e => rfl
      | ok p' => exact ih p' next

/-- The same, also for no pieces at all, from where the consumer has nothing left to decide. -/
theorem feedAll_of_settled {p : Progress σ β ρ} (h : c.feed p [] = .ok p) (pieces : List (List β)) :
    c.feedAll p pieces = c.feed p pieces.flatten := by
  cases pieces with
  | nil => exact h.symm
  | cons piece pieces => exact c.feedAll_eq p piece pieces

/-! ## Consumers that look again

A consumer need not remember that it has stopped: it may look at its input again whenever a piece
arrives. As long as it does not stop, that makes no difference. -/

/-- A piece of input arrives, and the consumer runs. -/
def rerun (a : σ × List β) (xs : List β) : Checked (σ × List β) := do
  let p ← c.run a.1 (a.2 ++ xs)
  return (p.state, p.rest)

/-- Pieces arrive one after the other, and the consumer runs after each. -/
def rerunAll (a : σ × List β) : List (List β) → Checked (σ × List β)
  | [] => return a
  | xs :: pieces => do
      let a ← c.rerun a xs
      rerunAll a pieces

/-- A consumer that has stopped stays so, and the pieces pile up. -/
theorem feedAll_of_stopped {p : Progress σ β ρ} {r : ρ} (hp : p.result = some r)
    (pieces : List (List β)) : c.feedAll p pieces = .ok { p with rest := p.rest ++ pieces.flatten } := by
  induction pieces generalizing p with
  | nil => simp [feedAll]
  | cons xs pieces ih =>
      have hfeed : c.feed p xs = .ok { p with rest := p.rest ++ xs } := by
        rw [feed, hp]
        rfl
      rw [feedAll, hfeed, Checked.ok_bind, ih (p := { p with rest := p.rest ++ xs }) hp,
        List.flatten_cons, List.append_assoc]

/-- Looking again makes no difference where the consumer does not stop. -/
theorem rerunAll_eq {s : σ} {rest : List β} {pieces : List (List β)} {p : Progress σ β ρ}
    (h : c.feedAll ⟨s, rest, none⟩ pieces = .ok p) (hp : p.result = none) :
    c.rerunAll (s, rest) pieces = .ok (p.state, p.rest) := by
  induction pieces generalizing s rest with
  | nil =>
      cases h
      rfl
  | cons xs pieces ih =>
      obtain ⟨⟨s₁, rest₁, result₁⟩, hrun, hfeed⟩ := Checked.bind_eq_ok.mp h
      have hnone : result₁ = none := by
        cases result₁ with
        | none => rfl
        | some r =>
            -- having stopped here it would still be stopped at the end
            rw [c.feedAll_of_stopped rfl] at hfeed
            cases hfeed
            cases hp
      subst hnone
      have hrerun : c.rerun (s, rest) xs = .ok (s₁, rest₁) := by
        have hrun' : c.run s (rest ++ xs) = .ok ⟨s₁, rest₁, none⟩ := hrun
        rw [rerun, hrun']
        rfl
      rw [rerunAll, hrerun]
      exact ih hfeed

end Consumer

end Support
