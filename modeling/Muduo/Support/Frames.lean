import Muduo.Support.Incremental
import Mathlib.Algebra.Order.Ring.Nat

/-! # Streams of frames

A consumer that reads one frame and stops is started again for the next one. A `Reader` starts its
consumer once for each piece of input that arrives, so it takes at most one frame from a piece and what
is behind it has to wait for the next piece. `readAll_eq` says how many frames it has taken after a
number of pieces, and `served_eq_length_iff` when these are all. -/

namespace Support

/-! ## Counting -/

/-- How many frames of the given lengths are complete in the first `n` elements of a stream. -/
def completed : List Nat → Nat → Nat
  | [], _ => 0
  | l :: ls, n => if l ≤ n then completed ls (n - l) + 1 else 0

/-- How many frames of lengths `ls` are taken from pieces of lengths `xs`, at most one from each, when
`w` elements are waiting. -/
def served : List Nat → Nat → List Nat → Nat
  | _, _, [] => 0
  | [], _, _ :: _ => 0
  | l :: ls, w, x :: xs =>
      if l ≤ w + x then served ls (w + x - l) xs + 1 else served (l :: ls) (w + x) xs

/-- The first frame is not complete. -/
theorem completed_of_lt {l n : Nat} (ls : List Nat) (h : n < l) : completed (l :: ls) n = 0 :=
  if_neg (Nat.not_le.mpr h)

/-- The first frame is complete. -/
theorem completed_of_le {l n : Nat} (ls : List Nat) (h : l ≤ n) :
    completed (l :: ls) n = completed ls (n - l) + 1 := if_pos h

/-- No more frames are served than there are. -/
theorem served_le_length (ls : List Nat) (w : Nat) (xs : List Nat) : served ls w xs ≤ ls.length := by
  induction xs generalizing ls w with
  | nil => simp [served]
  | cons x xs ih =>
      cases ls with
      | nil => simp [served]
      | cons l ls =>
          rw [served]
          split
          · exact Nat.succ_le_succ (ih ls _)
          · exact ih (l :: ls) _

/-- All frames are taken exactly if there are enough pieces, and behind each piece there are enough for
the frames that are not complete by then. -/
theorem served_eq_length_iff (ls : List Nat) (w : Nat) (xs : List Nat) :
    served ls w xs = ls.length ↔ ls.length ≤ xs.length ∧
      ∀ k < xs.length,
        ls.length ≤ completed ls (w + (xs.take (k + 1)).sum) + (xs.length - (k + 1)) := by
  induction xs generalizing ls w with
  | nil =>
      cases ls with
      | nil => simp [served]
      | cons l ls => simp [served]
  | cons x xs ih =>
      cases ls with
      | nil => simp [served]
      | cons l ls =>
          rw [List.length_cons, List.length_cons, Nat.forall_lt_succ_left]
          -- what the first piece completes, and what is complete after each of the others
          simp only [List.take_succ_cons, List.take_zero, List.sum_cons, List.sum_nil, Nat.add_zero,
            ← Nat.add_assoc, Nat.zero_add, Nat.add_sub_add_right, Nat.add_sub_cancel]
          by_cases hl : l ≤ w + x
          · have hrest : ∀ n, completed (l :: ls) (w + x + n) = completed ls (w + x - l + n) + 1 := by
              intro n
              rw [completed_of_le ls (by omega), Nat.sub_add_comm hl]
            rw [served, if_pos hl, Nat.succ_inj, ih, completed_of_le ls hl]
            simp only [hrest]
            constructor
            · rintro ⟨hlen, hall⟩
              refine ⟨by omega, by omega, fun k hk => ?_⟩
              have := hall k hk
              omega
            · rintro ⟨hlen, -, hall⟩
              refine ⟨by omega, fun k hk => ?_⟩
              have := hall k hk
              omega
          · rw [served, if_neg hl, completed_of_lt ls (Nat.not_le.mp hl)]
            refine (ih (l :: ls) (w + x)).trans ?_
            rw [List.length_cons]
            constructor
            · rintro ⟨hlen, hall⟩
              exact ⟨by omega, by omega, hall⟩
            · rintro ⟨-, hlen, hall⟩
              exact ⟨by omega, hall⟩

/-! ## Readers -/

namespace Consumer

variable {σ β ρ : Type} (c : Consumer σ β ρ) (s₀ : σ)

/-- The elements of a frame, with the state and the result in which the consumer stops at its end. -/
structure Frame where
  data : List β
  state : σ
  result : ρ
  data_ne_nil : data ≠ []
  run_data : c.run s₀ data = .ok ⟨state, [], some result⟩

/-- Where a reader is: the state of its consumer, the elements that are waiting, and for each frame it
has taken the state and the result. -/
structure Reader (σ β ρ : Type) where
  state : σ
  rest : List β
  outputs : List (σ × ρ)

/-- A piece of input arrives, and the consumer runs once. -/
def read (a : Reader σ β ρ) (xs : List β) : Checked (Reader σ β ρ) := do
  let p ← c.run a.state (a.rest ++ xs)
  match p.result with
  | none => return { a with state := p.state, rest := p.rest }
  | some r => return { state := s₀, rest := p.rest, outputs := a.outputs ++ [(p.state, r)] }

/-- Pieces arrive one after the other. -/
def readAll (a : Reader σ β ρ) : List (List β) → Checked (Reader σ β ρ)
  | [] => return a
  | xs :: pieces => do
      let a ← c.read s₀ a xs
      readAll a pieces

variable {c s₀}

/-- What was produced stays. -/
theorem outputs_prefix_of_read {a a' : Reader σ β ρ} {xs : List β} (h : c.read s₀ a xs = .ok a') :
    a.outputs <+: a'.outputs := by
  obtain ⟨p, -, h⟩ := Checked.bind_eq_ok.mp h
  split at h
  · cases h
    exact List.prefix_rfl
  · cases h
    exact List.prefix_append _ _

/-- What has been taken stays taken. -/
theorem outputs_prefix_of_readAll {a a' : Reader σ β ρ} {pieces : List (List β)}
    (h : c.readAll s₀ a pieces = .ok a') : a.outputs <+: a'.outputs := by
  induction pieces generalizing a with
  | nil =>
      cases h
      exact List.prefix_rfl
  | cons xs pieces ih =>
      obtain ⟨a₁, hread, h⟩ := Checked.bind_eq_ok.mp h
      exact (outputs_prefix_of_read hread).trans (ih h)

namespace Frame

/-- What the consumer has made of the frame. -/
def output (f : c.Frame s₀) : σ × ρ := (f.state, f.result)

/-- What comes behind a frame is not looked at. -/
theorem run_append (f : c.Frame s₀) (ys : List β) :
    c.run s₀ (f.data ++ ys) = .ok ⟨f.state, ys, some f.result⟩ := by
  rw [Consumer.run_append, f.run_data]
  rfl

/-- Within a frame the consumer does not stop. -/
theorem run_of_prefix (f : c.Frame s₀) {xs : List β} (hpre : xs <+: f.data)
    (hlt : xs.length < f.data.length) : ∃ s rest, c.run s₀ xs = .ok ⟨s, rest, none⟩ := by
  obtain ⟨ys, hys⟩ := hpre
  have hrun := f.run_data
  rw [← hys, Consumer.run_append] at hrun
  obtain ⟨⟨s, rest, result⟩, hxs, hfeed⟩ := Checked.bind_eq_ok.mp hrun
  cases result with
  | none => exact ⟨s, rest, hxs⟩
  | some r =>
      -- it would have left the rest of the frame
      have hempty : rest ++ ys = [] := congrArg Progress.rest (Except.ok.inj hfeed)
      rw [List.append_eq_nil_iff] at hempty
      rw [← hys, hempty.2, List.append_nil] at hlt
      exact absurd hlt (Nat.lt_irrefl _)

end Frame

/-- What is waiting of the frames `fs` is `ys`, and the consumer goes on as if it had not started. -/
structure Reader.Waits (a : Reader σ β ρ) (fs : List (c.Frame s₀)) (ys : List β) : Prop where
  stream : ys <+: (fs.map Frame.data).flatten
  run_eq : ∀ zs, c.run a.state (a.rest ++ zs) = c.run s₀ (ys ++ zs)

/-- A piece that does not complete the next frame. -/
theorem Reader.Waits.read_of_lt {a : Reader σ β ρ} {f : c.Frame s₀} {fs : List (c.Frame s₀)}
    {ys xs : List β} (h : a.Waits (f :: fs) ys)
    (hstream : ys ++ xs <+: ((f :: fs).map Frame.data).flatten)
    (hlt : ys.length + xs.length < f.data.length) :
    ∃ a', c.read s₀ a xs = .ok a' ∧ a'.outputs = a.outputs ∧ a'.Waits (f :: fs) (ys ++ xs) := by
  rw [← List.length_append] at hlt
  have hpre : ys ++ xs <+: f.data :=
    List.prefix_of_prefix_length_le hstream (List.prefix_append _ _) hlt.le
  obtain ⟨s, rest, hrun⟩ := f.run_of_prefix hpre hlt
  refine ⟨⟨s, rest, a.outputs⟩, ?_, rfl, hstream, fun zs => ?_⟩
  · rw [read, h.run_eq, hrun]
    rfl
  · rw [c.run_append s₀ (ys ++ xs) zs, hrun]
    rfl

/-- A piece that completes the next frame. -/
theorem Reader.Waits.read_of_le {a : Reader σ β ρ} {f : c.Frame s₀} {fs : List (c.Frame s₀)}
    {ys xs : List β} (h : a.Waits (f :: fs) ys)
    (hstream : ys ++ xs <+: ((f :: fs).map Frame.data).flatten)
    (hle : f.data.length ≤ ys.length + xs.length) :
    ∃ a' zs, c.read s₀ a xs = .ok a' ∧ a'.outputs = a.outputs ++ [f.output] ∧ a'.Waits fs zs ∧
      ys ++ xs = f.data ++ zs := by
  rw [← List.length_append] at hle
  obtain ⟨zs, hzs⟩ : f.data <+: ys ++ xs :=
    List.prefix_of_prefix_length_le (List.prefix_append _ _) hstream hle
  refine ⟨⟨s₀, zs, a.outputs ++ [f.output]⟩, zs, ?_, rfl, ⟨?_, fun _ => rfl⟩, hzs.symm⟩
  · rw [read, h.run_eq, ← hzs, f.run_append]
    rfl
  · rw [← hzs, List.map_cons, List.flatten_cons, List.prefix_append_right_inj] at hstream
    exact hstream

/-- **One frame for each piece.** A reader that is fed a stream of frames in pieces takes the first of
the frames, as many as `served` says. -/
theorem Reader.Waits.readAll_eq {a : Reader σ β ρ} {fs : List (c.Frame s₀)} {ys : List β}
    {pieces : List (List β)} (h : a.Waits fs ys) (hpieces : ∀ xs ∈ pieces, xs ≠ [])
    (hstream : ys ++ pieces.flatten <+: (fs.map Frame.data).flatten) :
    ∃ a', c.readAll s₀ a pieces = .ok a' ∧
      a'.outputs = a.outputs ++ (fs.take (served (fs.map fun f => f.data.length) ys.length
        (pieces.map List.length))).map Frame.output := by
  induction pieces generalizing a fs ys with
  | nil => exact ⟨a, rfl, by simp [served]⟩
  | cons xs pieces ih =>
      rw [List.forall_mem_cons] at hpieces
      rw [List.flatten_cons, ← List.append_assoc] at hstream
      have hfirst := (List.prefix_append _ _).trans hstream
      cases fs with
      | nil =>
          -- there is nothing left for a piece to be
          rw [List.map_nil, List.flatten_nil, List.prefix_nil, List.append_eq_nil_iff] at hfirst
          exact absurd hfirst.2 hpieces.1
      | cons f fs =>
          by_cases hle : f.data.length ≤ ys.length + xs.length
          · obtain ⟨a₁, zs, hread, houtputs, hwaits, hzs⟩ := h.read_of_le hfirst hle
            rw [hzs, List.append_assoc, List.map_cons, List.flatten_cons,
              List.prefix_append_right_inj] at hstream
            obtain ⟨a', hreadAll, houtputs'⟩ := ih hwaits hpieces.2 hstream
            have hlen : zs.length = ys.length + xs.length - f.data.length := by
              have := congrArg List.length hzs
              simp only [List.length_append] at this
              omega
            refine ⟨a', ?_, ?_⟩
            · rw [readAll, hread]
              exact hreadAll
            · rw [houtputs', houtputs, hlen, List.map_cons, List.map_cons, served, if_pos hle,
                List.take_succ_cons, List.map_cons, List.append_assoc, List.singleton_append]
          · obtain ⟨a₁, hread, houtputs, hwaits⟩ := h.read_of_lt hfirst (Nat.not_le.mp hle)
            obtain ⟨a', hreadAll, houtputs'⟩ := ih hwaits hpieces.2 hstream
            refine ⟨a', ?_, ?_⟩
            · rw [readAll, hread]
              exact hreadAll
            · rw [houtputs', houtputs, List.length_append, List.map_cons, List.map_cons, served,
                if_neg hle]

end Consumer

end Support
