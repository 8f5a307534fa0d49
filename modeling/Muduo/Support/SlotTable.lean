import Mathlib.Data.Set.Function
import Mathlib.Tactic.Common

/-! # Tables with back pointers

A table of slots in which every key knows the position of its slot. `swapRemove` closes the gap of a
removed slot with the last one, so that the position of one other key changes. `SlotTable` says that
the keys of a set are in one-to-one correspondence with the slots, and that each key's slot fits it. The
rules `push`, `set`, `pop` and `swapRemove` say how the correspondence moves with the table. -/

namespace Support

variable {α ι : Type}

/-- Remove the element at `i` by moving the last element to its place. -/
def swapRemove (xs : List α) (i : Nat) : List α :=
  match xs.getLast? with
  | none => []
  | some last => (xs.set i last).dropLast

@[simp] theorem length_swapRemove (xs : List α) (i : Nat) :
    (swapRemove xs i).length = xs.length - 1 := by
  unfold swapRemove
  cases hlast : xs.getLast? with
  | none =>
      rw [List.getLast?_eq_none_iff] at hlast
      simp [hlast]
  | some last => simp

/-- The other elements stay where they are. -/
theorem getElem?_swapRemove_of_ne {xs : List α} {i j : Nat} (hj : j + 1 < xs.length) (hne : j ≠ i) :
    (swapRemove xs i)[j]? = xs[j]? := by
  unfold swapRemove
  cases hlast : xs.getLast? with
  | none =>
      rw [List.getLast?_eq_none_iff] at hlast
      simp [hlast] at hj
  | some last =>
      have hlt : j < (xs.set i last).dropLast.length := by
        simp only [List.length_dropLast, List.length_set]
        omega
      rw [List.getElem?_eq_getElem hlt, List.getElem_dropLast, List.getElem_set_ne (Ne.symm hne),
        List.getElem?_eq_getElem]

/-- The last element comes to the place of the removed one. -/
theorem getElem?_swapRemove_self {xs : List α} {i : Nat} (hi : i + 1 < xs.length) :
    (swapRemove xs i)[i]? = xs[xs.length - 1]? := by
  rw [← List.getLast?_eq_getElem?]
  unfold swapRemove
  cases hlast : xs.getLast? with
  | none =>
      rw [List.getLast?_eq_none_iff] at hlast
      simp [hlast] at hi
  | some last =>
      have hlt : i < (xs.set i last).dropLast.length := by
        simp only [List.length_dropLast, List.length_set]
        omega
      rw [List.getElem?_eq_getElem hlt, List.getElem_dropLast, List.getElem_set_self]

/-- What is written to the last place is lost when the last element is. -/
theorem dropLast_set_last (xs : List α) (a : α) : (xs.set (xs.length - 1) a).dropLast = xs.dropLast := by
  apply List.ext_getElem?
  intro j
  rw [List.getElem?_dropLast, List.getElem?_dropLast, List.length_set]
  split
  · rw [List.getElem?_set_ne (by omega)]
  · rfl

/-- The keys in `S` have one slot each, at their position, and these are all the slots; `R` says which
slots fit a key. -/
structure SlotTable (S : Set ι) (pos : ι → Nat) (slots : List α) (R : ι → α → Prop) : Prop where
  fits : ∀ c ∈ S, ∃ a, slots[pos c]? = some a ∧ R c a
  onto : ∀ n < slots.length, ∃ c ∈ S, pos c = n
  inj : Set.InjOn pos S

namespace SlotTable

variable {S : Set ι} {pos pos' : ι → Nat} {slots : List α} {R Q : ι → α → Prop} {c d : ι}

/-- A table without members. -/
theorem empty (pos : ι → Nat) (R : ι → α → Prop) : SlotTable (∅ : Set ι) pos [] R where
  fits := by simp
  onto := by simp
  inj := Set.injOn_empty pos

/-- A position is within the table. -/
theorem pos_lt (h : SlotTable S pos slots R) (hc : c ∈ S) : pos c < slots.length := by
  obtain ⟨a, ha, -⟩ := h.fits c hc
  exact (List.getElem?_eq_some_iff.mp ha).1

/-- Only the keys in `S` matter. -/
theorem congr (h : SlotTable S pos slots R) (hpos : ∀ c ∈ S, pos' c = pos c)
    (hR : ∀ c ∈ S, ∀ a, R c a → Q c a) : SlotTable S pos' slots Q where
  fits := by
    intro c hc
    obtain ⟨a, ha, hfits⟩ := h.fits c hc
    rw [hpos c hc]
    exact ⟨a, ha, hR c hc a hfits⟩
  onto := by
    intro n hn
    obtain ⟨c, hc, hn⟩ := h.onto n hn
    exact ⟨c, hc, (hpos c hc).trans hn⟩
  inj := by
    intro c hc d hd heq
    rw [hpos c hc, hpos d hd] at heq
    exact h.inj hc hd heq

/-- A slot at the end for a new key. -/
theorem push (h : SlotTable S pos slots R) (hc : c ∉ S) {a : α} (ha : R c a)
    (hself : pos' c = slots.length) (hother : ∀ d ∈ S, pos' d = pos d) :
    SlotTable (insert c S) pos' (slots ++ [a]) R := by
  have hlt : ∀ d ∈ S, pos' d < slots.length := by
    intro d hd
    rw [hother d hd]
    exact h.pos_lt hd
  constructor
  · rintro d (rfl | hd)
    · exact ⟨a, by rw [hself, List.getElem?_concat_length], ha⟩
    · obtain ⟨b, hb, hfits⟩ := h.fits d hd
      refine ⟨b, ?_, hfits⟩
      rw [List.getElem?_append_left (hlt d hd), hother d hd]
      exact hb
  · intro n hn
    rw [List.length_append, List.length_singleton] at hn
    by_cases hlast : n = slots.length
    · exact ⟨c, Set.mem_insert c S, hself.trans hlast.symm⟩
    · obtain ⟨d, hd, hn⟩ := h.onto n (by omega)
      exact ⟨d, Set.mem_insert_of_mem c hd, (hother d hd).trans hn⟩
  · rintro d (rfl | hd) e (rfl | he) heq
    · rfl
    · have := hlt e he
      omega
    · have := hlt d hd
      omega
    · rw [hother d hd, hother e he] at heq
      exact h.inj hd he heq

/-- The slot of a key is written. -/
theorem set (h : SlotTable S pos slots R) (hc : c ∈ S) {a : α} (ha : Q c a)
    (hR : ∀ d ∈ S, d ≠ c → ∀ b, R d b → Q d b) :
    SlotTable S pos (slots.set (pos c) a) Q := by
  constructor
  · intro d hd
    by_cases hdc : d = c
    · subst hdc
      exact ⟨a, by simp [h.pos_lt hc], ha⟩
    · obtain ⟨b, hb, hfits⟩ := h.fits d hd
      refine ⟨b, ?_, hR d hd hdc b hfits⟩
      have hne : pos c ≠ pos d := fun heq => hdc (h.inj hd hc heq.symm)
      rw [List.getElem?_set_ne hne]
      exact hb
  · intro n hn
    rw [List.length_set] at hn
    exact h.onto n hn
  · exact h.inj

/-- The key of the last slot is removed with it. -/
theorem pop (h : SlotTable S pos slots R) (hc : c ∈ S) (hlast : pos c = slots.length - 1) :
    SlotTable (S \ {c}) pos slots.dropLast R := by
  have hlt : ∀ d ∈ S \ {c}, pos d < slots.length - 1 := by
    rintro d ⟨hd, hdc⟩
    have hne : pos d ≠ pos c := fun heq => hdc (h.inj hd hc heq)
    have := h.pos_lt hd
    omega
  constructor
  · intro d hd
    obtain ⟨b, hb, hfits⟩ := h.fits d hd.1
    refine ⟨b, ?_, hfits⟩
    rw [List.getElem?_dropLast, if_pos (hlt d hd)]
    exact hb
  · intro n hn
    rw [List.length_dropLast] at hn
    obtain ⟨d, hd, hn'⟩ := h.onto n (by omega)
    refine ⟨d, ⟨hd, ?_⟩, hn'⟩
    rintro rfl
    omega
  · exact h.inj.mono Set.sdiff_subset

/-- A key is removed and the last slot moves to its place: its key `d` gets the position of the removed
one, and nothing else changes. -/
theorem swapRemove (h : SlotTable S pos slots R) (hc : c ∈ S) (hd : d ∈ S) (hdc : d ≠ c)
    (hlast : pos d = slots.length - 1) (hself : pos' d = pos c)
    (hother : ∀ e ∈ S, e ≠ d → pos' e = pos e) :
    SlotTable (S \ {c}) pos' (swapRemove slots (pos c)) R := by
  have hcd : pos c ≠ pos d := fun heq => hdc (h.inj hd hc heq.symm)
  have hclt : pos c < slots.length := h.pos_lt hc
  have hlt : ∀ e ∈ S, e ≠ d → pos e + 1 < slots.length := by
    intro e he hed
    have hne : pos e ≠ pos d := fun heq => hed (h.inj he hd heq)
    have := h.pos_lt he
    omega
  constructor
  · rintro e ⟨he, hec⟩
    obtain ⟨b, hb, hfits⟩ := h.fits e he
    refine ⟨b, ?_, hfits⟩
    by_cases hed : e = d
    · rw [hed, hself, getElem?_swapRemove_self (hlt c hc (Ne.symm hdc)), ← hlast, ← hed]
      exact hb
    · have hne : pos e ≠ pos c := fun heq => hec (h.inj he hc heq)
      rw [hother e he hed, getElem?_swapRemove_of_ne (hlt e he hed) hne]
      exact hb
  · intro n hn
    rw [length_swapRemove] at hn
    by_cases hnc : n = pos c
    · exact ⟨d, ⟨hd, hdc⟩, hself.trans hnc.symm⟩
    · obtain ⟨e, he, hpos⟩ := h.onto n (by omega)
      have hed : e ≠ d := by
        rintro rfl
        omega
      refine ⟨e, ⟨he, ?_⟩, (hother e he hed).trans hpos⟩
      rintro rfl
      exact hnc hpos.symm
  · rintro e ⟨he, hec⟩ f ⟨hf, hfc⟩ heq
    by_cases hed : e = d
    · by_cases hfd : f = d
      · rw [hed, hfd]
      · rw [hed, hself, hother f hf hfd] at heq
        exact absurd (h.inj hf hc heq.symm) hfc
    · by_cases hfd : f = d
      · rw [hfd, hself, hother e he hed] at heq
        exact absurd (h.inj he hc heq) hec
      · rw [hother e he hed, hother f hf hfd] at heq
        exact h.inj he hf heq

end SlotTable

end Support
