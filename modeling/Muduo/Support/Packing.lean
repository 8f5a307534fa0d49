import Mathlib.Data.List.Basic
import Mathlib.Tactic.Common

/-! # Items packed into chunks

Items arrive one by one and are packed into chunks: each is put at the end of the last chunk, and from time
to time a new chunk is opened. `Packed items chunks` says that the chunks hold the items in order, each item
whole and in one chunk. -/

namespace Support

variable {α : Type}

/-- Each chunk is made of some of the items, and all chunks together of all of them, in order. -/
def Packed (items chunks : List (List α)) : Prop :=
  ∃ groups : List (List (List α)), groups.flatten = items ∧ groups.map List.flatten = chunks

namespace Packed

variable {items chunks chunks' : List (List α)}

/-- Nothing packed. -/
theorem nil : Packed ([] : List (List α)) [] := ⟨[], rfl, rfl⟩

/-- A new chunk is opened. -/
theorem open_chunk (h : Packed items chunks) : Packed items (chunks ++ [[]]) := by
  obtain ⟨groups, rfl, rfl⟩ := h
  exact ⟨groups ++ [[]], by simp, by simp⟩

/-- An item is put at the end of the last chunk. -/
theorem add {chunk : List α} (h : Packed items (chunks ++ [chunk])) (item : List α) :
    Packed (items ++ [item]) (chunks ++ [chunk ++ item]) := by
  obtain ⟨groups, rfl, hchunks⟩ := h
  -- the last group is the one of the last chunk
  rcases List.eq_nil_or_concat groups with rfl | ⟨init, last, rfl⟩
  · simp at hchunks
  · rw [List.concat_eq_append, List.map_append, List.map_singleton] at hchunks
    obtain ⟨rfl, hlast⟩ := List.append_inj' hchunks rfl
    cases hlast
    exact ⟨init ++ [last ++ [item]], by simp, by simp⟩

/-- The bytes are the same. -/
theorem flatten_eq (h : Packed items chunks) : chunks.flatten = items.flatten := by
  obtain ⟨groups, rfl, rfl⟩ := h
  rw [List.flatten_flatten]

/-- The first chunks hold the first items. -/
theorem split (h : Packed items (chunks ++ chunks')) :
    ∃ k, chunks.flatten = (items.take k).flatten ∧ chunks'.flatten = (items.drop k).flatten := by
  obtain ⟨groups, rfl, hgroups⟩ := h
  obtain ⟨front, back, rfl, rfl, rfl⟩ := List.map_eq_append_iff.mp hgroups
  refine ⟨front.flatten.length, ?_, ?_⟩
  · rw [List.flatten_append, List.take_left, List.flatten_flatten]
  · rw [List.flatten_append, List.drop_left, List.flatten_flatten]

end Packed

end Support
