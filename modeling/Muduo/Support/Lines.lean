import Muduo.Support.Search

/-! # Lines

A text made of lines, each followed by the same separator. The separator may overlap itself or the end of
a line, so a line is a list behind which the separator is found exactly at its end (`IsLine`). Then a text
determines its lines (`joinLines_inj`).

For a separator of two elements, `splitLines` cuts a text at each of them. A block of lines is followed by
an empty line, that is by two separators, and where no line is empty this is the first place with two
(`isLine_unlines`). -/

namespace Support

variable {α : Type} [DecidableEq α] {sep : List α}

/-- Behind `line` the separator is found where the line ends and not before. -/
def IsLine (sep line : List α) : Prop := search sep (line ++ sep) = some line.length

/-- A line can be told by computation. -/
instance (sep line : List α) : Decidable (IsLine sep line) :=
  inferInstanceAs (Decidable (_ = _))

/-- The text of the lines. -/
def joinLines (sep : List α) (lines : List (List α)) : List α := lines.flatMap (· ++ sep)

omit [DecidableEq α] in
@[simp] theorem joinLines_nil : joinLines sep [] = [] := rfl

omit [DecidableEq α] in
@[simp] theorem joinLines_cons (line : List α) (lines : List (List α)) :
    joinLines sep (line :: lines) = line ++ sep ++ joinLines sep lines := List.flatMap_cons

omit [DecidableEq α] in
@[simp] theorem joinLines_append (lines lines' : List (List α)) :
    joinLines sep (lines ++ lines') = joinLines sep lines ++ joinLines sep lines' :=
  List.flatMap_append

/-- What stands before the first separator is a line. -/
theorem isLine_of_search {xs : List α} {i : Nat} (h : search sep xs = some i) :
    IsLine sep (xs.take i) := by
  have hle := search_le h
  have hlen : (xs.take i).length = i := List.length_take_of_le (by omega)
  have hspec := search_spec h
  rw [IsLine, hlen]
  rw [hspec] at h
  refine search_of_append h ?_
  rewrite [List.length_append, hlen]
  exact Nat.le_refl _

/-- A line is found at the front of a text. -/
theorem IsLine.search {line : List α} (h : IsLine sep line) (rest : List α) :
    search sep (line ++ sep ++ rest) = some line.length := search_append h rest

/-- The first line of a text is determined. -/
theorem IsLine.append_inj {line line' rest rest' : List α} (h : IsLine sep line)
    (h' : IsLine sep line') (heq : line ++ sep ++ rest = line' ++ sep ++ rest') :
    line = line' ∧ rest = rest' := by
  have hlen : line.length = line'.length := by
    have hsearch := h.search rest
    rw [heq, h'.search rest'] at hsearch
    exact (Option.some.inj hsearch).symm
  rw [List.append_assoc, List.append_assoc] at heq
  obtain ⟨hline, hrest⟩ := List.append_inj heq hlen
  exact ⟨hline, List.append_cancel_left hrest⟩

/-- **A text determines its lines**, up to the first one without a given property. -/
theorem joinLines_inj {P : List α → Prop} {lines lines' : List (List α)} {last last' rest rest' : List α}
    (hlines : ∀ l ∈ lines, IsLine sep l ∧ P l) (hlast : IsLine sep last ∧ ¬ P last)
    (hlines' : ∀ l ∈ lines', IsLine sep l ∧ P l) (hlast' : IsLine sep last' ∧ ¬ P last')
    (heq : joinLines sep (lines ++ [last]) ++ rest = joinLines sep (lines' ++ [last']) ++ rest') :
    lines = lines' ∧ last = last' ∧ rest = rest' := by
  induction lines generalizing lines' with
  | nil =>
      cases lines' with
      | nil =>
          simp only [List.nil_append, joinLines_cons, joinLines_nil, List.append_nil] at heq
          obtain ⟨hline, hrest⟩ := hlast.1.append_inj hlast'.1 heq
          exact ⟨rfl, hline, hrest⟩
      | cons line' lines' =>
          have hhead := hlines' line' (List.mem_cons_self ..)
          simp only [List.nil_append, List.cons_append, joinLines_cons, joinLines_nil, List.append_nil]
            at heq
          rw [List.append_assoc (line' ++ sep)] at heq
          obtain ⟨rfl, -⟩ := hlast.1.append_inj hhead.1 heq
          exact absurd hhead.2 hlast.2
  | cons line lines ih =>
      have hhead := hlines line (List.mem_cons_self ..)
      cases lines' with
      | nil =>
          simp only [List.nil_append, List.cons_append, joinLines_cons, joinLines_nil, List.append_nil]
            at heq
          rw [List.append_assoc (line ++ sep)] at heq
          obtain ⟨rfl, -⟩ := hhead.1.append_inj hlast'.1 heq
          exact absurd hhead.2 hlast'.2
      | cons line' lines' =>
          have hhead' := hlines' line' (List.mem_cons_self ..)
          rw [List.cons_append, List.cons_append, joinLines_cons, joinLines_cons, List.append_assoc,
            List.append_assoc (line' ++ sep)] at heq
          obtain ⟨rfl, hrest⟩ := hhead.1.append_inj hhead'.1 heq
          obtain ⟨rfl, hlasts, hrests⟩ := ih (fun l hl => hlines l (List.mem_cons_of_mem _ hl))
            (fun l hl => hlines' l (List.mem_cons_of_mem _ hl)) hrest
          exact ⟨rfl, hlasts, hrests⟩

/-! ## Blocks of lines -/

section Block

variable {a b : α}

/-- Put `x` in front of the first line. -/
def consLine (x : α) : List (List α) → List (List α)
  | [] => [[x]]
  | line :: lines => (x :: line) :: lines

/-- The lines between the separators `a, b`. -/
def splitLines (a b : α) : List α → List (List α)
  | [] => [[]]
  | [x] => [[x]]
  | x :: y :: rest =>
      if x = a ∧ y = b then [] :: splitLines a b rest else consLine x (splitLines a b (y :: rest))

/-- The lines with separators between them. -/
def unlines (sep line : List α) (lines : List (List α)) : List α := line ++ lines.flatMap (sep ++ ·)

omit [DecidableEq α] in
/-- Lines with a separator after the last. -/
theorem unlines_append (line : List α) (lines : List (List α)) :
    unlines sep line lines ++ sep = joinLines sep (line :: lines) := by
  induction lines generalizing line with
  | nil => simp [unlines]
  | cons l lines ih =>
      have htail := ih l
      rw [unlines, List.append_assoc] at htail
      rw [unlines, List.flatMap_cons, joinLines_cons, ← htail]
      simp only [List.append_assoc]

/-- A text without separator is one line. -/
theorem splitLines_of_not_mem {line : List α} (h : a ∉ line) : splitLines a b line = [line] := by
  induction line with
  | nil => rfl
  | cons x line ih =>
      rw [List.mem_cons, not_or] at h
      cases line with
      | nil => rfl
      | cons y line =>
          have hx : ¬ (x = a ∧ y = b) := fun hxy => h.1 hxy.1.symm
          rw [splitLines, if_neg hx, ih h.2, consLine]

/-- The first line, then the others. -/
theorem splitLines_append {line : List α} (h : a ∉ line) (rest : List α) :
    splitLines a b (line ++ a :: b :: rest) = line :: splitLines a b rest := by
  induction line with
  | nil => exact if_pos ⟨rfl, rfl⟩
  | cons x line ih =>
      rw [List.mem_cons, not_or] at h
      have hx : ∀ y, ¬ (x = a ∧ y = b) := fun y hxy => h.1 hxy.1.symm
      cases line with
      | nil =>
          rw [List.cons_append, List.nil_append, splitLines, if_neg (hx a), ← List.nil_append (a :: _),
            ih h.2, consLine]
      | cons y line => rw [List.cons_append, List.cons_append, splitLines, if_neg (hx y),
          ← List.cons_append, ih h.2, consLine]

/-- A block of lines is cut into its lines. -/
theorem splitLines_unlines {line : List α} {lines : List (List α)} (hline : a ∉ line)
    (hlines : ∀ l ∈ lines, a ∉ l) : splitLines a b (unlines [a, b] line lines) = line :: lines := by
  induction lines generalizing line with
  | nil =>
      rw [unlines, List.flatMap_nil, List.append_nil]
      exact splitLines_of_not_mem hline
  | cons l lines ih =>
      rw [List.forall_mem_cons] at hlines
      have htail := ih hlines.1 hlines.2
      rw [unlines, List.flatMap_cons, List.append_assoc]
      exact (splitLines_append hline _).trans (congrArg _ htail)

/-- A pattern is not found in elements that are not its first. -/
theorem search_append_of_not_mem {pattern xs : List α} (h : a ∉ xs) (ys : List α) :
    search (a :: pattern) (xs ++ ys) = (search (a :: pattern) ys).map (· + xs.length) := by
  induction xs with
  | nil => simp
  | cons x xs ih =>
      rw [List.mem_cons, not_or] at h
      have hpre : ¬ a :: pattern <+: x :: (xs ++ ys) := by
        rw [List.cons_prefix_cons]
        exact fun hx => h.1 hx.1
      rw [List.cons_append, search, if_neg hpre, ih h.2, Option.map_map]
      rfl

/-- Two separators in a row come only behind the last line. -/
theorem isLine_unlines (hab : a ≠ b) {line : List α} {lines : List (List α)} (hline : a ∉ line)
    (hlines : ∀ l ∈ lines, a ∉ l ∧ l ≠ []) : IsLine [a, b, a, b] (unlines [a, b] line lines) := by
  induction lines generalizing line with
  | nil =>
      rw [unlines, List.flatMap_nil, List.append_nil, IsLine, search_append_of_not_mem hline]
      simp [search]
  | cons l lines ih =>
      rw [List.forall_mem_cons] at hlines
      obtain ⟨⟨hl, hne⟩, hrest⟩ := hlines
      have htail := ih hl hrest
      obtain ⟨x, l', rfl⟩ := List.exists_cons_of_ne_nil hne
      have hx : a ≠ x := fun hax => hl (hax ▸ List.mem_cons_self ..)
      obtain ⟨text, htext⟩ : ∃ text, unlines [a, b] (x :: l') lines = x :: text := ⟨_, rfl⟩
      have hblock : unlines [a, b] line ((x :: l') :: lines) = line ++ a :: b :: (x :: text) := by
        rw [← htext, unlines, List.flatMap_cons, List.append_assoc]
        rfl
      rw [htext, IsLine] at htail
      rw [hblock, IsLine, List.append_assoc, search_append_of_not_mem hline, List.cons_append,
        List.cons_append, search, if_neg, search, if_neg, htail]
      · simp
        omega
      · rw [List.cons_prefix_cons]
        exact fun h => hab h.1
      · -- behind one separator the next line begins
        rw [List.cons_prefix_cons, List.cons_prefix_cons, List.cons_append, List.cons_prefix_cons]
        exact fun h => hx h.2.2.1

end Block

end Support
