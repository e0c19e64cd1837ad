import Creole.Proofs.Text.Kept
import Mathlib.Data.List.Infix

/-!
# Lines of texts that are put together

Without carriage returns, the lines of a text are the pieces that its line feeds
separate, but for an empty piece behind the last of them (`splitOn_eq_lines`).  Hence the
lines of two texts with a line feed between them are the pieces of the first and the lines
of the second (`lines_append`), and the lines of a text, put together, are the text but
for a line feed at its end (`trim_unlines_lines`).
-/

namespace Creole.Text

open List

theorem infix_unlines {line : Text} {ls : List Text} (h : line ∈ ls) : line <:+: unlines ls := by
  obtain ⟨first, more, rfl⟩ := exists_cons_of_ne_nil (ne_nil_of_mem h)
  rw [unlines_cons]
  rcases mem_cons.mp h with rfl | hmore
  · exact (prefix_append line _).isInfix
  · obtain ⟨before, behind, rfl⟩ := append_of_mem hmore
    exact ⟨first ++ before.flatMap ('\n' :: ·) ++ ['\n'], behind.flatMap ('\n' :: ·), by simp⟩

theorem infix_of_mem_splitOn {piece s : Text} (h : piece ∈ s.splitOn '\n') : piece <:+: s := by
  have hpiece := infix_unlines h
  rwa [unlines, intercalate_splitOn] at hpiece

theorem dropReturn_of_notMem {line : Text} (h : '\r' ∉ line) : dropReturn line = line := by
  unfold dropReturn
  refine if_neg fun hlast => h ?_
  exact mem_of_getLast? hlast

theorem ofPieces_append {ps more : List Text} (hreturn : ∀ piece ∈ ps, '\r' ∉ piece)
    (hmore : more ≠ []) : ofPieces (ps ++ more) = ps ++ ofPieces more := by
  induction ps with
  | nil => rfl
  | cons piece ps ih =>
      rw [forall_mem_cons] at hreturn
      obtain ⟨next, rest, hrest⟩ :=
        exists_cons_of_ne_nil (append_ne_nil_of_right_ne_nil ps hmore)
      rw [cons_append, hrest, ofPieces, ← hrest, ih hreturn.2, dropReturn_of_notMem hreturn.1,
        cons_append]

/-- Pieces are changed one by one into lines if the change brings no piece to be empty, and no
carriage return into one. -/
theorem ofPieces_map {f : Text → Text} (hempty : ∀ piece, (f piece).isEmpty = piece.isEmpty)
    (hreturn : ∀ piece, '\r' ∉ piece → '\r' ∉ f piece) {ps : List Text}
    (h : ∀ piece ∈ ps, '\r' ∉ piece) : ofPieces (ps.map f) = (ofPieces ps).map f := by
  fun_induction ofPieces ps with
  | case1 => rfl
  | case2 last hlast => rw [map_singleton, ofPieces, hempty, if_pos hlast, map_nil]
  | case3 last hlast => rw [map_singleton, ofPieces, hempty, if_neg hlast]
  | case4 piece next pieces ih =>
      rw [forall_mem_cons] at h
      rw [map_cons, map_cons, ofPieces, ← map_cons, ih h.2, map_cons, dropReturn_of_notMem h.1,
        dropReturn_of_notMem (hreturn piece h.1)]

/-- No line feed stands in the pieces that line feeds separate. -/
theorem lineFeed_notMem_of_mem_splitOn {s piece : Text} (h : piece ∈ s.splitOn '\n') :
    '\n' ∉ piece := by
  induction s generalizing piece with
  | nil =>
      obtain rfl : piece = [] := by simpa using h
      exact not_mem_nil
  | cons c s ih =>
      rw [splitOn_cons_eq_if_modifyHead] at h
      split at h
      · rcases mem_cons.mp h with rfl | hpiece
        · exact not_mem_nil
        · exact ih hpiece
      · next hc =>
        obtain ⟨first, more, hsplit⟩ := exists_cons_of_ne_nil (splitOn_ne_nil '\n' s)
        rw [hsplit, modifyHead_cons] at h
        rw [hsplit, forall_mem_cons] at ih
        rcases mem_cons.mp h with rfl | hpiece
        · have hne : c ≠ '\n' := by simpa using hc
          simp [hne.symm, ih.1]
        · exact ih.2 piece hpiece

theorem notMem_unlines {c : Char} {ls : List Text} (hc : c ≠ '\n') (h : ∀ line ∈ ls, c ∉ line) :
    c ∉ unlines ls := by
  cases ls with
  | nil => exact not_mem_nil
  | cons line more =>
      rw [forall_mem_cons] at h
      rw [unlines_cons, mem_append, not_or, mem_flatMap]
      refine ⟨h.1, ?_⟩
      rintro ⟨next, hnext, hmem⟩
      exact h.2 next hnext ((mem_cons.mp hmem).resolve_left hc)

theorem notMem_of_mem_splitOn {s piece : Text} (h : '\r' ∉ s) (hpiece : piece ∈ s.splitOn '\n') :
    '\r' ∉ piece :=
  fun hmem => h ((infix_of_mem_splitOn hpiece).subset hmem)

/-- A text without line feeds is one line, if it holds anything. -/
theorem lines_of_notMem {s : Text} (h : '\n' ∉ s) (hne : s ≠ []) : lines s = [s] := by
  rw [lines, splitOn_eq_singleton h, ofPieces, if_neg (by simpa using hne)]

/-- Lines that are not empty and end in no carriage return are read back from the text that they
make. -/
theorem lines_unlines {ls : List Text} (hfeed : ∀ line ∈ ls, '\n' ∉ line)
    (h : ∀ line ∈ ls, line ≠ [] ∧ dropReturn line = line) : lines (unlines ls) = ls := by
  have hpieces : ofPieces ls = ls := by
    fun_induction ofPieces ls with
    | case1 | case3 => rfl
    | case2 last hempty => exact absurd (List.isEmpty_iff.mp hempty) (h last mem_cons_self).1
    | case4 piece next pieces ih =>
        rw [forall_mem_cons] at h hfeed
        rw [h.1.2, ih hfeed.2 h.2]
  by_cases hnil : ls = []
  · subst hnil
    rfl
  · rw [lines, unlines, splitOn_intercalate '\n' hfeed hnil, hpieces]

/-- The pieces of a text before a line feed are lines, whatever follows it. -/
theorem lines_append {s : Text} (h : '\r' ∉ s) (t : Text) :
    lines (s ++ '\n' :: t) = s.splitOn '\n' ++ lines t := by
  rw [lines, splitOn_append_cons_self, ofPieces_append (fun _ => notMem_of_mem_splitOn h)
    (splitOn_ne_nil _ _), lines]

/-- Behind a line feed at the end of a text is an empty piece, which is no line. -/
theorem splitOn_eq_lines {s : Text} (h : '\r' ∉ s) :
    s.splitOn '\n' = lines s ∨ s.splitOn '\n' = lines s ++ [[]] := by
  obtain ⟨before, last, hsplit⟩ : ∃ before last, s.splitOn '\n' = before ++ [last] :=
    ⟨_, _, (dropLast_append_getLast (splitOn_ne_nil _ _)).symm⟩
  have hreturn : ∀ piece ∈ before, '\r' ∉ piece := fun piece hpiece =>
    notMem_of_mem_splitOn h (hsplit ▸ mem_append_left _ hpiece)
  rw [lines, hsplit, ofPieces_append hreturn (cons_ne_nil _ _)]
  cases last with
  | nil => exact Or.inr (by simp [ofPieces])
  | cons c last => exact Or.inl rfl

/-- The text without the line feed at its end, if there is one. -/
def dropLineFeed (s : Text) : Text := if s.getLast? = some '\n' then s.dropLast else s

/-- The lines of a text, put together, are the text without a line feed at its end. -/
theorem unlines_lines {s : Text} (h : '\r' ∉ s) : unlines (lines s) = dropLineFeed s := by
  have hwhole : ∀ t : Text, unlines (t.splitOn '\n') = t := fun t => intercalate_splitOn '\n'
  unfold dropLineFeed
  split
  · next hlast =>
    obtain ⟨t, rfl⟩ : ∃ t, s = t ++ ['\n'] := by
      obtain ⟨t, ht⟩ := getLast?_eq_some_iff.mp hlast
      exact ⟨t, ht⟩
    have ht : '\r' ∉ t := fun hmem => h (mem_append_left _ hmem)
    have hnil : lines [] = [] := rfl
    rw [lines_append ht, hnil, append_nil, hwhole, dropLast_concat]
  · next hlast =>
    rcases splitOn_eq_lines h with heq | heq
    · rw [← heq, hwhole]
    · -- the empty piece at the end is that of the empty text
      have hs := hwhole s
      rw [heq] at hs
      cases hlines : lines s with
      | nil =>
          rw [← hs, hlines]
          rfl
      | cons line more =>
          rw [hlines, cons_append, unlines_cons] at hs
          refine absurd ?_ hlast
          rw [← hs]
          simp

theorem infix_of_mem_lines {s line : Text} (h : '\r' ∉ s) (hline : line ∈ lines s) :
    line <:+: s := by
  refine infix_of_mem_splitOn ?_
  rcases splitOn_eq_lines h with heq | heq
  · exact heq ▸ hline
  · exact heq ▸ mem_append_left _ hline

theorem trim_append_of_isBlank {c : Char} (hc : isBlank c = true) (s : Text) :
    trim (s ++ [c]) = trim s := by
  rw [trim, trim, trimStart, trimStart, dropWhile_append]
  split
  · next hempty =>
    rw [List.isEmpty_iff.mp hempty]
    simp [hc]
  · simp [trimEnd, dropTrailing, hc]

/-- The lines of a text, put together, are the text but for a line feed at its end. -/
theorem trim_unlines_lines {s : Text} (h : '\r' ∉ s) : trim (unlines (lines s)) = trim s := by
  have hwhole : unlines (s.splitOn '\n') = s := intercalate_splitOn '\n'
  rcases splitOn_eq_lines h with heq | heq
  · rw [← heq, hwhole]
  · rw [heq] at hwhole
    cases hlines : lines s with
    | nil =>
        rw [hlines] at hwhole
        rw [← hwhole]
        rfl
    | cons line more =>
        have hlast : unlines (line :: more ++ [[]]) = unlines (line :: more) ++ ['\n'] := by
          simp [unlines_cons]
        have hfeed : isBlank '\n' = true := by decide
        rw [hlines, hlast] at hwhole
        rw [← hwhole, trim_append_of_isBlank hfeed]

end Creole.Text
