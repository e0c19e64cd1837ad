import Creole.Text.Blank
import Mathlib.Data.List.Basic
import Mathlib.Data.List.Flatten
import Mathlib.Data.List.TakeWhile

/-!
# What cutting and trimming keep

Dropping characters from the ends of a text, cutting it at a mark and taking it
apart into lines gives parts in which the characters stand in their old order,
none of them twice: in the terms of lists, the parts are sublists of the text.  A text
that is not blank begins with a visible character once it is trimmed
(`exists_trim_eq_cons`).

The lines of a text are put together again by `unlines`, so the facts about lines
are about `unlines` of them: that it is monotone (`unlines_sublist`), that lines
put together apart from each other are less than lines put together at once
(`unlines_append_sublist`), and that a text is at least its lines
(`unlines_lines_sublist`).
-/

namespace Creole.Text

open List

/-! ### Ends -/

theorem dropTrailing_sublist (p : Char → Bool) (s : Text) : dropTrailing p s <+ s := by
  have h := sublist_append_left (dropTrailing p s) (s.reverse.takeWhile p).reverse
  rwa [dropTrailing_append_trailing] at h

theorem trimStart_sublist (s : Text) : trimStart s <+ s := dropWhile_sublist _

theorem trimEnd_sublist (s : Text) : trimEnd s <+ s := dropTrailing_sublist _ s

theorem trim_sublist (s : Text) : trim s <+ s :=
  (trimEnd_sublist _).trans (trimStart_sublist s)

theorem trimEnd_isPrefix (s : Text) : trimEnd s <+: s :=
  ⟨_, dropTrailing_append_trailing isBlank s⟩

theorem trim_prefix_trimStart (s : Text) : trim s <+: trimStart s := trimEnd_isPrefix _

theorem trim_isInfix (s : Text) : trim s <:+: s :=
  (trim_prefix_trimStart s).isInfix.trans (dropWhile_suffix isBlank).isInfix

/-- Without white space around it, a text has none at its end. -/
theorem trimEnd_of_trim {s : Text} (h : trim s = s) : trimEnd s = s := by
  have hlength : s.length ≤ (trimStart s).length := by
    have hle := (trim_prefix_trimStart s).length_le
    rwa [h] at hle
  have hstart : trimStart s = s := (trimStart_sublist s).eq_of_length_le hlength
  rwa [trim, hstart] at h

/-- Nothing is trimmed from a text that holds no white space. -/
theorem trim_of_visible {s : Text} (h : ∀ c ∈ s, isBlank c = false) : trim s = s := by
  have hkept : ∀ t : Text, (∀ c ∈ t, isBlank c = false) → t.dropWhile isBlank = t := by
    intro t ht
    cases t with
    | nil => rfl
    | cons c t => exact dropWhile_cons_of_neg (by simp [ht c mem_cons_self])
  rw [trim, trimStart, hkept s h, trimEnd, dropTrailing, hkept s.reverse (by simpa using h),
    reverse_reverse]

theorem dropTrailing_cons {p : Char → Bool} {c : Char} (hc : p c = false) (s : Text) :
    dropTrailing p (c :: s) = c :: dropTrailing p s := by
  rw [dropTrailing, dropTrailing, reverse_cons, dropWhile_append]
  split
  · next hempty =>
    rw [List.isEmpty_iff] at hempty
    simp [hempty, hc]
  · rw [reverse_append, reverse_singleton, singleton_append]

theorem dropTrailing_append_cons {p : Char → Bool} {c : Char} (hc : p c = false) (s t : Text) :
    dropTrailing p (s ++ c :: t) = s ++ c :: dropTrailing p t := by
  have hkept := dropTrailing_cons hc t
  rw [dropTrailing, reverse_eq_iff] at hkept
  rw [dropTrailing, reverse_append, dropWhile_append, hkept]
  simp

/-- A text that is not blank begins with a visible character once it is trimmed. -/
theorem exists_trim_eq_cons {s : Text} (h : blank s = false) :
    ∃ c cs, trim s = c :: cs ∧ isBlank c = false := by
  have hhead := head?_dropWhile_not isBlank s
  cases hstart : s.dropWhile isBlank with
  | nil =>
      rw [blank, all_eq_true.mpr (dropWhile_eq_nil_iff.mp hstart)] at h
      cases h
  | cons c cs =>
      have hc : isBlank c = false := by simpa [hstart] using hhead
      refine ⟨c, trimEnd cs, ?_, hc⟩
      rw [trim, trimStart, hstart, trimEnd, dropTrailing_cons hc]
      rfl

theorem dropReturn_sublist (line : Text) : dropReturn line <+ line := by
  unfold dropReturn
  split
  · exact dropLast_sublist line
  · exact Sublist.refl line

theorem sublist_of_after? {mark s rest : Text} (h : after? mark s = some rest) : rest <+ s := by
  rw [after?_eq_some_iff.mp h]
  exact sublist_append_right mark rest

/-! ### Lines -/

/-- Lines are put together with a line feed before every line but the first. -/
theorem unlines_cons (line : Text) (more : List Text) :
    unlines (line :: more) = line ++ more.flatMap ('\n' :: ·) := by
  induction more generalizing line with
  | nil => simp [unlines]
  | cons next more ih =>
      have hstep : unlines (line :: next :: more) = line ++ '\n' :: unlines (next :: more) := by
        simp [unlines, intercalate_cons_cons]
      rw [hstep, ih, flatMap_cons, cons_append]

theorem not_blank_append {s : Text} (h : blank s = false) (t : Text) : blank (s ++ t) = false := by
  rw [blank] at h ⊢
  rw [all_append, h, Bool.false_and]

theorem not_blank_unlines {ls : List Text} (hne : ls ≠ [])
    (h : ∀ line ∈ ls, blank line = false) : blank (unlines ls) = false := by
  obtain ⟨line, more, rfl⟩ := exists_cons_of_ne_nil hne
  rw [unlines_cons]
  exact not_blank_append (h line mem_cons_self) _

theorem unlines_sublist_flatMap (ls : List Text) : unlines ls <+ ls.flatMap ('\n' :: ·) := by
  cases ls with
  | nil => exact Sublist.refl _
  | cons line more =>
      rw [unlines_cons, flatMap_cons, cons_append]
      exact sublist_cons_self _ _

theorem flatMap_sublist_unlines (ls : List Text) :
    ls.flatMap ('\n' :: ·) <+ '\n' :: unlines ls := by
  cases ls with
  | nil => exact nil_sublist _
  | cons line more =>
      rw [unlines_cons, flatMap_cons, cons_append]

theorem unlines_append_sublist (as bs : List Text) :
    unlines as ++ unlines bs <+ unlines (as ++ bs) := by
  cases as with
  | nil => exact Sublist.refl _
  | cons line more =>
      rw [cons_append, unlines_cons, unlines_cons, flatMap_append, append_assoc]
      exact ((unlines_sublist_flatMap bs).append_left _).append_left _

theorem unlines_sublist {as bs : List Text} (h : as <+ bs) : unlines as <+ unlines bs := by
  induction h with
  | slnil => exact Sublist.refl _
  | @cons as bs line _ ih =>
      -- a line that is left out takes its line feed with it
      have hbehind := (sublist_append_right _ _).trans (unlines_append_sublist [line] bs)
      exact ih.trans hbehind
  | @cons_cons as bs line hsub ih =>
      rw [unlines_cons, unlines_cons]
      exact (hsub.flatMap _).append_left line

theorem unlines_map_sublist {f : Text → Text} (h : ∀ line, f line <+ line) (ls : List Text) :
    unlines (ls.map f) <+ unlines ls := by
  cases ls with
  | nil => exact Sublist.refl _
  | cons line more =>
      rw [map_cons, unlines_cons, unlines_cons, flatMap_map]
      exact (h line).append (Sublist.flatMap_right more fun next _ => (h next).cons_cons _)

theorem flatten_sublist_unlines (ls : List Text) : ls.flatten <+ unlines ls := by
  cases ls with
  | nil => exact Sublist.refl _
  | cons line more =>
      have hmore : more.flatMap id <+ more.flatMap ('\n' :: ·) :=
        Sublist.flatMap_right more fun next _ => sublist_cons_self _ next
      rw [flatMap_id] at hmore
      rw [unlines_cons, flatten_cons]
      exact hmore.append_left line

/-- Only the line feed behind the last line is lost, and carriage returns. -/
theorem unlines_ofPieces_sublist (ps : List Text) : unlines (ofPieces ps) <+ unlines ps := by
  fun_induction ofPieces ps with
  | case1 => exact Sublist.refl _
  | case2 last hempty => exact nil_sublist _
  | case3 last hfull => exact Sublist.refl _
  | case4 piece next ps ih =>
      calc unlines (dropReturn piece :: ofPieces (next :: ps))
          = dropReturn piece ++ (ofPieces (next :: ps)).flatMap ('\n' :: ·) := unlines_cons _ _
        _ <+ piece ++ '\n' :: unlines (next :: ps) :=
          (dropReturn_sublist piece).append
            ((flatMap_sublist_unlines _).trans (ih.cons_cons '\n'))
        _ = unlines (piece :: next :: ps) := by simp [unlines_cons]

theorem unlines_lines_sublist (s : Text) : unlines (lines s) <+ s := by
  have h := unlines_ofPieces_sublist (s.splitOn '\n')
  have hwhole : unlines (s.splitOn '\n') = s := intercalate_splitOn '\n'
  rwa [hwhole] at h

end Creole.Text
