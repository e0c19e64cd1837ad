import Creole.Proofs.Text.Cut
import Mathlib.Data.List.Infix

/-!
# Occurrences of marks

`Text.occurrences` counts the places of a text where a mark begins, those where it
overlaps with itself included.  A part of a text has no more of them than the text
(`occurrences_le_of_isInfix`), and what follows a mark has fewer
(`occurrences_lt_append_self`).
-/

namespace Creole.Text

open List

/-- The number of places in a text where a mark begins. -/
def occurrences (mark s : Text) : Nat := s.tails.countP (opens mark)

theorem occurrences_cons (mark : Text) (c : Char) (s : Text) :
    occurrences mark (c :: s) =
      occurrences mark s + if opens mark (c :: s) then 1 else 0 := by
  rw [occurrences, tails_cons, countP_cons, occurrences]

theorem one_le_occurrences_of_opens {mark s : Text} (h : opens mark s = true) :
    1 ≤ occurrences mark s := by
  refine countP_pos_iff.mpr ⟨s, ?_, h⟩
  exact (mem_tails s s).mpr suffix_rfl

theorem occurrences_le_append_left (mark s t : Text) :
    occurrences mark t ≤ occurrences mark (s ++ t) := by
  induction s with
  | nil => exact Nat.le_refl _
  | cons c s ih =>
      rw [cons_append, occurrences_cons]
      omega

theorem opens_append_of_opens {mark s : Text} (h : opens mark s = true) (t : Text) :
    opens mark (s ++ t) = true := by
  obtain ⟨rest, rfl⟩ := opens_iff.mp h
  rw [append_assoc]
  exact opens_append mark (rest ++ t)

theorem occurrences_le_append_right (mark s t : Text) :
    occurrences mark s ≤ occurrences mark (s ++ t) := by
  induction s with
  | nil => simpa using occurrences_le_append_left mark t []
  | cons c s ih =>
      rw [cons_append, occurrences_cons, occurrences_cons]
      by_cases hopens : opens mark (c :: s) = true
      · have hmore : opens mark (c :: (s ++ t)) = true := opens_append_of_opens hopens t
        rw [if_pos hopens, if_pos hmore]
        omega
      · rw [if_neg hopens]
        omega

theorem occurrences_le_of_isInfix {s t : Text} (h : s <:+: t) (mark : Text) :
    occurrences mark s ≤ occurrences mark t := by
  obtain ⟨before, behind, rfl⟩ := h
  calc occurrences mark s
      ≤ occurrences mark (before ++ s) := occurrences_le_append_left mark before s
    _ ≤ occurrences mark (before ++ s ++ behind) := occurrences_le_append_right mark _ behind

theorem occurrences_lt_append_self {mark : Text} (hmark : mark ≠ []) (s : Text) :
    occurrences mark s < occurrences mark (mark ++ s) := by
  obtain ⟨c, rest, hcons⟩ := exists_cons_of_ne_nil hmark
  have hopens : opens mark (c :: (rest ++ s)) = true := by
    rw [← cons_append, ← hcons]
    exact opens_append mark s
  have hrest := occurrences_le_append_left mark rest s
  calc occurrences mark s
      < occurrences mark (c :: (rest ++ s)) := by
        rw [occurrences_cons, if_pos hopens]
        omega
    _ = occurrences mark (mark ++ s) := by rw [← cons_append, ← hcons]

end Creole.Text
