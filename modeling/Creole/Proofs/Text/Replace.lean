import Creole.Proofs.Text.Cut
import Mathlib.Data.List.Infix

/-!
# Replacing a mark

A mark is found in a text if and only if it is a part of it (`includes_iff`).  The
occurrences of a mark part a text into pieces that do not hold the mark, and replacing
it puts the value between the same pieces (`exists_pieces`).  What a text begins with
before any occurrence is not replaced (`isPrefix_intercalate`).
-/

namespace Creole.Text

open List

theorem includes_cons (mark : Text) (c : Char) (s : Text) :
    includes mark (c :: s) = (opens mark (c :: s) || includes mark s) := by
  cases hopens : opens mark (c :: s) with
  | true =>
      obtain ⟨rest, heq⟩ := opens_iff.mp hopens
      rw [heq, includes, cut?_append_self]
      rfl
  | false => rw [includes, cut?_cons_of_opens hopens, Option.isSome_map, includes, Bool.false_or]

theorem opens_iff_isPrefix {mark s : Text} : opens mark s = true ↔ mark <+: s := by
  refine ⟨isPrefix_of_opens, ?_⟩
  rintro ⟨rest, rfl⟩
  exact opens_append mark rest

theorem includes_iff {mark s : Text} : includes mark s = true ↔ mark <:+: s := by
  induction s with
  | nil => cases mark <;> simp [includes, cut?]
  | cons c s ih => rw [includes_cons, Bool.or_eq_true, ih, infix_cons_iff, opens_iff_isPrefix]

theorem not_isInfix_of_cut?_eq_none {mark s : Text} (h : cut? mark s = none) : ¬ mark <:+: s := by
  intro hin
  have hincludes := includes_iff.mpr hin
  simp [includes, h] at hincludes

/-- What stands before the first occurrence of a mark does not hold the mark. -/
theorem not_isInfix_of_cut? {mark s before rest : Text} (hmark : mark ≠ [])
    (h : cut? mark s = some (before, rest)) : ¬ mark <:+: before := by
  cases hcut : cut? mark before with
  | none => exact not_isInfix_of_cut?_eq_none hcut
  | some parts =>
      obtain ⟨front, behind⟩ := parts
      have hwhole := cut?_append hcut (mark ++ rest)
      rw [← append_assoc, ← eq_of_cut? h, h] at hwhole
      obtain ⟨rfl, -⟩ : before = front ∧ _ := by simpa using hwhole
      have hlength := length_of_cut? hcut
      have hpos := length_pos_iff.mpr hmark
      omega

/-- A text falls into pieces without the mark, between which the mark stands, and any value
once the mark is replaced. -/
theorem exists_pieces {mark : Text} (hmark : mark ≠ []) (s : Text) :
    ∃ pieces, intercalate mark pieces = s ∧ (∀ piece ∈ pieces, ¬ mark <:+: piece) ∧
      ∀ value, replaceAll mark value s = intercalate value pieces := by
  suffices h : ∃ pieces, pieces ≠ [] ∧ intercalate mark pieces = s ∧
      (∀ piece ∈ pieces, ¬ mark <:+: piece) ∧
      ∀ value, replaceAll mark value s = intercalate value pieces by
    obtain ⟨pieces, -, hpieces⟩ := h
    exact ⟨pieces, hpieces⟩
  induction hlength : s.length using Nat.strong_induction_on generalizing s with
  | _ n ih =>
      subst hlength
      cases hcut : cut? mark s with
      | none =>
          refine ⟨[s], by simp, by simp, by simpa using not_isInfix_of_cut?_eq_none hcut, ?_⟩
          intro value
          rw [replaceAll, dif_neg hmark]
          split <;> simp_all
      | some parts =>
          obtain ⟨before, rest⟩ := parts
          obtain ⟨pieces, hne, hjoined, hfree, hreplaced⟩ :=
            ih rest.length (length_lt_of_cut? hmark hcut) rest rfl
          refine ⟨before :: pieces, by simp, ?_, ?_, ?_⟩
          · rw [intercalate_cons_of_ne_nil hne, hjoined, eq_of_cut? hcut]
          · exact forall_mem_cons.mpr ⟨not_isInfix_of_cut? hmark hcut, hfree⟩
          · intro value
            rw [replaceAll, dif_neg hmark]
            split
            · next before' rest' heq =>
              obtain ⟨rfl, rfl⟩ : before = before' ∧ rest = rest' := by simpa [hcut] using heq
              rw [hreplaced, intercalate_cons_of_ne_nil hne]
            · next heq => simp [hcut] at heq

theorem isPrefix_of_notMem {start s t : Text} {c : Char} (hc : c ∉ start)
    (h : start <+: s ++ c :: t) : start <+: s := by
  rcases prefix_or_prefix_of_prefix h (prefix_append s (c :: t)) with hstart | ⟨more, rfl⟩
  · exact hstart
  · -- a longer start would hold the character behind `s`
    rw [prefix_append_right_inj] at h
    cases more with
    | nil => simp
    | cons d more =>
        obtain ⟨rfl, -⟩ := cons_prefix_cons.mp h
        exact absurd (by simp) hc

/-- A text begins as before if its mark is replaced, as far as no mark could begin. -/
theorem isPrefix_intercalate {start mark : Text} {c : Char} {pieces : List Text} (hc : c ∉ start)
    (h : start <+: intercalate (c :: mark) pieces) (value : Text) :
    start <+: intercalate value pieces := by
  match pieces, h with
  | [], h => simpa using h
  | [piece], h => simpa using h
  | piece :: next :: pieces, h =>
      rw [intercalate_cons_cons, append_assoc, cons_append] at h
      rw [intercalate_cons_cons, append_assoc]
      exact (isPrefix_of_notMem hc h).trans (prefix_append _ _)

end Creole.Text
