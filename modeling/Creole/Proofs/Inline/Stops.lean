import Creole.Proofs.Inline.Literal
import Creole.Proofs.Inline.Truncated

/-!
# Where the look-ahead stops

The search for the end of an emphasis stops at a place, looks at the text that begins there, and
takes a stride to the next place.  `AtStops P` says that `P` holds of the text at each of them.
What holds at the stops of a text holds at the stops behind each of its own stops: behind one
stride, behind the mark that the search finds (`AtStops.drop_closing?`), and behind characters
that are taken one by one (`AtStops.drop_singles`).

The text inside an emphasis has the stops of the text that it is taken from, up to the mark
that ends it (`AtStops.take`).
-/

namespace Creole.Inline

open List Text

/-- Whether something holds of the text at each stop of the look-ahead. -/
inductive AtStops (P : Text → Prop) : (previous : Option Char) → (s : Text) → Prop
  | nil {previous : Option Char} : AtStops P previous []
  | cons {previous : Option Char} {c : Char} {cs : Text} :
      P (c :: cs) →
      AtStops P (c :: cs)[stride previous (c :: cs) - 1]?
        ((c :: cs).drop (stride previous (c :: cs))) →
      AtStops P previous (c :: cs)

variable {P Q : Text → Prop} {previous other : Option Char} {c : Char} {cs s : Text}

theorem atStops_cons :
    AtStops P previous (c :: cs) ↔
      P (c :: cs) ∧ AtStops P (c :: cs)[stride previous (c :: cs) - 1]?
        ((c :: cs).drop (stride previous (c :: cs))) :=
  ⟨fun | .cons hhere hbehind => ⟨hhere, hbehind⟩, fun h => .cons h.1 h.2⟩

/-- Whether something holds at each stop is found out by going from stop to stop. -/
def AtStops.decide (P : Text → Prop) [DecidablePred P] (previous : Option Char) (s : Text) :
    Decidable (AtStops P previous s) :=
  match s with
  | [] => isTrue .nil
  | c :: cs =>
    let _ := AtStops.decide P (c :: cs)[stride previous (c :: cs) - 1]?
      ((c :: cs).drop (stride previous (c :: cs)))
    decidable_of_iff _ atStops_cons.symm
termination_by s.length
decreasing_by
  have hstride := one_le_stride previous (c :: cs)
  simp only [length_drop, length_cons]
  omega

instance [DecidablePred P] : Decidable (AtStops P previous s) := AtStops.decide P previous s

theorem AtStops.imp (h : AtStops P previous s) (hPQ : ∀ t, P t → Q t) : AtStops Q previous s := by
  induction h with
  | nil => exact .nil
  | cons hhere _ ih => exact .cons (hPQ _ hhere) ih

/-! ## Behind a stop -/

theorem AtStops.here (h : AtStops P previous s) (hne : s ≠ []) : P s := by
  cases h with
  | nil => exact absurd rfl hne
  | cons hhere _ => exact hhere

theorem AtStops.drop_stride (h : AtStops P previous s) :
    AtStops P s[stride previous s - 1]? (s.drop (stride previous s)) := by
  cases h with
  | nil =>
      rw [drop_nil]
      exact .nil
  | cons _ hbehind => exact hbehind

theorem AtStops.drop_one (h : AtStops P previous s) (hsingle : atomicLength previous s = none) :
    AtStops P s[0]? (s.drop 1) := by
  have hstride : stride previous s = 1 := by rw [stride, hsingle, Option.getD_none]
  have hbehind := h.drop_stride
  rwa [hstride] at hbehind

/-- Characters that nothing begins at are passed one by one. -/
theorem AtStops.drop_singles (h : AtStops P previous s) (hfirst : atomicLength previous s = none)
    {n : Nat} (hsingles : ∀ k < n, atomicLength s[k]? (s.drop (k + 1)) = none) :
    AtStops P s[n]? (s.drop (n + 1)) := by
  induction n with
  | zero => exact h.drop_one hfirst
  | succ n ih =>
      have hstop := ih fun k hk => hsingles k (by omega)
      have hnext := hstop.drop_one (hsingles n (by omega))
      rwa [getElem?_drop, drop_drop] at hnext

/-- The look-ahead stops where the search for a mark ends. -/
theorem AtStops.drop_closing? {mark : Text} {n : Nat} (h : AtStops P previous s)
    (hclosing : closing? mark previous s = some (n + 1)) : AtStops P s[n]? (s.drop (n + 1)) := by
  fun_induction closing? mark previous s generalizing n with
  | case1 => cases hclosing
  | case2 => simp at hclosing
  | case3 previous c cs hopens step =>
      rename_i ih
      obtain ⟨m, hm, hsum⟩ := Option.map_eq_some_iff.mp hclosing
      have hstep : 1 ≤ step := one_le_stride previous (c :: cs)
      have hbehind : AtStops P (c :: cs)[step - 1]? ((c :: cs).drop step) := h.drop_stride
      clear_value step
      cases m with
      | zero =>
          obtain rfl : step = n + 1 := by omega
          exact hbehind
      | succ m =>
          have hstop := ih hbehind hm
          rw [getElem?_drop, drop_drop] at hstop
          have hn : step + m = n := by omega
          rwa [hn, ← Nat.add_assoc, hn] at hstop

/-! ## Parts of a text -/

/-- In front of a mark of emphasis, the look-ahead takes the strides that it takes in the text
without the mark. -/
theorem stride_append {style : Style} {t : Text} (ht : opens (Mark.style style).text t = true)
    (hle : stride previous (s ++ t) ≤ s.length) :
    stride previous (s ++ t) = stride previous s := by
  have hlength := atomicLength_append ht hle
  rw [stride, hlength, stride]

theorem AtStops.of_ne_nil (hne : s ≠ []) (hhere : P s)
    (hbehind : AtStops P s[stride previous s - 1]? (s.drop (stride previous s))) :
    AtStops P previous s := by
  cases s with
  | nil => exact absurd rfl hne
  | cons c cs => exact .cons hhere hbehind

/-- The text inside an emphasis has the stops that are in front of the mark at its end. -/
theorem AtStops.take {style : Style} {n : Nat}
    (hpart : ∀ {previous : Option Char} {s t : Text},
      P (s ++ t) → opens (Mark.style style).text (s ++ t) = false →
      opens (Mark.style style).text t = true → stride previous (s ++ t) ≤ s.length → Q s)
    (h : AtStops P previous s)
    (hclosing : closing? (Mark.style style).text previous s = some n) :
    AtStops Q previous (s.take n) := by
  have hmark := opens_of_closing? hclosing
  fun_induction closing? (Mark.style style).text previous s generalizing n with
  | case1 => cases hclosing
  | case2 =>
      obtain rfl : 0 = n := by simpa using hclosing
      exact .nil
  | case3 previous c cs hopens step =>
      rename_i ih
      obtain ⟨m, hm, rfl⟩ := Option.map_eq_some_iff.mp hclosing
      have hstep : 1 ≤ step := one_le_stride previous (c :: cs)
      have hbehind : AtStops P (c :: cs)[step - 1]? ((c :: cs).drop step) := h.drop_stride
      have hlt : step + m < (c :: cs).length := by
        by_contra hle
        rw [drop_of_length_le (by omega)] at hmark
        obtain ⟨_, _, heq, -⟩ := exists_cons_of_opens_style hmark
        cases heq
      have hsplit : (c :: cs).take (step + m) ++ (c :: cs).drop (step + m) = c :: cs :=
        take_append_drop _ _
      have hreach : stride previous ((c :: cs).take (step + m) ++ (c :: cs).drop (step + m)) ≤
          ((c :: cs).take (step + m)).length := by
        rw [hsplit, length_take]
        change step ≤ _
        omega
      have hstride : stride previous ((c :: cs).take (step + m)) = step := by
        rw [← stride_append hmark hreach, hsplit]
      refine .of_ne_nil (by simp; omega) ?_ ?_
      · refine hpart ?_ ?_ hmark hreach
        · rw [hsplit]
          exact h.here (by simp)
        · rw [hsplit]
          exact Bool.eq_false_iff.mpr hopens
      · rw [hstride, getElem?_take_of_lt (by omega), drop_take, Nat.add_sub_cancel_left]
        rw [← drop_drop] at hmark
        exact ih hbehind hm hmark

/-! ## The character in front -/

theorem stride_congr (h : previous.any isAlphanumeric = other.any isAlphanumeric) :
    stride previous s = stride other s := by
  rw [stride, stride, atomicLength, atomicLength, rawUrl?, rawUrl?, h]

/-- It matters only to a URL, and only whether it is a letter or a number, what is in front of
a text. -/
theorem AtStops.congr (h : AtStops P previous s)
    (hany : previous.any isAlphanumeric = other.any isAlphanumeric) : AtStops P other s := by
  cases h with
  | nil => exact .nil
  | cons hhere hbehind =>
      rw [stride_congr hany] at hbehind
      exact .cons hhere hbehind

end Creole.Inline
