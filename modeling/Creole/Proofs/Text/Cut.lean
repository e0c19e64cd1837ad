import Creole.Text.Basic

/-!
# Cutting a longer text

What `Text.cut?` finds in a text it also finds when more text follows
(`cut?_append`).  A mark that is one character is found at the first such character
(`cut?_singleton`); a text that does not hold it is not cut
(`cut?_singleton_eq_none`).  The last such character is the one behind which there is no
other (`cutLast?_eq_some_iff`).  Where a run of characters ends, a text can be cut in one
way only (`append_inj_of_head`).
-/

namespace Creole.Text

theorem opens_iff {mark s : Text} : opens mark s = true ↔ ∃ rest, s = mark ++ rest := by
  rw [opens, Option.isSome_iff_exists]
  exact exists_congr fun rest => after?_eq_some_iff

theorem isPrefix_of_opens {mark s : Text} (h : opens mark s = true) : mark <+: s := by
  obtain ⟨rest, rfl⟩ := opens_iff.mp h
  exact List.prefix_append mark rest

@[simp] theorem after?_append (mark rest : Text) : after? mark (mark ++ rest) = some rest :=
  after?_eq_some_iff.mpr rfl

@[simp] theorem opens_append (mark rest : Text) : opens mark (mark ++ rest) = true :=
  opens_iff.mpr ⟨rest, rfl⟩

/-- Two texts that open the same text agree where both reach. -/
theorem opens_of_append {mark s t : Text} (hlength : mark.length ≤ s.length)
    (h : opens mark (s ++ t) = true) : opens mark s = true := by
  obtain ⟨mid, hmid⟩ := List.prefix_of_prefix_length_le (isPrefix_of_opens h) ⟨t, rfl⟩ hlength
  exact opens_iff.mpr ⟨mid, hmid.symm⟩

theorem length_lt_of_after? {mark s rest : Text} (hmark : mark ≠ [])
    (h : after? mark s = some rest) : rest.length < s.length := by
  rw [after?_eq_some_iff.mp h, List.length_append]
  have hpos := List.length_pos_iff.mpr hmark
  omega

theorem after?_eq_none_iff {mark s : Text} : after? mark s = none ↔ opens mark s = false := by
  rw [opens, Option.isSome_eq_false_iff, Option.isNone_iff_eq_none]

theorem cut?_cons_of_opens {mark s : Text} {c : Char} (h : opens mark (c :: s) = false) :
    cut? mark (c :: s) = (cut? mark s).map fun (before, rest) => (c :: before, rest) := by
  rw [cut?, after?_eq_none_iff.mpr h]

@[simp] theorem cut?_append_self (mark rest : Text) :
    cut? mark (mark ++ rest) = some ([], rest) := by
  cases mark with
  | nil => cases rest <;> rfl
  | cons m mark =>
      have hafter : after? (m :: mark) (m :: (mark ++ rest)) = some rest :=
        after?_append (m :: mark) rest
      rw [List.cons_append, cut?, hafter]

theorem opens_of_cut?_eq_none {mark s : Text} (h : cut? mark s = none) :
    opens mark s = false := by
  refine Bool.eq_false_iff.mpr fun hopens => ?_
  obtain ⟨rest, rfl⟩ := opens_iff.mp hopens
  rw [cut?_append_self] at h
  cases h

/-- No mark opens across a character that is not in it. -/
theorem opens_append_cons_eq_false {mark s : Text} {c : Char} (hc : c ∉ mark)
    (h : opens mark s = false) (t : Text) :
    opens mark (s ++ c :: t) = false := by
  refine Bool.eq_false_iff.mpr fun hopens => ?_
  rcases Nat.lt_or_ge s.length mark.length with hshort | hle
  · have hin : s ++ [c] <+: mark :=
      List.prefix_of_prefix_length_le ⟨t, by simp⟩ (isPrefix_of_opens hopens)
        (by simpa [Nat.succ_le_iff] using hshort)
    exact hc (hin.subset (by simp))
  · exact Bool.eq_false_iff.mp h (opens_of_append hle hopens)

/-- More text behind a text does not change where it is cut. -/
theorem cut?_append {mark s before rest : Text} (h : cut? mark s = some (before, rest))
    (t : Text) : cut? mark (s ++ t) = some (before, rest ++ t) := by
  induction s generalizing before with
  | nil =>
      cases mark with
      | nil =>
          obtain ⟨rfl, rfl⟩ : before = [] ∧ rest = [] := by simpa [cut?, eq_comm] using h
          exact cut?_append_self [] t
      | cons m mark => simp [cut?] at h
  | cons c s ih =>
      cases hopens : opens mark (c :: s) with
      | true =>
          obtain ⟨rest', heq⟩ := opens_iff.mp hopens
          rw [heq, cut?_append_self] at h
          obtain ⟨rfl, rfl⟩ : [] = before ∧ rest' = rest := by simpa using h
          rw [heq, List.append_assoc, cut?_append_self]
      | false =>
          -- the mark lies in the text as a whole, so that `t` cannot complete an earlier one
          have hlength : mark.length ≤ (c :: s).length := by
            have := length_of_cut? h
            omega
          rw [cut?_cons_of_opens hopens] at h
          obtain ⟨⟨before', rest'⟩, hcut, heq⟩ := Option.map_eq_some_iff.mp h
          obtain ⟨rfl, rfl⟩ : c :: before' = before ∧ rest' = rest := by simpa using heq
          have hbehind : opens mark (c :: (s ++ t)) = false := by
            refine Bool.eq_false_iff.mpr fun hopens' => ?_
            exact Bool.eq_false_iff.mp hopens (opens_of_append hlength hopens')
          rw [List.cons_append, cut?_cons_of_opens hbehind, ih hcut]
          rfl

theorem cut?_singleton {mark : Char} {s : Text} (h : mark ∉ s) (t : Text) :
    cut? [mark] (s ++ mark :: t) = some (s, t) := by
  induction s with
  | nil => exact cut?_append_self [mark] t
  | cons c s ih =>
      rw [List.mem_cons, not_or] at h
      have hopens : opens [mark] (c :: (s ++ mark :: t)) = false := by simp [opens, after?, h.1]
      rw [List.cons_append, cut?_cons_of_opens hopens, ih h.2]
      rfl

theorem cut?_singleton_eq_none {mark : Char} {s : Text} (h : mark ∉ s) :
    cut? [mark] s = none := by
  cases hcut : cut? [mark] s with
  | none => rfl
  | some parts =>
      obtain ⟨before, rest⟩ := parts
      refine absurd ?_ h
      simp [eq_of_cut? hcut]

/-! ### Runs of characters -/

theorem takeWhile_append_of_head {p : Char → Bool} {s t : Text} (hs : ∀ c ∈ s, p c = true)
    (ht : ∀ c ∈ t.head?, p c = false) : (s ++ t).takeWhile p = s := by
  rw [List.takeWhile_append_of_pos hs]
  cases t with
  | nil => simp
  | cons c t =>
      have hc : p c = false := ht c rfl
      simp [hc]

theorem dropWhile_append_of_head {p : Char → Bool} {s t : Text} (hs : ∀ c ∈ s, p c = true)
    (ht : ∀ c ∈ t.head?, p c = false) : (s ++ t).dropWhile p = t := by
  rw [List.dropWhile_append_of_pos hs]
  cases t with
  | nil => rfl
  | cons c t =>
      have hc : p c = false := ht c rfl
      simp [hc]

theorem dropTrailing_append_of_last {p : Char → Bool} {s t : Text}
    (hs : ∀ c ∈ s.getLast?, p c = false) (ht : ∀ c ∈ t, p c = true) :
    dropTrailing p (s ++ t) = s := by
  rw [dropTrailing, List.reverse_append, dropWhile_append_of_head, List.reverse_reverse]
  · simpa using ht
  · simpa using hs

/-- A text is cut in one way only where a run of characters ends. -/
theorem append_inj_of_head {p : Char → Bool} {s s' t t' : Text} (hs : ∀ c ∈ s, p c = true)
    (hs' : ∀ c ∈ s', p c = true) (ht : ∀ c ∈ t.head?, p c = false)
    (ht' : ∀ c ∈ t'.head?, p c = false) (h : s ++ t = s' ++ t') : s = s' ∧ t = t' := by
  have hfront : s = s' := by
    rw [← takeWhile_append_of_head hs ht, h, takeWhile_append_of_head hs' ht']
  subst hfront
  exact ⟨rfl, List.append_cancel_left h⟩

/-! ### The last occurrence of a character -/

theorem cutLast?_append {mark : Char} {last : Text} (h : mark ∉ last) (before : Text) :
    cutLast? mark (before ++ mark :: last) = some (before, last) := by
  have hreverse : (before ++ mark :: last).reverse =
      last.reverse ++ mark :: before.reverse := by simp
  have hother : ∀ c ∈ last.reverse, (decide (c ≠ mark)) = true := by
    intro c hc
    have hne : c ≠ mark := fun heq => h (heq ▸ List.mem_reverse.mp hc)
    simp [hne]
  unfold cutLast?
  rw [hreverse, List.takeWhile_append_of_pos hother, List.dropWhile_append_of_pos hother]
  simp

theorem cutLast?_eq_some_iff {mark : Char} {s before last : Text} :
    cutLast? mark s = some (before, last) ↔ s = before ++ mark :: last ∧ mark ∉ last := by
  constructor
  · intro h
    have hrun := @List.all_takeWhile _ (fun c => decide (c ≠ mark)) s.reverse
    have hhead := List.head?_dropWhile_not (fun c => decide (c ≠ mark)) s.reverse
    have hsplit : s = (s.reverse.dropWhile fun c => decide (c ≠ mark)).reverse ++
        (s.reverse.takeWhile fun c => decide (c ≠ mark)).reverse := by
      rw [← List.reverse_append, List.takeWhile_append_dropWhile, List.reverse_reverse]
    unfold cutLast? at h
    simp only at h
    split at h
    · cases h
    · next c front hdrop =>
      obtain ⟨rfl, rfl⟩ : front.reverse = before ∧
          (s.reverse.takeWhile fun c => decide (c ≠ mark)).reverse = last := by simpa using h
      rw [hdrop] at hhead hsplit
      obtain rfl : c = mark := by simpa using hhead
      refine ⟨by simpa using hsplit, ?_⟩
      intro hmem
      simpa using List.all_eq_true.mp hrun c (List.mem_reverse.mp hmem)
  · rintro ⟨rfl, hlast⟩
    exact cutLast?_append hlast before

end Creole.Text
