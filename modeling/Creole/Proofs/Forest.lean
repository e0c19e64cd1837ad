import Mathlib.Order.Lattice
import Mathlib.Data.List.TakeWhile

/-!
# Forests by level

Things that come in a row, each with a level, form a forest: inside each lie the
things behind it, up to the first whose level is not greater.  `Forest.nest` is
that forest.  The main statements are `labels_nest`, by which nothing is lost or
moved, and `encloses_nest_iff`: one thing lies around another if and only if it
comes before it and everything between the two, the second included, has a
greater level.
-/

namespace Creole

/-- Labelled trees in a row: the label of the first, the trees inside it, and the
trees behind it. -/
inductive Forest (β : Type) where
  | nil
  | cons (label : β) (inside behind : Forest β)

namespace Forest

variable {β γ : Type}

/-- The labels of a forest in document order, each before those inside it. -/
def labels : Forest β → List β
  | nil => []
  | cons label inside behind => label :: (inside.labels ++ behind.labels)

/-- Whether the tree labelled `i` lies around the one labelled `j`. -/
def Encloses : Forest β → β → β → Prop
  | nil, _, _ => False
  | cons label inside behind, i, j =>
    i = label ∧ j ∈ inside.labels ∨ inside.Encloses i j ∨ behind.Encloses i j

/-- The forest with other labels. -/
def map (f : β → γ) : Forest β → Forest γ
  | nil => nil
  | cons label inside behind => cons (f label) (inside.map f) (behind.map f)

/-- The forest of labels in a row, each with a level. -/
def nest (level : β → Nat) : List β → Forest β
  | [] => nil
  | first :: rest =>
    cons first (nest level (rest.takeWhile (level first < level ·)))
      (nest level (rest.dropWhile (level first < level ·)))
termination_by row => row.length
decreasing_by
  · exact Nat.lt_succ_of_le (List.takeWhile_sublist _).length_le
  · exact Nat.lt_succ_of_le (List.dropWhile_sublist _).length_le

@[simp] theorem nest_nil (level : β → Nat) : nest level [] = nil := by rw [nest]

theorem nest_cons (level : β → Nat) (first : β) (rest : List β) :
    nest level (first :: rest) =
      cons first (nest level (rest.takeWhile (level first < level ·)))
        (nest level (rest.dropWhile (level first < level ·))) := by
  rw [nest]

theorem labels_nest (level : β → Nat) (row : List β) : (nest level row).labels = row := by
  induction row using nest.induct level with
  | case1 => rw [nest_nil, labels]
  | case2 first rest ihinside ihbehind =>
      rw [nest_cons, labels, ihinside, ihbehind, List.takeWhile_append_dropWhile]

/-- Levels that are read off the new labels nest a row as those of the old ones do. -/
theorem map_nest (level : γ → Nat) (f : β → γ) (row : List β) :
    (nest (fun i => level (f i)) row).map f = nest level (row.map f) := by
  induction row using nest.induct fun i => level (f i) with
  | case1 => rw [nest_nil, map, List.map_nil, nest_nil]
  | case2 first rest ihinside ihbehind =>
      rw [nest_cons, map, ihinside, ihbehind, List.map_cons, nest_cons, List.takeWhile_map,
        List.dropWhile_map]
      rfl

/-! ### Which trees lie around which -/

/-- In a row, `j` stands behind `i`, and everything from there up to `j` is of a
greater level than `i`. -/
def Deeper [LT β] [LE β] (level : β → Nat) (row : List β) (i j : β) : Prop :=
  i ∈ row ∧ j ∈ row ∧ i < j ∧ ∀ k ∈ row, i < k → k ≤ j → level i < level k

variable [LinearOrder β] {level : β → Nat}

/-- A run of greater levels behind the first of a row: what is deeper there lies in
the run or behind it, since the run ends at a level that is too low for all of it. -/
theorem deeper_cons_append {first : β} {run rest : List β}
    (hsorted : (first :: (run ++ rest)).Pairwise (· < ·))
    (hrun : ∀ k ∈ run, level first < level k)
    (hrest : ∀ k ∈ rest.head?, ¬ level first < level k) (i j : β) :
    Deeper level (first :: (run ++ rest)) i j ↔
      i = first ∧ j ∈ run ∨ Deeper level run i j ∨ Deeper level rest i j := by
  rw [List.pairwise_cons, List.pairwise_append] at hsorted
  obtain ⟨hfirst, -, hsortedRest, hacross⟩ := hsorted
  have hinRun : ∀ k ∈ run, first < k := fun k hk => hfirst k (List.mem_append_left _ hk)
  have hinRest : ∀ k ∈ rest, first < k := fun k hk => hfirst k (List.mem_append_right _ hk)
  -- nothing up to a member of `rest` is deeper than `first` or than a member of `run`
  have hblocked : ∀ a, a = first ∨ a ∈ run → ∀ b ∈ rest,
      ¬ ∀ k ∈ first :: (run ++ rest), a < k → k ≤ b → level a < level k := by
    intro a ha b hb hdeeper
    obtain ⟨head, tail, rfl⟩ := List.exists_cons_of_ne_nil (List.ne_nil_of_mem hb)
    have hhead : ¬ level first < level head := hrest head rfl
    have hle : head ≤ b := by
      rcases List.mem_cons.mp hb with rfl | hb
      · exact le_rfl
      · exact ((List.pairwise_cons.mp hsortedRest).1 b hb).le
    have hmem : head ∈ first :: (run ++ head :: tail) := by simp
    rcases ha with rfl | ha
    · exact hhead (hdeeper head hmem (hinRest head List.mem_cons_self) hle)
    · exact hhead ((hrun a ha).trans
        (hdeeper head hmem (hacross a ha head List.mem_cons_self) hle))
  constructor
  · rintro ⟨hi, hj, hlt, hdeeper⟩
    rcases List.mem_cons.mp hi with rfl | hi
    · rcases List.mem_append.mp ((List.mem_cons.mp hj).resolve_left hlt.ne') with hj | hj
      · exact Or.inl ⟨rfl, hj⟩
      · exact absurd hdeeper (hblocked i (Or.inl rfl) j hj)
    · have hj : j ∈ run ++ rest :=
        (List.mem_cons.mp hj).resolve_left ((hfirst i hi).trans hlt).ne'
      have hinner : ∀ k ∈ run ++ rest, i < k → k ≤ j → level i < level k :=
        fun k hk => hdeeper k (List.mem_cons_of_mem _ hk)
      rcases List.mem_append.mp hi with hi | hi
      · rcases List.mem_append.mp hj with hj | hj
        · exact Or.inr (Or.inl ⟨hi, hj, hlt, fun k hk => hinner k (List.mem_append_left _ hk)⟩)
        · exact absurd hdeeper (hblocked i (Or.inr hi) j hj)
      · rcases List.mem_append.mp hj with hj | hj
        · exact absurd hlt (hacross j hj i hi).asymm
        · exact Or.inr (Or.inr ⟨hi, hj, hlt, fun k hk => hinner k (List.mem_append_right _ hk)⟩)
  · rintro (⟨rfl, hj⟩ | ⟨hi, hj, hlt, hdeeper⟩ | ⟨hi, hj, hlt, hdeeper⟩)
    · refine ⟨List.mem_cons_self, List.mem_cons_of_mem _ (List.mem_append_left _ hj),
        hinRun j hj, fun k hk hik hkj => ?_⟩
      rcases List.mem_append.mp ((List.mem_cons.mp hk).resolve_left hik.ne') with hk | hk
      · exact hrun k hk
      · exact absurd hkj (hacross j hj k hk).not_ge
    · refine ⟨List.mem_cons_of_mem _ (List.mem_append_left _ hi),
        List.mem_cons_of_mem _ (List.mem_append_left _ hj), hlt, fun k hk hik hkj => ?_⟩
      rcases List.mem_append.mp
        ((List.mem_cons.mp hk).resolve_left ((hinRun i hi).trans hik).ne') with hk | hk
      · exact hdeeper k hk hik hkj
      · exact absurd hkj (hacross j hj k hk).not_ge
    · refine ⟨List.mem_cons_of_mem _ (List.mem_append_right _ hi),
        List.mem_cons_of_mem _ (List.mem_append_right _ hj), hlt, fun k hk hik hkj => ?_⟩
      rcases List.mem_append.mp
        ((List.mem_cons.mp hk).resolve_left ((hinRest i hi).trans hik).ne') with hk | hk
      · exact absurd hik (hacross k hk i hi).asymm
      · exact hdeeper k hk hik hkj

theorem encloses_nest_iff {row : List β} (hsorted : row.Pairwise (· < ·)) (i j : β) :
    (nest level row).Encloses i j ↔ Deeper level row i j := by
  induction row using nest.induct level with
  | case1 => simp [Encloses, Deeper]
  | case2 first rest ihinside ihbehind =>
      have hsplit := List.takeWhile_append_dropWhile (p := (level first < level ·)) (l := rest)
      have hparts := hsorted
      rw [← hsplit, List.pairwise_cons, List.pairwise_append] at hparts
      rw [nest_cons, Encloses, ihinside hparts.2.1, ihbehind hparts.2.2.1, labels_nest,
        ← deeper_cons_append, hsplit]
      · rwa [hsplit]
      · intro k hk
        simpa using List.mem_takeWhile_imp hk
      · intro k hk
        have hnot := List.head?_dropWhile_not (level first < level ·) rest
        rw [Option.mem_def] at hk
        rw [hk] at hnot
        simpa using hnot

end Forest

end Creole
