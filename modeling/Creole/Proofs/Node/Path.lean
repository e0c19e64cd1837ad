import Creole.Proofs.Node.View

/-!
# Paths of a tree

A path leads from the root of a tree down to a leaf.  It is taken as the list of the
kinds on it, so that how deep something nests is a count on paths: `Node.Nested p n`
says that no path has more than `n` kinds on it that satisfy `p`.  A node adds at most
one to what its children have (`nested_mk_succ`), and nothing if its kind does not
satisfy `p` (`nested_mk`).
-/

namespace Creole.Node

/-- The kinds on each way from the node down to a leaf. -/
def paths : Node → List (List Kind) :=
  fold fun kind below =>
    if below.isEmpty then [[kind]] else below.flatten.map (kind :: ·)

theorem mem_paths_mk {path : List Kind} {kind : Kind} {children : List Node} :
    path ∈ (mk kind children).paths ↔
      (children = [] ∧ path = [kind]) ∨
        ∃ child ∈ children, ∃ rest ∈ child.paths, path = kind :: rest := by
  rw [paths, fold_mk, ← paths]
  cases children with
  | nil => simp
  | cons first children =>
      rw [if_neg (by simp), List.mem_map]
      constructor
      · rintro ⟨rest, hrest, rfl⟩
        obtain ⟨child, hchild, hmem⟩ := List.mem_flatMap.mp hrest
        exact Or.inr ⟨child, hchild, rest, hmem, rfl⟩
      · rintro (⟨hnil, -⟩ | ⟨child, hchild, rest, hmem, rfl⟩)
        · exact absurd hnil (by simp)
        · exact ⟨rest, List.mem_flatMap.mpr ⟨child, hchild, hmem⟩, rfl⟩

/-- Whether no path of the node has more than `n` kinds on it that satisfy `p`. -/
def Nested (p : Kind → Bool) (n : Nat) (node : Node) : Prop :=
  ∀ path ∈ node.paths, path.countP p ≤ n

section Nested

variable {p : Kind → Bool} {m n : Nat} {kind : Kind} {children : List Node} {node : Node}

theorem Nested.mono (h : Nested p m node) (hle : m ≤ n) : Nested p n node := by
  intro path hpath
  exact Nat.le_trans (h path hpath) hle

theorem nested_mk_succ (h : ∀ child ∈ children, Nested p n child) :
    Nested p (n + 1) (mk kind children) := by
  intro path hpath
  rcases mem_paths_mk.mp hpath with ⟨-, rfl⟩ | ⟨child, hchild, rest, hrest, rfl⟩
  · have hone : [kind].countP p ≤ 1 := List.countP_le_length
    omega
  · have hbelow := h child hchild rest hrest
    rw [List.countP_cons]
    split <;> omega

theorem nested_mk (hkind : p kind = false) (h : ∀ child ∈ children, Nested p n child) :
    Nested p n (mk kind children) := by
  intro path hpath
  rcases mem_paths_mk.mp hpath with ⟨-, rfl⟩ | ⟨child, hchild, rest, hrest, rfl⟩
  · simp [hkind]
  · have hbelow := h child hchild rest hrest
    simpa [hkind] using hbelow

theorem exists_mem_paths (node : Node) : ∃ path, path ∈ node.paths := by
  induction node using Node.induction with
  | mk kind children ih =>
      cases children with
      | nil => exact ⟨[kind], mem_paths_mk.mpr (Or.inl ⟨rfl, rfl⟩)⟩
      | cons child children =>
          obtain ⟨rest, hrest⟩ := ih child List.mem_cons_self
          exact ⟨kind :: rest, mem_paths_mk.mpr
            (Or.inr ⟨child, List.mem_cons_self, rest, hrest, rfl⟩)⟩

/-- A kind that satisfies `p` takes up one level. -/
theorem Nested.exists_of_mk (hkind : p kind = true) (h : Nested p n (mk kind children)) :
    ∃ m, n = m + 1 ∧ ∀ child ∈ children, Nested p m child := by
  have hcount : ∀ rest, kind :: rest ∈ (mk kind children).paths → rest.countP p + 1 ≤ n := by
    intro rest hrest
    have hle := h _ hrest
    rwa [List.countP_cons_of_pos hkind] at hle
  obtain ⟨path, hpath⟩ := exists_mem_paths (mk kind children)
  have hpos : 1 ≤ n := by
    rcases mem_paths_mk.mp hpath with ⟨-, rfl⟩ | ⟨_, _, rest, _, rfl⟩
    · exact Nat.le_trans (Nat.le_add_left 1 _) (hcount [] hpath)
    · exact Nat.le_trans (Nat.le_add_left 1 _) (hcount rest hpath)
  refine ⟨n - 1, by omega, fun child hchild rest hrest => ?_⟩
  have hle := hcount rest (mem_paths_mk.mpr (Or.inr ⟨child, hchild, rest, hrest, rfl⟩))
  omega

/-- What does not occur in a tree does not nest in it. -/
theorem nested_of_kinds (h : ∀ kind ∈ node.kinds, p kind = false) : Nested p 0 node := by
  induction node using Node.induction with
  | mk kind children ih =>
      refine nested_mk (h kind (kind_mem_kinds _)) fun child hchild => ?_
      exact ih child hchild fun below hbelow => h below (mem_kinds_of_mem_children hchild hbelow)

end Nested

end Creole.Node
