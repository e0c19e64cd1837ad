import Creole.Macro.Expansion
import Creole.Proofs.Node.Joined

/-!
# Expansion, one node at a time

What stands for a node once its invocations are replaced, kind by kind.  An invocation
becomes its answer or stays, any other kind becomes one node of its kind.  What is to be
proved of every expansion is proved along these cases (`expandNode_induction`): the
nodes of an answer are expanded to one depth less, the children of a node to the same
depth.

An invocation that no depth would replace is `Settled`.
-/

namespace Creole

namespace Node

variable {replacement? : Invocation → Option (List Node)}

/-! ## Substitution, kind by kind -/

theorem ne_invocation {kind : Kind} (h : kind.isInvocation = false) (call : Invocation) :
    kind ≠ .invocation call := by
  rintro rfl
  simp [Kind.isInvocation] at h

theorem substitute_invocation (call : Invocation) (children : List Node) :
    substitute replacement? (mk (.invocation call) children) =
      (replacement? call).getD [mk (.invocation call) children] := by
  rw [substitute]

theorem substitute_of_hasInvocation_eq_false {node : Node} (h : node.hasInvocation = false) :
    substitute replacement? node = [node] := by
  obtain ⟨kind, children⟩ := node
  rw [substitute, if_neg (by simp [h])]
  rw [hasInvocation_mk, Bool.or_eq_false_iff] at h
  exact ne_invocation h.1

theorem substitute_above {kind : Kind} {children : List Node}
    (hkind : kind.isInvocation = false) (h : (mk kind children).hasInvocation = true) :
    substitute replacement? (mk kind children) =
      [mk kind (coalesce (children.flatMap (substitute replacement?)))] := by
  rw [substitute, if_pos h, substituteAll_eq_flatMap]
  exact ne_invocation hkind

/-- Only an invocation is ever replaced by more or less than one node. -/
theorem exists_substitute_eq_singleton {kind : Kind} (hkind : kind.isInvocation = false)
    (children : List Node) : ∃ result, substitute replacement? (mk kind children) = [result] := by
  by_cases h : (mk kind children).hasInvocation = true
  · exact ⟨_, substitute_above hkind h⟩
  · exact ⟨_, substitute_of_hasInvocation_eq_false (by simpa using h)⟩

end Node

namespace Registry

open Node

variable {registry : Registry} {page : PageRef}

/-! ## Settled invocations -/

/-- An invocation is settled if no macro recognizes it, or if the one that answers
it fails.  It stays in the tree, whatever the limit on nested answers. -/
def Settled (registry : Registry) (page : PageRef) (call : Invocation) : Prop :=
  (∀ found ∈ registry, found.recognizes call = false) ∨
    ∃ found e, registry.find? call = some found ∧ found.output page call.args = .error e

theorem replacement?_eq_none_of_settled {call : Invocation} (h : registry.Settled page call) :
    registry.replacement? page call = none := by
  unfold replacement?
  rcases h with hnone | ⟨found, e, hfind, houtput⟩
  · have hfind : registry.find? call = none := by
      rw [find?, List.find?_eq_none]
      intro found hfound
      simp [hnone found hfound]
    rw [hfind]
  · rw [hfind]
    simp [houtput]

/-! ## Expansion, kind by kind -/

/-- An invocation stays where no answer may nest, or where there is none. -/
theorem expandNode_of_kept {depth : Nat} {call : Invocation}
    (h : depth = 0 ∨ registry.replacement? page call = none) (children : List Node) :
    registry.expandNode page depth (mk (.invocation call) children) =
      [mk (.invocation call) children] := by
  cases depth with
  | zero => exact substitute_invocation call children
  | succ depth =>
      have hnone : registry.replacement? page call = none := h.resolve_left (Nat.succ_ne_zero _)
      rw [expandNode, substitute_invocation, hnone]
      rfl

theorem expandNode_of_answered {call : Invocation} {nodes : List Node}
    (h : registry.replacement? page call = some nodes) (depth : Nat) (children : List Node) :
    registry.expandNode page (depth + 1) (mk (.invocation call) children) =
      coalesce (nodes.flatMap (registry.expandNode page depth)) := by
  rw [expandNode, substitute_invocation, h]
  rfl

theorem expandNode_of_hasInvocation_eq_false {node : Node} (h : node.hasInvocation = false)
    (depth : Nat) : registry.expandNode page depth node = [node] := by
  cases depth with
  | zero => exact substitute_of_hasInvocation_eq_false h
  | succ depth => exact substitute_of_hasInvocation_eq_false h

/-- The children of a node without invocations stay as they are. -/
theorem flatMap_expandNode_of_hasInvocation_eq_false {kind : Kind} {children : List Node}
    (h : (mk kind children).hasInvocation = false) (depth : Nat) :
    children.flatMap (registry.expandNode page depth) = children := by
  rw [hasInvocation_mk, Bool.or_eq_false_iff, List.any_eq_false] at h
  have hsingle : ∀ child ∈ children, registry.expandNode page depth child = [child] :=
    fun child hchild =>
      expandNode_of_hasInvocation_eq_false (by simpa using h.2 child hchild) depth
  rw [List.flatMap_congr hsingle, List.flatMap_singleton']

theorem expandNode_above {kind : Kind} {children : List Node}
    (hkind : kind.isInvocation = false) (h : (mk kind children).hasInvocation = true)
    (depth : Nat) :
    registry.expandNode page depth (mk kind children) =
      [mk kind (coalesce (children.flatMap (registry.expandNode page depth)))] := by
  cases depth with
  | zero => exact substitute_above hkind h
  | succ depth => exact substitute_above hkind h

/-- A node that is no invocation stays a single node of its kind. -/
theorem exists_expandNode_eq_singleton {kind : Kind} (hkind : kind.isInvocation = false)
    (depth : Nat) (children : List Node) :
    ∃ below, registry.expandNode page depth (mk kind children) = [mk kind below] := by
  by_cases h : (mk kind children).hasInvocation = true
  · exact ⟨_, expandNode_above hkind h depth⟩
  · exact ⟨children, expandNode_of_hasInvocation_eq_false (by simpa using h) depth⟩

/-- What holds of invocations that stay, of those that are answered where it holds of the
answer, and of other nodes where it holds of their children, holds of all nodes at all
depths. -/
@[elab_as_elim]
theorem expandNode_induction {motive : Nat → Node → Prop}
    (kept : ∀ depth call children, depth = 0 ∨ registry.replacement? page call = none →
      motive depth (mk (.invocation call) children))
    (answered : ∀ depth call children nodes, registry.replacement? page call = some nodes →
      (∀ node ∈ nodes, motive depth node) → motive (depth + 1) (mk (.invocation call) children))
    (below : ∀ depth kind children, kind.isInvocation = false →
      (∀ child ∈ children, motive depth child) → motive depth (mk kind children))
    (depth : Nat) (node : Node) : motive depth node := by
  -- at one depth, by induction on the node, once it holds of the invocations
  have hnode (depth : Nat) (hcall : ∀ call children, motive depth (mk (.invocation call) children))
      (node : Node) : motive depth node := by
    induction node using Node.induction with
    | mk kind children ih =>
        cases kind with
        | invocation call => exact hcall call children
        | _ => exact below depth _ children rfl ih
  induction depth generalizing node with
  | zero => exact hnode 0 (fun call children => kept 0 call children (Or.inl rfl)) node
  | succ depth ih =>
      refine hnode (depth + 1) (fun call children => ?_) node
      cases hanswer : registry.replacement? page call with
      | none => exact kept (depth + 1) call children (Or.inr hanswer)
      | some nodes => exact answered depth call children nodes hanswer fun node _ => ih node

/-- Expanding leaves something below a text only if there was something below it. -/
theorem textLeaf_of_mem_expandNode {depth : Nat} {node : Node} (h : TextLeaf node) :
    ∀ result ∈ registry.expandNode page depth node, TextLeaf result := by
  induction depth, node using @expandNode_induction registry page with
  | kept depth call children hkept =>
      rw [expandNode_of_kept hkept, List.forall_mem_singleton]
      exact h
  | answered depth call children nodes hnodes _ =>
      rw [expandNode_of_answered hnodes]
      exact fun result hresult => textLeaf_of_solid ((joined_coalesce _).solid result hresult)
  | below depth kind children hkind _ =>
      rcases text_or_not_text kind with ⟨content, escaped, rfl⟩ | hnot
      · obtain rfl : children = [] := h content escaped rfl
        rw [expandNode_of_hasInvocation_eq_false (by simp [Kind.isInvocation]),
          List.forall_mem_singleton]
        exact h
      · obtain ⟨below, heq⟩ := exists_expandNode_eq_singleton hkind depth children
        rw [heq, List.forall_mem_singleton]
        exact textLeaf_of_not_text hnot below

end Registry

end Creole
