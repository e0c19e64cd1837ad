import Creole.Proofs.Macro.Idempotence

/-!
# The limit on nested answers

The limit on how deep answers may nest matters only where it is met.  If every
invocation that is left in an expanded tree is settled, the tree is the same for every
higher limit (`expand_of_le`).

## Strategy

An invocation that the limit keeps from being answered stays in what stands for its
node, so that it is not settled there.  It might be lost on the way up: coalescing drops
what lies below a text.  But then what lies below the text makes no difference either.
So a row of nodes is coalesced to the same sequence at both depths, child by child
(`coalesce_flatMap_expandNode`): below a text nothing matters, and of any other child
every invocation is still to be seen in the sequence (`mem_kinds_coalesce`).
-/

namespace Creole

namespace Node

/-- Coalescing loses no invocation but below a text. -/
theorem mem_kinds_coalesce {nodes : List Node} {node : Node} {call : Invocation}
    (hnode : node ∈ nodes) (hleaf : TextLeaf node) (hcall : Kind.invocation call ∈ node.kinds) :
    Kind.invocation call ∈ (coalesce nodes).flatMap kinds := by
  obtain ⟨kind, children⟩ := node
  rcases text_or_not_text kind with ⟨content, escaped, rfl⟩ | hnot
  · obtain rfl : children = [] := hleaf content escaped rfl
    simp at hcall
  · exact List.mem_flatMap.mpr ⟨_, mem_coalesce_of_not_text hnode hnot, hcall⟩

end Node

namespace Registry

open Node

variable {registry : Registry} {page : PageRef}

/-- Children are coalesced to the same sequence at two depths, if each of them becomes the
same where its invocations are settled, and those in the sequence are. -/
theorem coalesce_flatMap_expandNode {depth depth' : Nat} {nodes : List Node}
    (hnodes : ∀ node ∈ nodes,
      (∀ call, Kind.invocation call ∈ (registry.expandNode page depth node).flatMap kinds →
        registry.Settled page call) →
      registry.expandNode page depth' node = registry.expandNode page depth node)
    (hsettled : ∀ call, Kind.invocation call ∈
        (coalesce (nodes.flatMap (registry.expandNode page depth))).flatMap kinds →
      registry.Settled page call) :
    coalesce (nodes.flatMap (registry.expandNode page depth')) =
      coalesce (nodes.flatMap (registry.expandNode page depth)) := by
  refine coalesce_flatMap_congr fun node hnode rest => ?_
  by_cases hleaf : TextLeaf node
  · rw [hnodes node hnode]
    intro call hcall
    obtain ⟨result, hresult, hmem⟩ := List.mem_flatMap.mp hcall
    have hrow : result ∈ nodes.flatMap (registry.expandNode page depth) :=
      List.mem_flatMap.mpr ⟨node, hnode, hresult⟩
    exact hsettled call
      (mem_kinds_coalesce hrow (textLeaf_of_mem_expandNode hleaf result hresult) hmem)
  · obtain ⟨kind, children⟩ := node
    rcases text_or_not_text kind with ⟨content, escaped, rfl⟩ | hnot
    · -- whatever becomes of the nodes below the text is dropped
      obtain ⟨below, heq⟩ := @exists_expandNode_eq_singleton registry page
        (.text content escaped) rfl depth children
      obtain ⟨below', heq'⟩ := @exists_expandNode_eq_singleton registry page
        (.text content escaped) rfl depth' children
      rw [heq, heq']
      rfl
    · exact absurd (textLeaf_of_not_text hnot children) hleaf

theorem expandNode_of_le {depth depth' : Nat} (hle : depth ≤ depth') {node : Node}
    (hsettled : ∀ call,
      Kind.invocation call ∈ (registry.expandNode page depth node).flatMap kinds →
        registry.Settled page call) :
    registry.expandNode page depth' node = registry.expandNode page depth node := by
  induction depth, node using @expandNode_induction registry page generalizing depth' with
  | kept depth call children hkept =>
      rw [expandNode_of_kept hkept] at hsettled ⊢
      have hcall : registry.Settled page call := hsettled call (by simp)
      exact expandNode_of_kept (Or.inr (replacement?_eq_none_of_settled hcall)) children
  | answered depth call children nodes hnodes ih =>
      obtain ⟨depth', rfl⟩ : ∃ less, depth' = less + 1 := ⟨depth' - 1, by omega⟩
      rw [expandNode_of_answered hnodes] at hsettled
      rw [expandNode_of_answered hnodes, expandNode_of_answered hnodes]
      exact coalesce_flatMap_expandNode (fun node hnode => ih node hnode (by omega)) hsettled
  | below depth kind children hkind ih =>
      by_cases hinvocation : (mk kind children).hasInvocation = true
      · rw [expandNode_above hkind hinvocation] at hsettled
        rw [expandNode_above hkind hinvocation, expandNode_above hkind hinvocation]
        refine congr_arg (fun below => [mk kind below]) ?_
        refine coalesce_flatMap_expandNode (fun child hchild => ih child hchild hle) ?_
        intro call hcall
        exact hsettled call (by simpa using Or.inr hcall)
      · rw [Bool.not_eq_true] at hinvocation
        rw [expandNode_of_hasInvocation_eq_false hinvocation,
          expandNode_of_hasInvocation_eq_false hinvocation]

/-- The kinds of the nodes that stand for the root are kinds of the expanded tree. -/
theorem mem_kinds_expand {depth : Nat} {root : Node} (hroot : root.hasInvocation = true)
    {kind : Kind} (h : kind ∈ (registry.expandNode page depth root).flatMap kinds) :
    kind ∈ (registry.expand page depth root).kinds := by
  rw [expand, if_pos hroot]
  split
  · next node hnode => simpa [hnode] using h
  · rw [kinds_mk]
    exact List.mem_cons_of_mem _ h

/-- The limit on nested answers matters only where it is met: if every invocation in the
expanded tree is settled, any higher limit gives the same tree. -/
theorem expand_of_le (registry : Registry) (page : PageRef) {depth depth' : Nat}
    (hle : depth ≤ depth') (root : Node)
    (hsettled : ∀ call, Kind.invocation call ∈ (registry.expand page depth root).kinds →
      registry.Settled page call) :
    registry.expand page depth' root = registry.expand page depth root := by
  by_cases hroot : root.hasInvocation = true
  · have hnodes : registry.expandNode page depth' root = registry.expandNode page depth root :=
      expandNode_of_le hle fun call hcall => hsettled call (mem_kinds_expand hroot hcall)
    rw [expand, expand, hnodes]
  · rw [expand, expand, if_neg hroot, if_neg hroot]

/-! ### An example -/

/-- A paragraph in which the answer to an invocation that stands below a text would need a
higher limit than what can be seen of the paragraph. -/
def sampleLetter : Node :=
  .mk .paragraph
    [.mk (.text "Dear ".toList true)
        [.leaf (.invocation { name := "greet".toList, args := "all".toList })],
      .leaf (.invocation { name := "who".toList, args := "you".toList }),
      .leaf (.invocation { name := "broken".toList })]

theorem expand_of_le_sampleLetter :
    1 ≤ 5 ∧
    (sampleRegistry.expand (.onLocal []) 1 sampleLetter).kinds =
      [.paragraph, .text "Dear you".toList true, .invocation { name := "broken".toList }] ∧
    (∀ call, Kind.invocation call ∈
        (sampleRegistry.expand (.onLocal []) 1 sampleLetter).kinds →
      sampleRegistry.Settled (.onLocal []) call) ∧
    sampleRegistry.expand (.onLocal []) 5 sampleLetter =
      sampleRegistry.expand (.onLocal []) 1 sampleLetter := by
  have hkinds : (sampleRegistry.expand (.onLocal []) 1 sampleLetter).kinds =
      [.paragraph, .text "Dear you".toList true, .invocation { name := "broken".toList }] := by
    decide
  have hsettled : ∀ call, Kind.invocation call ∈
      (sampleRegistry.expand (.onLocal []) 1 sampleLetter).kinds →
      sampleRegistry.Settled (.onLocal []) call := by
    intro call hcall
    obtain rfl : call = { name := "broken".toList } := by simpa [hkinds] using hcall
    exact Or.inr ⟨_, .failed "broken".toList [], rfl, rfl⟩
  exact ⟨by decide, hkinds, hsettled,
    expand_of_le sampleRegistry (.onLocal []) (by decide) sampleLetter hsettled⟩

end Registry

end Creole
