import Creole.Proofs.Macro.Steps
import Creole.Proofs.Node.View

/-!
# Expanding twice

An expanded tree is expanded again to itself, unless the limit on nested answers
left an invocation in it that a macro would answer.

## Strategy

The second expansion replaces nothing, since every invocation that is left is
`Registry.Settled`, but it still rebuilds the children of each node above an
invocation.  So the first expansion has to leave those in the form that
rebuilding keeps.  `Node.Normal` is that form: above an invocation, children are
joined.

* `normal_of_mem_substitute` and `normal_of_mem_expandNode`: whatever a
  substitution puts into the tree is normal, at any depth;
* `normal_expand`: hence so is the expanded tree, also where several nodes stand
  for the root and a page is put around them;
* `substitute_of_normal`: a substitution that answers none of the invocations in a
  normal tree returns it.
-/

namespace Creole

namespace Node

variable {replacement? : Invocation → Option (List Node)}

/-! ## Normal trees -/

/-- A tree is normal if the children of every node above an invocation are joined.
What lies below an invocation or in a part without any does not matter. -/
inductive Normal : Node → Prop
  | plain {node : Node} : node.hasInvocation = false → Normal node
  | invocation (call : Invocation) (children : List Node) : Normal (mk (.invocation call) children)
  | joined (kind : Kind) {children : List Node} :
      Joined children → (∀ child ∈ children, Normal child) → Normal (mk kind children)

theorem normal_text (content : Text) (escaped : Bool) : Normal (leaf (.text content escaped)) :=
  .plain (by simp [leaf, Kind.isInvocation])

theorem normal_of_mem_coalesce {nodes : List Node} (h : ∀ node ∈ nodes, Normal node) :
    ∀ node ∈ coalesce nodes, Normal node := by
  intro node hnode
  rcases mem_of_mem_coalesce hnode with hmem | ⟨content, escaped, rfl⟩
  · exact h node hmem
  · exact normal_text content escaped

/-- What a substitution puts in place of a node is normal if its answers are. -/
theorem normal_of_mem_substitute
    (hanswer : ∀ call nodes, replacement? call = some nodes → ∀ node ∈ nodes, Normal node)
    (node : Node) : ∀ result ∈ substitute replacement? node, Normal result := by
  induction node using Node.induction with
  | mk kind children ih =>
      intro result hresult
      by_cases hinvocation : (mk kind children).hasInvocation = true
      · cases kind with
        | invocation call =>
            rw [substitute_invocation] at hresult
            cases hcall : replacement? call with
            | none =>
                rw [hcall, Option.getD_none, List.mem_singleton] at hresult
                exact hresult ▸ .invocation call children
            | some nodes =>
                rw [hcall, Option.getD_some] at hresult
                exact hanswer call nodes hcall result hresult
        | _ =>
            rw [substitute_above rfl hinvocation, List.mem_singleton] at hresult
            rw [hresult]
            refine .joined _ (joined_coalesce _) (normal_of_mem_coalesce ?_)
            intro inner hinner
            obtain ⟨child, hchild, hmem⟩ := List.mem_flatMap.mp hinner
            exact ih child hchild inner hmem
      · rw [Bool.not_eq_true] at hinvocation
        rw [substitute_of_hasInvocation_eq_false hinvocation, List.mem_singleton] at hresult
        exact hresult ▸ .plain hinvocation

/-- A substitution that answers nothing in a normal tree returns it. -/
theorem substitute_of_normal {node : Node} (hnormal : Normal node)
    (hnone : ∀ call, Kind.invocation call ∈ node.kinds → replacement? call = none) :
    substitute replacement? node = [node] := by
  induction hnormal with
  | plain h => exact substitute_of_hasInvocation_eq_false h
  | invocation call children =>
      rw [substitute_invocation, hnone call (kind_mem_kinds _), Option.getD_none]
  | @joined kind children hjoined _ ih =>
      by_cases hinvocation : (mk kind children).hasInvocation = true
      · cases kind with
        | invocation call =>
            rw [substitute_invocation, hnone call (kind_mem_kinds _), Option.getD_none]
        | _ =>
            have hchildren : children.flatMap (substitute replacement?) = children := by
              have hsingle : ∀ child ∈ children, substitute replacement? child = [child] :=
                fun child hchild => ih child hchild fun call hcall =>
                  hnone call (mem_kinds_of_mem_children hchild hcall)
              rw [List.flatMap_congr hsingle, List.flatMap_singleton']
            rw [substitute_above rfl hinvocation, hchildren, coalesce_of_joined hjoined]
      · rw [Bool.not_eq_true] at hinvocation
        exact substitute_of_hasInvocation_eq_false hinvocation

end Node

namespace Registry

open Node

variable {registry : Registry} {page : PageRef}

/-! ## Expanded trees -/

theorem normal_of_mem_expandNode (registry : Registry) (page : PageRef) (depth : Nat)
    (node : Node) :
    ∀ result ∈ registry.expandNode page depth node, Normal result := by
  induction depth generalizing node with
  | zero => exact normal_of_mem_substitute (by simp) node
  | succ depth ih =>
      refine normal_of_mem_substitute ?_ node
      intro call nodes hcall
      obtain ⟨answer, -, rfl⟩ := Option.map_eq_some_iff.mp hcall
      refine normal_of_mem_coalesce ?_
      intro result hresult
      obtain ⟨child, -, hmem⟩ := List.mem_flatMap.mp hresult
      exact ih child result hmem

/-- One node stands for the root, or a joined sequence does: the answer to an
invocation is coalesced, and nothing but an answer is more or less than one node. -/
theorem expandNode_eq_singleton_or_joined (registry : Registry) (page : PageRef) (depth : Nat)
    (node : Node) :
    (∃ result, registry.expandNode page depth node = [result]) ∨
      Joined (registry.expandNode page depth node) := by
  obtain ⟨kind, children⟩ := node
  cases kind with
  | invocation call =>
      cases depth with
      | zero => exact Or.inl ⟨_, substitute_invocation call children⟩
      | succ depth =>
          rw [expandNode, substitute_invocation]
          cases registry.replacement? page call with
          | none => exact Or.inl ⟨_, rfl⟩
          | some nodes => exact Or.inr (joined_coalesce _)
  | _ =>
      refine Or.inl ?_
      cases depth with
      | zero => exact exists_substitute_eq_singleton rfl children
      | succ depth => exact exists_substitute_eq_singleton rfl children

theorem normal_expand (depth : Nat) (root : Node) :
    Normal (registry.expand page depth root) := by
  unfold expand
  by_cases hroot : root.hasInvocation = true
  · rw [if_pos hroot]
    have hnormal := normal_of_mem_expandNode registry page depth root
    split
    · next node hnode => exact hnormal node (by simp [hnode])
    · next hmany =>
      rcases expandNode_eq_singleton_or_joined registry page depth root
        with ⟨result, hresult⟩ | hjoined
      · exact absurd hresult (hmany result)
      · exact .joined _ hjoined hnormal
  · rw [if_neg hroot]
    exact .plain (by simpa using hroot)

theorem expandNode_of_normal (depth : Nat) {node : Node} (hnormal : Normal node)
    (hsettled : ∀ call, Kind.invocation call ∈ node.kinds → registry.Settled page call) :
    registry.expandNode page depth node = [node] := by
  cases depth with
  | zero => exact substitute_of_normal hnormal fun _ _ => rfl
  | succ depth =>
      refine substitute_of_normal hnormal fun call hcall => ?_
      rw [replacement?_eq_none_of_settled (hsettled call hcall), Option.map_none]

/-- Expansion is idempotent where the depth did not stop it: if every invocation in
the expanded tree is settled, expanding that tree again does not change it. -/
theorem expand_expand (registry : Registry) (page : PageRef) (depth : Nat) (root : Node)
    (hsettled : ∀ call, Kind.invocation call ∈ (registry.expand page depth root).kinds →
      registry.Settled page call) :
    registry.expand page depth (registry.expand page depth root) =
      registry.expand page depth root := by
  have hsingle := expandNode_of_normal depth (normal_expand depth root) hsettled
  rw [expand.eq_1 registry page depth (registry.expand page depth root)]
  split
  · rw [hsingle]
  · rfl

/-! ### An example -/

/-- A macro that greets by another macro, one whose answer is empty, one each that answers in
markup and in HTML, and one that fails. -/
def sampleRegistry : Registry :=
  [.named "greet".toList fun _ args =>
      .ok (.nodes [.text "Hello, ".toList, .leaf (.invocation { name := "who".toList, args })]),
    .named "who".toList fun _ args => .ok (.text args),
    .named "nothing".toList fun _ _ => .ok (.nodes []),
    .named "sign".toList fun _ _ => .ok (.markup "**me**".toList),
    .named "line".toList fun _ _ => .ok (.html "<hr>".toList),
    .named "broken".toList fun _ _ => .error (.failed "broken".toList [])]

/-- A page with uses of all macros of `sampleRegistry`, of a macro that it does not have, and
texts that a replaced use leaves side by side. -/
def sampleTree : Node :=
  .mk .page
    [.mk .paragraph
      [.text "Say ".toList, .leaf (.invocation { name := "greet".toList, args := "you".toList }),
        .leaf (.invocation { name := "nothing".toList }), .text "!".toList,
        .leaf (.invocation { name := "who".toList, args := " <3".toList }),
        .mk (.emphasis .bold) [.leaf (.invocation { name := "broken".toList }), .raw [], .raw []],
        .leaf (.invocation { name := "unknown".toList }),
        .leaf (.invocation { name := "sign".toList })],
      .leaf (.invocation { name := "line".toList }),
      .leaf (.invocation { name := "sign".toList, block := true })]

/-- What is left of `sampleTree` once its invocations are replaced. -/
def sampleExpandedKinds : List Kind :=
  [.page, .paragraph, .text "Say Hello, you! <3".toList true, .emphasis .bold,
    .invocation { name := "broken".toList }, .invocation { name := "unknown".toList },
    .emphasis .bold, .text "me".toList true, .text "<hr>".toList false, .paragraph,
    .emphasis .bold, .text "me".toList true]

theorem expand_expand_sampleTree :
    (sampleRegistry.expand (.onLocal []) 2 sampleTree).kinds = sampleExpandedKinds ∧
    (∀ call, Kind.invocation call ∈
        (sampleRegistry.expand (.onLocal []) 2 sampleTree).kinds →
      sampleRegistry.Settled (.onLocal []) call) ∧
    sampleRegistry.expand (.onLocal []) 2 (sampleRegistry.expand (.onLocal []) 2 sampleTree) =
      sampleRegistry.expand (.onLocal []) 2 sampleTree := by
  have hkinds : (sampleRegistry.expand (.onLocal []) 2 sampleTree).kinds =
      sampleExpandedKinds := by
    decide +kernel
  have hsettled : ∀ call, Kind.invocation call ∈
      (sampleRegistry.expand (.onLocal []) 2 sampleTree).kinds →
      sampleRegistry.Settled (.onLocal []) call := by
    intro call hcall
    rw [hkinds] at hcall
    simp only [sampleExpandedKinds, List.mem_cons, reduceCtorEq, Kind.invocation.injEq,
      List.not_mem_nil, or_false, false_or] at hcall
    rcases hcall with rfl | rfl
    · exact Or.inr ⟨_, .failed "broken".toList [], rfl, rfl⟩
    · exact Or.inl (by decide)
  exact ⟨hkinds, hsettled, expand_expand sampleRegistry (.onLocal []) 2 sampleTree hsettled⟩

end Registry

end Creole
