import Creole.Proofs.Html.Row
import Creole.Proofs.Macro.Idempotence

/-!
# Expansion is plain substitution

To a reader, expanding a tree is nothing but putting answers in the place of
invocations.  `Registry.plainExpand` does just that: it walks all of a tree, puts the nodes
of `Registry.plainAnswer?` in the place of every invocation that has an answer, leaves
texts apart, and gives the nodes that stand for the root as they come.  What the
expanded tree is written as, and its plain text, are those of these nodes in a row
(`expand_reads_as_plainExpand`).

## Strategy

By the recursion of expansion, what stands for a node reads like what plainly stands for
it (`readsLike_expandNode`).  Parts without invocations are kept by both.  Where texts
are joined, nothing changes for the reader if no text has anything below it
(`Html.readsLike_coalesce`), which is assumed of all nodes that the expansion comes to
(`Registry.Meets`).
-/

namespace Creole

namespace Node

mutual

/-- The nodes that stand for a node if its invocations are replaced and nothing else is
changed. -/
def plainSubstitute (replacement? : Invocation → Option (List Node)) : Node → List Node
  | mk kind children =>
    match kind with
    | .invocation call => (replacement? call).getD [mk kind children]
    | _ => [mk kind (plainSubstituteAll replacement? children)]

/-- The nodes that stand for nodes in a row. -/
def plainSubstituteAll (replacement? : Invocation → Option (List Node)) : List Node → List Node
  | [] => []
  | node :: nodes =>
    plainSubstitute replacement? node ++ plainSubstituteAll replacement? nodes

end

variable {replacement? : Invocation → Option (List Node)}

theorem plainSubstituteAll_eq_flatMap (nodes : List Node) :
    plainSubstituteAll replacement? nodes = nodes.flatMap (plainSubstitute replacement?) := by
  induction nodes with
  | nil => rfl
  | cons node nodes ih => simp [plainSubstituteAll, ih]

theorem plainSubstitute_invocation (call : Invocation) (children : List Node) :
    plainSubstitute replacement? (mk (.invocation call) children) =
      (replacement? call).getD [mk (.invocation call) children] := by
  rw [plainSubstitute]

theorem plainSubstitute_mk {kind : Kind} (hkind : kind.isInvocation = false)
    (children : List Node) :
    plainSubstitute replacement? (mk kind children) =
      [mk kind (children.flatMap (plainSubstitute replacement?))] := by
  rw [plainSubstitute, plainSubstituteAll_eq_flatMap]
  exact ne_invocation hkind

end Node

namespace Registry

open Node Html

/-- What the first macro that recognizes an invocation puts in its place: the nodes that it
gives, what its markup reads as, in blocks or within a line, or one text, which is written as
it is for HTML and escaped for a text.  Nothing takes the place of an invocation that no macro
recognizes, or whose macro fails. -/
def plainAnswer? (registry : Registry) (page : PageRef) (call : Invocation) :
    Option (List Node) :=
  match List.find? (fun known => known.recognizes call) registry with
  | none => none
  | some found =>
    match found.output page call.args, call.block with
    | .error _, _ => none
    | .ok (.nodes given), _ => some given
    | .ok (.markup s), true => some (Block.parse page s)
    | .ok (.markup s), false => some (Inline.parse page s)
    | .ok (.html s), _ => some [.mk (.text s false) []]
    | .ok (.text s), _ => some [.mk (.text s true) []]

/-- The nodes that stand for a node if answers may nest to the given depth, and nothing
but invocations is changed. -/
def plainExpand (registry : Registry) (page : PageRef) : (depth : Nat) → Node → List Node
  | 0 => Node.plainSubstitute fun _ => none
  | depth + 1 =>
    Node.plainSubstitute fun call =>
      (registry.plainAnswer? page call).map fun nodes =>
        nodes.flatMap (plainExpand registry page depth)

/-- The nodes that an expansion comes to: those of the tree, and those of the answers that
it replaces invocations by.  It does not look at what is below an invocation. -/
inductive Meets (registry : Registry) (page : PageRef) : (depth : Nat) → (root : Node) → Node → Prop
  | root (depth : Nat) (root : Node) : Meets registry page depth root root
  | child {depth : Nat} {kind : Kind} {children : List Node} {child met : Node} :
      kind.isInvocation = false → child ∈ children → Meets registry page depth child met →
      Meets registry page depth (.mk kind children) met
  | answer {depth : Nat} {call : Invocation} {children nodes : List Node} {node met : Node} :
      registry.plainAnswer? page call = some nodes → node ∈ nodes →
      Meets registry page depth node met →
      Meets registry page (depth + 1) (.mk (.invocation call) children) met

variable {registry : Registry} {page : PageRef}

/-- What an expansion replaces an invocation by is the plain answer to it. -/
theorem replacement?_eq_plainAnswer? (call : Invocation) :
    registry.replacement? page call = registry.plainAnswer? page call := by
  unfold replacement? find? plainAnswer?
  cases List.find? (fun known => known.recognizes call) registry with
  | none => rfl
  | some found =>
      dsimp only
      cases found.output page call.args with
      | error e => rfl
      | ok output =>
          cases output with
          | markup s => cases hblock : call.block <;> simp [MacroOutput.toNodes]
          | _ => rfl

/-! ## Plain expansion, kind by kind -/

theorem plainExpand_of_kept {depth : Nat} {call : Invocation}
    (h : depth = 0 ∨ registry.replacement? page call = none) (children : List Node) :
    registry.plainExpand page depth (mk (.invocation call) children) =
      [mk (.invocation call) children] := by
  cases depth with
  | zero => exact plainSubstitute_invocation call children
  | succ depth =>
      have hnone : registry.replacement? page call = none := h.resolve_left (Nat.succ_ne_zero _)
      rw [plainExpand, plainSubstitute_invocation, ← replacement?_eq_plainAnswer?, hnone]
      rfl

theorem plainExpand_of_answered {call : Invocation} {nodes : List Node}
    (h : registry.replacement? page call = some nodes) (depth : Nat) (children : List Node) :
    registry.plainExpand page (depth + 1) (mk (.invocation call) children) =
      nodes.flatMap (registry.plainExpand page depth) := by
  rw [plainExpand, plainSubstitute_invocation, ← replacement?_eq_plainAnswer?, h]
  rfl

theorem plainExpand_mk {kind : Kind} (hkind : kind.isInvocation = false) (depth : Nat)
    (children : List Node) :
    registry.plainExpand page depth (mk kind children) =
      [mk kind (children.flatMap (registry.plainExpand page depth))] := by
  cases depth with
  | zero => exact plainSubstitute_mk hkind children
  | succ depth => exact plainSubstitute_mk hkind children

/-- An expansion comes to no text with anything below it, if there is none in the tree or
in any answer. -/
theorem textLeaf_of_meets {depth : Nat} {root met : Node}
    (hanswers : ∀ call nodes, registry.plainAnswer? page call = some nodes →
      ∀ node ∈ nodes, node.Everywhere TextLeaf)
    (hroot : root.Everywhere TextLeaf) (h : registry.Meets page depth root met) :
    TextLeaf met := by
  induction h with
  | root depth root =>
      cases hroot with
      | mk hself _ => exact hself
  | child _ hchild _ ih => exact ih ((everywhere_mk.mp hroot).2 _ hchild)
  | answer hnodes hnode _ ih => exact ih (hanswers _ _ hnodes _ hnode)

/-! ## Reading -/

/-- Coalescing what stands for nodes cannot be read, if the nodes are met in an expansion
that comes to no text with anything below it. -/
theorem readsLike_coalesce_expandNode {depth : Nat} {nodes : List Node}
    (hleaves : ∀ node ∈ nodes, TextLeaf node)
    (h : ∀ node ∈ nodes,
      ReadsLike (registry.expandNode page depth node) (registry.plainExpand page depth node)) :
    ReadsLike (coalesce (nodes.flatMap (registry.expandNode page depth)))
      (nodes.flatMap (registry.plainExpand page depth)) := by
  refine (readsLike_coalesce ?_).trans (ReadsLike.flatMap h)
  intro result hresult
  obtain ⟨node, hnode, hmem⟩ := List.mem_flatMap.mp hresult
  exact textLeaf_of_mem_expandNode (hleaves node hnode) result hmem

/-- What stands for a node reads like what plainly stands for it. -/
theorem readsLike_expandNode {depth : Nat} {node : Node}
    (hleaves : ∀ met, registry.Meets page depth node met → TextLeaf met) :
    ReadsLike (registry.expandNode page depth node) (registry.plainExpand page depth node) := by
  induction depth, node using @expandNode_induction registry page with
  | kept depth call children hkept =>
      rw [expandNode_of_kept hkept, plainExpand_of_kept hkept]
      exact .refl _
  | answered depth call children nodes hnodes ih =>
      have hanswer := (replacement?_eq_plainAnswer? call).symm.trans hnodes
      have hmeets : ∀ node ∈ nodes, ∀ met, registry.Meets page depth node met → TextLeaf met :=
        fun node hnode met hmet => hleaves met (.answer hanswer hnode hmet)
      rw [expandNode_of_answered hnodes, plainExpand_of_answered hnodes]
      exact readsLike_coalesce_expandNode (fun node hnode => hmeets node hnode node (.root _ node))
        fun node hnode => ih node hnode (hmeets node hnode)
  | below depth kind children hkind ih =>
      have hmeets : ∀ child ∈ children, ∀ met,
          registry.Meets page depth child met → TextLeaf met :=
        fun child hchild met hmet => hleaves met (.child hkind hchild hmet)
      have hchildren : ∀ child ∈ children, ReadsLike (registry.expandNode page depth child)
          (registry.plainExpand page depth child) :=
        fun child hchild => ih child hchild (hmeets child hchild)
      rw [plainExpand_mk hkind]
      by_cases hinvocation : (mk kind children).hasInvocation = true
      · rw [expandNode_above hkind hinvocation]
        refine ReadsLike.below kind (readsLike_coalesce_expandNode ?_ hchildren)
        exact fun child hchild => hmeets child hchild child (.root _ child)
      · rw [Bool.not_eq_true] at hinvocation
        have hrow := ReadsLike.flatMap hchildren
        rw [flatMap_expandNode_of_hasInvocation_eq_false hinvocation] at hrow
        rw [expandNode_of_hasInvocation_eq_false hinvocation]
        exact hrow.below kind

/-- A page around nodes that stand for the root does not change how they read. -/
theorem readsLike_expand (depth : Nat) (root : Node) :
    ReadsLike [registry.expand page depth root] (registry.expandNode page depth root) := by
  unfold expand
  by_cases hroot : root.hasInvocation = true
  · rw [if_pos hroot]
    split
    · next node hnode => exact hnode ▸ .refl [node]
    · exact readsLike_page _
  · rw [Bool.not_eq_true] at hroot
    rw [if_neg (by simp [hroot]), expandNode_of_hasInvocation_eq_false hroot]
    exact .refl [root]

/-- Expansion is plain substitution as far as a reader can see.  If an expansion comes to
no text with anything below it, the expanded tree is written as the nodes that plainly
stand for the root are in a row, and its plain text is theirs. -/
theorem expand_reads_as_plainExpand (registry : Registry) (page : PageRef) (depth : Nat)
    (root : Node) (hleaves : ∀ met, registry.Meets page depth root met →
      ∀ content escaped, met.kind = .text content escaped → met.children = []) :
    (∀ cssClass handlers filter,
      Html.render cssClass handlers filter (registry.expand page depth root) =
        Html.renderRow cssClass handlers filter (registry.plainExpand page depth root)) ∧
    (registry.expand page depth root).plainText =
      (registry.plainExpand page depth root).flatMap Node.plainText := by
  have hreads : ReadsLike [registry.expand page depth root]
      (registry.plainExpand page depth root) :=
    (readsLike_expand depth root).trans (readsLike_expandNode hleaves)
  constructor
  · intro cssClass handlers filter
    rw [Html.render_eq_renderRow, renderRow, hreads.html, renderRow]
  · have htext := hreads.text
    rwa [List.flatMap_singleton] at htext

/-! ### An example -/

theorem textLeaf_of_sampleRegistry {call : Invocation} {nodes : List Node}
    (h : sampleRegistry.plainAnswer? (.onLocal []) call = some nodes) :
    ∀ node ∈ nodes, node.Everywhere TextLeaf := by
  obtain ⟨name, args, block⟩ := call
  unfold plainAnswer? at h
  split at h
  · cases h
  · next found hfind =>
    have hblocks : Block.parse (.onLocal []) "**me**".toList =
        [.mk .paragraph [.mk (.emphasis .bold) [.text "me".toList]]] := by decide +kernel
    have hinline : Inline.parse (.onLocal []) "**me**".toList =
        [.mk (.emphasis .bold) [.text "me".toList]] := by decide +kernel
    have hfound : found ∈ sampleRegistry := List.mem_of_find?_eq_some hfind
    simp only [sampleRegistry, List.mem_cons, List.not_mem_nil, or_false] at hfound
    rcases hfound with rfl | rfl | rfl | rfl | rfl | rfl <;> cases block <;>
      simp only [Macro.named, Option.some.injEq, reduceCtorEq, hblocks, hinline] at h <;>
      simp [← h, TextLeaf, Node.text, Node.leaf]

/-- What plainly stands for `sampleTree` if no answer may be nested in another. -/
def samplePlain : List Node :=
  [.mk .page
    [.mk .paragraph
      [.text "Say ".toList, .text "Hello, ".toList,
        .leaf (.invocation { name := "who".toList, args := "you".toList }), .text "!".toList,
        .text " <3".toList,
        .mk (.emphasis .bold) [.leaf (.invocation { name := "broken".toList }), .raw [], .raw []],
        .leaf (.invocation { name := "unknown".toList }),
        .mk (.emphasis .bold) [.text "me".toList]],
      .raw "<hr>".toList,
      .mk .paragraph [.mk (.emphasis .bold) [.text "me".toList]]]]

theorem expand_reads_as_plainExpand_sampleTree :
    sampleRegistry.plainExpand (.onLocal []) 1 sampleTree = samplePlain ∧
    (∀ met, sampleRegistry.Meets (.onLocal []) 1 sampleTree met →
      ∀ content escaped, met.kind = .text content escaped → met.children = []) ∧
    (∀ cssClass handlers filter,
      Html.render cssClass handlers filter (sampleRegistry.expand (.onLocal []) 1 sampleTree) =
        Html.renderRow cssClass handlers filter
          (sampleRegistry.plainExpand (.onLocal []) 1 sampleTree)) ∧
    (sampleRegistry.expand (.onLocal []) 1 sampleTree).plainText =
      (sampleRegistry.plainExpand (.onLocal []) 1 sampleTree).flatMap Node.plainText ∧
    (sampleRegistry.expand (.onLocal []) 1 sampleTree).plainText =
      "Say Hello, ! <3me<hr>me".toList := by
  have hplain : sampleRegistry.plainExpand (.onLocal []) 1 sampleTree = samplePlain := by
    decide +kernel
  have hleaves : ∀ met, sampleRegistry.Meets (.onLocal []) 1 sampleTree met → TextLeaf met := by
    intro met hmet
    refine textLeaf_of_meets (fun _ _ => textLeaf_of_sampleRegistry) ?_ hmet
    simp [sampleTree, TextLeaf, Node.text, Node.raw, Node.leaf]
  obtain ⟨hhtml, htext⟩ :=
    expand_reads_as_plainExpand sampleRegistry (.onLocal []) 1 sampleTree hleaves
  refine ⟨hplain, hleaves, hhtml, htext, htext.trans ?_⟩
  rw [hplain]
  decide +kernel

end Registry

end Creole
