import Creole.Macro.Basic

/-!
# Expansion

Expanding a tree replaces every invocation that a macro answers by the nodes of
the answer, in which invocations are replaced in turn, to a limited depth.  An
invocation that is not replaced stays in the tree.  The children of a node are
joined again where something below the node may have been replaced; a part of the
tree without invocations stays as it is.
-/

namespace Creole

/-- How many answers may be nested inside one another, unless set otherwise. -/
def defaultMacroDepth : Nat := 10

namespace Node

mutual

/-- The nodes that stand for a node once its invocations are replaced. -/
def substitute (replacement? : Invocation → Option (List Node)) : Node → List Node
  | mk kind children =>
    match kind with
    | .invocation call => (replacement? call).getD [mk kind children]
    | _ =>
      if (mk kind children).hasInvocation then
        [mk kind (coalesce (substituteAll replacement? children))]
      else [mk kind children]

/-- The nodes that stand for nodes in a row. -/
def substituteAll (replacement? : Invocation → Option (List Node)) : List Node → List Node
  | [] => []
  | node :: nodes => substitute replacement? node ++ substituteAll replacement? nodes

end

theorem substituteAll_eq_flatMap (replacement? : Invocation → Option (List Node))
    (nodes : List Node) :
    substituteAll replacement? nodes = nodes.flatMap (substitute replacement?) := by
  induction nodes with
  | nil => rfl
  | cons node nodes ih => simp [substituteAll, ih]

end Node

namespace Registry

/-- The nodes that stand for a node if answers may nest to the given depth. -/
def expandNode (registry : Registry) (page : PageRef) : (depth : Nat) → Node → List Node
  | 0 => Node.substitute fun _ => none
  | depth + 1 =>
    Node.substitute fun call =>
      (registry.replacement? page call).map fun nodes =>
        Node.coalesce (nodes.flatMap (expandNode registry page depth))

/-- The tree with its invocations replaced.  If several nodes or none stand for the
root, they become the children of a page. -/
def expand (registry : Registry) (page : PageRef) (depth : Nat) (root : Node) : Node :=
  if root.hasInvocation then
    match registry.expandNode page depth root with
    | [node] => node
    | nodes => .mk .page nodes
  else root

end Registry

end Creole
