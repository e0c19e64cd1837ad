import Creole.Node.Basic

/-!
# Sequences of nodes

No two texts of the same mode stand side by side in a sequence that the library
builds, and no text in it is empty.  `Node.coalesce` brings a sequence into that
form by joining texts and dropping empty ones.  A text that is joined or kept is a
leaf, whatever its node had below it.
-/

namespace Creole.Node

/-- Puts a node before a sequence.  A text is joined to a text of its mode that
the sequence begins with, and an empty text is left out. -/
def prepend (node : Node) (rest : List Node) : List Node :=
  match node.kind with
  | .text content escaped =>
    if content.isEmpty then rest
    else
      match rest with
      | mk (.text next escaped') _ :: more =>
        if escaped = escaped' then leaf (.text (content ++ next) escaped) :: more
        else leaf (.text content escaped) :: rest
      | _ => leaf (.text content escaped) :: rest
  | _ => node :: rest

/-- The sequence with its texts joined as far as their modes allow. -/
def coalesce (nodes : List Node) : List Node := nodes.foldr prepend []

@[simp] theorem coalesce_nil : coalesce [] = [] := rfl

@[simp] theorem coalesce_cons (node : Node) (nodes : List Node) :
    coalesce (node :: nodes) = prepend node (coalesce nodes) := rfl

end Creole.Node
