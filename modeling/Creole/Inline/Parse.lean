import Creole.Inline.Token
import Creole.Node.Sequence

/-!
# Reading inline markup

The nodes of a text are those of its tokens in order, with the text inside
emphasis read in the same way.  Reading never fails: markup that is not complete
stays in the text.
-/

namespace Creole.Inline

/-- The nodes of a text that stands behind the character `previous` on a page. -/
def nodesFrom (page : PageRef) (previous : Option Char) (s : Text) : List Node :=
  match s with
  | [] => []
  | c :: cs =>
    match _ : scan page previous c cs with
    | (token, n) =>
      let following := nodesFrom page (c :: cs)[n - 1]? ((c :: cs).drop n)
      match _ : token with
      | .literal content => (Node.text content).prepend following
      | .leaf kind => Node.leaf kind :: following
      | .span style content => .mk (.emphasis style) (nodesFrom page none content) :: following
termination_by s.length
decreasing_by
  · have hlength := one_le_scan_length page previous c cs
    simp_all only [List.length_drop, List.length_cons]
    omega
  · exact length_lt_of_scan_span (by assumption)

/-- The inline nodes of a text on a page. -/
def parse (page : PageRef) (s : Text) : List Node := nodesFrom page none s

end Creole.Inline
