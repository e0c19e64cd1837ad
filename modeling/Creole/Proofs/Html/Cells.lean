import Creole.Proofs.Html.Safety
import Creole.Proofs.Node.Without

/-!
# The cells of written HTML

`Written` says of nodes in a row how they are written, without reference to directives:
each cell as a `th` or `td` element with some alignment in its style or with no style, and
these alignments listed in document order.  The HTML of a document is written in this way
with the alignments that are in force where the cells stand (`written_render`).
Directives that do not set the alignment leave no trace in it (`render_without`).

HTML may hold raw text that looks like a cell, so that the cells cannot be read off the
output alone; hence the relation follows the tree.
-/

namespace Creole.Html

/-- Nodes in a row, what they are written as, and the cells in it, in document order,
each with the alignment that its style asks for. -/
inductive Written (cssClass : Text) (handlers : Handlers) (filter : UrlFilter) :
    List Node → (html : Text) → (cells : List (Bool × Option Text)) → Prop
  | nil : Written cssClass handlers filter [] [] []
  | directive {directive : Directive} {below nodes : List Node} {html : Text}
      {cells : List (Bool × Option Text)} :
      Written cssClass handlers filter nodes html cells →
      Written cssClass handlers filter (.mk (.directive directive) below :: nodes) html cells
  | page {children nodes : List Node} {content html : Text}
      {inside cells : List (Bool × Option Text)} :
      Written cssClass handlers filter children content inside →
      Written cssClass handlers filter nodes html cells →
      Written cssClass handlers filter (.mk .page children :: nodes) (content ++ html)
        (inside ++ cells)
  | wrapped {kind : Kind} {tag : Text} {children nodes : List Node} {content html : Text}
      {inside cells : List (Bool × Option Text)} :
      wrapper? kind = some tag → tag ∉ ["th".toList, "td".toList] →
      Written cssClass handlers filter children content inside →
      Written cssClass handlers filter nodes html cells →
      Written cssClass handlers filter (.mk kind children :: nodes)
        (element tag (classAttribute cssClass) content ++ html) (inside ++ cells)
  | cell {header : Bool} {tag : Text} {children nodes : List Node} {content html : Text}
      {inside cells : List (Bool × Option Text)} :
      tag = (if header then "th".toList else "td".toList) →
      Written cssClass handlers filter children content inside →
      Written cssClass handlers filter nodes html cells →
      Written cssClass handlers filter (.mk (.cell header) children :: nodes)
        ("<".toList ++ tag ++ " class='".toList ++ cssClass ++ "'>".toList ++
          content ++ "</".toList ++ tag ++ ">".toList ++ html)
        ((header, none) :: inside ++ cells)
  | aligned {header : Bool} {tag alignment : Text} {children nodes : List Node}
      {content html : Text} {inside cells : List (Bool × Option Text)} :
      tag = (if header then "th".toList else "td".toList) →
      Written cssClass handlers filter children content inside →
      Written cssClass handlers filter nodes html cells →
      Written cssClass handlers filter (.mk (.cell header) children :: nodes)
        ("<".toList ++ tag ++ " class='".toList ++ cssClass ++ "' style='vertical-align:".toList ++
          escape alignment ++ "'>".toList ++
          content ++ "</".toList ++ tag ++ ">".toList ++ html)
        ((header, some alignment) :: inside ++ cells)
  | leaf {kind : Kind} {below nodes : List Node} {html : Text}
      {cells : List (Bool × Option Text)} :
      kind.showsChildren = false → Written cssClass handlers filter nodes html cells →
      Written cssClass handlers filter (.mk kind below :: nodes)
        (Html.leaf cssClass handlers filter kind ++ html) cells

variable {cssClass : Text} {handlers : Handlers} {filter : UrlFilter}

/-! ## Walks -/

theorem threads_visitor (cssClass : Text) (handlers : Handlers) (filter : UrlFilter) :
    (visitor cssClass handlers filter).Threads where
  through kind children state hshows := by
    cases kind with
    | page | paragraph | heading level | blockquote | emphasis style | list ordered | listItem
    | table | row | cell header => rfl
    | _ => cases hshows
  past kind children state hshows := by
    rw [visit_of_not_showsChildren hshows]
    rfl

/-! ## Cells -/

theorem written_wrapped {kind : Kind} {tag : Text} (h : wrapper? kind = some tag)
    {children nodes : List Node} {content html : Text} {inside cells : List (Bool × Option Text)}
    (hchildren : Written cssClass handlers filter children content inside)
    (hrest : Written cssClass handlers filter nodes html cells) :
    Written cssClass handlers filter (.mk kind children :: nodes)
      (element tag (classAttribute cssClass) content ++ html) (inside ++ cells) := by
  have htags : ∀ tag ∈ wrapperTags, tag ∉ ["th".toList, "td".toList] := by decide
  refine .wrapped h ?_ hchildren hrest
  rcases mem_of_wrapper h with ⟨level, rfl⟩ | hmem
  · simp
  · exact htags tag hmem

/-- The element of a cell, whether or not an alignment is in force. -/
theorem written_cell {header : Bool} {children nodes : List Node} {content html : Text}
    {inside cells : List (Bool × Option Text)} (alignment : Option Text)
    (hchildren : Written cssClass handlers filter children content inside)
    (hrest : Written cssClass handlers filter nodes html cells) :
    Written cssClass handlers filter (.mk (.cell header) children :: nodes)
      (element (cellTag header) (classAttribute cssClass ++ alignmentAttribute alignment) content ++
        html)
      ((header, alignment) :: inside ++ cells) := by
  have htag : cellTag header = if header then "th".toList else "td".toList := rfl
  cases alignment with
  | none =>
      have hhtml : element (cellTag header) (classAttribute cssClass ++ alignmentAttribute none)
            content ++ html =
          "<".toList ++ cellTag header ++ " class='".toList ++ cssClass ++ "'>".toList ++
            content ++ "</".toList ++ cellTag header ++ ">".toList ++ html := by
        unfold element classAttribute alignmentAttribute
        simp
      rw [hhtml]
      exact .cell htag hchildren hrest
  | some value =>
      have hhtml : element (cellTag header)
            (classAttribute cssClass ++ alignmentAttribute (some value)) content ++ html =
          "<".toList ++ cellTag header ++ " class='".toList ++ cssClass ++
            "' style='vertical-align:".toList ++ escape value ++ "'>".toList ++
            content ++ "</".toList ++ cellTag header ++ ">".toList ++ html := by
        unfold element classAttribute alignmentAttribute
        simp
      rw [hhtml]
      exact .aligned htag hchildren hrest

/-- Children in order are written as each of them is in front of whatever follows it. -/
theorem written_inOrder {children : List Node}
    (h : ∀ child ∈ children, ∀ state {nodes html cells},
      Written cssClass handlers filter nodes html cells →
      Written cssClass handlers filter (child :: nodes)
        (((visitor cssClass handlers filter).walk child state).1 ++ html)
        (Event.cellsUnder state child.events ++ cells))
    (state : Directives) :
    Written cssClass handlers filter children
      (Walk.inOrder [] (· ++ ·) (children.map (visitor cssClass handlers filter).child) state).1
      (Event.cellsUnder state (children.flatMap Node.events)) := by
  induction children generalizing state with
  | nil => exact .nil
  | cons child children ih =>
      rw [List.forall_mem_cons] at h
      have hbehind := (threads_visitor cssClass handlers filter).walk_snd child state
      rw [List.map_cons, Walk.inOrder_cons, List.flatMap_cons, Event.cellsUnder_append, ← hbehind]
      exact h.1 state (ih h.2 _)

theorem written_walk (node : Node) (state : Directives) {nodes : List Node} {html : Text}
    {cells : List (Bool × Option Text)}
    (hrest : Written cssClass handlers filter nodes html cells) :
    Written cssClass handlers filter (node :: nodes)
      (((visitor cssClass handlers filter).walk node state).1 ++ html)
      (Event.cellsUnder state node.events ++ cells) := by
  induction node using Node.induction generalizing state nodes html cells with
  | mk kind children ih =>
      have hchildren :=
        written_inOrder (fun child hchild state _ _ _ => ih child hchild state) state
      cases kind with
      | directive directive =>
          rw [Visitor.walk_directive, Node.events_mk]
          exact .directive hrest
      | page =>
          rw [Visitor.walk_mk _ _ _ (by simp), Node.events_mk]
          exact .page hchildren hrest
      | cell header =>
          rw [Visitor.walk_mk _ _ _ (by simp), Node.events_mk]
          exact written_cell state.tableAlignment? hchildren hrest
      | paragraph | heading level | blockquote | emphasis style | list ordered | listItem | table
      | row =>
          rw [Visitor.walk_mk _ _ _ (by simp), Node.events_mk]
          exact written_wrapped rfl hchildren hrest
      | _ =>
          rw [Visitor.walk_mk _ _ _ (by simp), visit_of_not_showsChildren rfl, Node.events_mk]
          exact .leaf rfl hrest

theorem written_render (cssClass : Text) (handlers : Handlers) (filter : UrlFilter) (root : Node) :
    Written (escape cssClass) handlers filter [root] (render cssClass handlers filter root)
      root.cells := by
  have hcells : Event.cellsUnder .initial root.events = root.cells :=
    Event.cellsUnder_foldl [] root.events
  have hnil : Written (escape cssClass) handlers filter [] [] [] := .nil
  have hroot := written_walk root .initial hnil
  rw [List.append_nil, List.append_nil, hcells] at hroot
  exact hroot

/-! ## Without other directives -/

section Without

open Directives

theorem walk_without {children kept : List Node}
    (h : ∀ {state state' : Directives}, SameAlignment state state' →
      (Walk.inOrder [] (· ++ ·) (children.map (visitor cssClass handlers filter).child) state).1 =
        (Walk.inOrder [] (· ++ ·) (kept.map (visitor cssClass handlers filter).child) state').1)
    (kind : Kind) {state state' : Directives} (hstate : SameAlignment state state') :
    ((visitor cssClass handlers filter).walk (.mk kind children) state).1 =
      ((visitor cssClass handlers filter).walk (.mk kind kept) state').1 := by
  cases kind with
  | directive directive => rw [Visitor.walk_directive, Visitor.walk_directive]
  | page =>
      rw [Visitor.walk_mk _ _ _ (by simp), Visitor.walk_mk _ _ _ (by simp)]
      exact h hstate
  | cell header =>
      rw [Visitor.walk_mk _ _ _ (by simp), Visitor.walk_mk _ _ _ (by simp)]
      show element _ (_ ++ alignmentAttribute state.tableAlignment?) _ =
        element _ (_ ++ alignmentAttribute state'.tableAlignment?) _
      rw [hstate.tableAlignment?]
      exact congr_arg (element _ _) (h hstate)
  | paragraph | heading level | blockquote | emphasis style | list ordered | listItem | table
  | row =>
      rw [Visitor.walk_mk _ _ _ (by simp), Visitor.walk_mk _ _ _ (by simp)]
      exact congr_arg (element _ (classAttribute cssClass)) (h hstate)
  | _ =>
      rw [Visitor.walk_mk _ _ _ (by simp), Visitor.walk_mk _ _ _ (by simp)]
      rfl

theorem inOrder_without {nodes kept : List Node} (h : Node.Without Directive.Other nodes kept)
    {state state' : Directives} (hstate : SameAlignment state state') :
    (Walk.inOrder [] (· ++ ·) (nodes.map (visitor cssClass handlers filter).child) state).1 =
      (Walk.inOrder [] (· ++ ·) (kept.map (visitor cssClass handlers filter).child) state').1 := by
  induction h generalizing state state' with
  | nil => rfl
  | @keep kind children keptChildren nodes kept hchildren _ ihchildren ih =>
      rw [List.map_cons, List.map_cons, Walk.inOrder_cons, Walk.inOrder_cons]
      exact congr_arg₂ (· ++ ·) (walk_without ihchildren kind hstate)
        (ih ((threads_visitor cssClass handlers filter).sameAlignment_walk hchildren kind hstate))
  | @drop directive below nodes kept hother _ ih =>
      have hwalk :
          ((visitor cssClass handlers filter).child (.mk (.directive directive) below)).walk =
            fun state => ([], state.apply directive) :=
        Visitor.walk_directive _ directive below
      rw [List.map_cons, Walk.inOrder_cons, hwalk, List.nil_append]
      exact ih (hstate.apply_other hother)

theorem render_without {kind : Kind} {children kept : List Node}
    (h : Node.Without Directive.Other children kept) (cssClass : Text) :
    render cssClass handlers filter (.mk kind kept) =
      render cssClass handlers filter (.mk kind children) := by
  have hinitial : SameAlignment .initial .initial := rfl
  exact (walk_without (inOrder_without h) kind hinitial).symm

end Without

end Creole.Html
