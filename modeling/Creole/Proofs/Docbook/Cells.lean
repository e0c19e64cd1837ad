import Creole.Proofs.Docbook.Content
import Creole.Proofs.Node.Without

/-!
# The cells of an article

The `th` and `td` elements of an article, in document order, are the cells of the
document, each with the alignment in force where the cell stands as its `valign`
attribute (`cells_article`).  Directives that do not set the alignment leave no trace in
the article (`article_without`).

Content that goes through sections keeps its order, so that the cells are read off the
article as its text is (`flatMap_visit`); what is in force is carried along
(`threads_visitor`).
-/

namespace Creole

namespace Xml

/-- The cell that an element is, if it is one: whether it is a header, and its vertical
alignment. -/
def cell? (name : Text) (attributes : List (Text × Text)) : Option (Bool × Option Text) :=
  if name = "th".toList then some (true, attributes.lookup "valign".toList)
  else if name = "td".toList then some (false, attributes.lookup "valign".toList)
  else none

mutual

/-- The table cells of a part, in document order. -/
def cells : Xml → List (Bool × Option Text)
  | element name attributes content => (cell? name attributes).toList ++ cellsAll content
  | text _ | cdata _ => []

/-- The table cells of parts in a row. -/
def cellsAll : List Xml → List (Bool × Option Text)
  | [] => []
  | x :: xs => cells x ++ cellsAll xs

end

theorem cellsAll_eq_flatMap (xs : List Xml) : cellsAll xs = xs.flatMap cells := by
  induction xs with
  | nil => rfl
  | cons x xs ih => simp [cellsAll, ih]

theorem cells_element (name : Text) (attributes : List (Text × Text)) (content : List Xml) :
    cells (.element name attributes content) =
      (cell? name attributes).toList ++ content.flatMap cells := by
  rw [cells, cellsAll_eq_flatMap]

end Xml

namespace Docbook

variable (handlers : Handlers) (filter : UrlFilter)

theorem threads_visitor : (visitor handlers filter).Threads where
  through kind children state hshows := by
    have hsectioned : (sectioned children state).2 = (inOrder children state).2 := by
      rw [sectioned_eq]
    cases kind with
    | page => exact hsectioned
    | blockquote =>
        show ((if anyHeading children then sectioned children else inOrder children) state).2 = _
        split
        · exact hsectioned
        · rfl
    | paragraph | heading level | emphasis style | list ordered | listItem | table | row
    | cell header => rfl
    | _ => cases hshows
  past kind children state hshows := by
    rw [visit_of_not_showsChildren handlers filter hshows]
    rfl

/-! ## Cells -/

theorem cells_leaf (kind : Kind) : (leaf handlers filter kind).flatMap Xml.cells = [] := by
  cases kind with
  | text content escaped => cases escaped <;> rfl
  | invocation call => cases hblock : call.block <;> simp [leaf, hblock, element, Xml.cells,
      Xml.cellsAll, Xml.cell?]
  | _ => simp [leaf, imageElement, element, Xml.cells, Xml.cellsAll, Xml.cell?]

theorem cells_inOrder {children : List Node}
    (h : ∀ child ∈ children, ∀ state,
      ((visitor handlers filter).walk child state).1.flatMap Xml.cells =
        Event.cellsUnder state child.events)
    (state : Directives) :
    (inOrder (children.map (visitor handlers filter).child) state).1.flatMap Xml.cells =
      Event.cellsUnder state (children.flatMap Node.events) := by
  induction children generalizing state with
  | nil => rfl
  | cons child children ih =>
      rw [List.forall_mem_cons] at h
      have hbehind := (threads_visitor handlers filter).walk_snd child state
      rw [inOrder, List.map_cons, Walk.inOrder_cons, List.flatMap_append, List.flatMap_cons,
        Event.cellsUnder_append, ← hbehind]
      exact congr_arg₂ (· ++ ·) (h.1 state) (ih h.2 _)

/-- The cell element of an alignment is a cell of that alignment. -/
theorem cell?_alignmentAttributes (header : Bool) (alignment : Option Text) :
    Xml.cell? (if header then "th".toList else "td".toList) (alignmentAttributes alignment) =
      some (header, alignment) := by
  cases header <;> cases alignment <;> simp [Xml.cell?, alignmentAttributes]

theorem cells_walk (node : Node) (state : Directives) :
    ((visitor handlers filter).walk node state).1.flatMap Xml.cells =
      Event.cellsUnder state node.events := by
  induction node using Node.induction generalizing state with
  | mk kind children ih =>
      have hchildren := cells_inOrder handlers filter ih
      have hthrough : ∀ name attributes content, name ∉ cellNames →
          Xml.cells (.element name attributes content) = content.flatMap Xml.cells := by
        intro name attributes content hname
        simp only [cellNames, List.mem_cons, List.not_mem_nil, or_false, not_or] at hname
        rw [Xml.cells_element, Xml.cell?, if_neg hname.1, if_neg hname.2]
        rfl
      cases kind with
      | directive directive =>
          rw [Visitor.walk_directive, Node.events_mk]
          rfl
      | cell header =>
          rw [Visitor.walk_mk _ _ _ (by simp), Node.events_mk, Event.cellsUnder, ← hchildren state]
          show [Xml.element _ _ _].flatMap Xml.cells = _
          rw [List.flatMap_singleton, Xml.cells_element, cell?_alignmentAttributes]
          rfl
      | page | paragraph | heading level | blockquote | emphasis style | list ordered | listItem
      | table | row =>
          rw [Visitor.walk_mk _ _ _ (by simp), flatMap_visit hthrough rfl (by simp), hchildren,
            Node.events_mk]
          rfl
      | _ =>
          rw [Visitor.walk_mk _ _ _ (by simp), visit_of_not_showsChildren _ _ rfl, Walk.pure,
            cells_leaf, Node.events_mk]
          rfl

theorem cells_article (language : Text) (root : Node) :
    (article language handlers filter root).toXml.cells = root.cells := by
  have hroot := cells_walk handlers filter root .initial
  rw [XmlElement.toXml, Xml.cells_element]
  exact hroot.trans (Event.cellsUnder_foldl [] root.events)

/-! ## Without other directives -/

section Without

open Directives

theorem anyHeading_without {p : Directive → Prop} {nodes kept : List Node}
    (h : Node.Without p nodes kept) :
    anyHeading (nodes.map (visitor handlers filter).child) =
      anyHeading (kept.map (visitor handlers filter).child) := by
  induction h with
  | nil => rfl
  | keep _ _ _ ih => simpa [anyHeading] using congr_arg (_ || ·) ih
  | drop _ _ ih => simpa [anyHeading, Kind.headingLevel?] using ih

/-- Nodes and what is left of them are written alike, in order as well as in sections, if
what is in force before them agrees on the alignment. -/
structure Alike (nodes kept : List Node) : Prop where
  inOrder : ∀ {state state' : Directives}, SameAlignment state state' →
    (inOrder (nodes.map (visitor handlers filter).child) state).1 =
      (inOrder (kept.map (visitor handlers filter).child) state').1
  steps : ∀ {state state' : Directives}, SameAlignment state state' → ∀ builder,
    (steps (nodes.map (visitor handlers filter).child) state).foldl SectionBuilder.step builder =
      (steps (kept.map (visitor handlers filter).child) state').foldl SectionBuilder.step builder

variable {handlers filter}

/-- A node is written alike over children that are. -/
theorem Alike.walk {children kept : List Node} (h : Alike handlers filter children kept)
    (hheading : anyHeading (children.map (visitor handlers filter).child) =
      anyHeading (kept.map (visitor handlers filter).child))
    (kind : Kind) {state state' : Directives} (hstate : SameAlignment state state') :
    ((visitor handlers filter).walk (.mk kind children) state).1 =
      ((visitor handlers filter).walk (.mk kind kept) state').1 := by
  have hinOrder := h.inOrder hstate
  have hsectioned : (sectioned (children.map (visitor handlers filter).child) state).1 =
      (sectioned (kept.map (visitor handlers filter).child) state').1 := by
    rw [sectioned_eq, sectioned_eq]
    exact congr_arg (fun b => Outline.allToXml (SectionBuilder.finish b)) (h.steps hstate {})
  have haround : ∀ (name : Text) (attributes : List (Text × Text)) (walk walk' : Walk (List Xml)),
      (walk state).1 = (walk' state').1 →
      (around name attributes walk state).1 = (around name attributes walk' state').1 :=
    fun name attributes _ _ heq =>
      congr_arg (fun content => [Xml.element name attributes content]) heq
  cases kind with
  | directive directive => rw [Visitor.walk_directive, Visitor.walk_directive]
  | page =>
      rw [Visitor.walk_mk _ _ _ (by simp), Visitor.walk_mk _ _ _ (by simp)]
      exact hsectioned
  | blockquote =>
      rw [Visitor.walk_mk _ _ _ (by simp), Visitor.walk_mk _ _ _ (by simp)]
      show (around _ _ (if anyHeading (children.map _) then _ else _) state).1 =
        (around _ _ (if anyHeading (kept.map _) then _ else _) state').1
      rw [hheading]
      refine haround _ _ _ _ ?_
      split
      · exact hsectioned
      · exact hinOrder
  | heading level =>
      rw [Visitor.walk_mk _ _ _ (by simp), Visitor.walk_mk _ _ _ (by simp)]
      exact congr_arg (fun title => [element "info".toList [element "title".toList title]]) hinOrder
  | cell header =>
      rw [Visitor.walk_mk _ _ _ (by simp), Visitor.walk_mk _ _ _ (by simp)]
      show (around _ (alignmentAttributes state.tableAlignment?) _ state).1 =
        (around _ (alignmentAttributes state'.tableAlignment?) _ state').1
      rw [hstate.tableAlignment?]
      exact haround _ _ _ _ hinOrder
  | paragraph | emphasis style | list ordered | listItem | table | row =>
      rw [Visitor.walk_mk _ _ _ (by simp), Visitor.walk_mk _ _ _ (by simp)]
      exact haround _ _ _ _ hinOrder
  | _ =>
      rw [Visitor.walk_mk _ _ _ (by simp), Visitor.walk_mk _ _ _ (by simp)]
      rfl

theorem alike_of_without {nodes kept : List Node} (h : Node.Without Directive.Other nodes kept) :
    Alike handlers filter nodes kept := by
  induction h with
  | nil => exact ⟨fun _ => rfl, fun _ _ => rfl⟩
  | @keep kind children keptChildren nodes kept hchildren _ ihchildren ih =>
      have hnode {state state' : Directives} (hstate : SameAlignment state state') :=
        ihchildren.walk (anyHeading_without handlers filter hchildren) kind hstate
      have hbehind {state state' : Directives} (hstate : SameAlignment state state') :=
        (threads_visitor handlers filter).sameAlignment_walk hchildren kind hstate
      refine ⟨fun hstate => ?_, fun hstate builder => ?_⟩
      · rw [List.map_cons, List.map_cons, Docbook.inOrder, Docbook.inOrder, Walk.inOrder_cons,
          Walk.inOrder_cons]
        exact congr_arg₂ (· ++ ·) (hnode hstate) (ih.inOrder (hbehind hstate))
      · have hout := hnode hstate
        rw [Visitor.walk, Visitor.walk] at hout
        rw [List.map_cons, List.map_cons, Docbook.steps, Docbook.steps, List.foldl_append,
          List.foldl_append, List.foldl_cons, List.foldl_cons, hout, Visitor.child_kind,
          Visitor.child_kind]
        exact ih.steps (hbehind hstate) _
  | @drop directive below nodes kept hother _ ih =>
      -- the directive puts nothing out, and adding nothing leaves a builder as it is
      have hwalk : ((visitor handlers filter).child (.mk (.directive directive) below)).walk =
          fun state => ([], state.apply directive) :=
        Visitor.walk_directive _ directive below
      refine ⟨fun hstate => ?_, fun hstate builder => ?_⟩
      · rw [List.map_cons, Docbook.inOrder, Walk.inOrder_cons, hwalk, List.nil_append]
        exact ih.inOrder (hstate.apply_other hother)
      · rw [List.map_cons, Docbook.steps, List.foldl_append, List.foldl_cons, hwalk,
          Visitor.child_kind]
        exact ih.steps (hstate.apply_other hother) builder

theorem article_without {kind : Kind} {children kept : List Node}
    (h : Node.Without Directive.Other children kept) (language : Text) :
    article language handlers filter (.mk kind kept) =
      article language handlers filter (.mk kind children) := by
  have hinitial : SameAlignment .initial .initial := rfl
  have hwalk := (alike_of_without h).walk (anyHeading_without handlers filter h) kind hinitial
  unfold article Visitor.run
  rw [hwalk]

end Without

end Docbook

end Creole
