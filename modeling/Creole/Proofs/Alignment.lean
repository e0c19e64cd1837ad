import Creole.Proofs.Docbook.Cells
import Creole.Proofs.Html.Cells

/-!
# HTML and Docbook align cells alike

Both renderers walk through a document with the directives that are in force, but not in
the same way: one of them puts what it writes into sections.  Their cells are the same
all the same, one for one and with the same alignment, which is that of the last
directive of table alignment before the cell (`alignment_in_force`).
-/

namespace Creole

/-- The cells that HTML and Docbook write are those of the document, in document order.
A cell is aligned if and only if the last directive of table alignment before it switches
the alignment on and has a first argument that is not empty, and then as that argument
says.  So both outputs stay the same without any directives of other names. -/
theorem alignment_in_force (cssClass language : Text) (handlers : Handlers) (filter : UrlFilter)
    (root : Node) :
    Html.Written (escape cssClass) handlers filter [root]
        (Html.render cssClass handlers filter root) root.cells ∧
      (Docbook.article language handlers filter root).toXml.cells = root.cells ∧
      root.cells.map Prod.fst = root.events.filterMap Event.header? ∧
      (∀ before header behind, root.events = before ++ .cell header :: behind →
        ∃ alignment,
          root.cells[(before.filterMap Event.header?).length]? = some (header, alignment) ∧
          ∀ value, alignment = some value ↔
            ∃ d, Event.lastAlignment? before = some d ∧ d.enabled = true ∧
              d.args.head? = some value ∧ value ≠ []) ∧
      ∀ kept, Node.Without Directive.Other root.children kept →
        Html.render cssClass handlers filter (root.withChildren kept) =
            Html.render cssClass handlers filter root ∧
          Docbook.article language handlers filter (root.withChildren kept) =
            Docbook.article language handlers filter root := by
  refine ⟨Html.written_render cssClass handlers filter root,
    Docbook.cells_article handlers filter language root, Event.map_fst_cells [] root.events,
    fun before header behind hevents => ?_, fun kept hkept => ?_⟩
  · refine ⟨Event.alignmentBehind before, ?_, fun value => Event.alignmentBehind_eq_some_iff⟩
    rw [Node.cells, hevents]
    exact Event.getElem?_cells [] before header behind
  · obtain ⟨kind, children⟩ := root
    exact ⟨Html.render_without hkept cssClass, Docbook.article_without hkept language⟩

/-! ### An example -/

/-- A directive of table alignment. -/
def sampleAlignment (enabled : Bool) (args : List Text) : Directive :=
  { name := Directives.tableAlignmentName, enabled, args }

/-- A table with a table in its last cell, before which the alignment is switched off, and
a directive of another name before the whole.  The alignment is to be escaped in HTML. -/
def sampleTable : Node :=
  .mk .page
    [.leaf (.directive { name := "toc".toList }),
      .leaf (.directive (sampleAlignment true ["'top'".toList])),
      .mk .table
        [.mk .row
          [.mk (.cell true) [.text "a".toList],
            .mk (.cell false)
              [.leaf (.directive (sampleAlignment false [])),
                .mk .table [.mk .row [.mk (.cell false) []]]]]]]

theorem alignment_in_force_sampleTable :
    sampleTable.events =
        [.directive { name := "toc".toList },
          .directive (sampleAlignment true ["'top'".toList]), .cell true] ++
        .cell false :: [.directive (sampleAlignment false []), .cell false] ∧
      (∃ alignment, sampleTable.cells[1]? = some (false, alignment) ∧
        ∀ value, alignment = some value ↔
          ∃ d, Event.lastAlignment?
              [.directive { name := "toc".toList },
                .directive (sampleAlignment true ["'top'".toList]), .cell true] = some d ∧
            d.enabled = true ∧ d.args.head? = some value ∧ value ≠ []) ∧
      Node.Without Directive.Other sampleTable.children sampleTable.children.tail ∧
      Html.render "c".toList Docbook.failingHandlers id (.mk .page sampleTable.children.tail) =
        Html.render "c".toList Docbook.failingHandlers id sampleTable ∧
      Html.render "c".toList Docbook.failingHandlers id sampleTable =
        ("<table class='c'><tr class='c'>".toList ++
          "<th class='c' style='vertical-align:&#x27;top&#x27;'>a</th>".toList ++
          "<td class='c' style='vertical-align:&#x27;top&#x27;'>".toList ++
          "<table class='c'><tr class='c'><td class='c'></td></tr></table>".toList ++
          "</td></tr></table>".toList) ∧
      (Docbook.article "en".toList Docbook.failingHandlers id sampleTable).toXml.cells =
        [(true, some "'top'".toList), (false, some "'top'".toList), (false, none)] := by
  obtain ⟨-, harticle, -, hcell, hwithout⟩ :=
    alignment_in_force "c".toList "en".toList Docbook.failingHandlers id sampleTable
  have hevents : sampleTable.events =
      [.directive { name := "toc".toList },
        .directive (sampleAlignment true ["'top'".toList]), .cell true] ++
      .cell false :: [.directive (sampleAlignment false []), .cell false] := by decide
  have hother : Directive.Other { name := "toc".toList } :=
    show "toc".toList ≠ Directives.tableAlignmentName by decide
  have hkept : Node.Without Directive.Other sampleTable.children sampleTable.children.tail :=
    .drop hother (Node.Without.refl _ _)
  exact ⟨hevents, hcell _ _ _ hevents, hkept, (hwithout _ hkept).1, by decide +kernel,
    harticle.trans (by decide +kernel)⟩

end Creole
