import Creole.Proofs.Block.Cells
import Creole.Proofs.Block.Openers
import Creole.Proofs.Text.Lines

/-!
# Tables keep their cells

A table is written with a line for each row, and in it a bar in front of the first cell and behind
every cell.  If printed nodes are written in the cells, it is read with the same cells in the same
rows (`parse_tableMarkup`): a bar inside a link, an image, a macro use, a verbatim text or behind
an escape does not end the cell.

A bar inside code in a language does, although the code would be read as a whole in running text
(`not_parse_tableMarkup_sampleCode`).  So the theorem asks of code that it is kept together.
-/

namespace Creole.Block

open List Text

/-- A cell to be written: whether it is a header, and the nodes in it. -/
structure Cell where
  header : Bool
  nodes : List Node

namespace Cell

/-- What is written in the cell. -/
def content (cell : Cell) : Text := cell.nodes.flatMap Inline.print

/-- The markup of the cell, an equals sign in front of the content if it is a header. -/
def markup (cell : Cell) : Text := if cell.header then '=' :: cell.content else cell.content

/-- The node that the cell is read as. -/
def node (page : PageRef) (cell : Cell) : Node :=
  .mk (.cell cell.header) (Inline.parse page cell.content)

/-- Whether the row keeps all code in the cell together. -/
def keepsCode (cell : Cell) : Bool := cell.nodes.all fun node => node.kinds.all keeps

/-- A cell that fits on a line: its nodes are printable, and their markup has no line feed in it
and no white space around it. -/
structure Fits (page : PageRef) (cell : Cell) : Prop where
  printable : ∀ node ∈ cell.nodes, Inline.Printable page node
  lineFeed : '\n' ∉ cell.content
  trim : trim cell.content = cell.content

end Cell

/-- The line of a row. -/
def rowMarkup (cells : List Cell) : Text := '|' :: (cells.map Cell.markup).flatMap (· ++ ['|'])

/-- The lines of a table. -/
def tableMarkup (rows : List (List Cell)) : Text := unlines (rows.map rowMarkup)

/-- The node of a table. -/
def tableNode (page : PageRef) (rows : List (List Cell)) : Node :=
  .mk .table (rows.map fun cells => .mk .row (cells.map (Cell.node page)))

variable {page : PageRef} {cell : Cell} {cells : List Cell} {content tail : Text}

/-! ### Cells -/

theorem cellNode_header (page : PageRef) (h : trim content = content) :
    cellNode page ('=' :: content) = .mk (.cell true) (Inline.parse page content) := by
  have hstart : trimStart ('=' :: content) = '=' :: content := rfl
  have hafter : after? ['='] ('=' :: content) = some content := after?_append ['='] content
  have htrim : trim ('=' :: content) = '=' :: content := by
    rw [trim_of_trimStart hstart, trimEnd_of_trim h]
  simp only [cellNode, htrim, hafter, h]

theorem cellNode_data (page : PageRef) (h : trim content = content)
    (hhead : content.head? ≠ some '=') :
    cellNode page content = .mk (.cell false) (Inline.parse page content) := by
  have hafter : after? ['='] content = none := by
    cases content with
    | nil => rfl
    | cons c content =>
        have hc : c ≠ '=' := by simpa using hhead
        simp [after?, hc.symm]
  simp only [cellNode, h, hafter]

/-- A cell is read with the content that was written, and as a header just if it was written as
one, since no content begins with an equals sign. -/
theorem Cell.Fits.cellNode_markup (h : cell.Fits page) :
    cellNode page cell.markup = cell.node page := by
  have hhead : cell.content.head? ≠ some '=' :=
    Inline.head?_flatMap_ne fun node hnode =>
      Inline.head?_print_ne (h.printable node hnode) (by decide) (by decide)
  rw [markup, node]
  cases cell.header with
  | true => exact cellNode_header page h.trim
  | false => exact cellNode_data page h.trim hhead

theorem Cell.Fits.passed (h : cell.Fits page) (hkeeps : cell.keepsCode = true)
    (htail : Inline.Unbraced tail) : Passed cell.markup tail := by
  simp only [keepsCode, all_eq_true] at hkeeps
  have hcontent : Passed cell.content tail :=
    sequential_passed.flatMap (fun node hnode => Inline.unbraced_print (h.printable node hnode))
      (fun node hnode _ => passed_print (h.printable node hnode) (hkeeps node hnode)) htail
  have hequals : Passed ['='] (cell.content ++ tail) :=
    passed_of_inert (forall_mem_singleton.mpr ⟨by decide, by decide⟩)
  rw [markup]
  split
  · exact sequential_passed.append hequals hcontent
  · exact hcontent

/-! ### Rows -/

/-- A row begins and ends with a bar. -/
theorem exists_rowMarkup (cells : List Cell) : ∃ front, rowMarkup cells = front ++ ['|'] := by
  rcases eq_nil_or_concat cells with rfl | ⟨front, last, rfl⟩
  · exact ⟨[], rfl⟩
  · exact ⟨'|' :: ((front.map Cell.markup).flatMap (· ++ ['|']) ++ last.markup),
      by simp [rowMarkup]⟩

theorem trimStart_rowMarkup (cells : List Cell) :
    trimStart (rowMarkup cells) = rowMarkup cells := rfl

theorem trim_rowMarkup (cells : List Cell) : trim (rowMarkup cells) = rowMarkup cells := by
  obtain ⟨front, hfront⟩ := exists_rowMarkup cells
  have hbar : isBlank '|' = false := by decide
  rw [trim, trimStart_rowMarkup, hfront, trimEnd, dropTrailing_append_cons hbar]
  rfl

theorem isRow_rowMarkup (cells : List Cell) : isRow (rowMarkup cells) = true := by
  rw [isRow, trimStart_rowMarkup]
  exact Text.opens_append ['|'] _

theorem dropReturn_rowMarkup (cells : List Cell) :
    dropReturn (rowMarkup cells) = rowMarkup cells := by
  obtain ⟨front, hfront⟩ := exists_rowMarkup cells
  simp [dropReturn, hfront]

theorem lineFeed_notMem_rowMarkup (h : ∀ cell ∈ cells, cell.Fits page) :
    '\n' ∉ rowMarkup cells := by
  have hmarkup : ∀ cell ∈ cells, '\n' ∉ cell.markup := by
    intro cell hcell
    have hcontent := (h cell hcell).lineFeed
    rw [Cell.markup]
    split
    · simpa using hcontent
    · exact hcontent
  simpa [rowMarkup] using hmarkup

theorem rowNode_rowMarkup (hfits : ∀ cell ∈ cells, cell.Fits page)
    (hkeeps : ∀ cell ∈ cells, cell.keepsCode = true) :
    rowNode page (rowMarkup cells) = .mk .row (cells.map (Cell.node page)) := by
  have hunbraced (tail : Text) : Inline.Unbraced ('|' :: tail) := by simp [Inline.Unbraced]
  have hsplit : splitCells (rowMarkup cells) = cells.map Cell.markup := by
    refine splitCells_of_passed (forall_mem_map.mpr fun cell hcell tail => ?_)
    exact (hfits cell hcell).passed (hkeeps cell hcell) (hunbraced tail)
  have hcells : (cells.map Cell.markup).map (cellNode page) = cells.map (Cell.node page) := by
    rw [map_map]
    exact map_congr_left fun cell hcell => (hfits cell hcell).cellNode_markup
  rw [rowNode, trim_rowMarkup, hsplit, hcells]

/-! ### Tables -/

/-- Rows in a row are one table. -/
theorem parse_of_rows {ls : List Text} (hne : ls ≠ []) (hlines : lines (unlines ls) = ls)
    (h : ∀ line ∈ ls, isRow line = true) :
    parse page (unlines ls) = [.mk .table (ls.map (rowNode page))] := by
  obtain ⟨line, more, rfl⟩ := exists_cons_of_ne_nil hne
  rw [forall_mem_cons] at h
  have hblock : blockAt? page (some (parseTo page 31)) line more =
      some ([.mk .table ((line :: more).map (rowNode page))], []) := by
    simp only [blockAt?, opener_of_isRow h.1, takeWhile_eq_self_iff.mpr h.2,
      dropWhile_eq_nil_iff.mpr h.2]
  obtain ⟨rest, hstart⟩ := Text.opens_iff.mp h.1
  rw [parse_eq_blocksFrom, hlines, blocksFrom_of_whole (not_blank_of_trimStart hstart) hblock]

/-- A table is read with the cells that were written, if no code in them is cut. -/
theorem parse_tableMarkup (page : PageRef) {rows : List (List Cell)} (hne : rows ≠ [])
    (hfits : ∀ cells ∈ rows, ∀ cell ∈ cells, cell.Fits page)
    (hkeeps : ∀ cells ∈ rows, ∀ cell ∈ cells, cell.keepsCode = true) :
    parse page (tableMarkup rows) = [tableNode page rows] := by
  have hlines : lines (unlines (rows.map rowMarkup)) = rows.map rowMarkup := by
    refine lines_unlines (forall_mem_map.mpr fun cells hcells => ?_)
      (forall_mem_map.mpr fun cells _ => ⟨cons_ne_nil _ _, dropReturn_rowMarkup cells⟩)
    exact lineFeed_notMem_rowMarkup (hfits cells hcells)
  have hrows : (rows.map rowMarkup).map (rowNode page) =
      rows.map fun cells => .mk .row (cells.map (Cell.node page)) := by
    rw [map_map]
    exact map_congr_left fun cells hcells =>
      rowNode_rowMarkup (hfits cells hcells) (hkeeps cells hcells)
  rw [tableMarkup, parse_of_rows (by simpa using hne) hlines
    (forall_mem_map.mpr fun cells _ => isRow_rowMarkup cells), hrows, tableNode]

/-- Cells with bars in all that may hold one, an empty header, an empty cell and an empty row. -/
def sampleTable : List (List Cell) :=
  [[⟨true, [.text "a|b~".toList]⟩, ⟨true, []⟩],
    [⟨false, [.mk (.emphasis .bold)
        [.leaf (.link (Inline.linkTo .link (.onLocal []) "A".toList "t|u".toList)),
          .leaf (.inlineNowiki "|\x7d\x7d".toList)]]⟩, ⟨false, []⟩,
      ⟨false, [.leaf (.invocation { name := "m".toList, args := "x|y".toList }), .text " ".toList,
        .leaf (.inlineCode "a[[0|1]] ".toList (some "c".toList))]⟩], []]

theorem parse_tableMarkup_sampleTable :
    (sampleTable ≠ [] ∧
      (∀ cells ∈ sampleTable, ∀ cell ∈ cells, cell.Fits (.onLocal [])) ∧
      ∀ cells ∈ sampleTable, ∀ cell ∈ cells, cell.keepsCode = true) ∧
    tableMarkup sampleTable =
      ("|=~a~|~b~~|=|\n|**[[A|t|u]]\x7b\x7b\x7b|\x7d\x7d\x7d\x7d\x7d**||" ++
        "<<m:x|y>> [<c>]a[[0|1]] [</c>]|\n|").toList ∧
    parse (.onLocal []) (tableMarkup sampleTable) = [tableNode (.onLocal []) sampleTable] := by
  have hlines : ∀ cells ∈ sampleTable, ∀ cell ∈ cells,
      '\n' ∉ cell.content ∧ trim cell.content = cell.content := by decide +kernel
  have hprintable : ∀ cells ∈ sampleTable, ∀ cell ∈ cells, ∀ node ∈ cell.nodes,
      Inline.Printable (.onLocal []) node := by
    have hbold : Inline.Printable (.onLocal []) (.mk (.emphasis .bold)
        [.leaf (.link (Inline.linkTo .link (.onLocal []) "A".toList "t|u".toList)),
          .leaf (.inlineNowiki "|\x7d\x7d".toList)]) := by
      refine .emphasis (by decide) ?_ (by simp [Node.Separate, Node.leaf]) (by simp)
      simp only [forall_mem_cons]
      exact ⟨.leaf (.link ⟨by decide, by decide, by decide, by decide, by decide, by decide⟩),
        .leaf (.inlineNowiki (by decide)), by simp⟩
    simp only [sampleTable, forall_mem_cons, not_mem_nil, false_implies, implies_true, and_true,
      true_and]
    exact ⟨.leaf (.text (by decide)), hbold,
      .leaf (.invocation (by decide) (by decide) (by decide)), .leaf (.text (by decide)),
      .leaf (.inlineCode (by decide) (by decide) (by decide))⟩
  have hfits : ∀ cells ∈ sampleTable, ∀ cell ∈ cells, cell.Fits (.onLocal []) :=
    fun cells hcells cell hcell => ⟨hprintable cells hcells cell hcell,
      (hlines cells hcells cell hcell).1, (hlines cells hcells cell hcell).2⟩
  have hkeeps : ∀ cells ∈ sampleTable, ∀ cell ∈ cells, cell.keepsCode = true := by
    decide +kernel
  have hne : sampleTable ≠ [] := cons_ne_nil _ _
  exact ⟨⟨hne, hfits, hkeeps⟩, by decide +kernel,
    parse_tableMarkup (.onLocal []) hne hfits hkeeps⟩

/-- A cell of code with a bar in it. -/
def sampleCode : Cell := ⟨false, [.leaf (.inlineCode "a|b".toList (some "c".toList))]⟩

/-- A bar in code cuts the code, although the code is printable. -/
theorem not_parse_tableMarkup_sampleCode :
    sampleCode.Fits (.onLocal []) ∧
      tableMarkup [[sampleCode]] = "|[<c>]a|b[</c>]|".toList ∧
      tableNode (.onLocal []) [[sampleCode]] =
        .mk .table [.mk .row [.mk (.cell false) sampleCode.nodes]] ∧
      parse (.onLocal []) (tableMarkup [[sampleCode]]) ≠ [tableNode (.onLocal []) [[sampleCode]]] ∧
      parse (.onLocal []) (tableMarkup [[sampleCode]]) =
        [.mk .table [.mk .row [.mk (.cell false) [.text "[<c>]a".toList],
          .mk (.cell false) [.text "b[</c>]".toList]]]] := by
  refine ⟨⟨?_, by decide +kernel, by decide +kernel⟩, by decide +kernel⟩
  simpa [sampleCode] using .leaf (.inlineCode (by decide) (by decide) (by decide))

end Creole.Block
