import Creole.Block.Opener
import Creole.Inline.Parse

/-!
# Tables

Every line of a table is a row, cut into cells at its bars.  A bar behind an
escape, or inside a verbatim text, a link, an image or a macro use, separates no
cells.
-/

namespace Creole.Block

/-- The length of the part at the start of a row inside which no bar separates
cells: an escape with the character behind it, whatever that is, or a mark with
the text it encloses, if it is closed. -/
def shieldedLength? (s : Text) : Option Nat :=
  match Inline.Mark.of? s with
  | some .escape => some (min 2 s.length)
  | some mark =>
    match mark with
    | .verbatim | .image | .link | .call =>
      (Text.cut? mark.closing (s.drop mark.text.length)).map fun (body, _) => mark.reach body
    | _ => none
  | none => none

/-- Puts a text before the first of some pieces. -/
def prependPiece (s : Text) : List Text → List Text
  | [] => [s]
  | piece :: pieces => (s ++ piece) :: pieces

/-- The pieces between the bars that separate cells. -/
def pieces (s : Text) : List Text :=
  match s with
  | [] => [[]]
  | c :: cs =>
    match shieldedLength? (c :: cs) with
    | some n =>
      prependPiece ((c :: cs).take (max 1 n)) (pieces ((c :: cs).drop (max 1 n)))
    | none => if c = '|' then [] :: pieces cs else prependPiece [c] (pieces cs)
termination_by s.length
decreasing_by all_goals simp only [List.length_drop, List.length_cons]; omega

/-- The cells among some pieces: all of them, but the last only if it is not blank. -/
def dropBlankLast : List Text → List Text
  | [] => []
  | [last] => if Text.blank last then [] else [last]
  | piece :: next :: pieces => piece :: dropBlankLast (next :: pieces)

/-- The cells of a row.  A bar at its start is not needed, nor is one at its end. -/
def splitCells (row : Text) : List Text :=
  dropBlankLast (pieces ((Text.after? ['|'] row).getD row))

/-- The node of a cell; an equals sign at its start makes it a header. -/
def cellNode (page : PageRef) (cell : Text) : Node :=
  let cell := Text.trim cell
  match Text.after? ['='] cell with
  | some header => .mk (.cell true) (Inline.parse page (Text.trim header))
  | none => .mk (.cell false) (Inline.parse page cell)

/-- The node of a row. -/
def rowNode (page : PageRef) (line : Text) : Node :=
  .mk .row ((splitCells (Text.trim line)).map (cellNode page))

end Creole.Block
