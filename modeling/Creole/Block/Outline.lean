import Creole.Block.Opener
import Creole.Inline.Parse

/-!
# Lists

The lines of a list are items of some depth, each followed by the running text
that continues it.  `listNodes` nests items by their depth: the items deeper than
an item, as far as they follow it without a break, make up the lists inside it,
and items of one depth and kind are items of one list.
-/

namespace Creole.Block

/-- Lists nest at most this deep, and so do quotes. -/
def maxNesting : Nat := 32

/-- One item of a list. -/
structure Item where
  depth : Nat
  ordered : Bool
  text : Text
  deriving DecidableEq, Repr

/-- The item that a line begins.  Every mark adds to its depth, and so do every two
characters of white space before them; the last mark tells its kind. -/
def Item.of? (line : Text) : Option Item :=
  (splitItem? line).map fun (indent, marks, text) =>
    { depth := min (marks.length + indent.length / 2) maxNesting
      ordered := marks.getLast? = some '#'
      text }

/-- An item continued by lines of running text. -/
def Item.extend (item : Item) (more : List Text) : Item :=
  { item with text := item.text ++ more.flatMap fun line => '\n' :: Text.trim line }

/-! ## The lines of a list -/

/-- The lines that continue an item, and the rest: they end at a blank line, at
another item and at the start of another block. -/
def continuation (quotable : Bool) : List Text → List Text × List Text
  | [] => ([], [])
  | line :: rest =>
    if Text.blank line || (splitItem? line).isSome || opens quotable line rest then
      ([], line :: rest)
    else
      let (more, rest) := continuation quotable rest
      (line :: more, rest)

theorem length_continuation_le (quotable : Bool) (ls : List Text) :
    (continuation quotable ls).2.length ≤ ls.length := by
  fun_induction continuation quotable ls with
  | case1 => simp
  | case2 => simp
  | case3 line rest _ more rest' hmore ih => simp_all; omega

/-- The items at the start of some lines, and the lines behind the list. -/
def items (quotable : Bool) (ls : List Text) : List Item × List Text :=
  match ls with
  | [] => ([], [])
  | line :: rest =>
    match Item.of? line with
    | none => ([], line :: rest)
    | some item =>
      let following := continuation quotable rest
      let (more, behind) := items quotable following.2
      (item.extend following.1 :: more, behind)
termination_by ls.length
decreasing_by
  have := length_continuation_le quotable rest
  simp only [List.length_cons]
  omega

theorem length_items_le (quotable : Bool) (ls : List Text) :
    (items quotable ls).2.length ≤ ls.length := by
  fun_induction items quotable ls with
  | case1 => simp
  | case2 => simp
  | case3 line rest item _ following more behind hitems ih =>
    have hfollowing : following.2.length ≤ rest.length := length_continuation_le quotable rest
    simp_all only [List.length_cons]
    omega

/-! ## Nesting -/

/-- Whether an item belongs to the list that `first` begins, in it or below it. -/
def Item.within (first item : Item) : Bool :=
  first.depth < item.depth || (first.depth == item.depth && first.ordered == item.ordered)

mutual

/-- The lists of items in a row. -/
def listNodes (page : PageRef) (is : List Item) : List Node :=
  match is with
  | [] => []
  | first :: rest =>
    .mk (.list first.ordered) (itemNodes page first (rest.takeWhile first.within)) ::
      listNodes page (rest.dropWhile first.within)
termination_by 2 * is.length
decreasing_by
  · have := (List.takeWhile_sublist first.within (l := rest)).length_le
    simp only [List.length_cons]
    omega
  · have := (List.dropWhile_sublist first.within (l := rest)).length_le
    simp only [List.length_cons]
    omega

/-- The items of one list: `first`, with what is nested in it, and those behind. -/
def itemNodes (page : PageRef) (first : Item) (rest : List Item) : List Node :=
  .mk .listItem
      (Inline.parse page (Text.trim first.text) ++
        listNodes page (rest.takeWhile (first.depth < ·.depth))) ::
    match _ : rest.dropWhile (first.depth < ·.depth) with
    | [] => []
    | next :: more => itemNodes page next more
termination_by 2 * rest.length + 1
decreasing_by
  · have := (List.takeWhile_sublist (fun item : Item => decide (first.depth < item.depth))
      (l := rest)).length_le
    omega
  · have := (List.dropWhile_sublist (fun item : Item => decide (first.depth < item.depth))
      (l := rest)).length_le
    simp_all only [List.length_cons]
    omega

end

end Creole.Block
