import Creole.Block.Outline
import Creole.Block.Table

/-!
# Reading blocks

A page is read line by line.  A line that opens a block begins one, which takes as
many lines as it needs; all other lines are running text, gathered into paragraphs
that end at a blank line or at the next block.  What is quoted is read in the same
way, down to a fixed depth.

The main statement is `length_le_of_blockAt?`: a block takes its lines from the
front of those that follow it.
-/

namespace Creole.Block

/-! ## Fenced blocks -/

/-- The lines before the first that satisfies `closes`, and those behind it. -/
def untilClosed? (closes : Text → Bool) : List Text → Option (List Text × List Text)
  | [] => none
  | line :: rest =>
    if closes line then some ([], rest)
    else (untilClosed? closes rest).map fun (inside, behind) => (line :: inside, behind)

/-- A line inside braces without the white space that keeps it from closing them. -/
def unguard (line : Text) : Text :=
  if Text.trim line = Fence.closingBraces && line.head?.any isBlank then line.tail else line

/-- The node of the lines inside a fence. -/
def Fence.node (inside : List Text) : Fence → Node
  | nowiki => .leaf (.nowiki (Text.unlines ((Text.lines (Text.unlines inside)).map unguard)))
  | tag language => .leaf (.code (Text.unlines inside) (some language))
  | ticks language => .leaf (.code (Text.unlines inside) language)

/-! ## Paragraphs -/

/-- Whether a node is a text of white space. -/
def isBlankText (node : Node) : Bool :=
  match node.kind with
  | .text content _ => Text.blank content
  | _ => false

/-- Whether a node is a directive. -/
def isDirective (node : Node) : Bool :=
  match node.kind with
  | .directive _ => true
  | _ => false

/-- The nodes of a paragraph.  One that holds a single macro use, white space apart,
is that use as a block; one that holds directives only is those directives. -/
def paragraph (page : PageRef) (s : Text) : List Node :=
  let nodes := Inline.parse page s
  let significant := nodes.filter (!isBlankText ·)
  match significant.map Node.kind with
  | [.invocation call] => [.leaf (.invocation { call with block := true })]
  | _ =>
    if !significant.isEmpty && significant.all isDirective then significant
    else [.mk .paragraph nodes]

/-- The nodes of the lines of running text gathered so far, the last line first. -/
def flush (page : PageRef) (pending : List Text) : List Node :=
  if pending.isEmpty then [] else paragraph page (Text.trim (Text.unlines pending.reverse))

/-! ## Blocks -/

/-- A quoted line without the mark of the quote and one space behind it. -/
def unquote (line : Text) : Text :=
  match line with
  | '>' :: ' ' :: rest => rest
  | '>' :: rest => rest
  | _ => line

/-- The nodes of the block that a line opens before the given ones, and the lines
behind the block.  `quoted` reads what is quoted, where quotes may nest further. -/
def blockAt? (page : PageRef) (quoted : Option (Text → List Node)) (line : Text)
    (rest : List Text) : Option (List Node × List Text) :=
  match Opener.of? line with
  | none => none
  | some (.fence fence) =>
    (untilClosed? fence.closes rest).map fun (inside, behind) => ([fence.node inside], behind)
  | some (.heading level title) => some ([Node.heading level (Inline.parse page title)], rest)
  | some .rule => some ([.leaf .rule], rest)
  | some .row =>
    some ([.mk .table ((line :: rest.takeWhile isRow).map (rowNode page))], rest.dropWhile isRow)
  | some .quote =>
    quoted.map fun read =>
      let inside := Text.unlines ((line :: rest.takeWhile isQuoted).map unquote)
      ([.mk .blockquote (read inside)], rest.dropWhile isQuoted)
  | some .item =>
    let (found, behind) := items quoted.isSome (line :: rest)
    some (listNodes page found, behind)

theorem length_le_of_untilClosed? {closes : Text → Bool} {ls inside behind : List Text}
    (h : untilClosed? closes ls = some (inside, behind)) : behind.length ≤ ls.length := by
  fun_induction untilClosed? closes ls generalizing inside with
  | case1 => simp at h
  | case2 line rest _ => simp_all
  | case3 line rest _ ih =>
    obtain ⟨⟨inside', behind'⟩, hrest, heq⟩ := Option.map_eq_some_iff.1 h
    simp only [Prod.mk.injEq] at heq
    obtain ⟨-, rfl⟩ := heq
    exact Nat.le_succ_of_le (ih hrest)

/-- An item opens a list that takes at least the line of the item. -/
theorem length_items_le_of_opensList {quotable : Bool} {line : Text} {rest : List Text}
    (h : opensList line = true) : (items quotable (line :: rest)).2.length ≤ rest.length := by
  unfold opensList at h
  split at h
  · next indent marks text hsplit =>
    rw [items]
    have hitem : ∃ item, Item.of? line = some item := by simp [Item.of?, hsplit]
    obtain ⟨item, hitem⟩ := hitem
    simp only [hitem]
    exact Nat.le_trans (length_items_le _ _) (length_continuation_le _ _)
  · simp at h

theorem opensList_of_item {line : Text} (h : Opener.of? line = some .item) :
    opensList line = true := by
  unfold Opener.of? at h
  split at h
  · simp at h
  · split at h
    · simp at h
    · grind

theorem length_le_of_blockAt? {page : PageRef} {quoted : Option (Text → List Node)} {line : Text}
    {rest behind : List Text} {nodes : List Node}
    (h : blockAt? page quoted line rest = some (nodes, behind)) : behind.length ≤ rest.length := by
  unfold blockAt? at h
  split at h
  · simp at h
  · obtain ⟨⟨inside, behind'⟩, hclosed, heq⟩ := Option.map_eq_some_iff.1 h
    simp only [Prod.mk.injEq] at heq
    obtain ⟨-, rfl⟩ := heq
    exact length_le_of_untilClosed? hclosed
  · simp_all
  · simp_all
  · simp only [Option.some.injEq, Prod.mk.injEq] at h
    exact h.2 ▸ (List.dropWhile_sublist _).length_le
  · obtain ⟨read, _, heq⟩ := Option.map_eq_some_iff.1 h
    simp only [Prod.mk.injEq] at heq
    exact heq.2 ▸ (List.dropWhile_sublist _).length_le
  · next hitem =>
    simp only [Option.some.injEq, Prod.mk.injEq] at h
    exact h.2 ▸ length_items_le_of_opensList (opensList_of_item hitem)

/-! ## Pages -/

/-- The nodes of some lines, behind running text that is still to be put out. -/
def blocksFrom (page : PageRef) (quoted : Option (Text → List Node)) (pending ls : List Text) :
    List Node :=
  match ls with
  | [] => flush page pending
  | line :: rest =>
    if Text.blank line then flush page pending ++ blocksFrom page quoted [] rest
    else
      match _ : blockAt? page quoted line rest with
      | some (nodes, behind) =>
        flush page pending ++ nodes ++ blocksFrom page quoted [] behind
      | none => blocksFrom page quoted (line :: pending) rest
termination_by ls.length
decreasing_by
  · simp
  · exact Nat.lt_succ_of_le (length_le_of_blockAt? (by assumption))
  · simp

/-- The blocks of a text in which quotes may nest to the given depth. -/
def parseTo (page : PageRef) : (depth : Nat) → Text → List Node
  | 0, s => blocksFrom page none [] (Text.lines s)
  | depth + 1, s => blocksFrom page (some (parseTo page depth)) [] (Text.lines s)

/-- The blocks of a text on a page. -/
def parse (page : PageRef) (s : Text) : List Node := parseTo page maxNesting s

end Creole.Block

namespace Creole

/-- The tree of the markup of a page. -/
def Node.ofMarkup (page : PageRef) (s : Text) : Node := .mk .page (Block.parse page s)

end Creole
