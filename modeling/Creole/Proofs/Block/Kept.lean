import Creole.Proofs.Block.Lists
import Creole.Proofs.Block.Takes
import Creole.Proofs.Inline.Kept

/-!
# A page keeps its text

Parsing invents, repeats and reorders nothing: the texts of the tree of a page are
found in its markup, in their order and without overlap (`plainText_ofMarkup_sublist`).

## Strategy

Every block is read from lines that stand together, and what it is made of is cut out
of them.  Where lines are taken from the front of others, one statement is about the
nodes together with the lines that are left: the text of the nodes, in front of the
lines left, is a sublist of all lines.  Such statements fit together when blocks are
read one behind the other (`blocksFrom_sublist`) and when items are gathered into a
list (`items_sublist`).  Quotes are covered by an induction on the depth to which
they may nest.
-/

namespace Creole.Block

open List Node

variable {page : PageRef}

/-! ### Tables -/

theorem flatten_prependPiece (s : Text) (ps : List Text) :
    (prependPiece s ps).flatten = s ++ ps.flatten := by
  cases ps <;> simp [prependPiece]

theorem flatten_pieces_sublist (s : Text) : (pieces s).flatten <+ s := by
  fun_induction pieces s with
  | case1 => exact Sublist.refl _
  | case2 c cs n _ ih =>
      rw [flatten_prependPiece]
      calc (c :: cs).take (max 1 n) ++ (pieces ((c :: cs).drop (max 1 n))).flatten
          <+ (c :: cs).take (max 1 n) ++ (c :: cs).drop (max 1 n) := ih.append_left _
        _ = c :: cs := take_append_drop _ _
  | case3 cs _ ih => exact ih.cons '|'
  | case4 c cs _ _ ih =>
      rw [flatten_prependPiece]
      exact ih.append_left [c]

theorem dropBlankLast_sublist (ps : List Text) : dropBlankLast ps <+ ps := by
  fun_induction dropBlankLast ps with
  | case1 => exact Sublist.refl _
  | case2 => exact nil_sublist _
  | case3 => exact Sublist.refl _
  | case4 piece next ps ih => exact ih.cons_cons piece

theorem flatten_splitCells_sublist (row : Text) : (splitCells row).flatten <+ row := by
  have hbar : (Text.after? ['|'] row).getD row <+ row := by
    cases h : Text.after? ['|'] row with
    | none => exact Sublist.refl _
    | some rest => exact Text.sublist_of_after? h
  exact (dropBlankLast_sublist _).flatten.trans ((flatten_pieces_sublist _).trans hbar)

theorem cellNode_sublist (cell : Text) : (cellNode page cell).plainText <+ cell := by
  have hcell := Text.trim_sublist cell
  unfold cellNode
  simp only
  split
  · next header hheader =>
    have hinside : Text.trim header <+ cell :=
      (Text.trim_sublist header).trans ((Text.sublist_of_after? hheader).trans hcell)
    rw [plainText_mk]
    exact (Inline.parse_sublist page _).trans hinside
  · rw [plainText_mk]
    exact (Inline.parse_sublist page _).trans hcell

theorem rowNode_sublist (line : Text) : (rowNode page line).plainText <+ line := by
  rw [rowNode, plainText_mk, flatMap_map]
  calc (splitCells (Text.trim line)).flatMap (fun cell => (cellNode page cell).plainText)
      <+ (splitCells (Text.trim line)).flatMap id :=
        Sublist.flatMap_right _ fun cell _ => cellNode_sublist cell
    _ = (splitCells (Text.trim line)).flatten := flatMap_id
    _ <+ Text.trim line := flatten_splitCells_sublist _
    _ <+ line := Text.trim_sublist line

theorem rows_sublist (ls : List Text) :
    (ls.map (rowNode page)).flatMap plainText <+ Text.unlines ls := by
  rw [flatMap_map]
  calc ls.flatMap (fun line => (rowNode page line).plainText)
      <+ ls.flatMap id := Sublist.flatMap_right ls fun line _ => rowNode_sublist line
    _ = ls.flatten := flatMap_id
    _ <+ Text.unlines ls := Text.flatten_sublist_unlines ls

/-! ### Lists -/

theorem splitItem?_sublist {line indent marks text : Text}
    (h : splitItem? line = some (indent, marks, text)) : text <+ line := by
  unfold splitItem? at h
  simp only at h
  split at h
  · simp at h
  · simp only [Option.some.injEq, Prod.mk.injEq] at h
    obtain ⟨-, -, rfl⟩ := h
    exact (Text.trimStart_sublist _).trans ((drop_sublist _ _).trans (Text.trimStart_sublist line))

theorem text_sublist_of_item {line : Text} {item : Item} (h : Item.of? line = some item) :
    item.text <+ line := by
  obtain ⟨⟨indent, marks, text⟩, hsplit, rfl⟩ := Option.map_eq_some_iff.mp h
  exact splitItem?_sublist hsplit

theorem text_extend_sublist (item : Item) (more : List Text) :
    (item.extend more).text <+ Text.unlines (item.text :: more) := by
  rw [Text.unlines_cons]
  have hmore : (more.flatMap fun line => '\n' :: Text.trim line) <+ more.flatMap ('\n' :: ·) :=
    Sublist.flatMap_right more fun line _ => (Text.trim_sublist line).cons_cons '\n'
  exact hmore.append_left item.text

/-- The items of a list, in front of the lines behind it, keep the text of all lines. -/
theorem items_sublist (quotable : Bool) (ls : List Text) :
    (items quotable ls).1.flatMap Item.text ++ Text.unlines (items quotable ls).2 <+
      Text.unlines ls := by
  fun_induction items quotable ls with
  | case1 => exact Sublist.refl _
  | case2 => exact Sublist.refl _
  | case3 line rest item hitem following more behind hitems ih =>
      rw [hitems] at ih
      have hline : Text.unlines (item.text :: following.1) <+
          Text.unlines (line :: following.1) := by
        rw [Text.unlines_cons, Text.unlines_cons]
        exact (text_sublist_of_item hitem).append_right _
      have hrest : following.1 ++ following.2 = rest := continuation_append quotable rest
      calc (item.extend following.1 :: more).flatMap Item.text ++ Text.unlines behind
          = (item.extend following.1).text ++ (more.flatMap Item.text ++ Text.unlines behind) := by
            rw [flatMap_cons, append_assoc]
        _ <+ Text.unlines (line :: following.1) ++ Text.unlines following.2 :=
          ((text_extend_sublist item _).trans hline).append ih
        _ <+ Text.unlines (line :: following.1 ++ following.2) := Text.unlines_append_sublist _ _
        _ = Text.unlines (line :: rest) := by rw [cons_append, hrest]

theorem itemNode_sublist {nested : List Node} {deeper : List Item} (item : Item)
    (h : nested.flatMap plainText <+ deeper.flatMap Item.text) :
    (itemNode page item nested).plainText <+ item.text ++ deeper.flatMap Item.text := by
  rw [itemNode, plainText_mk, flatMap_append]
  exact ((Inline.parse_sublist page _).trans (Text.trim_sublist item.text)).append h

/-- Nesting items leaves their texts in order: what is nested in an item follows it. -/
theorem listNodes_sublist (is : List Item) :
    (listNodes page is).flatMap plainText <+ is.flatMap Item.text := by
  refine @listNodes_induction page
    (fun is nodes => nodes.flatMap plainText <+ is.flatMap Item.text)
    (fun first rest nodes => nodes.flatMap plainText <+ first.text ++ rest.flatMap Item.text)
    ?_ ?_ ?_ ?_ is
  · exact Sublist.refl _
  · intro first same behind below nodes hmembers hbehind
    rw [flatMap_cons, plainText_mk, flatMap_cons, flatMap_append, ← append_assoc]
    exact hmembers.append hbehind
  · intro item deeper nested _ hnested
    rw [flatMap_singleton]
    exact itemNode_sublist item hnested
  · intro item deeper next more nested nodes _ hnested hnext
    rw [flatMap_cons, flatMap_append, flatMap_cons, ← append_assoc]
    exact (itemNode_sublist item hnested).append hnext

/-! ### Blocks -/

theorem unguard_sublist (line : Text) : unguard line <+ line := by
  unfold unguard
  split
  · exact tail_sublist line
  · exact Sublist.refl line

theorem unquote_sublist (line : Text) : unquote line <+ line := by
  unfold unquote
  split
  · next rest => exact (sublist_cons_self ' ' rest).cons '>'
  · next rest _ => exact sublist_cons_self '>' rest
  · exact Sublist.refl line

theorem fenceNode_sublist (fence : Fence) (inside : List Text) :
    (fence.node inside).plainText <+ Text.unlines inside := by
  have hcode : ∀ language,
      (Node.leaf (.code (Text.unlines inside) language)).plainText = Text.unlines inside := by
    simp [leaf, Kind.content?]
  cases fence with
  | nowiki =>
      simp only [Fence.node, leaf, plainText_mk, Kind.content?, Option.getD_some, flatMap_nil,
        append_nil]
      calc Text.unlines ((Text.lines (Text.unlines inside)).map unguard)
          <+ Text.unlines (Text.lines (Text.unlines inside)) :=
            Text.unlines_map_sublist unguard_sublist _
        _ <+ Text.unlines inside := Text.unlines_lines_sublist _
  | tag language =>
      rw [Fence.node, hcode]
  | ticks language =>
      rw [Fence.node, hcode]

theorem heading?_sublist {line title : Text} {level : Nat}
    (h : heading? line = some (level, title)) : title <+ line := by
  unfold heading? at h
  simp only at h
  split at h
  · simp at h
  · simp only [Option.some.injEq, Prod.mk.injEq] at h
    obtain ⟨-, rfl⟩ := h
    calc Text.trimEnd (Text.dropTrailing (· = '=') (Text.trimEnd (Text.trimStart
            ((Text.trimStart line).drop _))))
        <+ Text.trimStart ((Text.trimStart line).drop _) :=
          (Text.trimEnd_sublist _).trans
            ((Text.dropTrailing_sublist _ _).trans (Text.trimEnd_sublist _))
      _ <+ (Text.trimStart line).drop _ := Text.trimStart_sublist _
      _ <+ line := (drop_sublist _ _).trans (Text.trimStart_sublist line)

/-- What a block is made of, in front of the lines behind the block, keeps the text of
all lines. -/
theorem takes_sublist {quoted : Option (Text → List Node)} {line : Text}
    {rest behind : List Text} {nodes : List Node}
    (hquoted : ∀ read, quoted = some read → ∀ s, (read s).flatMap plainText <+ s)
    (h : Takes page quoted line rest nodes behind) :
    nodes.flatMap plainText ++ Text.unlines behind <+ Text.unlines (line :: rest) := by
  have hfront (ls : List Text) (hnodes : nodes.flatMap plainText <+ Text.unlines ls)
      (hlines : ls ++ behind <+ line :: rest) :
      nodes.flatMap plainText ++ Text.unlines behind <+ Text.unlines (line :: rest) :=
    (hnodes.append_right _).trans
      ((Text.unlines_append_sublist ls behind).trans (Text.unlines_sublist hlines))
  -- each block is made of some of the first lines, and leaves the lines behind these
  cases h with
  | @fence inside _ close fence hrest =>
      subst hrest
      refine hfront inside ?_ (((sublist_cons_self close behind).append_left inside).cons line)
      rw [flatMap_singleton]
      exact fenceNode_sublist fence inside
  | @heading level title hheading =>
      refine hfront [line] ?_ (Sublist.refl _)
      rw [flatMap_singleton, Node.heading, plainText_mk, Text.unlines_cons, flatMap_nil,
        append_nil]
      exact (Inline.parse_sublist page title).trans (heading?_sublist hheading)
  | rule => exact hfront [] (nil_sublist _) (sublist_cons_self line _)
  | @table rows _ hrest =>
      subst hrest
      refine hfront (line :: rows) ?_ (Sublist.refl _)
      rw [flatMap_singleton, plainText_mk]
      exact rows_sublist (line :: rows)
  | @quote inside _ read hread hrest =>
      subst hrest
      refine hfront (line :: inside) ?_ (Sublist.refl _)
      rw [flatMap_singleton, plainText_mk]
      exact (hquoted read hread _).trans (Text.unlines_map_sublist unquote_sublist _)
  | lists => exact ((listNodes_sublist _).append_right _).trans (items_sublist _ _)

/-! ### Paragraphs -/

theorem paragraph_sublist (s : Text) : (paragraph page s).flatMap plainText <+ s := by
  have hparse := Inline.parse_sublist page s
  unfold paragraph
  simp only
  split
  · simp [leaf, Kind.content?]
  · split
    · exact (filter_sublist.flatMap _).trans hparse
    · simpa [Kind.content?] using hparse

theorem flush_sublist (pending : List Text) :
    (flush page pending).flatMap plainText <+ Text.unlines pending.reverse := by
  unfold flush
  split
  · exact nil_sublist _
  · exact (paragraph_sublist _).trans (Text.trim_sublist _)

/-! ### Pages -/

theorem blocksFrom_sublist {quoted : Option (Text → List Node)}
    (hquoted : ∀ read, quoted = some read → ∀ s, (read s).flatMap plainText <+ s)
    (pending ls : List Text) :
    (blocksFrom page quoted pending ls).flatMap plainText <+
      Text.unlines (pending.reverse ++ ls) := by
  fun_induction blocksFrom page quoted pending ls with
  | case1 pending =>
      rw [append_nil]
      exact flush_sublist pending
  | case2 pending line rest _ ih =>
      rw [flatMap_append]
      calc (flush page pending).flatMap plainText ++
              (blocksFrom page quoted [] rest).flatMap plainText
          <+ Text.unlines pending.reverse ++ Text.unlines rest := (flush_sublist pending).append ih
        _ <+ Text.unlines (pending.reverse ++ rest) := Text.unlines_append_sublist _ _
        _ <+ Text.unlines (pending.reverse ++ line :: rest) :=
          Text.unlines_sublist ((sublist_cons_self line rest).append_left _)
  | case3 pending line rest _ nodes behind hblock ih =>
      rw [append_assoc, flatMap_append, flatMap_append]
      have hnodes := (ih.append_left _).trans (takes_sublist hquoted (takes_of_blockAt? hblock))
      exact ((flush_sublist pending).append hnodes).trans (Text.unlines_append_sublist _ _)
  | case4 pending line rest _ _ ih => simpa using ih

theorem parseTo_sublist (page : PageRef) (depth : Nat) (s : Text) :
    (parseTo page depth s).flatMap plainText <+ s := by
  induction depth generalizing s with
  | zero =>
      exact (blocksFrom_sublist (by simp) [] _).trans (Text.unlines_lines_sublist s)
  | succ depth ih =>
      refine (blocksFrom_sublist ?_ [] _).trans (Text.unlines_lines_sublist s)
      intro read hread
      obtain rfl : parseTo page depth = read := by simpa using hread
      exact ih

end Creole.Block

namespace Creole

/-- Parsing invents, repeats and reorders nothing: the text of the tree of a page is
found in its markup, character by character and in order. -/
theorem Node.plainText_ofMarkup_sublist (page : PageRef) (s : Text) :
    List.Sublist (Node.ofMarkup page s).plainText s := by
  rw [Node.ofMarkup, plainText_mk]
  exact Block.parseTo_sublist page Block.maxNesting s

end Creole
