import Creole.Proofs.Block.Lists
import Creole.Proofs.Block.Takes
import Creole.Proofs.Inline.Shape

/-!
# The shape of a page

The tree of every page is well shaped: each node has children that it may have, and
quotes and lists nest no deeper than they may (`wellShaped_ofMarkup`).

## Strategy

`Stands depth` says of a node that it can stand on a page, with quotes nested at most
`depth` deep in it.  Blocks without quotes and lists stand at any depth once their own
shape is known (`stands_of_rank`), which leaves two inductions for the nesting.  Lists
are nested by depths that grow from item to item within it, up to the largest
depth an item can have (`nested_listNodes`); quotes are read by readers that each allow
one level less (`stands_parseTo`).
-/

namespace Creole.Block

open Node

variable {page : PageRef} {depth : Nat}

/-- A node that can stand on a page, with quotes nested at most `depth` deep in it. -/
structure Stands (depth : Nat) (node : Node) : Prop where
  block : node.kind.isBlock = true
  shaped : node.Everywhere Shaped
  quotes : Nested Kind.isQuote depth node
  lists : Nested Kind.isList maxNesting node

theorem stands_of_rank {node : Node} (hblock : node.kind.isBlock = true)
    (hshaped : node.Everywhere Shaped) (hrank : node.kind.rank = 0) : Stands depth node where
  block := hblock
  shaped := hshaped
  quotes := (nested_isQuote hshaped (hrank ▸ Nat.zero_le 1)).mono (Nat.zero_le depth)
  lists := (nested_isList hshaped hrank).mono (Nat.zero_le maxNesting)

theorem stands_leaf {kind : Kind} (hblock : kind.isBlock = true) (hholds : kind.Holds [])
    (hrank : kind.rank = 0) : Stands depth (leaf kind) :=
  @stands_of_rank depth (leaf kind) hblock (shaped_leaf hholds) hrank

/-- Nodes in a line are well shaped below a kind that may have them. -/
theorem shaped_of_line {kind : Kind} {nodes : List Node} (hline : Inline.Line nodes)
    (hholds : kind.Holds nodes) : (mk kind nodes).Everywhere Shaped :=
  .mk ⟨hholds, hline.apart⟩ hline.shaped

/-- Nodes without a text among them are well shaped below a kind that may have them. -/
theorem shaped_of_no_text {kind : Kind} {nodes : List Node}
    (hshaped : ∀ node ∈ nodes, node.Everywhere Shaped)
    (htext : ∀ node ∈ nodes, node.kind.isText = false) (hholds : kind.Holds nodes) :
    (mk kind nodes).Everywhere Shaped :=
  .mk ⟨hholds, isChain_apart htext⟩ hshaped

/-! ### Paragraphs -/

theorem stands_directive {node : Node} (hshaped : node.Everywhere Shaped)
    (h : isDirective node = true) : Stands depth node := by
  obtain ⟨kind, children⟩ := node
  cases kind with
  | directive directive => exact stands_of_rank rfl hshaped rfl
  | _ => cases h

theorem exists_not_directive {nodes : List Node} (hne : nodes ≠ [])
    (h : ¬ (!nodes.isEmpty && nodes.all isDirective) = true) :
    ∃ node ∈ nodes, isDirective node = false := by
  simpa [hne] using h

/-- What comes of running text that begins with a visible character. -/
theorem stands_paragraph {c : Char} (hc : isBlank c = false) (cs : Text) :
    ∀ node ∈ paragraph page (c :: cs), Stands depth node := by
  have hline := Inline.line_nodesFrom page none (c :: cs)
  obtain ⟨visible, hvisible, hblank⟩ := Inline.exists_not_blank hc page none cs
  intro node hnode
  simp only [paragraph] at hnode
  split at hnode
  · next call _ =>
    obtain rfl : node = leaf (.invocation { call with block := true }) := by simpa using hnode
    exact stands_leaf rfl rfl rfl
  · next hcall =>
    split at hnode
    · next hdirectives =>
      rw [Bool.and_eq_true, List.all_eq_true] at hdirectives
      exact stands_directive (hline.shaped node (List.mem_of_mem_filter hnode))
        (hdirectives.2 node hnode)
    · next hdirectives =>
      obtain rfl : node = .mk .paragraph (Inline.parse page (c :: cs)) := by simpa using hnode
      have hsignificant : visible ∈ significant (Inline.parse page (c :: cs)) :=
        List.mem_filter.mpr ⟨hvisible, by simp [hblank]⟩
      have hprose : Prose (Inline.parse page (c :: cs)) :=
        ⟨List.ne_nil_of_mem hvisible, hline.inline, hcall,
          exists_not_directive (List.ne_nil_of_mem hsignificant) hdirectives⟩
      have hshaped : (mk .paragraph (Inline.parse page (c :: cs))).Everywhere Shaped :=
        shaped_of_line hline hprose
      exact stands_of_rank rfl hshaped rfl

theorem stands_flush {pending : List Text} (h : ∀ line ∈ pending, Text.blank line = false) :
    ∀ node ∈ flush page pending, Stands depth node := by
  unfold flush
  split
  · simp
  · next hpending =>
    -- every line has a visible character, so the text of all of them begins with one
    have hblank : Text.blank (Text.unlines pending.reverse) = false :=
      Text.not_blank_unlines (by simpa using hpending) (by simpa using h)
    obtain ⟨c, cs, htrim, hc⟩ := Text.exists_trim_eq_cons hblank
    rw [htrim]
    exact stands_paragraph hc cs

/-! ### Tables -/

theorem shaped_cell {nodes : List Node} (header : Bool) (h : Inline.Line nodes) :
    (mk (.cell header) nodes).kind.isCell = true ∧ (mk (.cell header) nodes).Everywhere Shaped :=
  ⟨rfl, shaped_of_line h h.inline⟩

theorem shaped_cellNode (cell : Text) :
    (cellNode page cell).kind.isCell = true ∧ (cellNode page cell).Everywhere Shaped := by
  unfold cellNode
  simp only
  split
  · exact shaped_cell true (Inline.line_nodesFrom page none _)
  · exact shaped_cell false (Inline.line_nodesFrom page none _)

theorem shaped_rowNode (line : Text) : (rowNode page line).Everywhere Shaped := by
  have hcells : ∀ node ∈ (splitCells (Text.trim line)).map (cellNode page),
      node.kind.isCell = true ∧ node.Everywhere Shaped := by
    simpa using fun cell _ => shaped_cellNode cell
  exact shaped_of_no_text (fun node hnode => (hcells node hnode).2)
    (fun node hnode => Kind.not_isText_of_isCell (hcells node hnode).1)
    fun node hnode => (hcells node hnode).1

theorem stands_table (line : Text) (rows : List Text) :
    Stands depth (.mk .table ((line :: rows).map (rowNode page))) := by
  have hrows : ∀ node ∈ (line :: rows).map (rowNode page),
      node.kind = .row ∧ node.Everywhere Shaped := by
    intro node hnode
    obtain ⟨row, -, rfl⟩ := List.mem_map.mp hnode
    exact ⟨rfl, shaped_rowNode row⟩
  have hshaped : (mk .table ((line :: rows).map (rowNode page))).Everywhere Shaped := by
    refine shaped_of_no_text (fun node hnode => (hrows node hnode).2) (fun node hnode => ?_)
      ⟨List.cons_ne_nil _ _, fun node hnode => (hrows node hnode).1⟩
    rw [(hrows node hnode).1]
    rfl
  exact stands_of_rank rfl hshaped rfl

/-! ### Lists -/

theorem depth_of_item {line : Text} {item : Item} (h : Item.of? line = some item) :
    0 < item.depth ∧ item.depth ≤ maxNesting := by
  obtain ⟨⟨indent, marks, text⟩, hsplit, rfl⟩ := Option.map_eq_some_iff.mp h
  have hmarks : marks ≠ [] := by
    simp only [splitItem?] at hsplit
    split at hsplit
    · cases hsplit
    · next hempty =>
      simp only [Option.some.injEq, Prod.mk.injEq] at hsplit
      rw [← hsplit.2.1]
      simpa only [List.isEmpty_iff] using hempty
  have hlength := List.length_pos_iff.mpr hmarks
  have hmax : maxNesting = 32 := rfl
  simp only
  omega

theorem depth_of_mem_items (quotable : Bool) (ls : List Text) :
    ∀ item ∈ (items quotable ls).1, 0 < item.depth ∧ item.depth ≤ maxNesting := by
  fun_induction items quotable ls with
  | case1 => simp
  | case2 => simp
  | case3 line rest item hitem following more behind hitems ih =>
      rw [hitems] at ih
      have hdepth := depth_of_item hitem
      exact List.forall_mem_cons.mpr ⟨hdepth, ih⟩

theorem shaped_itemNode {nested : List Node} (item : Item)
    (h : ∀ node ∈ nested, node.kind.isList = true ∧ node.Everywhere Shaped) :
    (itemNode page item nested).Everywhere Shaped := by
  have hline := Inline.line_nodesFrom page none (Text.trim item.text)
  refine .mk ⟨⟨_, nested, rfl, hline.inline, fun node hnode => (h node hnode).1⟩, ?_⟩
    (List.forall_mem_append.mpr ⟨hline.shaped, fun node hnode => (h node hnode).2⟩)
  have htext : ∀ node ∈ nested, node.kind.isText = false := fun node hnode =>
    Kind.not_isText_of_isBlock (Kind.isBlock_of_isList (h node hnode).1)
  refine List.isChain_append.mpr ⟨hline.apart, isChain_apart htext, fun _ _ next hnext _ => ?_⟩
  exact htext next (List.mem_of_mem_head? hnext)

theorem shaped_listNodes (is : List Item) :
    ∀ node ∈ listNodes page is, node.kind.isList = true ∧ node.Everywhere Shaped := by
  refine @listNodes_induction page
    (fun _ nodes => ∀ node ∈ nodes, node.kind.isList = true ∧ node.Everywhere Shaped)
    (fun _ _ nodes =>
      nodes ≠ [] ∧ ∀ node ∈ nodes, node.kind = .listItem ∧ node.Everywhere Shaped)
    ?_ ?_ ?_ ?_ is
  · simp
  · intro first same behind below nodes ⟨hne, hmembers⟩ hbehind
    refine List.forall_mem_cons.mpr ⟨⟨rfl, ?_⟩, hbehind⟩
    refine shaped_of_no_text (fun node hnode => (hmembers node hnode).2) ?_
      ⟨hne, fun node hnode => (hmembers node hnode).1⟩
    intro node hnode
    rw [(hmembers node hnode).1]
    rfl
  · intro item deeper nested _ hnested
    exact ⟨List.cons_ne_nil _ _,
      List.forall_mem_singleton.mpr ⟨rfl, shaped_itemNode item hnested⟩⟩
  · intro item deeper next more nested nodes _ hnested hnext
    exact ⟨List.cons_ne_nil _ _,
      List.forall_mem_cons.mpr ⟨⟨rfl, shaped_itemNode item hnested⟩, hnext.2⟩⟩

theorem nested_itemNode {nested : List Node} {n : Nat} (item : Item)
    (h : ∀ node ∈ nested, Nested Kind.isList n node) :
    Nested Kind.isList n (itemNode page item nested) := by
  have hline := Inline.line_nodesFrom page none (Text.trim item.text)
  refine nested_mk rfl (List.forall_mem_append.mpr ⟨fun node hnode => ?_, h⟩)
  have hrank := Kind.rank_of_isInline (hline.inline node hnode)
  exact (nested_isList (hline.shaped node hnode) hrank).mono (Nat.zero_le n)

/-- Where the items are deeper than `d`, there is room for as many lists below each
other as depths are left. -/
theorem nested_listNodes (is : List Item) :
    ∀ d, (∀ item ∈ is, d < item.depth ∧ item.depth ≤ maxNesting) →
      ∀ node ∈ listNodes page is, Nested Kind.isList (maxNesting - d) node := by
  refine @listNodes_induction page
    (fun is nodes => ∀ d, (∀ item ∈ is, d < item.depth ∧ item.depth ≤ maxNesting) →
      ∀ node ∈ nodes, Nested Kind.isList (maxNesting - d) node)
    (fun first rest nodes => ∀ d,
      (∀ item ∈ first :: rest, d ≤ item.depth ∧ item.depth ≤ maxNesting) →
      ∀ node ∈ nodes, Nested Kind.isList (maxNesting - d) node)
    ?_ ?_ ?_ ?_ is
  · simp
  · intro first same behind below nodes hmembers hbehind d hdepths
    rw [← List.cons_append, List.forall_mem_append] at hdepths
    have hfirst := hdepths.1 first List.mem_cons_self
    -- the list takes up one level, which its items leave to it by being deeper than `d`
    have hroom : maxNesting - d = maxNesting - (d + 1) + 1 := by omega
    refine List.forall_mem_cons.mpr ⟨?_, hbehind d hdepths.2⟩
    rw [hroom]
    exact nested_mk_succ (hmembers (d + 1) hdepths.1)
  · intro item deeper nested hdeeper hnested d hdepths
    rw [List.forall_mem_cons] at hdepths
    refine List.forall_mem_singleton.mpr (nested_itemNode item (hnested d ?_))
    intro below hbelow
    exact ⟨Nat.lt_of_le_of_lt hdepths.1.1 (hdeeper below hbelow), (hdepths.2 below hbelow).2⟩
  · intro item deeper next more nested nodes hdeeper hnested hnext d hdepths
    rw [List.forall_mem_cons, List.forall_mem_append] at hdepths
    obtain ⟨hitem, hbelow, hbehind⟩ := hdepths
    refine List.forall_mem_cons.mpr ⟨nested_itemNode item (hnested d ?_), hnext d hbehind⟩
    intro below hmem
    exact ⟨Nat.lt_of_le_of_lt hitem.1 (hdeeper below hmem), (hbelow below hmem).2⟩

theorem stands_listNodes (quotable : Bool) (ls : List Text) :
    ∀ node ∈ listNodes page (items quotable ls).1, Stands depth node := by
  intro node hnode
  obtain ⟨hlist, hshaped⟩ := shaped_listNodes _ node hnode
  have hrank := Kind.rank_of_isList hlist
  refine ⟨Kind.isBlock_of_isList hlist, hshaped, ?_, ?_⟩
  · exact (nested_isQuote hshaped (Nat.le_of_eq hrank)).mono (Nat.zero_le depth)
  · exact nested_listNodes _ 0 (depth_of_mem_items quotable ls) node hnode

/-! ### Blocks -/

/-- Nodes that can stand on a page are well shaped below a page or a quote. -/
theorem shaped_of_stands {kind : Kind} {nodes : List Node}
    (hkind : kind = .page ∨ kind = .blockquote) (h : ∀ node ∈ nodes, Stands depth node) :
    (mk kind nodes).Everywhere Shaped := by
  have hblock : ∀ node ∈ nodes, node.kind.isBlock = true := fun node hnode => (h node hnode).block
  refine shaped_of_no_text (fun node hnode => (h node hnode).shaped)
    (fun node hnode => Kind.not_isText_of_isBlock (hblock node hnode)) ?_
  rcases hkind with rfl | rfl
  · exact hblock
  · exact hblock

theorem stands_fenceNode (fence : Fence) (inside : List Text) :
    Stands depth (fence.node inside) := by
  cases fence <;> exact stands_leaf rfl rfl rfl

theorem stands_heading (level : Nat) (title : Text) :
    Stands depth (Node.heading level (Inline.parse page title)) := by
  have hline := Inline.line_nodesFrom page none title
  have hlevel : (Kind.heading (max 1 (min level 6))).isBlock = true := by
    rw [Kind.isBlock, Bool.and_eq_true, decide_eq_true_eq, decide_eq_true_eq]
    omega
  exact stands_of_rank hlevel (shaped_of_line hline hline.inline) rfl

theorem stands_quote {nodes : List Node} (h : ∀ node ∈ nodes, Stands depth node) :
    Stands (depth + 1) (.mk .blockquote nodes) where
  block := rfl
  shaped := shaped_of_stands (Or.inr rfl) h
  quotes := nested_mk_succ fun node hnode => (h node hnode).quotes
  lists := nested_mk rfl fun node hnode => (h node hnode).lists

theorem stands_of_takes {quoted : Option (Text → List Node)} {line : Text}
    {rest behind : List Text} {nodes : List Node}
    (hquoted : ∀ read, quoted = some read →
      ∃ below, depth = below + 1 ∧ ∀ s, ∀ node ∈ read s, Stands below node)
    (h : Takes page quoted line rest nodes behind) : ∀ node ∈ nodes, Stands depth node := by
  cases h with
  | fence fence => exact List.forall_mem_singleton.mpr (stands_fenceNode fence _)
  | heading => exact List.forall_mem_singleton.mpr (stands_heading _ _)
  | rule => exact List.forall_mem_singleton.mpr (stands_leaf rfl rfl rfl)
  | table => exact List.forall_mem_singleton.mpr (stands_table line _)
  | quote hread =>
      obtain ⟨below, rfl, hbelow⟩ := hquoted _ hread
      exact List.forall_mem_singleton.mpr (stands_quote (hbelow _))
  | lists => exact stands_listNodes _ _

/-! ### Pages -/

theorem stands_blocksFrom {quoted : Option (Text → List Node)}
    (hquoted : ∀ read, quoted = some read →
      ∃ below, depth = below + 1 ∧ ∀ s, ∀ node ∈ read s, Stands below node)
    (pending ls : List Text) (hpending : ∀ line ∈ pending, Text.blank line = false) :
    ∀ node ∈ blocksFrom page quoted pending ls, Stands depth node := by
  fun_induction blocksFrom page quoted pending ls with
  | case1 pending => exact stands_flush hpending
  | case2 pending line rest _ ih =>
      exact List.forall_mem_append.mpr ⟨stands_flush hpending, ih (by simp)⟩
  | case3 pending line rest _ nodes behind hblock ih =>
      have hnodes := stands_of_takes hquoted (takes_of_blockAt? hblock)
      rw [List.append_assoc]
      exact List.forall_mem_append.mpr ⟨stands_flush hpending,
        List.forall_mem_append.mpr ⟨hnodes, ih (by simp)⟩⟩
  | case4 pending line rest hline _ ih =>
      exact ih (List.forall_mem_cons.mpr ⟨by simpa using hline, hpending⟩)

theorem stands_parseTo (page : PageRef) (depth : Nat) (s : Text) :
    ∀ node ∈ parseTo page depth s, Stands depth node := by
  induction depth generalizing s with
  | zero => exact stands_blocksFrom (by simp) [] _ (by simp)
  | succ depth ih =>
      refine stands_blocksFrom ?_ [] _ (by simp)
      intro read hread
      obtain rfl : parseTo page depth = read := by simpa using hread
      exact ⟨depth, rfl, ih⟩

end Creole.Block

namespace Creole.Node

/-- The tree of every page is well shaped. -/
theorem wellShaped_ofMarkup (page : PageRef) (s : Text) : WellShaped (ofMarkup page s) := by
  have hblocks := Block.stands_parseTo page Block.maxNesting s
  refine ⟨rfl, ?_, ?_, ?_⟩
  · exact Block.shaped_of_stands (Or.inl rfl) hblocks
  · exact nested_mk rfl fun node hnode => (hblocks node hnode).quotes
  · exact nested_mk rfl fun node hnode => (hblocks node hnode).lists

end Creole.Node
