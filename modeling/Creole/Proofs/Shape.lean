import Creole.Block.Parse
import Creole.Proofs.Node.Path

/-!
# Well-shaped trees

What may stand below what in the tree of a page.  `Kind.Holds` says which nodes a node
of a kind may have as its children, and `Node.Shaped` that a node has such children,
no two of them texts in a row.  A tree is well shaped (`Node.WellShaped`) if this holds
everywhere in it and neither quotes nor lists nest too deep.

Quotes and lists stand in few places only, which the rank of a kind tells
(`Kind.rank`): there is no quote below anything but a page or a quote
(`nested_isQuote`), and no list below anything but these, a list or an item of a list
(`nested_isList`).
-/

namespace Creole

namespace Kind

def isText : Kind → Bool
  | text _ _ => true
  | _ => false

def isQuote : Kind → Bool
  | blockquote => true
  | _ => false

def isList : Kind → Bool
  | list _ => true
  | _ => false

def isCell : Kind → Bool
  | cell _ => true
  | _ => false

/-- Whether nodes of the kind stand in a line of text. -/
def isInline : Kind → Bool
  | text _ _ | emphasis _ | inlineCode _ _ | inlineNowiki _ | linebreak => true
  | anchor _ | link _ | image _ | directive _ => true
  | invocation call => !call.block
  | _ => false

/-- Whether nodes of the kind stand by themselves on a page or in a quote. -/
def isBlock : Kind → Bool
  | heading level => 1 ≤ level && level ≤ 6
  | paragraph | blockquote | list _ | table | code _ _ | nowiki _ | rule => true
  | directive _ => true
  | invocation call => call.block
  | _ => false

theorem isBlock_of_isList {kind : Kind} (h : kind.isList = true) : kind.isBlock = true := by
  cases kind <;> simp_all [isList, isBlock]

theorem not_isText_of_isBlock {kind : Kind} (h : kind.isBlock = true) : kind.isText = false := by
  cases kind <;> simp_all [isBlock, isText]

theorem not_isText_of_isCell {kind : Kind} (h : kind.isCell = true) : kind.isText = false := by
  cases kind <;> simp_all [isCell, isText]

end Kind

/-- The nodes that are more than white space. -/
def significant (nodes : List Node) : List Node := nodes.filter (!Block.isBlankText ·)

/-- The nodes of a paragraph.  A single macro use would be a block of its own, and so
would directives among themselves. -/
structure Prose (nodes : List Node) : Prop where
  ne_nil : nodes ≠ []
  inline : ∀ node ∈ nodes, node.kind.isInline = true
  not_call : ∀ call, (significant nodes).map Node.kind ≠ [.invocation call]
  not_directives : ∃ node ∈ significant nodes, Block.isDirective node = false

/-- Whether nodes may be the children of a node of a kind. -/
def Kind.Holds (children : List Node) : Kind → Prop
  | page | blockquote => ∀ child ∈ children, child.kind.isBlock = true
  | paragraph => Prose children
  | heading _ | cell _ => ∀ child ∈ children, child.kind.isInline = true
  | emphasis _ => children ≠ [] ∧ ∀ child ∈ children, child.kind.isInline = true
  | list _ => children ≠ [] ∧ ∀ child ∈ children, child.kind = .listItem
  | listItem => ∃ line lists, children = line ++ lists ∧
      (∀ child ∈ line, child.kind.isInline = true) ∧ ∀ child ∈ lists, child.kind.isList = true
  | table => children ≠ [] ∧ ∀ child ∈ children, child.kind = .row
  | row => ∀ child ∈ children, child.kind.isCell = true
  | text content escaped => escaped = true ∧ content ≠ [] ∧ children = []
  | _ => children = []

namespace Node

/-- Nodes that may follow one another: two texts would be one. -/
def Apart (a b : Node) : Prop := a.kind.isText = true → b.kind.isText = false

/-- A node with children that it may have, no two of them texts in a row. -/
structure Shaped (node : Node) : Prop where
  holds : node.kind.Holds node.children
  apart : node.children.IsChain Apart

/-- A page whose nodes are all well shaped, and in which at most 32 quotes and at most
32 lists stand one inside the other. -/
structure WellShaped (root : Node) : Prop where
  page : root.kind = .page
  shaped : root.Everywhere Shaped
  quotes : ∀ path ∈ root.paths, path.countP Kind.isQuote ≤ 32
  lists : ∀ path ∈ root.paths, path.countP Kind.isList ≤ 32

/-! ### Building well-shaped nodes -/

/-- Where no node is a text, none is one in a row of texts. -/
theorem isChain_apart {nodes : List Node} (h : ∀ node ∈ nodes, node.kind.isText = false) :
    nodes.IsChain Apart := by
  have hpairs : nodes.Pairwise Apart :=
    List.pairwise_of_forall_mem_list fun _ _ b hb _ => h b hb
  exact hpairs.isChain

theorem shaped_leaf {kind : Kind} (h : kind.Holds []) : (leaf kind).Everywhere Shaped :=
  .mk ⟨h, .nil⟩ (by simp)

end Node

/-! ### Where quotes and lists stand -/

namespace Kind

/-- How much a kind of node has room for: quotes and lists, lists alone, or neither. -/
def rank : Kind → Nat
  | page | blockquote => 2
  | list _ | listItem => 1
  | _ => 0

theorem rank_le_two (kind : Kind) : kind.rank ≤ 2 := by
  cases kind <;> simp [rank]

theorem rank_of_isInline {kind : Kind} (h : kind.isInline = true) : kind.rank = 0 := by
  cases kind <;> simp_all [isInline, rank]

theorem rank_of_isCell {kind : Kind} (h : kind.isCell = true) : kind.rank = 0 := by
  cases kind <;> simp_all [isCell, rank]

theorem rank_of_isList {kind : Kind} (h : kind.isList = true) : kind.rank = 1 := by
  cases kind <;> simp_all [isList, rank]

/-- Children have no more room than their parent. -/
theorem rank_le_of_holds {kind : Kind} {children : List Node} (h : kind.Holds children) :
    ∀ child ∈ children, child.kind.rank ≤ kind.rank := by
  intro child hchild
  cases kind with
  | page | blockquote => exact rank_le_two _
  | paragraph => exact Nat.le_of_eq (rank_of_isInline (h.inline child hchild))
  | heading | cell => exact Nat.le_of_eq (rank_of_isInline (h child hchild))
  | emphasis => exact Nat.le_of_eq (rank_of_isInline (h.2 child hchild))
  | list | table =>
      rw [h.2 child hchild]
      exact Nat.le_refl _
  | row => exact Nat.le_of_eq (rank_of_isCell (h child hchild))
  | listItem =>
      obtain ⟨line, lists, rfl, hline, hlists⟩ := h
      rcases List.mem_append.mp hchild with hmem | hmem
      · exact rank_of_isInline (hline child hmem) ▸ Nat.zero_le 1
      · exact Nat.le_of_eq (rank_of_isList (hlists child hmem))
  | text =>
      obtain ⟨-, -, rfl⟩ := h
      exact absurd hchild List.not_mem_nil
  | _ =>
      obtain rfl : children = [] := h
      exact absurd hchild List.not_mem_nil

end Kind

namespace Node

theorem Everywhere.rank_le {node : Node} (h : node.Everywhere Shaped) :
    ∀ kind ∈ node.kinds, kind.rank ≤ node.kind.rank := by
  induction h with
  | @mk kind children hshaped _ ih =>
      rw [kinds_mk, List.forall_mem_cons]
      refine ⟨Nat.le_refl _, fun below hbelow => ?_⟩
      obtain ⟨child, hchild, hmem⟩ := List.mem_flatMap.mp hbelow
      exact Nat.le_trans (ih child hchild below hmem)
        (Kind.rank_le_of_holds hshaped.holds child hchild)

/-- Below anything but a page or a quote there is no quote. -/
theorem nested_isQuote {node : Node} (h : node.Everywhere Shaped) (hrank : node.kind.rank ≤ 1) :
    Nested Kind.isQuote 0 node := by
  refine nested_of_kinds fun kind hkind => ?_
  have hle := Nat.le_trans (h.rank_le kind hkind) hrank
  cases kind with
  | blockquote => exact absurd hle (by decide)
  | _ => rfl

/-- There is no list below anything that has no room for lists. -/
theorem nested_isList {node : Node} (h : node.Everywhere Shaped) (hrank : node.kind.rank = 0) :
    Nested Kind.isList 0 node := by
  refine nested_of_kinds fun kind hkind => ?_
  have hle := hrank ▸ h.rank_le kind hkind
  cases kind with
  | list => exact absurd hle (by simp [Kind.rank])
  | _ => rfl

end Node

end Creole
