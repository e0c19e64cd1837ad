import Creole.Node.Basic
import Mathlib.Data.List.Basic

/-!
# Views of a tree

What a document holds is read off the list of its kinds, in document order
(`Node.kinds`): a property of a whole tree says which kinds occur in it, or what
holds of every node in it (`Node.Everywhere`).  What a reader sees of it is
`Node.visibleText`, the text of everything that is shown, in document order; where
nothing is hidden, it is the plain text (`visibleText_eq_plainText`).
-/

namespace Creole

/-- Whether a kind is shown as its children, with markup around them. -/
def Kind.showsChildren : Kind → Bool
  | page | paragraph | heading _ | blockquote | emphasis _ => true
  | list _ | listItem | table | row | cell _ => true
  | _ => false

namespace Node

/-- The kind of the node and those of all nodes below it, in document order. -/
def kinds : Node → List Kind := fold fun kind below => kind :: below.flatten

@[simp] theorem kinds_mk (kind : Kind) (children : List Node) :
    (mk kind children).kinds = kind :: children.flatMap kinds := by
  simp [kinds, List.flatMap]

@[simp] theorem kinds_leaf (kind : Kind) : (leaf kind).kinds = [kind] := by
  simp [leaf]

theorem kind_mem_kinds (node : Node) : node.kind ∈ node.kinds := by
  cases node
  simp

theorem mem_kinds_of_mem_children {kind : Kind} {node child : Node}
    (hchild : child ∈ node.children) (h : kind ∈ child.kinds) : kind ∈ node.kinds := by
  cases node
  rw [kinds_mk]
  exact List.mem_cons_of_mem _ (List.mem_flatMap.mpr ⟨child, hchild, h⟩)

/-- What holds of a node and of all nodes below it. -/
inductive Everywhere (P : Node → Prop) : Node → Prop
  | mk {kind : Kind} {children : List Node} :
      P (.mk kind children) → (∀ child ∈ children, Everywhere P child) →
      Everywhere P (.mk kind children)

@[simp] theorem everywhere_mk {P : Node → Prop} {kind : Kind} {children : List Node} :
    Everywhere P (.mk kind children) ↔
      P (.mk kind children) ∧ ∀ child ∈ children, Everywhere P child :=
  ⟨fun | .mk hself hbelow => ⟨hself, hbelow⟩, fun h => .mk h.1 h.2⟩

/-- The text that is shown of a document, in document order.  Texts, code and links show
their own text only, and rules, line breaks, anchors and directives none; an image shows
the text that is given for it.  Of a macro use its name is shown in double angle brackets,
with its arguments behind a colon if it has any. -/
def visibleText (imageText : Link → Text) : Node → Text :=
  fold fun kind below =>
    match kind with
    | .text content _ | .code content _ | .inlineCode content _ => content
    | .nowiki content | .inlineNowiki content => content
    | .link link => link.title
    | .image link => imageText link
    | .invocation call =>
      "<<".toList ++ call.name ++ (if call.args = [] then [] else ":".toList ++ call.args) ++
        ">>".toList
    | .rule | .linebreak | .anchor _ | .directive _ => []
    | _ => below.flatten

theorem visibleText_mk (imageText : Link → Text) (kind : Kind) (children : List Node) :
    (mk kind children).visibleText imageText =
      match kind with
      | .text content _ | .code content _ | .inlineCode content _ => content
      | .nowiki content | .inlineNowiki content => content
      | .link link => link.title
      | .image link => imageText link
      | .invocation call =>
        "<<".toList ++ call.name ++ (if call.args = [] then [] else ":".toList ++ call.args) ++
          ">>".toList
      | .rule | .linebreak | .anchor _ | .directive _ => []
      | _ => children.flatMap (visibleText imageText) := by
  rw [visibleText, fold_mk, List.flatMap]

/-- The markup of a macro use is what is shown of it. -/
theorem visibleText_invocation (imageText : Link → Text) (call : Invocation)
    (children : List Node) :
    (mk (.invocation call) children).visibleText imageText = call.source := by
  obtain ⟨name, args, block⟩ := call
  rw [visibleText_mk, Invocation.source]
  cases args with
  | nil => rfl
  | cons c cs => rfl

theorem visibleText_of_showsChildren {kind : Kind} (h : kind.showsChildren = true)
    (imageText : Link → Text) (children : List Node) :
    (mk kind children).visibleText imageText = children.flatMap (visibleText imageText) := by
  cases kind <;> simp_all [Kind.showsChildren, visibleText_mk]

/-- A node hides nothing if its children are shown or it has none. -/
def HidesNothing (node : Node) : Prop := node.kind.showsChildren = true ∨ node.children = []

/-- Where nothing is hidden, and no link, image or macro use shows a text of its own,
what is shown is the plain text. -/
theorem visibleText_eq_plainText {root : Node} (imageText : Link → Text)
    (hlinks : ∀ link, Kind.link link ∉ root.kinds ∧ Kind.image link ∉ root.kinds)
    (hcalls : ∀ call, Kind.invocation call ∉ root.kinds)
    (h : root.Everywhere HidesNothing) : root.visibleText imageText = root.plainText := by
  induction h with
  | @mk kind children hself _ ih =>
      have hbelow : children.flatMap (visibleText imageText) = children.flatMap plainText := by
        refine List.flatMap_congr fun child hchild => ?_
        have hkinds : ∀ k ∈ child.kinds, k ∈ (mk kind children).kinds :=
          fun _ => mem_kinds_of_mem_children hchild
        exact ih child hchild (fun link => ⟨fun hmem => (hlinks link).1 (hkinds _ hmem),
          fun hmem => (hlinks link).2 (hkinds _ hmem)⟩) fun call hmem => hcalls call (hkinds _ hmem)
      rw [plainText_mk]
      rcases hself with hshows | hnone
      · have hcontent : kind.content? = none := by
          cases kind <;> simp_all [Kind.showsChildren, Kind.content?]
        rw [@visibleText_of_showsChildren kind hshows, hbelow, hcontent]
        rfl
      · obtain rfl : children = [] := hnone
        have hkind : kind ∈ (mk kind []).kinds := kind_mem_kinds _
        rw [visibleText_mk]
        cases kind with
        | link link => exact absurd hkind (hlinks link).1
        | image link => exact absurd hkind (hlinks link).2
        | invocation call => exact absurd hkind (hcalls call)
        | _ => simp [Kind.content?]

end Node

end Creole
