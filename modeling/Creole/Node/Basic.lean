import Creole.Link.Handler
import Creole.Text.Blank

/-!
# The document tree

A document is a tree of nodes.  A `Node` is a `Kind` and its children in document
order; kinds that need no children may have them all the same, since trees are
also made by macros and by hosts.

A kind that differs from another by a choice alone takes the choice as its
argument: the three emphasis styles, ordered and unordered lists, header and data
cells.
-/

namespace Creole

/-- The inline styles. -/
inductive Style where
  | bold
  | italic
  | strikethrough
  deriving DecidableEq, Repr, Inhabited

/-- A link or an image: the target as it was written, what to show for it, the
pieces of the target, the page it stands on and the handler it is shown with. -/
structure Link where
  source : Text
  title : Text
  target : Target
  page : PageRef
  handler : HandlerName
  deriving DecidableEq, Repr, Inhabited

/-- The use of a macro, as a block of its own or within a line. -/
structure Invocation where
  name : Text
  args : Text := []
  block : Bool := false
  deriving DecidableEq, Repr, Inhabited

/-- The markup of an invocation. -/
def Invocation.source (call : Invocation) : Text :=
  "<<".toList ++ call.name ++ (if call.args.isEmpty then [] else ':' :: call.args) ++ ">>".toList

/-- Switches a named option on, with arguments, or off. -/
structure Directive where
  name : Text
  enabled : Bool := true
  args : List Text := []
  deriving DecidableEq, Repr, Inhabited

/-- The directive with the arguments that a text lists between commas, if it has any. -/
def Directive.ofArgs (name : Text) (enabled : Bool) (args : Option Text) : Directive where
  name
  enabled
  args :=
    match args with
    | some list => (list.splitOn ',').map Text.trim
    | none => []

/-- What a node is. -/
inductive Kind where
  | page
  | paragraph
  | heading (level : Nat)
  | blockquote
  | emphasis (style : Style)
  | list (ordered : Bool)
  | listItem
  | table
  | row
  | cell (header : Bool)
  /-- Text, to be escaped where it is written or to be written as it is. -/
  | text (content : Text) (escaped : Bool)
  | code (content : Text) (language : Option Text)
  | inlineCode (content : Text) (language : Option Text)
  | nowiki (content : Text)
  | inlineNowiki (content : Text)
  | rule
  | linebreak
  | anchor (id : Text)
  | link (link : Link)
  | image (link : Link)
  | invocation (call : Invocation)
  | directive (directive : Directive)
  deriving DecidableEq, Repr, Inhabited

namespace Kind

/-- The text that a kind carries itself. -/
def content? : Kind → Option Text
  | text content _ | code content _ | inlineCode content _ => some content
  | nowiki content | inlineNowiki content => some content
  | _ => none

/-- The kind with another text, if it carries one. -/
def withContent? (content : Text) : Kind → Option Kind
  | text _ escaped => some (text content escaped)
  | code _ language => some (code content language)
  | inlineCode _ language => some (inlineCode content language)
  | nowiki _ => some (nowiki content)
  | inlineNowiki _ => some (inlineNowiki content)
  | _ => none

/-- The level of a heading. -/
def headingLevel? : Kind → Option Nat
  | heading level => some level
  | _ => none

/-- Whether the kind is the use of a macro. -/
def isInvocation : Kind → Bool
  | invocation _ => true
  | _ => false

end Kind

/-- A node of the document tree. -/
inductive Node where
  | mk (kind : Kind) (children : List Node)
  deriving Repr, Inhabited

namespace Node

/-- What the node is. -/
def kind : Node → Kind
  | mk kind _ => kind

/-- The children of the node, in document order. -/
def children : Node → List Node
  | mk _ children => children

@[simp] theorem kind_mk (kind : Kind) (children : List Node) : (mk kind children).kind = kind := rfl

@[simp] theorem children_mk (kind : Kind) (children : List Node) :
    (mk kind children).children = children := rfl

/-! ## Recursion -/

section Fold

variable {α : Type}

mutual

/-- The value of a node from its kind and the values of its children. -/
def fold (f : Kind → List α → α) : Node → α
  | mk kind children => f kind (foldAll f children)

/-- The values of nodes in a row. -/
def foldAll (f : Kind → List α → α) : List Node → List α
  | [] => []
  | node :: nodes => fold f node :: foldAll f nodes

end

theorem foldAll_eq_map (f : Kind → List α → α) (nodes : List Node) :
    foldAll f nodes = nodes.map (fold f) := by
  induction nodes with
  | nil => rfl
  | cons node nodes ih => simp [foldAll, ih]

@[simp] theorem fold_mk (f : Kind → List α → α) (kind : Kind) (children : List Node) :
    fold f (mk kind children) = f kind (children.map (fold f)) := by
  rw [fold, foldAll_eq_map]

end Fold

/-- What holds of every node whose children it holds of holds of every node. -/
@[elab_as_elim]
theorem induction {motive : Node → Prop}
    (mk : ∀ kind children, (∀ child ∈ children, motive child) → motive (mk kind children))
    (node : Node) : motive node :=
  @Node.rec motive (fun nodes => ∀ child ∈ nodes, motive child) mk (by simp)
    (fun _ _ hhead htail => List.forall_mem_cons.2 ⟨hhead, htail⟩) node

/-! ## Equality -/

mutual

/-- Two nodes are equal if their kinds and their children are. -/
def decEq : (a b : Node) → Decidable (a = b)
  | mk k cs, mk k' cs' =>
    if hkind : k = k' then
      match decEqAll cs cs' with
      | isTrue h => isTrue (by rw [hkind, h])
      | isFalse h => isFalse (by simp [h])
    else isFalse (by simp [hkind])

/-- Equality of lists of nodes. -/
def decEqAll : (as bs : List Node) → Decidable (as = bs)
  | [], [] => isTrue rfl
  | [], _ :: _ => isFalse (by simp)
  | _ :: _, [] => isFalse (by simp)
  | a :: as, b :: bs =>
    match decEq a b with
    | isFalse h => isFalse (by simp [h])
    | isTrue hhead =>
      match decEqAll as bs with
      | isTrue htail => isTrue (by rw [hhead, htail])
      | isFalse h => isFalse (by simp [h])

end

instance : DecidableEq Node := decEq

/-! ## Construction -/

/-- A node without children. -/
def leaf (kind : Kind) : Node := mk kind []

/-- Text to be escaped where it is written. -/
def text (content : Text) : Node := leaf (.text content true)

/-- Text to be written as it is. -/
def raw (content : Text) : Node := leaf (.text content false)

/-- A heading, its level brought between 1 and 6. -/
def heading (level : Nat) (children : List Node) : Node :=
  mk (.heading (max 1 (min level 6))) children

/-- The node with other children. -/
def withChildren (node : Node) (children : List Node) : Node := mk node.kind children

/-- A node of the same kind with another text and no children, if the kind has a text. -/
def withContent? (node : Node) (content : Text) : Option Node :=
  (node.kind.withContent? content).map leaf

/-! ## Views -/

/-- Whether a macro is used at the node or below it. -/
def hasInvocation : Node → Bool := fold fun kind below => kind.isInvocation || below.any id

@[simp] theorem hasInvocation_mk (kind : Kind) (children : List Node) :
    (mk kind children).hasInvocation = (kind.isInvocation || children.any hasInvocation) := by
  rw [hasInvocation, fold_mk, List.any_map]
  rfl

/-- The texts of the node and of all nodes below it, in document order. -/
def plainText : Node → Text := fold fun kind below => kind.content?.getD [] ++ below.flatten

@[simp] theorem plainText_mk (kind : Kind) (children : List Node) :
    (mk kind children).plainText = kind.content?.getD [] ++ children.flatMap plainText := by
  simp [plainText, List.flatMap]

end Node

end Creole
