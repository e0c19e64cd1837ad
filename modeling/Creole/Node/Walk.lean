import Creole.Node.Directives

/-!
# Walks through a document

Output is made from a document in one walk, in document order.  A `Visitor` says
how outputs are joined and what each kind of node makes of its children; by
default a node's output is that of its children.  The walk itself takes care of
directives: they change what is in force for everything behind them and put
nothing into the output.
-/

namespace Creole

/-- The output of a part of a document, and what is in force behind it, from what
is in force before it. -/
abbrev Walk (α : Type) := Directives → α × Directives

/-- A child as its parent sees it: what it is, and how it is walked. -/
structure Child (α : Type) where
  kind : Kind
  walk : Walk α

/-- How output is made. -/
structure Visitor (α : Type) where
  /-- The output of nothing. -/
  empty : α
  /-- Two outputs in document order as one. -/
  append : α → α → α
  /-- The output of a node of a kind, from its children, unless it is a directive. -/
  visit : Kind → List (Child α) → Walk α

namespace Walk

variable {α : Type}

/-- The outputs of children in document order, appended one after the other to
the output of nothing. -/
def inOrder (empty : α) (append : α → α → α) (children : List (Child α)) : Walk α :=
  fun state =>
    children.foldl
      (fun (out, state) child =>
        let (next, state) := child.walk state
        (append out next, state))
      (empty, state)

/-- An output that neither needs nor changes what is in force. -/
def pure (out : α) : Walk α := fun state => (out, state)

/-- The output of a walk, changed by a function. -/
def map {β : Type} (f : α → β) (walk : Walk α) : Walk β := fun state =>
  let (out, state) := walk state
  (f out, state)

end Walk

namespace Visitor

variable {α : Type}

/-- The outputs of children in document order. -/
def children (v : Visitor α) (nodes : List (Child α)) : Walk α :=
  Walk.inOrder v.empty v.append nodes

/-- The child that a node is to its parent. -/
def child (v : Visitor α) : Node → Child α :=
  Node.fold fun kind below =>
    { kind
      walk :=
        match kind with
        | .directive directive => fun state => (v.empty, state.apply directive)
        | _ => v.visit kind below }

/-- The walk through a node and everything below it. -/
def walk (v : Visitor α) (node : Node) : Walk α := (v.child node).walk

/-- The output of a document, with nothing in force at its start. -/
def run (v : Visitor α) (root : Node) : α := (v.walk root .initial).1

@[simp] theorem child_kind (v : Visitor α) (node : Node) : (v.child node).kind = node.kind := by
  cases node; simp [child]

theorem walk_directive (v : Visitor α) (directive : Directive) (children : List Node) :
    v.walk (.mk (.directive directive) children) = fun state =>
      (v.empty, state.apply directive) := by
  simp [walk, child]

theorem walk_mk (v : Visitor α) (kind : Kind) (children : List Node)
    (hkind : ∀ directive, kind ≠ .directive directive) :
    v.walk (.mk kind children) = v.visit kind (children.map v.child) := by
  cases kind <;> simp_all [walk, child]

end Visitor

end Creole
