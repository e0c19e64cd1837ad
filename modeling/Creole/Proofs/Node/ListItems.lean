import Creole.Node.Basic
import Creole.Proofs.Node.View
import Mathlib.Data.List.Infix

/-!
# The list items of a document

A place in a document is the way down to it from the root, as the indices of children.
`Node.listItems` finds the items of all lists, in document order, and says of each where its
list stands, which of the list's items it is, and what is in it.  One item lies around
another if it stands on the way down to the other's list (`ListItem.Encloses`).
-/

namespace Creole

/-! ### Places -/

theorem eq_of_isPrefix {place l : List Nat} {i k : Nat} (hi : place ++ [i] <+: l)
    (hk : place ++ [k] <+: l) : i = k := by
  have hlength : (place ++ [i]).length = (place ++ [k]).length := by simp
  have hsame := List.prefix_of_prefix_length_le hi hk (Nat.le_of_eq hlength)
  simpa using hsame.eq_of_length hlength

theorem length_lt_of_isPrefix {place l : List Nat} {k : Nat} (h : place ++ [k] <+: l) :
    place.length < l.length := by
  have hle := h.length_le
  rwa [List.length_append] at hle

/-- An item of a list where it stands in a document. -/
structure ListItem where
  /-- The place of what it is an item of. -/
  list : List Nat
  /-- Its index there. -/
  index : Nat
  /-- The kind of what it is an item of. -/
  parent : Kind
  children : List Node

namespace ListItem

/-- The place of the item. -/
def place (item : ListItem) : List Nat := item.list ++ [item.index]

/-- Whether an item lies around another. -/
def Encloses (outer inner : ListItem) : Prop := outer.place <+: inner.list

variable {a b : ListItem} {place : List Nat} {i k : Nat}

theorem list_isPrefix_place (a : ListItem) : a.list <+: a.place := List.prefix_append _ _

theorem isPrefix_list (h : place ++ [k] <+: a.place) : place <+: a.list := by
  refine List.prefix_of_prefix_length_le ((List.prefix_append _ _).trans h) a.list_isPrefix_place ?_
  have hlength := h.length_le
  rw [ListItem.place, List.length_append, List.length_append] at hlength
  simpa using hlength

theorem Encloses.length_lt (h : a.Encloses b) : a.list.length < b.list.length :=
  length_lt_of_isPrefix h

/-- Two items that stand in different lists, neither of them around the other. -/
structure Apart (a b : ListItem) : Prop where
  not_encloses : ¬ a.Encloses b
  not_enclosed : ¬ b.Encloses a
  list_ne : a.list ≠ b.list

/-- What stands below one child is apart from what stands below another. -/
theorem apart_of_isPrefix (ha : place ++ [i] <+: a.list) (hb : place ++ [k] <+: b.place)
    (hne : i ≠ k) : Apart a b where
  not_encloses h :=
    hne (eq_of_isPrefix (((ha.trans a.list_isPrefix_place).trans h).trans b.list_isPrefix_place) hb)
  not_enclosed h := hne (eq_of_isPrefix ha (hb.trans h))
  list_ne h := hne (eq_of_isPrefix ((h ▸ ha).trans b.list_isPrefix_place) hb)

end ListItem

namespace Node

/-! ### Finding list items -/

mutual

/-- The items of lists below a node at a place, in document order. -/
def listItems (place : List Nat) : Node → List ListItem
  | mk kind children => listItemsAmong kind place 0 children

/-- The items of lists among children and below them, the first of which has the given
index. -/
def listItemsAmong (parent : Kind) (place : List Nat) : (index : Nat) → List Node → List ListItem
  | _, [] => []
  | index, mk kind children :: nodes =>
    (if kind = .listItem then [⟨place, index, parent, children⟩] else []) ++
      listItems (place ++ [index]) (mk kind children) ++
      listItemsAmong parent place (index + 1) nodes

end

variable {parent : Kind} {place : List Nat} {index : Nat}

@[simp] theorem listItemsAmong_nil : listItemsAmong parent place index [] = [] := by
  rw [listItemsAmong]

theorem listItemsAmong_cons (kind : Kind) (children nodes : List Node) :
    listItemsAmong parent place index (mk kind children :: nodes) =
      (if kind = .listItem then [⟨place, index, parent, children⟩] else []) ++
        listItemsAmong kind (place ++ [index]) 0 children ++
        listItemsAmong parent place (index + 1) nodes := by
  rw [listItemsAmong, listItems]

theorem listItemsAmong_append (nodes more : List Node) :
    listItemsAmong parent place index (nodes ++ more) =
      listItemsAmong parent place index nodes ++
        listItemsAmong parent place (index + nodes.length) more := by
  induction nodes generalizing index with
  | nil => simp
  | cons node nodes ih =>
      obtain ⟨kind, children⟩ := node
      have hindex : index + 1 + nodes.length = index + (mk kind children :: nodes).length := by
        rw [List.length_cons]
        omega
      rw [List.cons_append, listItemsAmong_cons, listItemsAmong_cons, ih, hindex]
      simp only [List.append_assoc]

theorem listItemsAmong_of_forall {nodes : List Node}
    (h : ∀ node ∈ nodes, node.kind ≠ .listItem ∧ ∀ place, node.listItems place = []) :
    listItemsAmong parent place index nodes = [] := by
  induction nodes generalizing index with
  | nil => simp
  | cons node nodes ih =>
      rw [List.forall_mem_cons] at h
      obtain ⟨⟨hkind, hbelow⟩, hbehind⟩ := h
      obtain ⟨kind, children⟩ := node
      rw [kind_mk] at hkind
      rw [listItemsAmong, if_neg hkind, hbelow, ih hbehind]
      rfl

theorem listItems_eq_nil {node : Node} (h : Kind.listItem ∉ node.kinds) (place : List Nat) :
    node.listItems place = [] := by
  induction node using Node.induction generalizing place with
  | mk kind children ih =>
      rw [listItems]
      apply listItemsAmong_of_forall
      intro child hchild
      have hkinds : Kind.listItem ∉ child.kinds := fun hmem =>
        h (mem_kinds_of_mem_children hchild hmem)
      exact ⟨fun hkind => hkinds (hkind ▸ kind_mem_kinds child), ih child hchild hkinds⟩

/-- Where no node is an item of a list, none is found. -/
theorem listItemsAmong_eq_nil {nodes : List Node}
    (h : ∀ node ∈ nodes, Kind.listItem ∉ node.kinds) :
    listItemsAmong parent place index nodes = [] := by
  apply listItemsAmong_of_forall
  intro node hnode
  exact ⟨fun hkind => h node hnode (hkind ▸ kind_mem_kinds node),
    listItems_eq_nil (h node hnode)⟩

end Node

end Creole
